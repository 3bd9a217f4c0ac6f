import IndexChain.Models.Notary.Quiet
import IndexChain.Models.Notary.Signed

/-!
# Reorganisations

A block that is connected at a height that is not new makes `komodo_event_rewind` drop
the events from that height on. Dropping an event undoes nothing but the saved height:
what the event did to the key-value store, to the notarised block and to the checkpoints
stays. So the state after a reorganisation is the state of the final chain if the blocks
that were given up had done nothing (`reorg_eq_replay`).
-/

namespace IndexChain.Notary

/-! ## What the log does not hold -/

variable {W : Type}

/-- The state without the log, the state file and the heights. -/
def KomodoState.core (sp : KomodoState W) : KomodoState W :=
  { sp with savedHeight := 0, savedTimestamp := 0, currentHeight := 0, events := []
            stateFile := [] }

/-- The parts of the core that later updates read. -/
theorem KomodoState.eq_of_core_eq {sp sp' : KomodoState W} (h : sp.core = sp'.core) :
    sp.notarizedHeight = sp'.notarizedHeight ∧ sp.notarizedHash = sp'.notarizedHash ∧
      sp.notarizedDesttxid = sp'.notarizedDesttxid ∧ sp.MoM = sp'.MoM ∧
      sp.MoMdepth = sp'.MoMdepth ∧ sp.npoints = sp'.npoints ∧ sp.kv = sp'.kv := by
  unfold KomodoState.core at h
  injection h with h1 h2 h3 h4 h5 _ _ _ h9 _ _ h12
  exact ⟨h1, h2, h3, h4, h5, h9, h12⟩

theorem core_ite_congr {p : Prop} [Decidable p] {x x' y y' : KomodoState W}
    (hx : x.core = x'.core) (hy : y.core = y'.core) :
    (if p then x else y).core = (if p then x' else y').core := by
  split
  · exact hx
  · exact hy

namespace KomodoEnv

variable (env : KomodoEnv W)

@[simp] theorem core_eventadd (height : Int) (data : KomodoEventData) (sp : KomodoState W) :
    (env.eventadd height data sp).core = sp.core := by
  unfold eventadd
  split <;> rfl

@[simp] theorem core_eventRewind (height : Int) (sp : KomodoState W) :
    (eventRewind height sp).core = sp.core := rfl

@[simp] theorem core_eventaddKmdheight (height kmdheight : Int) (timestamp : Nat)
    (sp : KomodoState W) :
    (env.eventaddKmdheight height kmdheight timestamp sp).core = sp.core := by
  unfold eventaddKmdheight
  dsimp only
  split
  · rw [← env.core_eventadd height (.kmdheight kmdheight timestamp) sp]
    split <;> split <;> rfl
  · rw [core_eventRewind, core_eventadd]

theorem core_opreturn (height : Int) (value : Nat) (opretbuf : ScriptBuf) (opretlen : Nat)
    (txid : Uint256) (vout : Nat) (sp : KomodoState W) :
    (env.opreturn height value opretbuf opretlen txid vout sp).core =
      env.opreturn height value opretbuf opretlen txid vout sp.core := by
  unfold opreturn
  split <;> rfl

theorem core_notarizedUpdate (np : NotarizedCheckpoint) (sp : KomodoState W) :
    (notarizedUpdate np sp).core = notarizedUpdate np sp.core := by
  unfold notarizedUpdate
  split <;> rfl

theorem core_eventaddNotarized (np : NotarizedCheckpoint) (sp : KomodoState W) :
    (env.eventaddNotarized np sp).core =
      if env.verifynotarization np then notarizedUpdate np sp.core else sp.core := by
  unfold eventaddNotarized
  split
  · rw [core_notarizedUpdate, core_eventadd]
  · rfl

section Congr

variable {sp sp' : KomodoState W}

/-- An update of the core depends on the core. -/
theorem core_applyUpdate_congr (h : sp.core = sp'.core) (a : StateUpdate) :
    (env.applyUpdate a sp).core = (env.applyUpdate a sp').core := by
  have hworld (e e' : KomodoState W) (he : e.core = e'.core) (f : W → W) :
      ({ e with world := f e.world } : KomodoState W).core =
        ({ e' with world := f e'.world } : KomodoState W).core :=
    congrArg (fun c : KomodoState W => { c with world := f c.world }) he
  unfold applyUpdate
  split
  · exact h
  split
  · rw [core_eventaddKmdheight, core_eventaddKmdheight]
    exact h
  split
  · unfold eventaddOpreturn
    split
    · exact h
    · rw [core_opreturn, core_opreturn, core_eventadd, core_eventadd]
      exact congrArg _ h
  split
  · apply hworld
    rw [core_eventadd, core_eventadd]
    exact h
  split
  · exact h
  split
  · split
    · apply hworld
      rw [core_eventadd, core_eventadd]
      exact h
    · exact h
  · obtain ⟨hheight, hhash, hdest, hMoM, hdepth, -⟩ := KomodoState.eq_of_core_eq h
    rw [core_eventaddNotarized, core_eventaddNotarized, hheight, hhash, hdest, hMoM, hdepth]
    split
    · exact congrArg _ h
    · exact h

/-- What an update does to the core depends on the core. -/
theorem core_stateupdate_congr (h : sp.core = sp'.core) (a : StateUpdate) :
    (env.stateupdate a sp).core = (env.stateupdate a sp').core := by
  apply env.core_applyUpdate_congr
  exact h

/-- What a notarisation does to the core depends on the core alone. -/
theorem core_notarize_congr (h : sp.core = sp'.core) (a : VoutArgs) (buf : ScriptBuf)
    (opretlen opoffset : Nat) (notarizedheight : Int) :
    (env.notarize a buf opretlen opoffset notarizedheight sp).core =
      (env.notarize a buf opretlen opoffset notarizedheight sp').core := by
  have hheight := (KomodoState.eq_of_core_eq h).1
  unfold notarize
  extract_lets len r sp1 sp2 sp3 sp1' sp2' sp3'
  rw [hheight]
  split
  · have h1 : sp1.core = sp1'.core :=
      congrArg (fun c : KomodoState W => { c with
        notarizedHeight := notarizedheight
        notarizedHash := buf.uint256 opoffset
        notarizedDesttxid := buf.uint256 (opoffset + 36) }) h
    have h2 : sp2.core = sp2'.core := by
      unfold sp2 sp2'
      split
      · exact congrArg (fun c : KomodoState W => { c with MoM := r.1, MoMdepth := r.2.1 }) h1
      · exact h1
    have h3 : sp3.core = sp3'.core := env.core_stateupdate_congr h2 _
    split
    · exact env.core_stateupdate_congr h3 _
    · exact h3
  · exact h

theorem core_otherOpret_congr (h : sp.core = sp'.core) (a : VoutArgs) (buf : ScriptBuf)
    (opretlen opoffset : Nat) (t : TxScan) :
    (env.otherOpret a buf opretlen opoffset t sp).1 =
      (env.otherOpret a buf opretlen opoffset t sp').1 ∧
    (env.otherOpret a buf opretlen opoffset t sp).2.core =
      (env.otherOpret a buf opretlen opoffset t sp').2.core := by
  unfold otherOpret
  by_cases hprice : a.i = 0 ∧ a.j = 1 ∧ opretlen = 149
  · rw [if_pos hprice, if_pos hprice]
    exact ⟨rfl, core_ite_congr (env.core_stateupdate_congr h _) h⟩
  · rw [if_neg hprice, if_neg hprice]
    exact ⟨rfl, core_ite_congr (env.core_stateupdate_congr h _) h⟩

theorem core_notarisation_congr (h : sp.core = sp'.core) (a : VoutArgs) (buf : ScriptBuf)
    (opretlen opoffset : Nat) (t : TxScan) :
    (env.notarisation a buf opretlen opoffset t sp).1 =
      (env.notarisation a buf opretlen opoffset t sp').1 ∧
    (env.notarisation a buf opretlen opoffset t sp).2.core =
      (env.notarisation a buf opretlen opoffset t sp').2.core := by
  unfold notarisation
  dsimp only
  split
  · exact ⟨rfl, h⟩
  split
  · refine ⟨rfl, ?_⟩
    rw [env.core_notarize_congr h]
  · exact ⟨rfl, h⟩

/-- What an output does to the core depends on the core, and what is found out about the
transaction does not depend on the state. -/
theorem core_voutupdate_congr (h : sp.core = sp'.core) (a : VoutArgs) (buf : ScriptBuf)
    (t : TxScan) : (env.voutupdate a buf t sp).1 = (env.voutupdate a buf t sp').1 ∧
      (env.voutupdate a buf t sp).2.core = (env.voutupdate a buf t sp').2.core := by
  unfold voutupdate scanOpret
  dsimp only
  split
  · split
    · refine ⟨rfl, ?_⟩
      rw [env.core_stateupdate_congr h]
    split
    · exact env.core_notarisation_congr h _ _ _ _ _
    split
    · exact env.core_otherOpret_congr h _ _ _ _ _
    · exact ⟨rfl, h⟩
  · exact ⟨rfl, h⟩

end Congr

/-- The state of the loop without the log. -/
def LoopState.core (s : LoopState W) : LoopState W := { s with sp := s.sp.core }

theorem LoopState.core_eq {s s' : LoopState W} : s.core = s'.core ↔
    s.sp.core = s'.sp.core ∧ s.notaries = s'.notaries ∧ s.scriptbuf = s'.scriptbuf ∧
      s.notarisations = s'.notarisations := by
  constructor
  · intro h
    unfold LoopState.core at h
    injection h with h1 h2 h3 h4
    exact ⟨h1, h2, h3, h4⟩
  · rintro ⟨h1, h2, h3, h4⟩
    unfold LoopState.core
    rw [h1, h2, h3, h4]

section Loops

variable {s s' : LoopState W}

theorem core_voutStep_congr (h : s.core = s'.core) (b : BlockArgs) (i : Nat) (tx : CTransaction)
    (notarized : Bool) (mask : BitVec 64) (j : Nat) (out : CTxOut) (t : TxScan) :
    (env.voutStep b i tx notarized mask j out t s).1 =
      (env.voutStep b i tx notarized mask j out t s').1 ∧
    (env.voutStep b i tx notarized mask j out t s).2.core =
      (env.voutStep b i tx notarized mask j out t s').2.core := by
  obtain ⟨hsp, hnotaries, hbuf, hnotarisations⟩ := LoopState.core_eq.1 h
  unfold voutStep
  dsimp only
  rw [hbuf]
  obtain ⟨hscan, hcore⟩ := env.core_voutupdate_congr hsp (voutArgs b i tx notarized mask j out)
    (s'.scriptbuf.memcpy out.scriptPubKey) t
  rw [hscan]
  refine ⟨rfl, LoopState.core_eq.2 ⟨hcore, hnotaries, rfl, ?_⟩⟩
  dsimp only
  rw [hnotarisations]

theorem core_voutLoop_congr (h : s.core = s'.core) (b : BlockArgs) (i : Nat) (tx : CTransaction)
    (notarized : Bool) (mask : BitVec 64) (j : Nat) (outs : List CTxOut) (t : TxScan) :
    (env.voutLoop b i tx notarized mask j outs t s).1 =
      (env.voutLoop b i tx notarized mask j outs t s').1 ∧
    (env.voutLoop b i tx notarized mask j outs t s).2.core =
      (env.voutLoop b i tx notarized mask j outs t s').2.core := by
  induction outs generalizing j t s s' with
  | nil => exact ⟨rfl, h⟩
  | cons out rest ih =>
    rw [voutLoop_cons, voutLoop_cons]
    split
    · obtain ⟨hscan, hcore⟩ := env.core_voutStep_congr h b i tx notarized mask j out t
      rw [hscan]
      exact ih hcore (j + 1) _
    · exact ih h (j + 1) t

theorem core_ratify_congr (h : s.core = s'.core) (b : BlockArgs) (tx : CTransaction)
    (mask : BitVec 64) : (env.ratify b tx mask s).core = (env.ratify b tx mask s').core := by
  obtain ⟨hsp, hnotaries, hbuf, hnotarisations⟩ := LoopState.core_eq.1 h
  unfold ratify
  dsimp only
  rw [hnotaries, hbuf]
  split
  · exact LoopState.core_eq.2 ⟨env.core_stateupdate_congr hsp _, rfl, rfl, hnotarisations⟩
  · exact LoopState.core_eq.2 ⟨hsp, rfl, rfl, hnotarisations⟩

/-- So does a transaction. -/
theorem core_connectTx_congr (h : s.core = s'.core) (b : BlockArgs) (i : Nat)
    (tx : CTransaction) : (env.connectTx b i tx s).core = (env.connectTx b i tx s').core := by
  obtain ⟨hsp, hnotaries, hbuf, hnotarisations⟩ := LoopState.core_eq.1 h
  have hmask : env.maskOf b i tx s = env.maskOf b i tx s' := by
    unfold maskOf
    rw [hnotaries]
  have hnotarized : env.notarizedTx b i tx s = env.notarizedTx b i tx s' := by
    unfold notarizedTx
    rw [hmask, hnotaries]
  have hsim : (env.simulate b tx s).core = (env.simulate b tx s').core := by
    unfold simulate
    split
    · refine LoopState.core_eq.2 ⟨?_, hnotaries, hbuf, hnotarisations⟩
      exact congrArg (fun c : KomodoState W => { c with
        notarizedHeight := b.height, notarizedHash := b.blockHash
        notarizedDesttxid := tx.hash }) hsp
    · exact h
  have hscan : (env.scanTx b i tx s).1 = (env.scanTx b i tx s').1 ∧
      (env.scanTx b i tx s).2.core = (env.scanTx b i tx s').2.core := by
    unfold scanTx
    rw [hmask, hnotarized]
    exact env.core_voutLoop_congr hsim b i tx _ _ 0 tx.vout {}
  rw [connectTx_eq, connectTx_eq]
  unfold ratifiesTx
  rw [hscan.1, hnotarized, hmask]
  split
  · exact env.core_ratify_congr hscan.2 b tx _
  · exact hscan.2

theorem core_connectLoop_congr (h : s.core = s'.core) (b : BlockArgs) (i : Nat)
    (vtx : List CTransaction) :
    (env.connectLoop b i vtx s).core = (env.connectLoop b i vtx s').core := by
  induction vtx generalizing i s s' with
  | nil => exact h
  | cons tx rest ih =>
    unfold connectLoop
    split
    · exact h
    · exact ih (env.core_connectTx_congr h b i tx) (i + 1)

end Loops

/-! ## Blocks -/

@[simp] theorem core_stateupdate_kmdheight {a : StateUpdate} (h : a.kmdheight ≠ 0)
    (sp : KomodoState W) : (env.stateupdate a sp).core = sp.core := by
  unfold stateupdate applyUpdate
  split
  · rfl
  · rw [core_eventaddKmdheight]
    rfl

/-- The rewind of a reorganisation leaves the core as it is. -/
theorem core_startOf (c : Call) (st : ConnectState W) :
    (env.startOf c st).sp.core = st.sp.core := by
  have hreorg : (env.reorganise c st).core = st.sp.core := by
    unfold reorganise
    split
    · rfl
    · by_cases hzero : c.args.height = 0
      · rw [env.stateupdate_of_height_le (le_of_eq hzero), core_eventRewind]
      · rw [env.core_stateupdate_kmdheight (by simpa using hzero), core_eventRewind]
  exact hreorg

theorem core_connectblock (c : Call) (st : ConnectState W) :
    (env.connectblock c st).1.sp.core =
      (env.connectLoop c.args 0 c.vtx (env.startOf c st)).sp.core := by
  unfold connectblock
  dsimp only
  split
  · rfl
  · by_cases hzero : c.args.height = 0
    · rw [env.stateupdate_of_height_le (le_of_eq hzero)]
    · rw [env.core_stateupdate_kmdheight hzero]

/-- What a block does to the core depends on the core. -/
theorem core_connectblock_congr (c : Call) {st st' : ConnectState W}
    (h : st.sp.core = st'.sp.core) :
    (env.connectblock c st).1.sp.core = (env.connectblock c st').1.sp.core := by
  have hstart : (env.startOf c st).core = (env.startOf c st').core := by
    refine LoopState.core_eq.2 ⟨?_, rfl, rfl, rfl⟩
    rw [core_startOf, core_startOf, h]
  rw [core_connectblock, core_connectblock]
  exact (LoopState.core_eq.1 (env.core_connectLoop_congr hstart c.args 0 c.vtx)).1

/-- A ratification has enough signers. -/
def ratified (b : BlockArgs) (tx : CTransaction) (mask : BitVec 64) (s : LoopState W) : Prop :=
  (env.assetchainsSymbol ≠ [] ∨ b.height < 100000) ∧
    ((mask.getLsbD 0 = true ∧ minratify b.height ≤
        (ratifiedKeys (tx.vout.drop 1).dropLast).length) ∨
      s.notaries.numnotaries.tdiv 3 < (Core.weight mask : Int))

/-- A transaction reaches no update. -/
structure QuietTx (b : BlockArgs) (i : Nat) (tx : CTransaction) (s : LoopState W) : Prop where
  /-- No notarisation is simulated. -/
  simulated : env.simulated b = false
  /-- No output reaches an update. -/
  outs : env.QuietOuts b i tx (env.notarizedTx b i tx s) (env.maskOf b i tx s) 0 tx.vout {} s
  /-- No notaries are ratified. -/
  ratified : env.ratifiesTx b i tx s = true →
    ¬ env.ratified b tx (env.maskOf b i tx s) (env.scanTx b i tx s).2

/-- No transaction of a block reaches an update. -/
def QuietTxs (b : BlockArgs) : Nat → List CTransaction → LoopState W → Prop
  | _, [], _ => True
  | i, tx :: rest, s =>
    env.stopsAt b i = true ∨ env.QuietTx b i tx s ∧ QuietTxs b (i + 1) rest (env.connectTx b i tx s)

/-- A block reaches no update from a given state. -/
def QuietBlock (c : Call) (st : ConnectState W) : Prop :=
  env.QuietTxs c.args 0 c.vtx (env.startOf c st)

theorem connectTx_of_quiet {b : BlockArgs} {i : Nat} {tx : CTransaction} {s : LoopState W}
    (h : env.QuietTx b i tx s) : (env.connectTx b i tx s).sp = s.sp := by
  have hsim : env.simulate b tx s = s := by
    unfold simulate
    rw [h.simulated]
    rfl
  have hscan : (env.scanTx b i tx s).2.sp = s.sp := by
    unfold scanTx
    rw [hsim]
    exact env.voutLoop_of_quiet h.outs
  rw [connectTx_eq]
  split
  · rename_i hratifies
    have hnot := h.ratified hratifies
    unfold KomodoEnv.ratified at hnot
    unfold ratify
    dsimp only
    rw [if_neg hnot]
    exact hscan
  · exact hscan

theorem connectLoop_of_quiet {b : BlockArgs} {i : Nat} {vtx : List CTransaction}
    {s : LoopState W} (h : env.QuietTxs b i vtx s) : (env.connectLoop b i vtx s).sp = s.sp := by
  induction vtx generalizing i s with
  | nil => rfl
  | cons tx rest ih =>
    unfold connectLoop
    split
    · rfl
    · rename_i hstop
      obtain ⟨hquiet, hrest⟩ := h.resolve_left hstop
      rw [ih hrest, env.connectTx_of_quiet hquiet]

/-- A quiet block leaves the core as it is. -/
theorem core_connectblock_of_quiet {c : Call} {st : ConnectState W} (h : env.QuietBlock c st) :
    (env.connectblock c st).1.sp.core = st.sp.core := by
  rw [core_connectblock, env.connectLoop_of_quiet h, core_startOf]

/-! ## Runs -/

/-- What happens to the active chain. -/
inductive ChainStep where
  | connect (c : Call)
  | disconnect

/-- The active chain, newest block first, each block with the state it was connected in; and
the state. -/
structure ChainState (W : Type) where
  /-- The blocks. -/
  chain : List (Call × ConnectState W)
  /-- What `komodo_connectblock` keeps. -/
  st : ConnectState W

/-- A block is connected or the tip is disconnected. `komodo_disconnect` does nothing. -/
def chainStep (cs : ChainState W) : ChainStep → ChainState W
  | .connect c => { chain := (c, cs.st) :: cs.chain, st := (env.connectblock c cs.st).1 }
  | .disconnect => { cs with chain := cs.chain.tail }

/-- A run. -/
def chainRun (steps : List ChainStep) (cs : ChainState W) : ChainState W :=
  steps.foldl env.chainStep cs

/-- `komodo_connectblock` for one block after the other. -/
def replay (calls : List Call) (st : ConnectState W) : ConnectState W :=
  calls.foldl (fun st c => (env.connectblock c st).1) st

/-- The blocks of the active chain, oldest first. -/
def ChainState.blocks (cs : ChainState W) : List Call := (cs.chain.map Prod.fst).reverse

/-- A step gives up nothing but a quiet block. -/
def HarmlessStep (cs : ChainState W) : ChainStep → Prop
  | .connect _ => True
  | .disconnect => ∀ c before, cs.chain.head? = some (c, before) → env.QuietBlock c before

/-- All steps of a run are harmless. -/
def HarmlessRun : List ChainStep → ChainState W → Prop
  | [], _ => True
  | step :: rest, cs => env.HarmlessStep cs step ∧ HarmlessRun rest (env.chainStep cs step)

/-- The core of a state is that of the last block, connected in the state it was connected in,
and so on. -/
def Follows (st0 : ConnectState W) : List (Call × ConnectState W) → KomodoState W → Prop
  | [], sp => sp.core = st0.sp.core
  | (c, before) :: older, sp =>
    sp.core = (env.connectblock c before).1.sp.core ∧ Follows st0 older before.sp

theorem Follows.congr {st0 : ConnectState W} {chain : List (Call × ConnectState W)}
    {sp sp' : KomodoState W} (h : env.Follows st0 chain sp) (hcore : sp'.core = sp.core) :
    env.Follows st0 chain sp' := by
  cases chain with
  | nil => exact hcore.trans h
  | cons head older => exact ⟨hcore.trans h.1, h.2⟩

/-- Such a state agrees with a replay of the chain. -/
theorem Follows.core_eq {st0 : ConnectState W} {chain : List (Call × ConnectState W)}
    {sp : KomodoState W} (h : env.Follows st0 chain sp) :
    sp.core = (env.replay (chain.map Prod.fst).reverse st0).sp.core := by
  induction chain generalizing sp with
  | nil => exact h
  | cons head older ih =>
    obtain ⟨c, before⟩ := head
    rw [List.map_cons, List.reverse_cons]
    unfold replay
    rw [List.foldl_append]
    exact h.1.trans (env.core_connectblock_congr c (ih h.2))

theorem Follows.step {st0 : ConnectState W} {cs : ChainState W} {step : ChainStep}
    (h : env.Follows st0 cs.chain cs.st.sp) (hstep : env.HarmlessStep cs step) :
    env.Follows st0 (env.chainStep cs step).chain (env.chainStep cs step).st.sp := by
  cases step with
  | connect c => exact ⟨rfl, h⟩
  | disconnect =>
    unfold chainStep
    cases hchain : cs.chain with
    | nil =>
      rw [hchain] at h
      exact h
    | cons head older =>
      obtain ⟨c, before⟩ := head
      rw [hchain] at h
      have hquiet : env.QuietBlock c before := hstep c before (by rw [hchain]; rfl)
      have hcore : cs.st.sp.core = before.sp.core :=
        h.1.trans (env.core_connectblock_of_quiet hquiet)
      exact Follows.congr env h.2 hcore

theorem Follows.run {st0 : ConnectState W} {steps : List ChainStep} {cs : ChainState W}
    (h : env.Follows st0 cs.chain cs.st.sp) (hrun : env.HarmlessRun steps cs) :
    env.Follows st0 (env.chainRun steps cs).chain (env.chainRun steps cs).st.sp := by
  induction steps generalizing cs with
  | nil => exact h
  | cons step rest ih => exact ih (Follows.step env h hrun.1) hrun.2

/-- Where the blocks that are given up are quiet, the key-value store, the notarised block and
the checkpoints are those of the final chain. -/
theorem reorg_eq_replay (steps : List ChainStep) (st0 : ConnectState W)
    (hrun : env.HarmlessRun steps { chain := [], st := st0 }) :
    let final := env.chainRun steps { chain := [], st := st0 }
    let expected := env.replay final.blocks st0
    final.st.sp.kv = expected.sp.kv ∧
    final.st.sp.notarizedHeight = expected.sp.notarizedHeight ∧
    final.st.sp.notarizedHash = expected.sp.notarizedHash ∧
    final.st.sp.npoints = expected.sp.npoints := by
  have hstart : env.Follows st0 ({ chain := [], st := st0 } : ChainState W).chain st0.sp := rfl
  have hcore := Follows.core_eq env (Follows.run env hstart hrun)
  obtain ⟨hheight, hhash, -, -, -, hnpoints, hkv⟩ := KomodoState.eq_of_core_eq hcore
  exact ⟨hkv, hheight, hhash, hnpoints⟩

end KomodoEnv

/-! ## A block that is given up -/

namespace SampleReorg

open KomodoEnv SampleNotarisation

/-- The chain `TEST`. -/
def chainEnv : KomodoEnv Unit := env payToPubkey

/-- A transaction with an op_return that sets the key `a` to `x`. -/
def keyTx : CTransaction :=
  { hash := 0x7000
    vin := [{ prevout := { hash := 0x5000, n := 0 }, scriptSig := [0x51] }]
    vout := [{ nValue := 100000
               scriptPubKey := [0x6a, 0x0f] ++ [0x4b] ++ Core.leBytes 2 1 ++ Core.leBytes 2 1 ++
                 Core.leBytes 4 10 ++ Core.leBytes 4 0 ++ [0x61, 0x78] }] }

/-- A block of height 10 with given transactions after the coinbase. -/
def blockOf (txs : List CTransaction) : Call where
  args := { fJustCheck := false, height := 10, blockTime := 1600000000, blockHash := 2
            tipTime := 1600000000, tipHeight := 9 }
  vtx := coinbase :: txs
  numnotaries := 64
  numnotaries_le := call.numnotaries_le
  pubkeys := pubkey
  stack _ := 0

/-- The state before the fork. -/
def fork : ConnectState Unit := { sp := { world := () }, hwmheight := 9 }

/-- A block is replaced by another. -/
def replaced (c c' : Call) : List ChainStep := [.connect c, .disconnect, .connect c']

/-- A block with a coinbase is quiet. -/
theorem quiet_coinbase : chainEnv.QuietBlock (blockOf []) fork := by
  refine Or.inr ⟨⟨rfl, ?_, ?_⟩, trivial⟩
  · simp [QuietOuts, isCopied, blockOf, coinbase]
  · intro h
    exact absurd h (by decide +kernel)

end SampleReorg

open KomodoEnv SampleReorg

/-- After a quiet block is replaced by one that sets the key, the store is that of the final
chain. -/
theorem quiet_block_replaced :
    chainEnv.HarmlessRun (replaced (blockOf []) (blockOf [keyTx])) { chain := [], st := fork } ∧
    (chainEnv.chainRun (replaced (blockOf []) (blockOf [keyTx]))
      { chain := [], st := fork }).st.sp.kv =
    (chainEnv.replay [blockOf [keyTx]] fork).sp.kv := by
  have hrun : chainEnv.HarmlessRun (replaced (blockOf []) (blockOf [keyTx]))
      { chain := [], st := fork } := by
    refine ⟨trivial, ?_, trivial, trivial⟩
    intro c before hhead
    obtain ⟨rfl, rfl⟩ := Prod.mk.inj (Option.some.inj hhead)
    exact quiet_coinbase
  exact ⟨hrun, (reorg_eq_replay chainEnv (replaced (blockOf []) (blockOf [keyTx])) fork hrun).1⟩

/-- After a block that sets the key is replaced by one that does not, the key is still set. -/
theorem key_survives_reorg :
    ¬ ∀ (steps : List ChainStep) (st0 : ConnectState Unit),
      (chainEnv.chainRun steps { chain := [], st := st0 }).st.sp.kv =
        (chainEnv.replay (chainEnv.chainRun steps { chain := [], st := st0 }).blocks
          st0).sp.kv := by
  intro hclaim
  have hkv := congrFun (hclaim (replaced (blockOf [keyTx]) (blockOf [])) fork) [0x61]
  have hset : ((chainEnv.chainRun (replaced (blockOf [keyTx]) (blockOf []))
      { chain := [], st := fork }).st.sp.kv [0x61]).isSome = true := by
    decide +kernel
  have hunset : ((chainEnv.replay (chainEnv.chainRun (replaced (blockOf [keyTx]) (blockOf []))
      { chain := [], st := fork }).blocks fork).sp.kv [0x61]).isSome = false := by
    decide +kernel
  rw [hkv, hunset] at hset
  cases hset

end IndexChain.Notary
