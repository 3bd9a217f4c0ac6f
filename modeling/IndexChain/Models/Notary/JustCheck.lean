import IndexChain.Models.Notary.Reorg

/-!
# Blocks that are only checked

With `fJustCheck`, `komodo_connectblock` is to look for notarisations and change nothing.
The flag is asked about for notarisations, ratifications and heights. It is not asked about
for key-value op_returns, for other op_returns with the name of the chain, and for the
notarisations that the regression test network simulates
(`connectblock_check_unchanged_iff`).
-/

namespace IndexChain.Notary

variable {W : Type}

/-- The consensus state is the same. -/
structure KomodoState.Unchanged (sp sp' : KomodoState W) : Prop where
  kv : sp'.kv = sp.kv
  events : sp'.events = sp.events
  notarizedHeight : sp'.notarizedHeight = sp.notarizedHeight
  notarizedHash : sp'.notarizedHash = sp.notarizedHash
  MoM : sp'.MoM = sp.MoM
  MoMdepth : sp'.MoMdepth = sp.MoMdepth
  npoints : sp'.npoints = sp.npoints
  stateFile : sp'.stateFile = sp.stateFile

namespace KomodoEnv

variable (env : KomodoEnv W)

/-! ## One output -/

section Output

variable {a : VoutArgs}

/-- When only checking, an output that reaches an update leaves a record. -/
theorem length_stateFile_of_updates (hcheck : a.fJustCheck = true) (hheight : 0 < a.height)
    {buf : ScriptBuf} {t : TxScan} {sp : KomodoState W}
    (h : env.updates a buf (env.scanPubkey a buf t) sp.notarizedHeight = true) :
    sp.stateFile.length < (env.voutupdate a buf t sp).2.stateFile.length := by
  unfold voutupdate
  unfold updates at h
  dsimp only at h ⊢
  simp only [Bool.and_eq_true, beq_iff_eq] at h
  obtain ⟨hop, h⟩ := h
  rw [if_pos hop]
  unfold scanOpret
  dsimp only
  split
  · exact env.length_stateFile_lt hheight rfl sp
  · rename_i hkv
    rw [if_neg hkv] at h
    split
    · rename_i hlen
      rw [if_pos hlen] at h
      simp [notarizes, hcheck] at h
    · rename_i hlen
      rw [if_neg hlen, Bool.and_eq_true] at h
      obtain ⟨hmatched, hlogs⟩ := h
      rw [if_pos hmatched, env.otherOpret_eq, if_pos hlogs]
      · exact env.length_stateFile_lt hheight rfl sp
      · rintro ⟨-, hj, hprice⟩
        exact hlen ⟨hj, by simp [nameOffset, hmatched, hprice]⟩

theorem notarisation_of_check (hcheck : a.fJustCheck = true) (buf : ScriptBuf)
    (opretlen opoffset : Nat) (t : TxScan) (sp : KomodoState W) :
    (env.notarisation a buf opretlen opoffset t sp).2 = sp := by
  apply env.notarisation_of_not_notarizes
  simp [notarizes, hcheck]

/-- At a height that is not positive nothing is updated. -/
theorem voutupdate_of_height_le (hcheck : a.fJustCheck = true) (hheight : a.height ≤ 0)
    (buf : ScriptBuf) (t : TxScan) (sp : KomodoState W) :
    (env.voutupdate a buf t sp).2 = sp := by
  have hnothing : ∀ u : StateUpdate, u.height = a.height → env.stateupdate u sp = sp := by
    intro u hu
    exact env.stateupdate_of_height_le (hu.trans_le hheight) sp
  unfold voutupdate scanOpret
  dsimp only
  split
  · split
    · exact hnothing _ rfl
    split
    · exact env.notarisation_of_check hcheck _ _ _ _ _
    split
    · unfold otherOpret
      split
      · dsimp only
        split
        · exact hnothing _ rfl
        · rfl
      · dsimp only
        rw [hnothing _ rfl, ite_self]
    · rfl
  · rfl

theorem length_stateFile_voutupdate (hcheck : a.fJustCheck = true) (buf : ScriptBuf) (t : TxScan)
    (sp : KomodoState W) :
    sp.stateFile.length ≤ (env.voutupdate a buf t sp).2.stateFile.length := by
  by_cases hheight : 0 < a.height
  · cases hupdates : env.updates a buf (env.scanPubkey a buf t) sp.notarizedHeight with
    | true => exact le_of_lt (env.length_stateFile_of_updates hcheck hheight hupdates)
    | false => rw [env.voutupdate_of_not_updates hupdates]
  · rw [env.voutupdate_of_height_le hcheck (not_lt.1 hheight)]

end Output

/-! ## The loops -/

section Loops

variable {b : BlockArgs}

theorem length_stateFile_voutLoop (hcheck : b.fJustCheck = true) (i : Nat) (tx : CTransaction)
    (notarized : Bool) (mask : BitVec 64) (j : Nat) (outs : List CTxOut) (t : TxScan)
    (s : LoopState W) : s.sp.stateFile.length ≤
      (env.voutLoop b i tx notarized mask j outs t s).2.sp.stateFile.length := by
  induction outs generalizing j t s with
  | nil => exact le_refl _
  | cons out rest ih =>
    rw [voutLoop_cons]
    split
    · refine le_trans ?_ (ih (j + 1) _ _)
      exact env.length_stateFile_voutupdate hcheck _ t s.sp
    · exact ih (j + 1) t s

/-- Outputs that leave no record are quiet. -/
theorem quietOuts_of_length (hcheck : b.fJustCheck = true) (hheight : 0 < b.height) {i : Nat}
    {tx : CTransaction} {notarized : Bool} {mask : BitVec 64} {j : Nat} {outs : List CTxOut}
    {t : TxScan} {s : LoopState W}
    (h : (env.voutLoop b i tx notarized mask j outs t s).2.sp.stateFile.length =
      s.sp.stateFile.length) : env.QuietOuts b i tx notarized mask j outs t s := by
  induction outs generalizing j t s with
  | nil => trivial
  | cons out rest ih =>
    rw [voutLoop_cons] at h
    unfold QuietOuts
    split
    · rename_i hcopied
      rw [if_pos hcopied] at h
      have hle := env.length_stateFile_voutLoop hcheck i tx notarized mask (j + 1) rest
        (env.voutStep b i tx notarized mask j out t s).1
        (env.voutStep b i tx notarized mask j out t s).2
      have hquiet : env.QuietOut b i tx notarized mask j out t s := by
        by_contra hupdates
        unfold QuietOut at hupdates
        rw [Bool.not_eq_false] at hupdates
        have hlt := env.length_stateFile_of_updates hcheck hheight hupdates
        unfold voutStep at h hle
        dsimp only at h hle
        omega
      refine ⟨hquiet, ih ?_⟩
      rw [h]
      unfold voutStep
      dsimp only
      rw [env.voutupdate_of_not_updates hquiet]
    · rename_i hcopied
      rw [if_neg hcopied] at h
      exact ih h

/-- No output of a block that is only checked reaches an update. -/
def QuietScan (b : BlockArgs) : Nat → List CTransaction → LoopState W → Prop
  | _, [], _ => True
  | i, tx :: rest, s =>
    env.stopsAt b i = true ∨
      env.QuietOuts b i tx (env.notarizedTx b i tx s) (env.maskOf b i tx s) 0 tx.vout {}
        (env.simulate b tx s) ∧
      QuietScan b (i + 1) rest (env.connectTx b i tx s)

theorem connectTx_of_check (hcheck : b.fJustCheck = true) (i : Nat) (tx : CTransaction)
    (s : LoopState W) : env.connectTx b i tx s = (env.scanTx b i tx s).2 := by
  rw [connectTx_eq]
  apply if_neg
  simp [ratifiesTx, hcheck]

theorem length_stateFile_connectTx (hcheck : b.fJustCheck = true) (i : Nat) (tx : CTransaction)
    (s : LoopState W) :
    s.sp.stateFile.length ≤ (env.connectTx b i tx s).sp.stateFile.length := by
  have hsim : (env.simulate b tx s).sp.stateFile = s.sp.stateFile := by
    unfold simulate
    split <;> rfl
  rw [env.connectTx_of_check hcheck, ← hsim]
  exact env.length_stateFile_voutLoop hcheck i tx _ _ 0 tx.vout {} _

theorem length_stateFile_connectLoop (hcheck : b.fJustCheck = true) (i : Nat)
    (vtx : List CTransaction) (s : LoopState W) :
    s.sp.stateFile.length ≤ (env.connectLoop b i vtx s).sp.stateFile.length := by
  induction vtx generalizing i s with
  | nil => exact le_refl _
  | cons tx rest ih =>
    unfold connectLoop
    split
    · exact le_refl _
    · exact le_trans (env.length_stateFile_connectTx hcheck i tx s) (ih (i + 1) _)

/-- A block that leaves no record is quiet. -/
theorem quietScan_of_length (hcheck : b.fJustCheck = true) (hheight : 0 < b.height) {i : Nat}
    {vtx : List CTransaction} {s : LoopState W}
    (h : (env.connectLoop b i vtx s).sp.stateFile.length = s.sp.stateFile.length) :
    env.QuietScan b i vtx s := by
  induction vtx generalizing i s with
  | nil => trivial
  | cons tx rest ih =>
    unfold connectLoop at h
    split at h
    · rename_i hstop
      exact Or.inl hstop
    · have htx := env.length_stateFile_connectTx hcheck i tx s
      have hrest := env.length_stateFile_connectLoop hcheck (i + 1) rest (env.connectTx b i tx s)
      refine Or.inr ⟨?_, ih (by omega)⟩
      apply env.quietOuts_of_length hcheck hheight
      have hsim : (env.simulate b tx s).sp.stateFile = s.sp.stateFile := by
        unfold simulate
        split <;> rfl
      have hscan : (env.scanTx b i tx s).2.sp.stateFile.length = s.sp.stateFile.length := by
        rw [← env.connectTx_of_check hcheck]
        omega
      rw [hsim]
      exact hscan

/-- Without updates, a transaction does no more than to simulate a notarisation. -/
theorem scanTx_of_quiet (hcheck : b.fJustCheck = true) {i : Nat} {tx : CTransaction}
    {s : LoopState W} (h : b.height ≤ 0 ∨
      env.QuietOuts b i tx (env.notarizedTx b i tx s) (env.maskOf b i tx s) 0 tx.vout {}
        (env.simulate b tx s)) :
    (env.scanTx b i tx s).2.sp = (env.simulate b tx s).sp := by
  rcases h with hheight | hquiet
  · have hloop : ∀ (outs : List CTxOut) (j : Nat) (t : TxScan) (s' : LoopState W),
        (env.voutLoop b i tx (env.notarizedTx b i tx s) (env.maskOf b i tx s) j outs t s').2.sp =
          s'.sp := by
      intro outs
      induction outs with
      | nil =>
        intro j t s'
        rfl
      | cons out rest ih =>
        intro j t s'
        rw [voutLoop_cons]
        split
        · rw [ih]
          exact env.voutupdate_of_height_le hcheck hheight _ t s'.sp
        · exact ih (j + 1) t s'
    exact hloop tx.vout 0 {} (env.simulate b tx s)
  · exact env.voutLoop_of_quiet hquiet

/-- The state with the notarised block replaced. -/
def setNotarized (sp : KomodoState W) (b : BlockArgs) (txhash : Uint256) : KomodoState W :=
  { sp with notarizedHeight := b.height, notarizedHash := b.blockHash, notarizedDesttxid := txhash }

/-- Without updates, a block does no more either. -/
theorem connectLoop_of_check (hcheck : b.fJustCheck = true) {i : Nat} {vtx : List CTransaction}
    {s : LoopState W} (h : b.height ≤ 0 ∨ env.QuietScan b i vtx s) :
    (env.connectLoop b i vtx s).sp = s.sp ∧
        (env.simulated b = false ∨ vtx = [] ∨ env.stopsAt b i = true) ∨
      env.simulated b = true ∧ vtx ≠ [] ∧ env.stopsAt b i = false ∧
        ∃ txhash, (env.connectLoop b i vtx s).sp = setNotarized s.sp b txhash := by
  induction vtx generalizing i s with
  | nil => exact Or.inl ⟨rfl, Or.inr (Or.inl rfl)⟩
  | cons tx rest ih =>
    unfold connectLoop
    by_cases hstop : env.stopsAt b i = true
    · rw [if_pos hstop]
      exact Or.inl ⟨rfl, Or.inr (Or.inr hstop)⟩
    rw [if_neg hstop]
    have hscan : (env.connectTx b i tx s).sp = (env.simulate b tx s).sp := by
      rw [env.connectTx_of_check hcheck]
      apply env.scanTx_of_quiet hcheck
      exact h.imp_right fun hq => (hq.resolve_left hstop).1
    have hrest := ih (h.imp_right fun hq => (hq.resolve_left hstop).2)
    rw [hscan] at hrest
    cases hsim : env.simulated b with
    | false =>
      have hsame : (env.simulate b tx s).sp = s.sp := by
        unfold simulate
        rw [hsim]
        rfl
      rw [hsame, hsim] at hrest
      rcases hrest with ⟨heq, -⟩ | ⟨hno, -⟩
      · exact Or.inl ⟨heq, Or.inl rfl⟩
      · cases hno
    | true =>
      have hset : (env.simulate b tx s).sp = setNotarized s.sp b tx.hash := by
        unfold simulate
        rw [hsim]
        rfl
      rw [hset] at hrest
      refine Or.inr ⟨rfl, List.cons_ne_nil tx rest, by simpa using hstop, ?_⟩
      rcases hrest with ⟨heq, -⟩ | ⟨-, -, -, txhash, heq⟩
      · exact ⟨tx.hash, heq⟩
      · exact ⟨txhash, heq⟩

end Loops

/-! ## Blocks -/

/-- A block that is only checked leaves the consensus state as it is, exactly when none of its
outputs reaches an update (at a positive height), and no notarisation is simulated that the
state does not have yet. -/
theorem connectblock_check_unchanged_iff (c : Call) (st : ConnectState W)
    (hcheck : c.args.fJustCheck = true) :
    st.sp.Unchanged (env.connectblock c st).1.sp ↔
      (c.args.height ≤ 0 ∨ env.QuietScan c.args 0 c.vtx (env.startOf c st)) ∧
      (env.simulated c.args = true → c.vtx = [] ∨ env.stopsAt c.args 0 = true ∨
        st.sp.notarizedHeight = c.args.height ∧ st.sp.notarizedHash = c.args.blockHash) := by
  have hstart : (env.startOf c st).sp = { st.sp with currentHeight := c.args.tipHeight } := by
    unfold startOf reorganise
    rw [if_pos (Or.inr hcheck)]
  have hsp : (env.connectblock c st).1.sp =
      (env.connectLoop c.args 0 c.vtx (env.startOf c st)).sp := by
    unfold connectblock
    dsimp only
    rw [if_pos hcheck]
  constructor
  · intro hsame
    have hquiet : c.args.height ≤ 0 ∨ env.QuietScan c.args 0 c.vtx (env.startOf c st) := by
      by_cases hheight : 0 < c.args.height
      · refine Or.inr (env.quietScan_of_length hcheck hheight ?_)
        rw [← hsp, hsame.stateFile, hstart]
      · exact Or.inl (not_lt.1 hheight)
    refine ⟨hquiet, ?_⟩
    intro hsim
    rcases env.connectLoop_of_check hcheck hquiet with
      ⟨-, hnot | hnil | hstop⟩ | ⟨-, -, -, txhash, heq⟩
    · rw [hsim] at hnot
      cases hnot
    · exact Or.inl hnil
    · exact Or.inr (Or.inl hstop)
    · have hheight := hsame.notarizedHeight
      have hhash := hsame.notarizedHash
      rw [hsp, heq] at hheight hhash
      exact Or.inr (Or.inr ⟨hheight.symm, hhash.symm⟩)
  · rintro ⟨hquiet, hsim⟩
    rw [hsp]
    rcases env.connectLoop_of_check hcheck hquiet with ⟨heq, -⟩ | ⟨hs, hne, hrun, txhash, heq⟩
    · rw [heq, hstart]
      exact ⟨rfl, rfl, rfl, rfl, rfl, rfl, rfl, rfl⟩
    · rcases hsim hs with hnil | hstop | ⟨hheight, hhash⟩
      · exact absurd hnil hne
      · rw [hrun] at hstop
        cases hstop
      · rw [heq, hstart]
        exact ⟨rfl, rfl, hheight.symm, hhash.symm, rfl, rfl, rfl, rfl⟩

end KomodoEnv

/-! ## A block with a key -/

namespace SampleReorg

/-- A block of height 10 that is only checked. -/
def checkOf (txs : List CTransaction) : KomodoEnv.Call :=
  { blockOf txs with args := { (blockOf txs).args with fJustCheck := true } }

/-- The block with the notarisation, only checked. -/
def checked : KomodoEnv.Call :=
  { SampleNotarisation.call with args := { SampleNotarisation.call.args with fJustCheck := true } }

/-- The state after a block with a key. -/
def st : KomodoEnv.ConnectState Unit := (chainEnv.connectblock (blockOf [keyTx]) fork).1

end SampleReorg

open KomodoEnv SampleReorg SampleNotarisation

/-- A notarisation is scanned, and changes nothing when its block is only checked; connected, the
block moves the notarized height. -/
theorem check_notarisation_unchanged :
    st.sp.events.length = 2 ∧ (chainEnv.connectblock call st).1.sp.notarizedHeight = 99999 ∧
      st.sp.Unchanged (chainEnv.connectblock checked st).1.sp := by
  refine ⟨by decide +kernel, by decide +kernel, ?_⟩
  refine (connectblock_check_unchanged_iff chainEnv checked st rfl).2 ⟨Or.inr ?_, ?_⟩
  · exact chainEnv.quietScan_of_length rfl (by decide) (by decide +kernel)
  · intro hsim
    exact absurd hsim (by decide +kernel)

/-- A check of a block with a key-value op_return sets the key, and logs it. -/
theorem check_sets_key :
    (checkOf [keyTx]).args.fJustCheck = true ∧
    ((chainEnv.connectblock (checkOf [keyTx]) fork).1.sp.kv [0x61]).isSome = true ∧
    (fork.sp.kv [0x61]).isSome = false ∧
    (chainEnv.connectblock (checkOf [keyTx]) fork).1.sp.events.length = 1 ∧
    ¬ fork.sp.Unchanged (chainEnv.connectblock (checkOf [keyTx]) fork).1.sp := by
  have hset : ((chainEnv.connectblock (checkOf [keyTx]) fork).1.sp.kv [0x61]).isSome = true := by
    decide +kernel
  refine ⟨rfl, hset, rfl, by decide +kernel, ?_⟩
  intro hsame
  rw [hsame.kv] at hset
  cases hset

end IndexChain.Notary
