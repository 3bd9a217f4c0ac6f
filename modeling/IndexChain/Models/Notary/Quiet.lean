import IndexChain.Models.Notary.ConnectBlock

/-!
# Blocks without updates

An output changes the state only through `komodo_stateupdate` or through a notarisation
that goes with a call of it. A block none of whose outputs reaches one is quiet, and a
quiet block leaves the state as it is. Updates at a height that is not positive have no
effect, and all others but a price feed leave a record in the state file.
-/

namespace IndexChain.Notary.KomodoEnv

variable {W : Type} (env : KomodoEnv W)

/-! ## Updates -/

theorem stateupdate_of_height_le {a : StateUpdate} (h : a.height ≤ 0) (sp : KomodoState W) :
    env.stateupdate a sp = sp := by
  unfold stateupdate applyUpdate stateRecord
  rw [if_pos h, if_pos h]
  simp

@[simp] theorem stateFile_eventadd (height : Int) (data : KomodoEventData) (sp : KomodoState W) :
    (env.eventadd height data sp).stateFile = sp.stateFile := by
  unfold eventadd
  split <;> rfl

@[simp] theorem stateFile_opreturn (height : Int) (value : Nat) (opretbuf : ScriptBuf)
    (opretlen : Nat) (txid : Uint256) (vout : Nat) (sp : KomodoState W) :
    (env.opreturn height value opretbuf opretlen txid vout sp).stateFile = sp.stateFile := by
  unfold opreturn
  split <;> rfl

@[simp] theorem stateFile_eventaddOpreturn (height : Int) (txid : Uint256) (value vout : Nat)
    (opretbuf : ScriptBuf) (opretlen : Nat) (sp : KomodoState W) :
    (env.eventaddOpreturn height txid value vout opretbuf opretlen sp).stateFile =
      sp.stateFile := by
  unfold eventaddOpreturn
  split
  · rfl
  · simp

@[simp] theorem stateFile_eventRewind (height : Int) (sp : KomodoState W) :
    (eventRewind height sp).stateFile = sp.stateFile := rfl

@[simp] theorem stateFile_eventaddKmdheight (height kmdheight : Int) (timestamp : Nat)
    (sp : KomodoState W) :
    (env.eventaddKmdheight height kmdheight timestamp sp).stateFile = sp.stateFile := by
  unfold eventaddKmdheight
  dsimp only
  split
  · split <;> split <;> simp
  · simp

@[simp] theorem stateFile_eventaddNotarized (np : NotarizedCheckpoint) (sp : KomodoState W) :
    (env.eventaddNotarized np sp).stateFile = sp.stateFile := by
  unfold eventaddNotarized notarizedUpdate
  split
  · split
    · simp
    · simp
  · rfl

@[simp] theorem stateFile_applyUpdate (a : StateUpdate) (sp : KomodoState W) :
    (env.applyUpdate a sp).stateFile = sp.stateFile := by
  unfold applyUpdate
  split
  · rfl
  split
  · exact env.stateFile_eventaddKmdheight _ _ _ _
  split
  · exact env.stateFile_eventaddOpreturn _ _ _ _ _ _ _
  split
  · exact env.stateFile_eventadd _ _ _
  split
  · rfl
  split
  · split
    · exact env.stateFile_eventadd _ _ _
    · rfl
  · exact env.stateFile_eventaddNotarized _ _

/-- The state file only grows. -/
theorem stateFile_stateupdate (a : StateUpdate) (sp : KomodoState W) :
    (env.stateupdate a sp).stateFile = sp.stateFile ++ (stateRecord a sp).toList :=
  env.stateFile_applyUpdate _ _

/-- It grows with every update that is not a price feed. -/
theorem length_stateFile_lt {a : StateUpdate} (hheight : 0 < a.height) (hpvals : a.pvals = [])
    (sp : KomodoState W) :
    sp.stateFile.length < (env.stateupdate a sp).stateFile.length := by
  have hsome : (stateRecord a sp).isSome = true := by
    unfold stateRecord
    rw [if_neg (by omega), hpvals]
    split
    · rfl
    split
    · rfl
    split
    · rfl
    split
    · rfl
    rw [if_neg (by simp)]
    split
    · rfl
    · rfl
  obtain ⟨r, hr⟩ := Option.isSome_iff_exists.1 hsome
  rw [stateFile_stateupdate, hr]
  simp

/-! ## Outputs -/

/-- A notarisation passes all tests. -/
def notarizes (a : VoutArgs) (buf : ScriptBuf) (opoffset : Nat) (notarizedHeight : Int) : Bool :=
  let notarizedheight := buf.int32 (opoffset + 32)
  !a.fJustCheck && env.matched buf opoffset &&
    (a.notarized || unsignedSymbol buf (opoffset + 68)) &&
    env.validateChain (buf.uint256 opoffset) notarizedheight &&
    decide (notarizedHeight < notarizedheight ∧ notarizedheight < a.height)

/-- An op_return of this chain that is not a notarisation is logged. -/
def logs (a : VoutArgs) (buf : ScriptBuf) (opretlen opoffset : Nat) (t : TxScan) : Bool :=
  !t.isratification && !(decide (68 ≤ opretlen) && buf.slice opoffset 32 == List.replicate 32 0) &&
    (a.signedmask != 0 || (buf opoffset != 0x58 && buf opoffset != 0x41))

/-- An output reaches an update. -/
def updates (a : VoutArgs) (buf : ScriptBuf) (t : TxScan) (notarizedHeight : Int) : Bool :=
  let opretlen := (opretHeader buf).1
  let opoffset := (opretHeader buf).2
  buf 0 == 0x6a &&
  if env.assetchainsSymbol ≠ [] ∧ buf opoffset = 0x4b then true
  else if a.j = 1 ∧ nameOffset (env.matched buf opoffset) ≤ opretlen then
    env.notarizes a buf opoffset notarizedHeight
  else env.matched buf opoffset && logs a buf opretlen opoffset t

/-- The test of `otherOpret`, once more. -/
theorem otherOpret_eq {a : VoutArgs} {buf : ScriptBuf} {opretlen opoffset : Nat} {t : TxScan}
    (hprice : ¬ (a.i = 0 ∧ a.j = 1 ∧ opretlen = 149)) (sp : KomodoState W) :
    (env.otherOpret a buf opretlen opoffset t sp).2 =
      if logs a buf opretlen opoffset t then
        env.stateupdate
          { height := a.height, txhash := a.txhash, opretvalue := a.value
            opretbuf := buf.shift opoffset, opretlen := opretlen, vout := a.j } sp
      else sp := by
  unfold otherOpret logs
  rw [if_neg hprice]
  by_cases hzero : 68 ≤ opretlen ∧ buf.slice opoffset 32 = List.replicate 32 0
  · simp [hzero]
  · have hzero' : (decide (68 ≤ opretlen) &&
        buf.slice opoffset 32 == List.replicate 32 0) = false := by
      simpa using hzero
    dsimp only
    rw [if_neg hzero, hzero']
    simp only [Bool.not_eq_true', Bool.and_eq_true, Bool.or_eq_true, bne_iff_ne, Bool.not_false,
      and_true]

/-- A notarisation that fails a test leaves the state as it is. -/
theorem notarisation_of_not_notarizes {a : VoutArgs} {buf : ScriptBuf} {opretlen opoffset : Nat}
    {t : TxScan} {sp : KomodoState W}
    (h : env.notarizes a buf opoffset sp.notarizedHeight = false) :
    (env.notarisation a buf opretlen opoffset t sp).2 = sp := by
  unfold notarisation
  dsimp only
  split
  · rfl
  · rename_i hcheck
    split
    · rename_i hpass
      simp only [Bool.and_eq_true] at hpass
      obtain ⟨⟨hnotarized, hvalid⟩, hmatched⟩ := hpass
      have hjust : a.fJustCheck = false := by simpa [hmatched] using hcheck
      have hguard : ¬ (sp.notarizedHeight < buf.int32 (opoffset + 32) ∧
          buf.int32 (opoffset + 32) < a.height) := by
        intro hguard
        simp only [hmatched, Bool.not_true, Bool.false_and, Bool.or_false, Bool.false_or,
          nameOffset, if_true] at hnotarized hvalid
        simp [notarizes, hjust, hmatched, hnotarized, hvalid, hguard] at h
      unfold notarize
      dsimp only
      rw [if_neg hguard]
    · rfl

/-- An output that reaches no update leaves the state as it is. -/
theorem voutupdate_of_not_updates {a : VoutArgs} {buf : ScriptBuf} {t : TxScan}
    {sp : KomodoState W}
    (h : env.updates a buf (env.scanPubkey a buf t) sp.notarizedHeight = false) :
    (env.voutupdate a buf t sp).2 = sp := by
  unfold voutupdate
  unfold updates at h
  dsimp only at h ⊢
  split
  · rename_i hop
    unfold scanOpret
    rw [beq_iff_eq.2 hop, Bool.true_and] at h
    dsimp only
    split at h
    · cases h
    · rename_i hkv
      rw [if_neg hkv]
      split at h
      · rename_i hlen
        rw [if_pos hlen]
        exact env.notarisation_of_not_notarizes h
      · rename_i hlen
        rw [if_neg hlen]
        split
        · rename_i hmatched
          rw [hmatched, Bool.true_and] at h
          rw [env.otherOpret_eq, h]
          · rfl
          · rintro ⟨-, hj, hprice⟩
            exact hlen ⟨hj, by simp [nameOffset, hmatched, hprice]⟩
        · rfl
  · rfl

/-! ## Loops -/

/-- An output is copied into the buffer. -/
def isCopied (out : CTxOut) : Bool :=
  decide (4 ≤ out.scriptPubKey.length ∧ out.scriptPubKey.length ≤ 10001)

/-- The arguments for an output. -/
def voutArgs (b : BlockArgs) (i : Nat) (tx : CTransaction) (notarized : Bool) (mask : BitVec 64)
    (j : Nat) (out : CTxOut) : VoutArgs where
  fJustCheck := b.fJustCheck
  scriptlen := out.scriptPubKey.length
  height := b.height
  txhash := tx.hash
  i := i
  j := j
  value := (out.nValue % 2 ^ 64).toNat
  notarized := notarized
  signedmask := mask
  timestamp := b.tipTime

/-- One iteration of the output loop. -/
def voutStep (b : BlockArgs) (i : Nat) (tx : CTransaction) (notarized : Bool) (mask : BitVec 64)
    (j : Nat) (out : CTxOut) (t : TxScan) (s : LoopState W) : TxScan × LoopState W :=
  let buf := s.scriptbuf.memcpy out.scriptPubKey
  let r := env.voutupdate (voutArgs b i tx notarized mask j out) buf t s.sp
  (r.1, { s with
    sp := r.2
    scriptbuf := buf
    notarisations := if b.fJustCheck && r.1.notaryid == -2 then s.notarisations ++ [i]
      else s.notarisations })

theorem voutLoop_cons (b : BlockArgs) (i : Nat) (tx : CTransaction) (notarized : Bool)
    (mask : BitVec 64) (j : Nat) (out : CTxOut) (rest : List CTxOut) (t : TxScan)
    (s : LoopState W) : env.voutLoop b i tx notarized mask j (out :: rest) t s =
      if isCopied out then
        env.voutLoop b i tx notarized mask (j + 1) rest
          (env.voutStep b i tx notarized mask j out t s).1
          (env.voutStep b i tx notarized mask j out t s).2
      else env.voutLoop b i tx notarized mask (j + 1) rest t s := by
  simp only [isCopied, decide_eq_true_eq]
  rfl

/-- An output of a block reaches no update. -/
def QuietOut (b : BlockArgs) (i : Nat) (tx : CTransaction) (notarized : Bool) (mask : BitVec 64)
    (j : Nat) (out : CTxOut) (t : TxScan) (s : LoopState W) : Prop :=
  let a := voutArgs b i tx notarized mask j out
  let buf := s.scriptbuf.memcpy out.scriptPubKey
  env.updates a buf (env.scanPubkey a buf t) s.sp.notarizedHeight = false

/-- No output of a transaction reaches an update. -/
def QuietOuts (b : BlockArgs) (i : Nat) (tx : CTransaction) (notarized : Bool)
    (mask : BitVec 64) : Nat → List CTxOut → TxScan → LoopState W → Prop
  | _, [], _, _ => True
  | j, out :: rest, t, s =>
    if isCopied out then
      env.QuietOut b i tx notarized mask j out t s ∧
        QuietOuts b i tx notarized mask (j + 1) rest
          (env.voutStep b i tx notarized mask j out t s).1
          (env.voutStep b i tx notarized mask j out t s).2
    else QuietOuts b i tx notarized mask (j + 1) rest t s

/-- Quiet outputs leave the state as it is. -/
theorem voutLoop_of_quiet {b : BlockArgs} {i : Nat} {tx : CTransaction} {notarized : Bool}
    {mask : BitVec 64} {outs : List CTxOut} {j : Nat} {t : TxScan} {s : LoopState W}
    (h : env.QuietOuts b i tx notarized mask j outs t s) :
    (env.voutLoop b i tx notarized mask j outs t s).2.sp = s.sp := by
  induction outs generalizing j t s with
  | nil => rfl
  | cons out rest ih =>
    rw [voutLoop_cons]
    unfold QuietOuts at h
    split
    · rename_i hcopied
      rw [if_pos hcopied] at h
      rw [ih h.2]
      exact env.voutupdate_of_not_updates h.1
    · rename_i hcopied
      rw [if_neg hcopied] at h
      exact ih h

/-- The signers of a transaction, as the loop finds them. -/
def maskOf (b : BlockArgs) (i : Nat) (tx : CTransaction) (s : LoopState W) : BitVec 64 :=
  env.signedmask b.height s.notaries i tx

/-- Regtest simulates a notarisation of every seventh block. -/
def simulated (b : BlockArgs) : Bool := env.regtest && decide (b.height % 7 = 0)

/-- A transaction counts as notarised. -/
def notarizedTx (b : BlockArgs) (i : Nat) (tx : CTransaction) (s : LoopState W) : Bool :=
  env.isNotarized b.height s.notaries (env.maskOf b i tx s) || env.simulated b

/-- The state with a simulated notarisation. -/
def simulate (b : BlockArgs) (tx : CTransaction) (s : LoopState W) : LoopState W :=
  if env.simulated b then
    { s with sp := { s.sp with notarizedHeight := b.height, notarizedHash := b.blockHash
                               notarizedDesttxid := tx.hash } }
  else s

/-- The output loop of a transaction. -/
def scanTx (b : BlockArgs) (i : Nat) (tx : CTransaction) (s : LoopState W) :
    TxScan × LoopState W :=
  env.voutLoop b i tx (env.notarizedTx b i tx s) (env.maskOf b i tx s) 0 tx.vout {}
    (env.simulate b tx s)

/-- A transaction is taken for a ratification. -/
def ratifiesTx (b : BlockArgs) (i : Nat) (tx : CTransaction) (s : LoopState W) : Bool :=
  decide (b.fJustCheck = false ∧ env.notarizedTx b i tx s = true ∧
    (env.scanTx b i tx s).1.specialtx = true ∧ (env.scanTx b i tx s).1.isratification = true ∧
    2 < tx.vout.length)

theorem connectTx_eq (b : BlockArgs) (i : Nat) (tx : CTransaction) (s : LoopState W) :
    env.connectTx b i tx s = if env.ratifiesTx b i tx s then
      env.ratify b tx (env.maskOf b i tx s) (env.scanTx b i tx s).2
    else (env.scanTx b i tx s).2 := by
  simp only [ratifiesTx, decide_eq_true_eq]
  rfl

end IndexChain.Notary.KomodoEnv
