import IndexChain.Models.Script.Verify

/-!
# Outputs that pay to a script hash

The script that `VerifyScript` evaluates for such an output is the last element that the input
pushes. `GetSigOpCount` reads it from the input without evaluating anything, and still counts
the signatures that are checked.
-/

namespace IndexChain

open IndexChain.Core

namespace CScript

/-- A script that pays to a script hash is read as three instructions. -/
theorem reads_of_isPayToScriptHash {s : CScript} (h : isPayToScriptHash s = true) :
    ((s.drop 2).take 20).length = 20 ∧
      Reads s [(0xa9, []), (0x14, (s.drop 2).take 20), (0x87, [])] := by
  obtain ⟨hlength, h0, h1, h22⟩ := of_decide_eq_true h
  have hhash : ((s.drop 2).take 20).length = 20 := by
    rw [List.length_take, List.length_drop, hlength]
    rfl
  refine ⟨hhash, ?_⟩
  obtain ⟨b0, b1, rest, rfl⟩ : ∃ b0 b1 rest, s = b0 :: b1 :: rest := by
    rcases s with _ | ⟨b0, _ | ⟨b1, rest⟩⟩
    · cases hlength
    · cases hlength
    · exact ⟨b0, b1, rest, rfl⟩
  cases h0
  cases h1
  have hlast : rest.drop 20 = [0x87] := by
    have hone : (rest.drop 20).length = 1 := by
      simp only [List.length_cons] at hlength
      rw [List.length_drop]
      omega
    obtain ⟨b, hb⟩ := List.length_eq_one_iff.1 hone
    have hget : rest[20]? = some b := by
      rw [← List.head?_drop, hb]
      rfl
    rw [hb, Option.some.inj (hget.symm.trans h22)]
  have hpush : getOp (0x14 :: rest) = some (0x14, rest.take 20, [0x87]) := by
    have hlong : ¬ rest.length < 20 := by
      simp only [List.length_cons] at hlength
      omega
    rw [← hlast]
    simp [getOp, opPushdata4, hlong]
  exact .cons rfl (.cons hpush (.cons rfl .nil))

/-! ## Scripts of pushes -/

theorem isPushOnlyFrom_eq (fuel : Nat) (data : List UInt8) (pc : CScript) :
    isPushOnlyFrom fuel pc = (lastPushFrom fuel data pc).isSome := by
  induction fuel generalizing data pc with
  | zero => rfl
  | succ fuel ih =>
    rw [isPushOnlyFrom, lastPushFrom]
    split_ifs
    · rfl
    · cases getOp pc with
      | none => rfl
      | some r =>
        obtain ⟨opcode, data', pc'⟩ := r
        dsimp only
        split_ifs
        · rfl
        · exact ih data' pc'

theorem operand_of_getOp {s pc : CScript} {opcode : UInt8} {data : List UInt8}
    (h : getOp s = some (opcode, data, pc)) (hhigh : opPushdata4 < opcode) : data = [] := by
  cases s with
  | nil => cases h
  | cons b s =>
    simp only [getOp] at h
    split_ifs at h with hb <;> cases h
    · rfl
    all_goals exact absurd hhigh hb

end CScript

/-! ## The script that is evaluated last -/

namespace ScriptEnv

variable {e : ScriptEnv} {script : CScript}

/-- What is on top after some pushes counts for as much as the operand of the last one. -/
def Pushed (data : Valtype) (s : ScriptState) : Prop :=
  s.vfExec = [] ∧ ∀ top rest, s.stack = top :: rest →
    CScript.getSigOpCount true top = CScript.getSigOpCount true data

/-- The instructions up to `OP_16` after the pushes. -/
theorem number_cases {opcode : UInt8} (hhigh : CScript.opPushdata4 < opcode)
    (hlow : opcode ≤ 0x60) :
    scriptOpOf opcode = none ∨
      (scriptOpOf opcode = some (.pushNumber ((opcode.toNat : Int) - 0x50)) ∧
        CScript.getSigOpCount true (CScriptNum.serialize ((opcode.toNat : Int) - 0x50)) = 0) := by
  have hall : ∀ b : BitVec 8, CScript.opPushdata4 < UInt8.ofBitVec b → UInt8.ofBitVec b ≤ 0x60 →
      scriptOpOf (UInt8.ofBitVec b) = none ∨
      (scriptOpOf (UInt8.ofBitVec b) =
          some (.pushNumber (((UInt8.ofBitVec b).toNat : Int) - 0x50)) ∧
        CScript.getSigOpCount true
          (CScriptNum.serialize (((UInt8.ofBitVec b).toNat : Int) - 0x50)) = 0) := by
    decide
  exact hall opcode.toBitVec hhigh hlow

/-- What a push leaves on top is its data. -/
theorem Pushed.step {s s' : ScriptState} {data data' : Valtype} {pc pc' : CScript}
    {opcode : UInt8} (h : Pushed data s) (hread : CScript.getOp pc = some (opcode, data', pc'))
    (hlow : opcode ≤ 0x60) (hstep : e.step script s opcode data' = .ok s') : Pushed data' s' := by
  have hcontrol : controlOps.lookup opcode = none := by
    cases hop : controlOps.lookup opcode with
    | none => rfl
    | some op => exact absurd (lt_of_control hop) (UInt8.not_lt.2 hlow)
  obtain ⟨t, vfExec⟩ := s
  obtain ⟨rfl, -⟩ := h
  obtain ⟨-, -, -, hstep, -⟩ := step_spec.1 hstep
  simp only [execute, hcontrol] at hstep
  obtain ⟨u, hu, hstep⟩ := except_bind_eq_ok.1 hstep
  cases hstep
  refine ⟨rfl, fun top rest htop => ?_⟩
  unfold onStacks at hu
  split_ifs at hu with hpush
  · cases hu
    cases htop
    rfl
  · have hhigh := UInt8.not_le.1 hpush
    obtain rfl := CScript.operand_of_getOp hread hhigh
    obtain hop | ⟨hop, hcount⟩ := number_cases hhigh hlow
    · rw [hop] at hu
      cases hu
    · rw [hop] at hu
      cases hu
      cases htop
      exact hcount

/-- A run of pushes leaves the last operand on top. -/
theorem Pushed.evalLoop {fuel : Nat} {pc : CScript} {s s' : ScriptState} {data data' : Valtype}
    (h : Pushed data s) (hlast : CScript.lastPushFrom fuel data pc = some data')
    (hloop : e.evalLoop script fuel pc s = .ok s') : Pushed data' s' := by
  induction fuel generalizing pc s data with
  | zero =>
    cases hlast
    cases hloop
    exact h
  | succ fuel ih =>
    rw [CScript.lastPushFrom] at hlast
    rw [ScriptEnv.evalLoop] at hloop
    split_ifs at hlast hloop with hnil
    · cases hlast
      cases hloop
      exact h
    · cases hread : CScript.getOp pc with
      | none =>
        rw [hread] at hlast
        cases hlast
      | some r =>
        obtain ⟨opcode, data'', pc'⟩ := r
        rw [hread] at hlast hloop
        dsimp only at hlast
        split_ifs at hlast with hhigh
        obtain ⟨t, ht, hloop⟩ := except_bind_eq_ok.1 hloop
        exact ih (h.step hread (UInt8.not_lt.1 hhigh) ht) hlast hloop

/-- `GetSigOpCount` counts for the script that is evaluated last. -/
theorem getSigOpCountIn_eq {scriptSig scriptPubKey : CScript}
    (hpay : CScript.isPayToScriptHash scriptPubKey = true)
    (hpush : CScript.isPushOnly scriptSig = true) {redeem : Valtype} {rest : List Valtype}
    (heval : e.evalScript [] scriptSig = .ok (redeem :: rest)) :
    CScript.getSigOpCountIn scriptPubKey scriptSig = CScript.getSigOpCount true redeem := by
  rw [CScript.isPushOnly, CScript.isPushOnlyFrom_eq _ []] at hpush
  obtain ⟨data, hlast⟩ := Option.isSome_iff_exists.1 hpush
  obtain ⟨-, heval⟩ := require_bind_eq_ok.1 heval
  obtain ⟨s, hloop, heval⟩ := except_bind_eq_ok.1 heval
  obtain ⟨-, heval⟩ := require_bind_eq_ok.1 heval
  have hstart : Pushed [] (.start []) := ⟨rfl, fun top rest h => by cases h⟩
  have hpushed := hstart.evalLoop hlast hloop
  rw [CScript.getSigOpCountIn, if_neg (not_not_intro hpay), hlast]
  exact (hpushed.2 redeem rest (Except.ok.inj heval)).symm

theorem evalScriptHash_spec {scriptSig : CScript} {stackCopy final : List Valtype} :
    e.evalScriptHash scriptSig stackCopy = .ok final ↔
      CScript.isPushOnly scriptSig = true ∧ ∃ redeem rest, stackCopy = redeem :: rest ∧
        e.evalScript rest redeem = .ok final ∧ topIsTrue final = true := by
  unfold evalScriptHash
  rw [require_bind_eq_ok]
  refine and_congr_right fun _ => ?_
  cases stackCopy with
  | nil => simp
  | cons redeem rest => simp [mapError_eq_ok, evalTrue_spec]

theorem evalSig_scriptHash {scriptSig scriptPubKey : CScript}
    (hpay : CScript.isPayToScriptHash scriptPubKey = true) :
    e.evalSig scriptSig scriptPubKey = e.evalScript [] scriptSig := by
  obtain ⟨-, hreads⟩ := CScript.reads_of_isPayToScriptHash hpay
  have hcondition : CScript.isPayToCryptoCondition scriptPubKey = false := by
    cases hreads with
    | cons read tail =>
      rw [CScript.isPayToCryptoCondition, CScript.payToCryptoCondition, read]
      rfl
  exact if_neg fun h => Bool.false_ne_true (hcondition.symm.trans h.2)

/-- The script for a hash leaves whether the element on top has this hash. -/
theorem evalScript_scriptHash {scriptPubKey : CScript}
    (hpay : CScript.isPayToScriptHash scriptPubKey = true) {stack stack' : List Valtype} :
    e.evalScript stack scriptPubKey = .ok stack' ↔ ∃ redeem rest, stack = redeem :: rest ∧
      rest.length + 2 ≤ 1000 ∧
      stack' = vchBool ((e.hash160 redeem).toList = (scriptPubKey.drop 2).take 20) :: rest := by
  obtain ⟨hhash, hreads⟩ := CScript.reads_of_isPayToScriptHash hpay
  have hlength : scriptPubKey.length ≤ 10000 := by
    rw [(of_decide_eq_true hpay).1]
    decide
  rw [evalScript_of_reads hreads]
  constructor
  · rintro ⟨-, s, hrun, -, rfl⟩
    obtain ⟨redeem, rest, rfl, hsize, rfl⟩ := (runCode_scriptHash hhash).1 hrun
    exact ⟨redeem, rest, rfl, hsize, rfl⟩
  · rintro ⟨redeem, rest, rfl, hsize, rfl⟩
    exact ⟨hlength, _, (runCode_scriptHash hhash).2 ⟨redeem, rest, rfl, hsize, rfl⟩, rfl, rfl⟩

theorem topIsTrue_vchBool (b : Bool) (rest : List Valtype) :
    topIsTrue (vchBool b :: rest) = b := by
  cases b <;> rfl

end ScriptEnv

open ScriptEnv

/-- The signatures that are checked for an output are no more than `GetSigOpCount` says for it
and the script of the input, which it finds without an evaluation. For a script hash these are
the signatures of the script with this hash. -/
theorem signatures_counted (e : ScriptEnv) (scriptSig scriptPubKey : CScript) :
    (CScript.isPayToScriptHash scriptPubKey = false → ∀ stack visits pc s,
      e.Ran scriptPubKey stack visits pc s →
        e.checksUpTo scriptPubKey visits pc s ≤
          CScript.getSigOpCountIn scriptPubKey scriptSig) ∧
    (CScript.isPayToScriptHash scriptPubKey = true → CScript.isPushOnly scriptSig = true →
      ∀ redeem rest, e.evalScript [] scriptSig = .ok (redeem :: rest) → ∀ visits pc s,
        e.Ran redeem rest visits pc s →
          e.checksUpTo redeem visits pc s ≤ CScript.getSigOpCountIn scriptPubKey scriptSig) := by
  constructor
  · intro hpay stack visits pc s hran
    rw [CScript.getSigOpCountIn, if_pos (ne_true_of_eq_false hpay)]
    exact hran.checksUpTo_le
  · intro hpay hpush redeem rest heval visits pc s hran
    rw [getSigOpCountIn_eq hpay hpush heval]
    exact hran.checksUpTo_le

/-- One signature is checked at most. -/
theorem signatures_counted_one :
    ∀ visits pc s, SampleScript.env.Ran [0x00, 0x00, 0xac] [] visits pc s →
      SampleScript.env.checksUpTo [0x00, 0x00, 0xac] visits pc s ≤ 1 :=
  fun visits pc s hran => ((signatures_counted SampleScript.env [0x03, 0x00, 0x00, 0xac]
    ([0xa9, 0x14, 0x00, 0x00, 0xac] ++ List.replicate 17 0 ++ [0x87])).2
    (by decide) rfl [0x00, 0x00, 0xac] [] rfl visits pc s hran).trans (by decide)

/-- An output that pays to a script hash is spent by pushes of which the last one is a script
with this hash, which leaves true with the others as its stack, and by nothing else. -/
theorem verifyScript_scriptHash (e : ScriptEnv) (scriptSig : CScript) {scriptPubKey : CScript}
    (hpay : CScript.isPayToScriptHash scriptPubKey = true) (hp2sh : e.flags.p2sh = true) :
    e.verifyScript scriptSig scriptPubKey = .ok () ↔
      CScript.isPushOnly scriptSig = true ∧
      ∃ redeem rest final, e.evalScript [] scriptSig = .ok (redeem :: rest) ∧
        (e.hash160 redeem).toList = (scriptPubKey.drop 2).take 20 ∧ rest.length + 2 ≤ 1000 ∧
        e.evalScript rest redeem = .ok final ∧ topIsTrue final = true ∧
        (e.flags.cleanstack = true → final.length = 1) := by
  have hredeem : ∀ stackCopy stack : List Valtype,
      e.evalRedeem scriptSig scriptPubKey stackCopy stack = e.evalScriptHash scriptSig stackCopy :=
    fun _ _ => if_pos ⟨hp2sh, hpay⟩
  rw [verifyScript_spec, evalSig_scriptHash hpay]
  simp only [hredeem]
  constructor
  · rintro ⟨-, stackCopy, stack, final, hcopy, hstack, htop, hfinal, hclean⟩
    obtain ⟨redeem, rest, rfl, hsize, rfl⟩ := (evalScript_scriptHash hpay).1 hstack
    obtain ⟨hpush, redeem, rest, heq, heval, htrue⟩ := evalScriptHash_spec.1 hfinal
    cases heq
    rw [topIsTrue_vchBool, decide_eq_true_eq] at htop
    exact ⟨hpush, redeem, rest, final, hcopy, htop, hsize, heval, htrue,
      fun hflag => (hclean hflag).2⟩
  · rintro ⟨hpush, redeem, rest, final, hcopy, hhash, hsize, heval, htrue, hclean⟩
    refine ⟨fun _ => hpush, redeem :: rest, _, final, hcopy,
      (evalScript_scriptHash hpay).2 ⟨redeem, rest, rfl, hsize, rfl⟩, ?_,
      evalScriptHash_spec.2 ⟨hpush, redeem, rest, rfl, heval, htrue⟩,
      fun hflag => ⟨hp2sh, hclean hflag⟩⟩
    rw [topIsTrue_vchBool, decide_eq_true_eq]
    exact hhash

/-- The script behind the hash is `OP_TRUE`. -/
theorem verifyScript_scriptHash_true :
    SampleScript.env.verifyScript [0x01, 0x51]
      ([0xa9, 0x14, 0x51] ++ List.replicate 19 0 ++ [0x87]) = .ok () :=
  (verifyScript_scriptHash SampleScript.env [0x01, 0x51] (by decide) rfl).2
    ⟨rfl, [0x51], [], [[1]], rfl, rfl, by decide, rfl, rfl, fun _ => rfl⟩

/-! ## Assertions -/

theorem require_ne_assertion (b : Bool) (err : ScriptError) :
    require b (VerifyFault.script err) ≠ .error .assertion := by
  intro h
  cases b <;> cases h

theorem mapError_ne_assertion {α : Type} (x : Except ScriptError α) :
    x.mapError VerifyFault.script ≠ .error .assertion := by
  intro h
  cases x <;> cases h

/-- An element is there when the script for a hash was evaluated. -/
theorem evalRedeem_ne_assertion {e : ScriptEnv} {scriptSig scriptPubKey : CScript}
    {stackCopy stack : List Valtype} (h : e.evalScript stackCopy scriptPubKey = .ok stack) :
    e.evalRedeem scriptSig scriptPubKey stackCopy stack ≠ .error .assertion := by
  unfold evalRedeem
  split_ifs with hpay
  · obtain ⟨redeem, rest, rfl, -⟩ := (evalScript_scriptHash hpay.2).1 h
    unfold evalScriptHash
    rw [Ne, except_bind_eq_error]
    rintro (h | ⟨u, -, h⟩)
    · exact require_ne_assertion _ _ h
    · exact mapError_ne_assertion _ h
  · intro h
    cases h

/-- An assertion of `VerifyScript` fails just when clean stacks are demanded without script
hashes, for two scripts that leave true. The one about an empty stack never does. -/
theorem verifyScript_assertion_iff (e : ScriptEnv) (scriptSig scriptPubKey : CScript) :
    e.verifyScript scriptSig scriptPubKey = .error .assertion ↔
      e.flags.cleanstack = true ∧ e.flags.p2sh = false ∧
      (e.flags.sigpushonly = true → CScript.isPushOnly scriptSig = true) ∧
      ∃ stackCopy stack, e.evalSig scriptSig scriptPubKey = .ok stackCopy ∧
        e.evalScript stackCopy scriptPubKey = .ok stack ∧ topIsTrue stack = true := by
  have hclean : ∀ final : List Valtype, (if e.flags.cleanstack then do
      require e.flags.p2sh .assertion
      require (final.length = 1) (.script .cleanstack)
      else .ok () : Except VerifyFault Unit) = .error .assertion ↔
        e.flags.cleanstack = true ∧ e.flags.p2sh = false := by
    intro final
    cases e.flags.cleanstack with
    | false => simp
    | true =>
      cases e.flags.p2sh with
      | false => exact iff_of_true rfl ⟨rfl, rfl⟩
      | true => exact iff_of_false (require_ne_assertion _ _) fun h => by cases h.2
  unfold verifyScript
  simp only [except_bind_eq_error, mapError_eq_ok, hclean, evalTrue_spec, require_eq_ok,
    require_ne_assertion, mapError_ne_assertion, false_or, decide_eq_true_eq, not_and, not_not]
  constructor
  · rintro ⟨-, hpush, stackCopy, hcopy, stack, ⟨hstack, htrue⟩, h | ⟨final, -, hflags⟩⟩
    · exact absurd h (evalRedeem_ne_assertion hstack)
    · exact ⟨hflags.1, hflags.2, hpush, stackCopy, stack, hcopy, hstack, htrue⟩
  · rintro ⟨hflag, hp2sh, hpush, stackCopy, stack, hcopy, hstack, htrue⟩
    have hredeem : e.evalRedeem scriptSig scriptPubKey stackCopy stack = .ok stack :=
      if_neg fun h => by rw [hp2sh] at h; cases h.1
    exact ⟨(), hpush, stackCopy, hcopy, stack, ⟨hstack, htrue⟩, .inr ⟨stack, hredeem, hflag, hp2sh⟩⟩

end IndexChain
