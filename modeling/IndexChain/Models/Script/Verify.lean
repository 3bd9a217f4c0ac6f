import Mathlib.Data.Nat.SuccPred
import IndexChain.Models.Script.Multisig
import IndexChain.Models.Script.Parts

/-!
# Verifying an input

`VerifyScript` evaluates the script of an input and then the one of the output that it spends.
For an output that pays to a script hash, the last element that the input pushes is evaluated
as a script too.
-/

namespace IndexChain

open IndexChain.Core

/-! ## Scripts of pushes -/

namespace CScript

/-- The loop of `IsPushOnly`. -/
def isPushOnlyFrom : Nat → CScript → Bool
  | 0, _ => true
  | fuel + 1, pc =>
    if pc = [] then true
    else match getOp pc with
      | none => false
      | some (opcode, _, pc') => if 0x60 < opcode then false else isPushOnlyFrom fuel pc'

/-- `IsPushOnly`. -/
def isPushOnly (s : CScript) : Bool := isPushOnlyFrom s.length s

/-- The operand that was read last, none when an instruction is no push. -/
def lastPushFrom : Nat → List UInt8 → CScript → Option (List UInt8)
  | 0, data, _ => some data
  | fuel + 1, data, pc =>
    if pc = [] then some data
    else match getOp pc with
      | none => none
      | some (opcode, data', pc') => if 0x60 < opcode then none else lastPushFrom fuel data' pc'

/-- `GetSigOpCount` for the script of an input. -/
def getSigOpCountIn (scriptPubKey scriptSig : CScript) : Nat :=
  if ¬ isPayToScriptHash scriptPubKey then getSigOpCount true scriptPubKey
  else match lastPushFrom scriptSig.length [] scriptSig with
    | none => 0
    | some data => getSigOpCount true data

end CScript

/-! ## Two scripts -/

/-- What `VerifyScript` fails with. -/
inductive VerifyFault where
  | script (err : ScriptError)
  /-- An `assert` does not hold. -/
  | assertion
  deriving DecidableEq, Repr

/-- `EvalCryptoConditionSig`. -/
def evalCryptoConditionSig (scriptSig : CScript) : Except ScriptError (List Valtype) :=
  match CScript.getOp scriptSig with
  | none => .error .badOpcode
  | some (opcode, vchPushValue, pc) => do
    require (¬ (opcode = 0 ∨ CScript.opPushdata4 < opcode)) .invalidStackOperation
    require (pc = []) .invalidStackOperation
    require (vchPushValue.length ≤ 2048) .pushSize
    return [vchPushValue]

/-- Whether a stack has an element on top that is true. -/
def topIsTrue (stack : List Valtype) : Bool := stack.head?.any castToBool

namespace ScriptEnv

variable (e : ScriptEnv)

/-- The stack that the script of an input leaves. -/
def evalSig (scriptSig scriptPubKey : CScript) : Except ScriptError (List Valtype) :=
  if e.isCryptoConditionsEnabled ∧ CScript.isPayToCryptoCondition scriptPubKey then
    evalCryptoConditionSig scriptSig
  else e.evalScript [] scriptSig

/-- A script that has to leave true. -/
def evalTrue (stack : List Valtype) (script : CScript) : Except ScriptError (List Valtype) := do
  let stack' ← e.evalScript stack script
  require (topIsTrue stack') .evalFalse
  return stack'

/-- The additional validation for an output that pays to a script hash, with the stack that the
script of the input has left. -/
def evalScriptHash (scriptSig : CScript) (stackCopy : List Valtype) :
    Except VerifyFault (List Valtype) := do
  require (CScript.isPushOnly scriptSig) (.script .sigPushonly)
  match stackCopy with
  | [] => .error .assertion
  | pubKeySerialized :: stack => (e.evalTrue stack pubKeySerialized).mapError .script

/-- The stack that is left at the end. -/
def evalRedeem (scriptSig scriptPubKey : CScript) (stackCopy stack : List Valtype) :
    Except VerifyFault (List Valtype) :=
  if e.flags.p2sh ∧ CScript.isPayToScriptHash scriptPubKey then
    e.evalScriptHash scriptSig stackCopy
  else .ok stack

/-- `VerifyScript`. -/
def verifyScript (scriptSig scriptPubKey : CScript) : Except VerifyFault Unit := do
  require (¬ (e.flags.sigpushonly ∧ ¬ CScript.isPushOnly scriptSig)) (.script .sigPushonly)
  let stackCopy ← (e.evalSig scriptSig scriptPubKey).mapError .script
  let stack ← (e.evalTrue stackCopy scriptPubKey).mapError .script
  let stack ← e.evalRedeem scriptSig scriptPubKey stackCopy stack
  if e.flags.cleanstack then do
    require e.flags.p2sh .assertion
    require (stack.length = 1) (.script .cleanstack)
  else .ok ()

end ScriptEnv

namespace ScriptEnv

variable {e : ScriptEnv} {script : CScript}

theorem evalTrue_spec {stack stack' : List Valtype} :
    e.evalTrue stack script = .ok stack' ↔
      e.evalScript stack script = .ok stack' ∧ topIsTrue stack' = true := by
  rw [evalTrue, except_bind_eq_ok]
  constructor
  · rintro ⟨s, hs, h⟩
    obtain ⟨htrue, h⟩ := require_bind_eq_ok.1 h
    cases h
    exact ⟨hs, htrue⟩
  · rintro ⟨hs, htrue⟩
    exact ⟨stack', hs, require_bind_eq_ok.2 ⟨htrue, rfl⟩⟩

/-- What `VerifyScript` has found when it succeeds. -/
theorem verifyScript_spec {scriptSig scriptPubKey : CScript} :
    e.verifyScript scriptSig scriptPubKey = .ok () ↔
      (e.flags.sigpushonly = true → CScript.isPushOnly scriptSig = true) ∧
      ∃ stackCopy stack final, e.evalSig scriptSig scriptPubKey = .ok stackCopy ∧
        e.evalScript stackCopy scriptPubKey = .ok stack ∧ topIsTrue stack = true ∧
        e.evalRedeem scriptSig scriptPubKey stackCopy stack = .ok final ∧
        (e.flags.cleanstack = true → e.flags.p2sh = true ∧ final.length = 1) := by
  have hclean : ∀ final : List Valtype, (if e.flags.cleanstack then do
      require e.flags.p2sh .assertion
      require (final.length = 1) (.script .cleanstack)
      else .ok () : Except VerifyFault Unit) = .ok () ↔
        (e.flags.cleanstack = true → e.flags.p2sh = true ∧ final.length = 1) := by
    intro final
    split_ifs with hflag
    · rw [require_bind_eq_ok, require_eq_ok, decide_eq_true_eq]
      exact ⟨fun h _ => h, fun h => h hflag⟩
    · exact iff_of_true rfl fun h => absurd h hflag
  rw [verifyScript, require_bind_eq_ok, except_bind_eq_ok]
  simp only [except_bind_eq_ok, mapError_eq_ok, hclean, evalTrue_spec, decide_eq_true_eq, not_and,
    not_not]
  refine and_congr_right fun _ => ?_
  constructor
  · rintro ⟨stackCopy, hcopy, stack, ⟨hstack, htrue⟩, final, hfinal, h⟩
    exact ⟨stackCopy, stack, final, hcopy, hstack, htrue, hfinal, h⟩
  · rintro ⟨stackCopy, stack, final, hcopy, hstack, htrue, hfinal, h⟩
    exact ⟨stackCopy, hcopy, stack, ⟨hstack, htrue⟩, final, hfinal, h⟩

/-! ## Single instructions -/

/-- A round of the loop for an instruction on the stacks that counts. -/
theorem step_op {opcode : UInt8} {op : ScriptOp} (hscript : scriptOpOf opcode = some op)
    (hhigh : 0x60 < opcode) (hcontrol : controlOps.lookup opcode = none)
    (hdisabled : opcode ∉ disabledOps) {t : ScriptStacks} (hcount : t.nOpCount < 201)
    {s : ScriptState} :
    e.step script ⟨t, []⟩ opcode [] = .ok s ↔ ∃ t',
      e.evalOp script { t with nOpCount := t.nOpCount + 1 } op = .ok t' ∧
        t'.stack.length + t'.altstack.length ≤ 1000 ∧ s = ⟨t', []⟩ := by
  have hpush : ¬ opcode ≤ CScript.opPushdata4 :=
    UInt8.not_le.2 (UInt8.lt_of_le_of_lt (by decide) hhigh)
  have hexec : ∀ u : ScriptStacks, e.execute script opcode [] ⟨u, []⟩ =
      e.evalOp script u op >>= fun t' => .ok ⟨t', []⟩ := by
    intro u
    simp only [execute, hcontrol, onStacks, if_neg hpush, hscript]
    rfl
  rw [step_spec, countOp_of_lt hhigh]
  constructor
  · rintro ⟨-, -, -, h, hsize⟩
    obtain ⟨t', ht, h⟩ := except_bind_eq_ok.1 ((hexec _).symm.trans h)
    cases h
    exact ⟨t', ht, hsize, rfl⟩
  · rintro ⟨t', ht, hsize, rfl⟩
    exact ⟨Nat.zero_le 520, .inr hcount, hdisabled,
      (hexec _).trans (except_bind_eq_ok.2 ⟨t', ht, rfl⟩), hsize⟩

/-- The push of a hash. -/
theorem step_hash {hash : Valtype} (hlength : hash.length = 20) {t : ScriptStacks}
    {s : ScriptState} :
    e.step script ⟨t, []⟩ 0x14 hash = .ok s ↔
      t.stack.length + t.altstack.length < 1000 ∧ s = ⟨t.withStack (hash :: t.stack), []⟩ := by
  have hminimal : checkMinimalPush hash 0x14 = true := by
    rcases hash with _ | ⟨b, _ | ⟨b', hash⟩⟩
    · cases hlength
    · cases hlength
    · simp [checkMinimalPush, hlength]
  have hexec : ∀ u : ScriptStacks, e.execute script 0x14 hash ⟨u, []⟩ =
      .ok ⟨u.withStack (hash :: u.stack), []⟩ := by
    intro u
    have hkeep : ¬ (e.flags.minimaldata = true ∧ ¬ checkMinimalPush hash 0x14 = true) :=
      fun h => h.2 hminimal
    unfold execute onStacks
    rw [if_neg hkeep]
    rfl
  have hlarger : ((t.withStack (hash :: t.stack)).stack.length +
      (t.withStack (hash :: t.stack)).altstack.length ≤ 1000) ↔
        t.stack.length + t.altstack.length < 1000 := by
    simp only [ScriptStacks.withStack, List.length_cons]
    omega
  rw [step_spec]
  constructor
  · rintro ⟨-, -, -, h, hsize⟩
    cases (hexec _).symm.trans h
    exact ⟨hlarger.1 hsize, rfl⟩
  · rintro ⟨hsize, rfl⟩
    exact ⟨hlength.le.trans (by decide), .inl (by decide), by decide, hexec _, hlarger.2 hsize⟩

/-- `OP_HASH160`. -/
theorem step_hash160 {stack : List Valtype} {n : Nat} (hcount : n < 201) {s : ScriptState} :
    e.step script ⟨⟨stack, [], n⟩, []⟩ 0xa9 [] = .ok s ↔ ∃ vch rest, stack = vch :: rest ∧
      rest.length < 1000 ∧ s = ⟨⟨(e.hash160 vch).toList :: rest, [], n + 1⟩, []⟩ := by
  rw [step_op (show scriptOpOf _ = some (.hash .opHash160) from rfl) (by decide) rfl (by decide)
    hcount]
  cases stack with
  | nil => simp [evalOp]
  | cons vch rest => simp [evalOp, hashOp, ScriptStacks.withStack]

/-- `OP_DUP`. -/
theorem step_dup {stack : List Valtype} {n : Nat} (hcount : n < 201) {s : ScriptState} :
    e.step script ⟨⟨stack, [], n⟩, []⟩ 0x76 [] = .ok s ↔ ∃ vch rest, stack = vch :: rest ∧
      rest.length + 1 < 1000 ∧ s = ⟨⟨vch :: vch :: rest, [], n + 1⟩, []⟩ := by
  rw [step_op (show scriptOpOf _ = some (.move .opDup) from rfl) (by decide) rfl (by decide)
    hcount]
  cases stack with
  | nil => simp [evalOp, stackOp]
  | cons vch rest => simp [evalOp, stackOp, ScriptStacks.withStack]

/-- `OP_EQUAL`. -/
theorem step_equal {stack : List Valtype} {n : Nat} (hcount : n < 201) {s : ScriptState} :
    e.step script ⟨⟨stack, [], n⟩, []⟩ 0x87 [] = .ok s ↔ ∃ vch2 vch1 rest,
      stack = vch2 :: vch1 :: rest ∧ rest.length < 1000 ∧
        s = ⟨⟨vchBool (vch1 = vch2) :: rest, [], n + 1⟩, []⟩ := by
  rw [step_op (show scriptOpOf _ = some (.opEqual false) from rfl) (by decide) rfl (by decide)
    hcount]
  rcases stack with _ | ⟨vch2, _ | ⟨vch1, rest⟩⟩
  · simp [evalOp]
  · simp [evalOp]
  · simp [evalOp, ScriptStacks.leave, ScriptStacks.withStack]

/-- `OP_EQUALVERIFY`. -/
theorem step_equalverify {stack : List Valtype} {n : Nat} (hcount : n < 201) {s : ScriptState} :
    e.step script ⟨⟨stack, [], n⟩, []⟩ 0x88 [] = .ok s ↔ ∃ vch rest,
      stack = vch :: vch :: rest ∧ rest.length ≤ 1000 ∧ s = ⟨⟨rest, [], n + 1⟩, []⟩ := by
  rw [step_op (show scriptOpOf _ = some (.opEqual true) from rfl) (by decide) rfl (by decide)
    hcount]
  rcases stack with _ | ⟨vch2, _ | ⟨vch1, rest⟩⟩
  · simp [evalOp]
  · simp [evalOp]
  · by_cases heq : vch1 = vch2
    · simp [evalOp, ScriptStacks.leave, ScriptStacks.withStack, heq]
    · simp [evalOp, ScriptStacks.leave, heq]

/-- `OP_CHECKSIG`. -/
theorem step_checksig {stack : List Valtype} {n : Nat} (hcount : n < 201) {s : ScriptState} :
    e.step script ⟨⟨stack, [], n⟩, []⟩ 0xac [] = .ok s ↔ ∃ vchPubKey vchSig rest fSuccess,
      stack = vchPubKey :: vchSig :: rest ∧ e.checkOne script vchSig vchPubKey = .ok fSuccess ∧
        rest.length < 1000 ∧ s = ⟨⟨vchBool fSuccess :: rest, [], n + 1⟩, []⟩ := by
  rw [step_op (show scriptOpOf _ = some (.opChecksig false) from rfl) (by decide) rfl (by decide)
    hcount]
  rcases stack with _ | ⟨vchPubKey, _ | ⟨vchSig, rest⟩⟩
  · simp [evalOp]
  · simp [evalOp]
  · cases hone : e.checkOne script vchSig vchPubKey with
    | error err => simp [evalOp, hone, bind, Except.bind]
    | ok fSuccess =>
      cases fSuccess <;>
        simp [evalOp, hone, ScriptStacks.leave, ScriptStacks.withStack, except_ok_bind]

/-! ## The standard scripts -/

/-- What is run for an output that pays to a script hash. -/
theorem runCode_scriptHash {hash : Valtype} (hlength : hash.length = 20) {stack : List Valtype}
    {s : ScriptState} :
    e.runCode script [(0xa9, []), (0x14, hash), (0x87, [])] (.start stack) = .ok s ↔
      ∃ redeem rest, stack = redeem :: rest ∧ rest.length + 2 ≤ 1000 ∧
        s = ⟨⟨vchBool ((e.hash160 redeem).toList = hash) :: rest, [], 2⟩, []⟩ := by
  simp only [runCode_cons, except_bind_eq_ok, ScriptState.start,
    step_hash160 (show 0 < 201 by decide)]
  constructor
  · rintro ⟨s₁, ⟨redeem, rest, rfl, -, rfl⟩, s₂, h₂, s₃, h₃, h⟩
    obtain ⟨hsize, rfl⟩ := (step_hash hlength).1 h₂
    obtain ⟨vch2, vch1, rest', heq, -, rfl⟩ := (step_equal (by simp)).1 h₃
    cases heq
    cases h
    exact ⟨redeem, rest, rfl, hsize, rfl⟩
  · rintro ⟨redeem, rest, rfl, hsize, rfl⟩
    exact ⟨_, ⟨redeem, rest, rfl, by omega, rfl⟩, _, (step_hash hlength).2 ⟨hsize, rfl⟩, _,
      (step_equal (by simp)).2 ⟨_, _, rest, rfl, by omega, rfl⟩, rfl⟩

/-- What is run for an output that pays to a key hash. -/
theorem runCode_keyHash {hash : Valtype} (hlength : hash.length = 20) {stack : List Valtype}
    {s : ScriptState} :
    e.runCode script [(0x76, []), (0xa9, []), (0x14, hash), (0x88, []), (0xac, [])]
        (.start stack) = .ok s ↔
      ∃ vchPubKey vchSig rest fSuccess, stack = vchPubKey :: vchSig :: rest ∧
        (e.hash160 vchPubKey).toList = hash ∧ rest.length + 4 ≤ 1000 ∧
        e.checkOne script vchSig vchPubKey = .ok fSuccess ∧
        s = ⟨⟨vchBool fSuccess :: rest, [], 4⟩, []⟩ := by
  simp only [runCode_cons, except_bind_eq_ok, ScriptState.start,
    step_dup (show 0 < 201 by decide)]
  constructor
  · rintro ⟨s₁, ⟨vchPubKey, rest, rfl, -, rfl⟩, s₂, h₂, s₃, h₃, s₄, h₄, s₅, h₅, h⟩
    obtain ⟨vch, rest₂, heq, -, rfl⟩ := (step_hash160 (by simp)).1 h₂
    cases heq
    obtain ⟨hsize, rfl⟩ := (step_hash hlength).1 h₃
    obtain ⟨vch, rest₄, heq, -, rfl⟩ := (step_equalverify (by simp)).1 h₄
    obtain ⟨rfl, heq⟩ := List.cons.inj heq
    obtain ⟨hhash, rfl⟩ := List.cons.inj heq
    obtain ⟨key, vchSig, rest₅, fSuccess, heq, hone, -, rfl⟩ := (step_checksig (by simp)).1 h₅
    cases heq
    cases h
    exact ⟨vchPubKey, vchSig, rest₅, fSuccess, rfl, hhash, hsize, hone, rfl⟩
  · rintro ⟨vchPubKey, vchSig, rest, fSuccess, rfl, rfl, hsize, hone, rfl⟩
    exact ⟨_, ⟨vchPubKey, _, rfl, by rw [List.length_cons]; omega, rfl⟩, _,
      (step_hash160 (by simp)).2 ⟨vchPubKey, _, rfl, by simp; omega, rfl⟩, _,
      (step_hash hlength).2 ⟨hsize, rfl⟩, _,
      (step_equalverify (by simp)).2 ⟨_, _, rfl, by simp; omega, rfl⟩, _,
      (step_checksig (by simp)).2 ⟨_, _, rest, fSuccess, rfl, hone, by omega, rfl⟩, rfl⟩

theorem reads_keyHash (id : BitVec 160) :
    CScript.Reads (StandardEnv.getScriptForDestination (.keyID id))
      [(0x76, []), (0xa9, []), (0x14, leBytes 20 id.toNat), (0x88, []), (0xac, [])] :=
  .cons rfl (.cons rfl (.cons rfl (.cons rfl (.cons rfl .nil))))

theorem checkOne_eq_true {vchSig vchPubKey : Valtype} :
    e.checkOne script vchSig vchPubKey = .ok true ↔
      e.checkSignatureEncoding vchSig = .ok () ∧ e.checkPubKeyEncoding vchPubKey = .ok () ∧
        e.signs script vchSig vchPubKey = true := by
  rw [checkOne, unit_bind_eq_ok, unit_bind_eq_ok]
  exact and_congr_right fun _ => and_congr_right fun _ =>
    ⟨fun h => Except.ok.inj h, fun h => congrArg Except.ok h⟩

end ScriptEnv

open ScriptEnv StandardEnv

/-- An output that pays to a key hash is spent by a key with this hash and a signature by it, and
by nothing else. -/
theorem verifyScript_keyHash (e : ScriptEnv) (scriptSig : CScript) (id : BitVec 160) :
    e.verifyScript scriptSig (getScriptForDestination (.keyID id)) = .ok () ↔
      (e.flags.sigpushonly = true → CScript.isPushOnly scriptSig = true) ∧
      ∃ vchPubKey vchSig rest, e.evalScript [] scriptSig = .ok (vchPubKey :: vchSig :: rest) ∧
        (e.hash160 vchPubKey).toList = leBytes 20 id.toNat ∧
        e.checkSignatureEncoding vchSig = .ok () ∧ e.checkPubKeyEncoding vchPubKey = .ok () ∧
        e.signs (getScriptForDestination (.keyID id)) vchSig vchPubKey = true ∧
        rest.length + 4 ≤ 1000 ∧
        (e.flags.cleanstack = true → e.flags.p2sh = true ∧ rest = []) := by
  have hsig : e.evalSig scriptSig (getScriptForDestination (.keyID id)) =
      e.evalScript [] scriptSig := if_neg fun h => Bool.false_ne_true h.2
  have hredeem : ∀ stackCopy stack : List Valtype,
      e.evalRedeem scriptSig (getScriptForDestination (.keyID id)) stackCopy stack = .ok stack :=
    fun _ _ => if_neg fun h => Bool.false_ne_true h.2
  have htrue : ∀ (fSuccess : Bool) (rest : List Valtype),
      topIsTrue (vchBool fSuccess :: rest) = true ↔ fSuccess = true := by
    intro fSuccess rest
    cases fSuccess
    · exact ⟨fun h => h, fun h => h⟩
    · exact ⟨fun _ => rfl, fun _ => rfl⟩
  rw [verifyScript_spec, hsig]
  simp only [hredeem]
  refine and_congr_right fun _ => ?_
  constructor
  · rintro ⟨stackCopy, stack, final, hcopy, hstack, htop, hfinal, hclean⟩
    cases hfinal
    obtain ⟨-, s, hrun, -, rfl⟩ := (evalScript_of_reads (reads_keyHash id)).1 hstack
    obtain ⟨vchPubKey, vchSig, rest, fSuccess, rfl, hhash, hsize, hone, rfl⟩ :=
      (runCode_keyHash (leBytes_length 20 id.toNat)).1 hrun
    obtain rfl := (htrue fSuccess rest).1 htop
    obtain ⟨hsigEncoding, hkeyEncoding, hsigns⟩ := checkOne_eq_true.1 hone
    refine ⟨vchPubKey, vchSig, rest, hcopy, hhash, hsigEncoding, hkeyEncoding, hsigns, hsize,
      fun hflag => ?_⟩
    exact ⟨(hclean hflag).1, List.length_eq_zero_iff.1 (Nat.succ.inj (hclean hflag).2)⟩
  · rintro ⟨vchPubKey, vchSig, rest, hcopy, hhash, hsigEncoding, hkeyEncoding, hsigns, hsize,
      hclean⟩
    have hone := checkOne_eq_true.2 ⟨hsigEncoding, hkeyEncoding, hsigns⟩
    have hrun := (runCode_keyHash (leBytes_length 20 id.toNat)).2
      ⟨vchPubKey, vchSig, rest, true, rfl, hhash, hsize, hone, rfl⟩
    refine ⟨_, _, _, hcopy, (evalScript_of_reads (reads_keyHash id)).2
      ⟨(by decide : 25 ≤ 10000), _, hrun, rfl, rfl⟩, (htrue true rest).2 rfl, rfl, fun hflag => ?_⟩
    obtain ⟨hp2sh, rfl⟩ := hclean hflag
    exact ⟨hp2sh, rfl⟩

end IndexChain
