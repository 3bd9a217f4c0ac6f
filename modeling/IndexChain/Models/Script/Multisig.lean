import IndexChain.Core.OrderedMatch
import IndexChain.Models.Script.Limits

/-!
# Multisignatures

`OP_CHECKMULTISIG` goes through the keys once, and gives every key to the first signature that
is left. It succeeds just when the signatures belong to some of the keys in the same order. The
number of signatures that a script checks is bounded by `GetSigOpCount`, which looks at its
instructions only.
-/

namespace IndexChain

open IndexChain.Core

namespace ScriptEnv

variable {e : ScriptEnv} {script : CScript}

/-! ## The loop -/

/-- Whether a signature is one by a key. -/
def signs (e : ScriptEnv) (script : CScript) (vchSig vchPubKey : Valtype) : Bool :=
  e.checker.checkSig vchSig vchPubKey script e.consensusBranchId

theorem checkOne_eq {vchSig vchPubKey : Valtype} (hsig : e.checkSignatureEncoding vchSig = .ok ())
    (hkey : e.checkPubKeyEncoding vchPubKey = .ok ()) :
    e.checkOne script vchSig vchPubKey = .ok (e.signs script vchSig vchPubKey) := by
  rw [checkOne, hsig, except_ok_bind, hkey, except_ok_bind]
  rfl

/-- The loop finds an ordered match when there is one. -/
theorem checkMultisig_spec {sigs keys : List Valtype}
    (hsigs : ∀ sig ∈ sigs, e.checkSignatureEncoding sig = .ok ())
    (hkeys : ∀ key ∈ keys, e.checkPubKeyEncoding key = .ok ()) (hle : sigs.length ≤ keys.length) :
    ∃ fSuccess, e.checkMultisig script sigs keys = .ok fSuccess ∧
      (fSuccess = true ↔ OrderedMatch (e.signs script) sigs keys) := by
  induction keys generalizing sigs with
  | nil =>
    obtain rfl := List.length_eq_zero_iff.1 (Nat.le_zero.1 hle)
    exact ⟨true, rfl, iff_of_true rfl (.nil [])⟩
  | cons vchPubKey keys ih =>
    cases sigs with
    | nil => exact ⟨true, rfl, iff_of_true rfl (.nil _)⟩
    | cons vchSig sigs =>
      have hone : e.checkOne script vchSig vchPubKey = .ok (e.signs script vchSig vchPubKey) :=
        checkOne_eq (hsigs vchSig List.mem_cons_self) (hkeys vchPubKey List.mem_cons_self)
      -- the signatures that are left for the keys that are left
      have hnext : ∀ left, (∀ sig ∈ left, sig ∈ vchSig :: sigs) →
          ∃ fSuccess, (if keys.length < left.length then .ok false
            else e.checkMultisig script left keys) = .ok fSuccess ∧
            (fSuccess = true ↔ OrderedMatch (e.signs script) left keys) := by
        intro left hleft
        split_ifs with hshort
        · refine ⟨false, rfl, iff_of_false Bool.false_ne_true fun hmatch => ?_⟩
          exact Nat.not_le.2 hshort hmatch.length_le
        · exact ih (fun sig hsig => hsigs sig (hleft sig hsig))
            (fun key hkey => hkeys key (List.mem_cons_of_mem _ hkey)) (Nat.not_lt.1 hshort)
      rw [checkMultisig, hone, except_ok_bind]
      cases hfits : e.signs script vchSig vchPubKey with
      | true =>
        rw [orderedMatch_of_fits hfits]
        exact hnext sigs fun sig hsig => List.mem_cons_of_mem _ hsig
      | false =>
        rw [orderedMatch_of_not_fits hfits]
        exact hnext (vchSig :: sigs) fun sig hsig => hsig

/-- `OP_CHECKMULTISIG` leaves true just when the signatures belong to keys in the same order. -/
theorem multisig_ordered {s : ScriptStacks} {args : MultisigArgs} {vchKeys vchSigs : Valtype}
    (hstack : s.stack =
      vchKeys :: (args.keys ++ vchSigs :: (args.sigs ++ args.dummy :: args.below)))
    (hkeys : e.number vchKeys = .ok args.keys.length)
    (hsigs : e.number vchSigs = .ok args.sigs.length)
    (hmost : args.keys.length ≤ 20) (hle : args.sigs.length ≤ args.keys.length)
    (hcount : s.nOpCount + args.keys.length ≤ 201)
    (hdummy : e.flags.nulldummy = true → args.dummy = [])
    (hsigEncoding : ∀ sig ∈ args.sigs, e.checkSignatureEncoding sig = .ok ())
    (hkeyEncoding : ∀ key ∈ args.keys, e.checkPubKeyEncoding key = .ok ()) :
    ∃ fSuccess, (fSuccess = true ↔ OrderedMatch (e.signs script) args.sigs args.keys) ∧
      e.evalOp script s (.opCheckmultisig false) = .ok
        ⟨vchBool fSuccess :: args.below, s.altstack, s.nOpCount + args.keys.length⟩ := by
  have hargs : e.multisigArgs s = .ok (args, s.nOpCount + args.keys.length) :=
    multisigArgs_spec.2 ⟨vchKeys, vchSigs, hstack, hkeys, hsigs, hmost, hle, rfl, hcount⟩
  obtain ⟨fSuccess, hloop, hmatch⟩ := checkMultisig_spec hsigEncoding hkeyEncoding hle
  refine ⟨fSuccess, hmatch, ?_⟩
  have hnull : decide (¬ (e.flags.nulldummy = true ∧ args.dummy ≠ [])) = true :=
    decide_eq_true fun h => h.2 (hdummy h.1)
  rw [evalOp, evalMultisig, hargs, except_ok_bind]
  simp only [hloop, except_ok_bind]
  rw [require_bind_eq_ok]
  exact ⟨hnull, rfl⟩

/-- One signature and two keys. -/
theorem multisig_ordered_one :
    ∃ fSuccess, (fSuccess = true ↔
        OrderedMatch (SampleScript.env.signs []) [[]] [[0x03], []]) ∧
      SampleScript.env.evalOp [] ⟨[[2], [0x03], [], [1], [], []], [], 0⟩ (.opCheckmultisig false) =
        .ok ⟨[vchBool fSuccess], [], 2⟩ :=
  @multisig_ordered SampleScript.env [] ⟨[[2], [0x03], [], [1], [], []], [], 0⟩
    ⟨[[]], [[0x03], []], [], []⟩ [2] [1] rfl rfl rfl (by decide) (by decide) (by decide)
    (fun _ => rfl) (by decide) (by decide)

/-! ## How many signatures are checked -/

/-- The calls of `CheckSig` that one test of a signature makes. -/
def oneCalls (e : ScriptEnv) (script : CScript) (vchSig vchPubKey : Valtype) : Nat :=
  if (e.checkOne script vchSig vchPubKey).isOk then 1 else 0

/-- The calls of `CheckSig` that the loop of `OP_CHECKMULTISIG` makes. -/
def multisigCalls (e : ScriptEnv) (script : CScript) : List Valtype → List Valtype → Nat
  | [], _ => 0
  | _ :: _, [] => 0
  | vchSig :: sigs, vchPubKey :: keys =>
    match e.checkOne script vchSig vchPubKey with
    | .error _ => 0
    | .ok fOk =>
      let left := if fOk then sigs else vchSig :: sigs
      1 + if keys.length < left.length then 0 else multisigCalls e script left keys

/-- The calls of `CheckSig` that an instruction makes. -/
def sigCalls (e : ScriptEnv) (script : CScript) (v : Visit) : Nat :=
  if v.state.fExec ∧ countOp v.opcode v.state.nOpCount ≤ 201 then match scriptOpOf v.opcode with
    | some (.opChecksig _) => match v.state.stack with
      | vchPubKey :: vchSig :: _ => e.oneCalls script vchSig vchPubKey
      | _ => 0
    | some (.opCheckmultisig _) =>
      match e.multisigArgs { v.state.toScriptStacks with
          nOpCount := countOp v.opcode v.state.nOpCount } with
      | .ok (args, _) => e.multisigCalls script args.sigs args.keys
      | .error _ => 0
    | _ => 0
  else 0

end ScriptEnv

namespace CScript

/-- What an instruction counts for in `GetSigOpCount`. -/
def sigOps (fAccurate : Bool) (lastOpcode opcode : UInt8) : Nat :=
  if opcode = 0xac ∨ opcode = 0xad then 1
  else if opcode = 0xae ∨ opcode = 0xaf then
    if fAccurate ∧ 0x51 ≤ lastOpcode ∧ lastOpcode ≤ 0x60 then lastOpcode.toNat - 0x50 else 20
  else 0

/-- The loop of `GetSigOpCount`. -/
def sigOpsFrom (fAccurate : Bool) : Nat → UInt8 → CScript → Nat
  | 0, _, _ => 0
  | fuel + 1, lastOpcode, pc => match getOp pc with
    | none => 0
    | some (opcode, _, pc') =>
      sigOps fAccurate lastOpcode opcode + sigOpsFrom fAccurate fuel opcode pc'

/-- `GetSigOpCount`. -/
def getSigOpCount (fAccurate : Bool) (script : CScript) : Nat :=
  sigOpsFrom fAccurate script.length 0xff script

end CScript

namespace ScriptEnv

variable {e : ScriptEnv} {script : CScript}

theorem multisigCalls_le (sigs keys : List Valtype) :
    e.multisigCalls script sigs keys ≤ keys.length := by
  induction keys generalizing sigs with
  | nil => cases sigs <;> exact Nat.le_refl 0
  | cons vchPubKey keys ih =>
    cases sigs with
    | nil => exact Nat.zero_le _
    | cons vchSig sigs =>
      rw [multisigCalls]
      split
      · exact Nat.zero_le _
      · next fOk hone =>
        extract_lets left
        have := ih left
        split_ifs
        · exact Nat.succ_le_succ (Nat.zero_le _)
        · rw [List.length_cons]
          omega

/-- The case of an opcode that pushes no number is a line of the table. -/
theorem mem_of_scriptOpOf {opcode : UInt8} {op : ScriptOp} (h : scriptOpOf opcode = some op)
    (hop : ∀ n, op ≠ .pushNumber n) : (opcode, op) ∈ scriptOps := by
  unfold scriptOpOf at h
  split_ifs at h
  · exact absurd (Option.some.inj h).symm (hop _)
  · obtain ⟨l₁, l₂, hops, -⟩ := List.lookup_eq_some_iff.1 h
    rw [hops]
    exact List.mem_append_right l₁ List.mem_cons_self

theorem eq_of_checksig {opcode : UInt8} {verify : Bool}
    (h : scriptOpOf opcode = some (.opChecksig verify)) : opcode = 0xac ∨ opcode = 0xad := by
  have hall : ∀ p ∈ scriptOps, ∀ verify, p.2 = .opChecksig verify → p.1 = 0xac ∨ p.1 = 0xad := by
    decide
  exact hall _ (mem_of_scriptOpOf h nofun) verify rfl

theorem eq_of_checkmultisig {opcode : UInt8} {verify : Bool}
    (h : scriptOpOf opcode = some (.opCheckmultisig verify)) : opcode = 0xae ∨ opcode = 0xaf := by
  have hall : ∀ p ∈ scriptOps, ∀ verify, p.2 = .opCheckmultisig verify →
      p.1 = 0xae ∨ p.1 = 0xaf := by
    decide
  exact hall _ (mem_of_scriptOpOf h nofun) verify rfl

/-- An opcode that pushes a number from 1 to 16. -/
def IsSmall (opcode : UInt8) : Prop := 0x51 ≤ opcode ∧ opcode ≤ 0x60

/-- What it pushes is read as that number. -/
theorem number_small {opcode : UInt8} (h : IsSmall opcode) :
    e.number (CScriptNum.serialize ((opcode.toNat : Int) - 0x50)) =
      .ok ((opcode.toNat : Int) - 0x50) := by
  have hall : ∀ b : BitVec 8, 0x51 ≤ UInt8.ofBitVec b → UInt8.ofBitVec b ≤ 0x60 →
      ∀ minimal : Bool,
        CScriptNum.ofVch (CScriptNum.serialize (((UInt8.ofBitVec b).toNat : Int) - 0x50)) minimal
          4 = some (((UInt8.ofBitVec b).toNat : Int) - 0x50) := by
    decide
  have hread := hall opcode.toBitVec h.1 h.2 e.flags.minimaldata
  unfold number
  rw [show UInt8.ofBitVec opcode.toBitVec = opcode from rfl] at hread
  rw [hread]

theorem small_cases {opcode : UInt8} (h : IsSmall opcode) :
    controlOps.lookup opcode = none ∧ ¬ opcode ≤ CScript.opPushdata4 ∧
      scriptOpOf opcode = some (.pushNumber ((opcode.toNat : Int) - 0x50)) := by
  have hall : ∀ b : BitVec 8, 0x51 ≤ UInt8.ofBitVec b → UInt8.ofBitVec b ≤ 0x60 →
      controlOps.lookup (UInt8.ofBitVec b) = none ∧
        ¬ UInt8.ofBitVec b ≤ CScript.opPushdata4 := by
    decide
  obtain ⟨hcontrol, hhigh⟩ := hall opcode.toBitVec h.1 h.2
  exact ⟨hcontrol, hhigh, if_pos (.inr h)⟩

/-- After a small number was pushed where instructions are executed, it is on top. -/
def TopIs (opcode : UInt8) (s : ScriptState) : Prop :=
  IsSmall opcode → s.fExec = true →
    ∃ stack, s.stack = CScriptNum.serialize ((opcode.toNat : Int) - 0x50) :: stack

theorem topIs_step {s s' : ScriptState} {opcode : UInt8} {vchPushValue : Valtype}
    (h : e.step script s opcode vchPushValue = .ok s') : TopIs opcode s' := by
  intro hsmall hexec
  obtain ⟨hcontrol, hhigh, hop⟩ := small_cases hsmall
  obtain ⟨-, -, -, h, -⟩ := step_spec.1 h
  rw [execute, hcontrol] at h
  simp only [onStacks, if_neg hhigh, hop, evalOp] at h
  split_ifs at h with hwas hrange
  · cases h
    exact ⟨_, rfl⟩
  · cases h
    exact absurd hexec hwas

/-- An instruction checks as many signatures as it counts for at most. -/
theorem sigCalls_le {lastOpcode : UInt8} {v : Visit} (htop : TopIs lastOpcode v.state) :
    e.sigCalls script v ≤ CScript.sigOps true lastOpcode v.opcode := by
  unfold sigCalls
  split_ifs with hexec
  · split
    · next verify hop =>
      rw [CScript.sigOps, if_pos (eq_of_checksig hop)]
      split
      · unfold oneCalls
        split_ifs
        · exact Nat.le_refl 1
        · exact Nat.zero_le 1
      · exact Nat.zero_le 1
    · next verify hop =>
      have hmultisig := eq_of_checkmultisig hop
      have hother : ¬ (v.opcode = 0xac ∨ v.opcode = 0xad) := by
        obtain h | h := hmultisig <;> rw [h] <;> decide
      rw [CScript.sigOps, if_neg hother, if_pos hmultisig]
      split
      · next args nOpCount hargs =>
        obtain ⟨vchKeys, vchSigs, hstack, hkeys, -, hmost, -⟩ := multisigArgs_spec.1 hargs
        refine (multisigCalls_le args.sigs args.keys).trans ?_
        split_ifs with hsmall
        · -- the number of keys was pushed by the instruction before
          obtain ⟨stack, htop⟩ := htop hsmall.2 hexec.1
          rw [show vchKeys = _ from (List.cons.inj (hstack.symm.trans htop)).1,
            number_small hsmall.2] at hkeys
          have heq := Except.ok.inj hkeys
          omega
        · exact hmost
      · exact Nat.zero_le _
    · exact Nat.zero_le _
  · exact Nat.zero_le _

/-- The opcode that was read last. -/
def lastOpcode (visits : List Visit) : UInt8 := (visits.getLast?.map Visit.opcode).getD 0xff

theorem Ran.topIs {stack : List Valtype} {visits : List Visit} {pc : CScript} {s : ScriptState}
    (h : e.Ran script stack visits pc s) : TopIs (lastOpcode visits) s := by
  cases h with
  | start => exact fun hsmall => absurd hsmall.2 (by decide)
  | next ran read done =>
    rw [lastOpcode, List.getLast?_concat]
    exact topIs_step done

/-- The signatures that were checked, with the instructions that are still to come. -/
theorem Ran.sigCalls_add_le {stack : List Valtype} {visits : List Visit} {pc : CScript}
    {s : ScriptState} (h : e.Ran script stack visits pc s) :
    ∃ fuel, pc.length ≤ fuel ∧ (visits.map (e.sigCalls script)).sum +
      CScript.sigOpsFrom true fuel (lastOpcode visits) pc ≤ CScript.getSigOpCount true script := by
  induction h with
  | start =>
    refine ⟨script.length, Nat.le_refl _, ?_⟩
    rw [List.map_nil, List.sum_nil, Nat.zero_add]
    exact Nat.le_refl _
  | @next visits pc pc' s s' opcode vchPushValue ran read done ih =>
    obtain ⟨fuel, hfuel, hle⟩ := ih
    have hshort := CScript.length_of_getOp read
    obtain ⟨fuel, rfl⟩ : ∃ n, fuel = n + 1 := ⟨fuel - 1, by omega⟩
    have hcalls : e.sigCalls script ⟨s, opcode, vchPushValue⟩ ≤
        CScript.sigOps true (lastOpcode visits) opcode := sigCalls_le ran.topIs
    simp only [CScript.sigOpsFrom, read] at hle
    refine ⟨fuel, by omega, ?_⟩
    rw [List.map_append, List.sum_append, List.map_singleton, List.sum_singleton, lastOpcode,
      List.getLast?_concat, Option.map_some, Option.getD_some]
    dsimp only
    omega

/-- The calls of `CheckSig` up to an instruction that is read next, also when it fails. -/
def checksUpTo (e : ScriptEnv) (script : CScript) (visits : List Visit) (pc : CScript)
    (s : ScriptState) : Nat :=
  (visits.map (e.sigCalls script)).sum + match CScript.getOp pc with
    | some (opcode, vchPushValue, _) => e.sigCalls script ⟨s, opcode, vchPushValue⟩
    | none => 0

/-- Whatever happens, a script has no more signatures checked than `GetSigOpCount` says. -/
theorem Ran.checksUpTo_le {stack : List Valtype} {visits : List Visit} {pc : CScript}
    {s : ScriptState} (h : e.Ran script stack visits pc s) :
    e.checksUpTo script visits pc s ≤ CScript.getSigOpCount true script := by
  obtain ⟨fuel, hfuel, hle⟩ := h.sigCalls_add_le
  unfold checksUpTo
  split
  · next opcode vchPushValue pc' hread =>
    have hshort := CScript.length_of_getOp hread
    obtain ⟨fuel, rfl⟩ : ∃ n, fuel = n + 1 := ⟨fuel - 1, by omega⟩
    have hcalls : e.sigCalls script ⟨s, opcode, vchPushValue⟩ ≤
        CScript.sigOps true (lastOpcode visits) opcode := sigCalls_le h.topIs
    simp only [CScript.sigOpsFrom, hread] at hle
    omega
  · exact (Nat.le_add_right _ _).trans hle

end ScriptEnv

end IndexChain
