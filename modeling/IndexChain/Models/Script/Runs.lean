import IndexChain.Models.Script.Interpreter

/-!
# Runs of a script

What is read from a script, what one round of the loop of `EvalScript` tests, and the states
that the loop reaches.
-/

namespace IndexChain

open IndexChain.Core

/-! ## Reading -/

namespace CScript

/-- Every instruction takes a byte. -/
theorem length_of_getOp {s pc : CScript} {opcode : UInt8} {data : List UInt8}
    (h : getOp s = some (opcode, data, pc)) : pc.length < s.length := by
  cases s with
  | nil => cases h
  | cons b s =>
    simp only [getOp] at h
    split_ifs at h <;> cases h
    · exact Nat.lt_succ_self _
    all_goals
      simp only [List.length_drop, List.length_cons]
      omega

end CScript

/-! ## One round of the loop -/

namespace ScriptEnv

variable {e : ScriptEnv} {script : CScript}

theorem countOp_of_lt {opcode : UInt8} {n : Nat} (h : 0x60 < opcode) : countOp opcode n = n + 1 :=
  if_pos h

theorem countOp_of_le {opcode : UInt8} {n : Nat} (h : opcode ≤ 0x60) : countOp opcode n = n :=
  if_neg (UInt8.not_lt.2 h)

theorem le_countOp (opcode : UInt8) (n : Nat) : n ≤ countOp opcode n := by
  unfold countOp
  split_ifs
  · exact Nat.le_succ n
  · exact Nat.le_refl n

/-- What a round that ends well has tested. -/
theorem step_spec {s s' : ScriptState} {opcode : UInt8} {vchPushValue : Valtype} :
    e.step script s opcode vchPushValue = .ok s' ↔
      vchPushValue.length ≤ 520 ∧
      (opcode ≤ 0x60 ∨ countOp opcode s.nOpCount ≤ 201) ∧
      opcode ∉ disabledOps ∧
      e.execute script opcode vchPushValue
        { s with nOpCount := countOp opcode s.nOpCount } = .ok s' ∧
      s'.stack.length + s'.altstack.length ≤ 1000 := by
  unfold step
  rw [require_bind_eq_ok, require_bind_eq_ok, require_bind_eq_ok, except_bind_eq_ok]
  simp only [decide_eq_true_eq]
  refine and_congr_right fun _ => and_congr_right fun _ => and_congr_right fun _ => ?_
  constructor
  · rintro ⟨t, ht, h⟩
    obtain ⟨hsize, h⟩ := require_bind_eq_ok.1 h
    cases h
    exact ⟨ht, of_decide_eq_true hsize⟩
  · rintro ⟨ht, hsize⟩
    exact ⟨s', ht, require_bind_eq_ok.2 ⟨decide_eq_true hsize, rfl⟩⟩

end ScriptEnv

/-! ## Runs -/

/-- An instruction with the state it was read in. -/
structure Visit where
  /-- The variables before it. -/
  state : ScriptState
  /-- The opcode. -/
  opcode : UInt8
  /-- The operand. -/
  vchPushValue : Valtype

/-- `EvalScript` has run through some instructions, with the rest of the script to come. -/
inductive ScriptEnv.Ran (e : ScriptEnv) (script : CScript) (stack : List Valtype) :
    List Visit → CScript → ScriptState → Prop where
  | start : Ran e script stack [] script (.start stack)
  | next {visits : List Visit} {pc pc' : CScript} {s s' : ScriptState} {opcode : UInt8}
      {vchPushValue : Valtype} (ran : Ran e script stack visits pc s)
      (read : CScript.getOp pc = some (opcode, vchPushValue, pc'))
      (done : e.step script s opcode vchPushValue = .ok s') :
      Ran e script stack (visits ++ [⟨s, opcode, vchPushValue⟩]) pc' s'

namespace ScriptEnv

variable {e : ScriptEnv} {script : CScript} {stack : List Valtype}

/-- What the loop reaches from where a run is. -/
theorem Ran.evalLoop {fuel : Nat} {visits : List Visit} {pc : CScript} {s s' : ScriptState}
    (h : e.Ran script stack visits pc s) (hfuel : pc.length ≤ fuel)
    (hloop : e.evalLoop script fuel pc s = .ok s') :
    ∃ visits', e.Ran script stack visits' [] s' := by
  induction fuel generalizing visits pc s with
  | zero =>
    obtain rfl := List.length_eq_zero_iff.1 (Nat.le_zero.1 hfuel)
    cases hloop
    exact ⟨visits, h⟩
  | succ fuel ih =>
    rw [ScriptEnv.evalLoop] at hloop
    split_ifs at hloop with hnil
    · cases hloop
      rw [hnil] at h
      exact ⟨visits, h⟩
    · split at hloop
      · cases hloop
      · next opcode vchPushValue pc' hread =>
        obtain ⟨t, ht, hloop⟩ := except_bind_eq_ok.1 hloop
        have hshort := CScript.length_of_getOp hread
        exact ih (.next h hread ht) (by omega) hloop

/-- What `EvalScript` returns is the stack of a state that it reaches, with all conditionals
closed. -/
theorem ran_of_evalScript {stack' : List Valtype} (h : e.evalScript stack script = .ok stack') :
    script.length ≤ 10000 ∧ ∃ visits s, e.Ran script stack visits [] s ∧ s.vfExec = [] ∧
      s.stack = stack' := by
  obtain ⟨hlength, h⟩ := require_bind_eq_ok.1 h
  obtain ⟨s, hloop, h⟩ := except_bind_eq_ok.1 h
  obtain ⟨hclosed, h⟩ := require_bind_eq_ok.1 h
  obtain ⟨visits, hran⟩ := Ran.start.evalLoop (Nat.le_refl _) hloop
  cases h
  exact ⟨of_decide_eq_true hlength, visits, s, hran, List.isEmpty_iff.1 hclosed, rfl⟩

end ScriptEnv

end IndexChain
