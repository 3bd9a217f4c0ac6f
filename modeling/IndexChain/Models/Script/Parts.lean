import IndexChain.Models.Script.Runs

/-!
# Parts of a script

A script that can be read to its end is a list of instructions. Parts of it that come one after
the other are run one after the other.
-/

namespace IndexChain

open IndexChain.Core

/-- An opcode with its operand. -/
abbrev Instruction : Type := UInt8 × Valtype

/-! ## Reading a part -/

namespace CScript

/-- A script that is read as these instructions. -/
inductive Reads : CScript → List Instruction → Prop where
  | nil : Reads [] []
  | cons {s pc : CScript} {opcode : UInt8} {data : List UInt8} {code : List Instruction}
      (read : getOp s = some (opcode, data, pc)) (tail : Reads pc code) :
      Reads s ((opcode, data) :: code)

end CScript

/-! ## Running a part -/

namespace ScriptEnv

variable {e : ScriptEnv} {script : CScript}

/-- Some instructions one after the other. -/
def runCode (e : ScriptEnv) (script : CScript) (code : List Instruction) (s : ScriptState) :
    Except ScriptError ScriptState :=
  code.foldlM (fun s i => e.step script s i.1 i.2) s

@[simp] theorem runCode_cons (i : Instruction) (code : List Instruction) (s : ScriptState) :
    e.runCode script (i :: code) s = e.step script s i.1 i.2 >>= e.runCode script code := rfl

theorem runCode_append (code code' : List Instruction) (s : ScriptState) :
    e.runCode script (code ++ code') s = e.runCode script code s >>= e.runCode script code' :=
  List.foldlM_append

/-- The loop of `EvalScript` runs the instructions of what is left. -/
theorem evalLoop_of_reads {pc : CScript} {code : List Instruction} (h : CScript.Reads pc code)
    {fuel : Nat} (hfuel : pc.length ≤ fuel) (s : ScriptState) :
    e.evalLoop script fuel pc s = e.runCode script code s := by
  induction h generalizing fuel s with
  | nil => cases fuel <;> rfl
  | @cons pc pc' opcode data code read tail ih =>
    have hshort := CScript.length_of_getOp read
    obtain ⟨fuel, rfl⟩ : ∃ n, fuel = n + 1 := ⟨fuel - 1, by omega⟩
    have hne : pc ≠ [] := List.ne_nil_of_length_pos (by omega)
    rw [evalLoop, if_neg hne, runCode_cons]
    simp only [read]
    exact except_bind_congr fun s' _ => ih (by omega) s'

/-- `EvalScript` of a script that can be read. -/
theorem evalScript_of_reads {code : List Instruction} (h : CScript.Reads script code)
    {stack stack' : List Valtype} :
    e.evalScript stack script = .ok stack' ↔
      script.length ≤ 10000 ∧ ∃ s, e.runCode script code (.start stack) = .ok s ∧
        s.vfExec = [] ∧ s.stack = stack' := by
  unfold evalScript
  rw [require_bind_eq_ok, evalLoop_of_reads h (Nat.le_refl _), except_bind_eq_ok, decide_eq_true_eq]
  refine and_congr_right fun _ => exists_congr fun s => and_congr_right fun _ => ?_
  rw [require_bind_eq_ok, List.isEmpty_iff]
  refine and_congr_right fun _ => ?_
  constructor
  · intro h
    cases h
    rfl
  · rintro rfl
    rfl

end ScriptEnv

end IndexChain
