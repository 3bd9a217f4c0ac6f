import IndexChain.Models.Script.Limits
import IndexChain.Models.Script.Parts

/-!
# Conditionals

`EvalScript` keeps a truth value for every conditional that is open, and executes an
instruction when all of them are true. A part of a script that closes its own conditionals has
a meaning that does not depend on those around it, and a conditional made of such parts runs
every other one of them.
-/

namespace IndexChain

open IndexChain.Core

/-! ## Parts that close their conditionals -/

/-- How many conditionals are open after an instruction. -/
def ControlOp.depth : ControlOp → Nat → Option Nat
  | .opIf _, n => some (n + 1)
  | .opElse, n => if n = 0 then none else some n
  | .opEndif, n => if n = 0 then none else some (n - 1)

/-- How many conditionals are open after an instruction, none when it has no conditional. -/
def depthStep (n : Nat) (i : Instruction) : Option Nat :=
  match controlOps.lookup i.1 with
  | some op => op.depth n
  | none => some n

theorem depthStep_of_some {n : Nat} {i : Instruction} {op : ControlOp}
    (hop : controlOps.lookup i.1 = some op) : depthStep n i = op.depth n := by
  simp only [depthStep, hop]

theorem depthStep_of_none {n : Nat} {i : Instruction} (hop : controlOps.lookup i.1 = none) :
    depthStep n i = some n := by
  simp only [depthStep, hop]

/-- A part closes the conditionals that it opens, and no others. -/
def Closed (code : List Instruction) : Prop := code.foldlM depthStep 0 = some 0

instance (code : List Instruction) : Decidable (Closed code) := inferInstanceAs (Decidable (_ = _))

/-- The same variables inside of more conditionals. -/
def ScriptState.inside (outer : List Bool) (s : ScriptState) : ScriptState :=
  ⟨s.toScriptStacks, s.vfExec ++ outer⟩

theorem ScriptState.fExec_inside {outer : List Bool} (h : outer.contains false = false)
    (s : ScriptState) : (s.inside outer).fExec = s.fExec := by
  simp only [fExec, inside, List.contains_append, h, Bool.or_false]

namespace ScriptState

variable {s s' : ScriptState} {outer : List Bool}

theorem evalControl_inside (h : outer.contains false = false) {op : ControlOp} {d : Nat}
    (hdepth : op.depth s.vfExec.length = some d) :
    (s.inside outer).evalControl op = (s.evalControl op).map (inside outer) := by
  obtain ⟨t, vfExec⟩ := s
  cases op with
  | opIf notIf =>
    rw [evalControl, evalControl, fExec_inside h]
    split_ifs
    · obtain ⟨stack, altstack, nOpCount⟩ := t
      cases stack <;> rfl
    · rfl
  | opElse =>
    cases vfExec with
    | nil => cases hdepth
    | cons fValue vfExec => rfl
  | opEndif =>
    cases vfExec with
    | nil => cases hdepth
    | cons fValue vfExec => rfl

theorem depth_of_evalControl {op : ControlOp} (h : s.evalControl op = .ok s') :
    op.depth s.vfExec.length = some s'.vfExec.length := by
  obtain ⟨⟨stack, altstack, nOpCount⟩, vfExec⟩ := s
  cases op with
  | opIf notIf =>
    rw [evalControl] at h
    split_ifs at h
    · cases stack <;> cases h
      rfl
    · cases h
      rfl
  | opElse => cases vfExec <;> cases h; rfl
  | opEndif => cases vfExec <;> cases h; rfl

end ScriptState

namespace ScriptEnv

variable {e : ScriptEnv} {script : CScript} {s s' : ScriptState} {outer : List Bool}

theorem execute_inside (h : outer.contains false = false) {opcode : UInt8}
    {vchPushValue : Valtype} {d : Nat}
    (hdepth : depthStep s.vfExec.length (opcode, vchPushValue) = some d) :
    e.execute script opcode vchPushValue (s.inside outer) =
      (e.execute script opcode vchPushValue s).map (.inside outer) := by
  unfold execute
  cases hop : controlOps.lookup opcode with
  | some op =>
    rw [depthStep_of_some hop] at hdepth
    exact ScriptState.evalControl_inside h hdepth
  | none =>
    simp only [ScriptState.fExec_inside h]
    split_ifs
    · show (e.onStacks script opcode vchPushValue s.toScriptStacks >>= _) = _
      cases e.onStacks script opcode vchPushValue s.toScriptStacks <;> rfl
    · rfl
    · rfl

theorem depth_of_step {i : Instruction} (h : e.step script s i.1 i.2 = .ok s') :
    depthStep s.vfExec.length i = some s'.vfExec.length := by
  obtain ⟨-, -, -, h, -⟩ := step_spec.1 h
  unfold execute at h
  cases hop : controlOps.lookup i.1 with
  | some op =>
    simp only [hop] at h
    have hdepth := ScriptState.depth_of_evalControl h
    rw [depthStep_of_some hop]
    exact hdepth
  | none =>
    rw [depthStep_of_none hop]
    simp only [hop] at h
    split_ifs at h
    · obtain ⟨t, -, h⟩ := except_bind_eq_ok.1 h
      cases h
      rfl
    · cases h
      rfl

/-- A round of the loop does not depend on the conditionals around it. -/
theorem step_inside (h : outer.contains false = false) {i : Instruction} {d : Nat}
    (hdepth : depthStep s.vfExec.length i = some d) :
    e.step script (s.inside outer) i.1 i.2 = (e.step script s i.1 i.2).map (.inside outer) := by
  have hexec : e.execute script i.1 i.2
      (ScriptState.inside outer { s with nOpCount := countOp i.1 s.nOpCount }) = _ :=
    execute_inside h hdepth
  unfold step
  rw [except_bind_map]
  refine except_bind_congr fun _ _ => ?_
  dsimp only
  rw [except_bind_map]
  refine except_bind_congr fun _ _ => ?_
  rw [except_bind_map]
  refine except_bind_congr fun _ _ => ?_
  refine (congrArg (· >>= _) hexec).trans ?_
  rw [except_map_bind, except_bind_map]
  refine except_bind_congr fun s' _ => ?_
  rw [except_bind_map]
  rfl

/-- A part does not depend on the conditionals around it. -/
theorem runCode_inside (h : outer.contains false = false) {code : List Instruction} {d : Nat}
    (hdepth : code.foldlM depthStep s.vfExec.length = some d) :
    e.runCode script code (s.inside outer) = (e.runCode script code s).map (.inside outer) := by
  induction code generalizing s with
  | nil => rfl
  | cons i code ih =>
    obtain ⟨d', hfirst, hrest⟩ := Option.bind_eq_some_iff.1 hdepth
    rw [runCode_cons, runCode_cons, step_inside h hfirst, except_map_bind, except_bind_map]
    refine except_bind_congr fun s' hs => ih ?_
    rwa [← Option.some.inj (hfirst.symm.trans (depth_of_step hs))]

theorem depth_of_runCode {code : List Instruction} (h : e.runCode script code s = .ok s') :
    code.foldlM depthStep s.vfExec.length = some s'.vfExec.length := by
  induction code generalizing s with
  | nil =>
    cases h
    rfl
  | cons i code ih =>
    obtain ⟨t, ht, h⟩ := except_bind_eq_ok.1 h
    exact Option.bind_eq_some_iff.2 ⟨_, depth_of_step ht, ih h⟩

/-- What a part of a script does with the stacks when it is executed. -/
def runBlock (e : ScriptEnv) (script : CScript) (code : List Instruction) (t : ScriptStacks) :
    Except ScriptError ScriptStacks :=
  (e.runCode script code ⟨t, []⟩).map ScriptState.toScriptStacks

/-- A part that closes its conditionals does the same inside of others. -/
theorem runCode_of_closed (h : outer.contains false = false) {code : List Instruction}
    (hclosed : Closed code) (t : ScriptStacks) :
    e.runCode script code ⟨t, outer⟩ = (e.runBlock script code t).map (⟨·, outer⟩) := by
  rw [runBlock]
  refine (runCode_inside (s := ⟨t, []⟩) h hclosed).trans ?_
  cases hrun : e.runCode script code ⟨t, []⟩ with
  | error err => rfl
  | ok s =>
    have hdepth := Option.some.inj ((depth_of_runCode hrun).symm.trans hclosed)
    obtain ⟨t', vfExec⟩ := s
    obtain rfl := List.length_eq_zero_iff.1 hdepth
    rfl

/-! ## Parts that are not executed -/

/-- An instruction that is not executed is tested and counted. -/
def skipInstruction (i : Instruction) (t : ScriptStacks) : Except ScriptError ScriptStacks := do
  require (i.2.length ≤ 520) .pushSize
  let nOpCount := countOp i.1 t.nOpCount
  require (i.1 ≤ 0x60 ∨ nOpCount ≤ 201) .opCount
  require (i.1 ∉ disabledOps) .disabledOpcode
  require (i.1 ∉ [0x65, 0x66]) .badOpcode
  return { t with nOpCount }

/-- What a part of a script does with the stacks when it is not executed. -/
def skipCode (code : List Instruction) (t : ScriptStacks) : Except ScriptError ScriptStacks :=
  code.foldlM (fun t i => skipInstruction i t) t

/-- The opcodes of a conditional that are never valid. -/
theorem verif_cases (opcode : UInt8) :
    ((controlOps.lookup opcode).isSome = true → opcode ∉ [0x65, 0x66]) ∧
    ((controlOps.lookup opcode).isSome = false →
      (0x63 ≤ opcode ∧ opcode ≤ 0x68 ↔ opcode ∈ [0x65, 0x66])) := by
  have hall : ∀ b : BitVec 8,
      ((controlOps.lookup (UInt8.ofBitVec b)).isSome = true → UInt8.ofBitVec b ∉ [0x65, 0x66]) ∧
      ((controlOps.lookup (UInt8.ofBitVec b)).isSome = false →
        (0x63 ≤ UInt8.ofBitVec b ∧ UInt8.ofBitVec b ≤ 0x68 ↔
          UInt8.ofBitVec b ∈ [0x65, 0x66])) := by
    decide
  exact hall opcode.toBitVec

/-- In a branch that is not taken only the nesting changes. -/
theorem execute_skipped (h : outer.contains false = true) {inner : List Bool} {opcode : UInt8}
    {vchPushValue : Valtype} {d : Nat}
    (hdepth : depthStep inner.length (opcode, vchPushValue) = some d) (t : ScriptStacks) :
    ∃ inner' : List Bool, inner'.length = d ∧
      e.execute script opcode vchPushValue ⟨t, inner ++ outer⟩ =
        (require (opcode ∉ [0x65, 0x66]) .badOpcode).map fun _ => ⟨t, inner' ++ outer⟩ := by
  have hexec : (ScriptState.mk t (inner ++ outer)).fExec = false := by
    simp only [ScriptState.fExec, List.contains_append, h, Bool.or_true, Bool.not_true]
  obtain ⟨hcontrol, hother⟩ := verif_cases opcode
  unfold execute
  cases hop : controlOps.lookup opcode with
  | none =>
    have hverif := hother (by rw [hop]; rfl)
    rw [depthStep_of_none hop] at hdepth
    dsimp only
    refine ⟨inner, Option.some.inj hdepth, ?_⟩
    rw [hexec, if_neg Bool.false_ne_true, require]
    simp only [hverif, decide_not, Bool.not_eq_true', decide_eq_false_iff_not]
    split_ifs <;> rfl
  | some op =>
    have hverif := hcontrol (by rw [hop]; rfl)
    rw [depthStep_of_some hop] at hdepth
    dsimp only
    rw [decide_eq_true hverif]
    cases op with
    | opIf notIf =>
      refine ⟨false :: inner, Option.some.inj hdepth, ?_⟩
      rw [ScriptState.evalControl, hexec, if_neg Bool.false_ne_true]
      rfl
    | opElse =>
      cases inner with
      | nil => cases hdepth
      | cons fValue inner => exact ⟨(!fValue) :: inner, Option.some.inj hdepth, rfl⟩
    | opEndif =>
      cases inner with
      | nil => cases hdepth
      | cons fValue inner => exact ⟨inner, Option.some.inj hdepth, rfl⟩

theorem step_skipped (h : outer.contains false = true) {inner : List Bool} {i : Instruction}
    {d : Nat} (hdepth : depthStep inner.length i = some d) {t : ScriptStacks}
    (hsize : t.stack.length + t.altstack.length ≤ 1000) :
    ∃ inner' : List Bool, inner'.length = d ∧ e.step script ⟨t, inner ++ outer⟩ i.1 i.2 =
      (skipInstruction i t).map (⟨·, inner' ++ outer⟩) := by
  obtain ⟨inner', hlength, hexec⟩ := @execute_skipped e script _ h _ _ _ _ hdepth
    { t with nOpCount := countOp i.1 t.nOpCount }
  refine ⟨inner', hlength, ?_⟩
  unfold step skipInstruction
  rw [except_bind_map]
  refine except_bind_congr fun _ _ => ?_
  dsimp only
  rw [except_bind_map]
  refine except_bind_congr fun _ _ => ?_
  rw [except_bind_map]
  refine except_bind_congr fun _ _ => ?_
  refine (congrArg (· >>= _) hexec).trans ?_
  rw [except_map_bind, except_bind_map]
  refine except_bind_congr fun _ _ => ?_
  rw [decide_eq_true hsize]
  rfl

theorem skipInstruction_stacks {i : Instruction} {t t' : ScriptStacks}
    (h : skipInstruction i t = .ok t') : t'.stack = t.stack ∧ t'.altstack = t.altstack := by
  unfold skipInstruction at h
  rw [require_bind_eq_ok, require_bind_eq_ok, require_bind_eq_ok, require_bind_eq_ok] at h
  obtain ⟨-, -, -, -, h⟩ := h
  cases h
  exact ⟨rfl, rfl⟩

theorem skipCode_stacks {code : List Instruction} {t t' : ScriptStacks}
    (h : skipCode code t = .ok t') : t'.stack = t.stack ∧ t'.altstack = t.altstack := by
  induction code generalizing t with
  | nil =>
    cases h
    exact ⟨rfl, rfl⟩
  | cons i code ih =>
    obtain ⟨u, hu, h⟩ := except_bind_eq_ok.1 h
    obtain ⟨hstack, haltstack⟩ := skipInstruction_stacks hu
    rw [← hstack, ← haltstack]
    exact ih h

theorem runCode_skipped (h : outer.contains false = true) {inner : List Bool}
    {code : List Instruction} {d : Nat} (hdepth : code.foldlM depthStep inner.length = some d)
    {t : ScriptStacks} (hsize : t.stack.length + t.altstack.length ≤ 1000) :
    ∃ inner' : List Bool, inner'.length = d ∧ e.runCode script code ⟨t, inner ++ outer⟩ =
      (skipCode code t).map (⟨·, inner' ++ outer⟩) := by
  induction code generalizing inner t with
  | nil => exact ⟨inner, Option.some.inj hdepth, rfl⟩
  | cons i code ih =>
    obtain ⟨d', hfirst, hrest⟩ := Option.bind_eq_some_iff.1 hdepth
    obtain ⟨inner', rfl, hstep⟩ := @step_skipped e script _ h _ _ _ hfirst _ hsize
    rw [runCode_cons, hstep, except_map_bind]
    cases hskip : skipInstruction i t with
    | error err =>
      refine ⟨List.replicate d false, List.length_replicate, ?_⟩
      rw [skipCode, List.foldlM_cons, hskip]
      rfl
    | ok u =>
      obtain ⟨hstack, haltstack⟩ := skipInstruction_stacks hskip
      rw [← hstack, ← haltstack] at hsize
      obtain ⟨inner'', hlength, hrun⟩ := ih hrest hsize
      refine ⟨inner'', hlength, ?_⟩
      rw [skipCode, List.foldlM_cons, hskip]
      exact hrun

/-- A part that closes its conditionals is tested and counted where nothing is executed. -/
theorem runCode_of_closed_skipped (h : outer.contains false = true) {code : List Instruction}
    (hclosed : Closed code) {t : ScriptStacks}
    (hsize : t.stack.length + t.altstack.length ≤ 1000) :
    e.runCode script code ⟨t, outer⟩ = (skipCode code t).map (⟨·, outer⟩) := by
  obtain ⟨inner, hlength, hrun⟩ :=
    @runCode_skipped e script _ h [] _ _ hclosed _ hsize
  rwa [List.length_eq_zero_iff.1 hlength] at hrun

/-! ## Conditionals -/

/-- The branches of a conditional, `OP_ELSE` between them and `OP_ENDIF` after the last one. -/
def branchesCode : List Instruction → List (List Instruction) → List Instruction
  | branch, [] => branch ++ [(0x68, [])]
  | branch, branch' :: branches => branch ++ (0x67, []) :: branchesCode branch' branches

/-- A conditional with `OP_IF` or `OP_NOTIF`. -/
def conditionalCode (notIf : Bool) (branch : List Instruction)
    (branches : List (List Instruction)) : List Instruction :=
  (if notIf then 0x64 else 0x63, []) :: branchesCode branch branches

/-- An instruction that counts and has no effect on the stacks. -/
def countInstruction (t : ScriptStacks) : Except ScriptError ScriptStacks := do
  require (t.nOpCount + 1 ≤ 201) .opCount
  return { t with nOpCount := t.nOpCount + 1 }

/-- What a branch does with the stacks. -/
def runBranch (e : ScriptEnv) (script : CScript) (taken : Bool) (branch : List Instruction)
    (t : ScriptStacks) : Except ScriptError ScriptStacks :=
  if taken then e.runBlock script branch t else skipCode branch t

/-- The branches of a conditional: every other one is executed. -/
def runBranches (e : ScriptEnv) (script : CScript) :
    Bool → List (List Instruction) → ScriptStacks → Except ScriptError ScriptStacks
  | _, [], t => .ok t
  | taken, branch :: branches, t => do
    let t ← e.runBranch script taken branch t
    let t ← countInstruction t
    runBranches e script (!taken) branches t

/-- A conditional takes the element on top and executes the branches that it selects. -/
def runConditional (e : ScriptEnv) (script : CScript) (notIf : Bool)
    (branches : List (List Instruction)) (t : ScriptStacks) : Except ScriptError ScriptStacks := do
  let t ← countInstruction t
  match t.stack with
  | [] => .error .unbalancedConditional
  | vch :: stack => e.runBranches script (castToBool vch != notIf) branches (t.withStack stack)

/-- A round of the loop for an instruction of a conditional. -/
theorem step_control {opcode : UInt8} {op : ControlOp} (hop : controlOps.lookup opcode = some op)
    (t : ScriptStacks) (vfExec : List Bool) :
    e.step script ⟨t, vfExec⟩ opcode [] = do
      let t ← countInstruction t
      let s ← (ScriptState.mk t vfExec).evalControl op
      require (s.stack.length + s.altstack.length ≤ 1000) .stackSize
      return s := by
  have hhigh := lt_of_control hop
  have hdisabled : opcode ∉ disabledOps := by
    have hall : ∀ b : BitVec 8, (controlOps.lookup (UInt8.ofBitVec b)).isSome = true →
        UInt8.ofBitVec b ∉ disabledOps := by
      decide
    exact hall opcode.toBitVec (by rw [hop]; rfl)
  have hcount : (opcode ≤ 0x60 ∨ t.nOpCount + 1 ≤ 201) ↔ t.nOpCount + 1 ≤ 201 :=
    or_iff_right (UInt8.not_le.2 hhigh)
  unfold step countInstruction execute
  rw [countOp_of_lt hhigh]
  simp only [hop, hcount, hdisabled]
  by_cases hle : t.nOpCount + 1 ≤ 201
  · rw [decide_eq_true hle]
    rfl
  · rw [decide_eq_false hle]
    rfl

theorem size_of_count {t u : ScriptStacks} (hsize : t.stack.length + t.altstack.length ≤ 1000)
    (hcount : countInstruction t = .ok u) : u.stack.length + u.altstack.length ≤ 1000 := by
  obtain ⟨-, hcount⟩ := require_bind_eq_ok.1 hcount
  cases hcount
  exact hsize

/-- An instruction that only changes `vfExec` passes the test of the sizes. -/
theorem counted_eq {t : ScriptStacks} (hsize : t.stack.length + t.altstack.length ≤ 1000)
    (vfExec : List Bool) :
    (do
      let u ← countInstruction t
      require (u.stack.length + u.altstack.length ≤ 1000) ScriptError.stackSize
      return ScriptState.mk u vfExec) = (countInstruction t).map (⟨·, vfExec⟩) := by
  cases hcount : countInstruction t with
  | error err => rfl
  | ok u =>
    rw [except_ok_bind, decide_eq_true (size_of_count hsize hcount)]
    rfl

theorem step_else {t : ScriptStacks} (hsize : t.stack.length + t.altstack.length ≤ 1000)
    (fValue : Bool) :
    e.step script ⟨t, fValue :: outer⟩ 0x67 [] =
      (countInstruction t).map (⟨·, (!fValue) :: outer⟩) := by
  rw [step_control rfl]
  exact counted_eq hsize _

theorem step_endif {t : ScriptStacks} (hsize : t.stack.length + t.altstack.length ≤ 1000)
    (fValue : Bool) :
    e.step script ⟨t, fValue :: outer⟩ 0x68 [] = (countInstruction t).map (⟨·, outer⟩) := by
  rw [step_control rfl]
  exact counted_eq hsize _

theorem size_of_runCode {code : List Instruction} (h : e.runCode script code s = .ok s')
    (hsize : s.stack.length + s.altstack.length ≤ 1000) :
    s'.stack.length + s'.altstack.length ≤ 1000 := by
  induction code generalizing s with
  | nil =>
    cases h
    exact hsize
  | cons i code ih =>
    obtain ⟨t, ht, h⟩ := except_bind_eq_ok.1 h
    obtain ⟨-, -, -, -, hsize⟩ := step_spec.1 ht
    exact ih h hsize

/-- A branch inside of its conditional. -/
theorem runCode_branch (h : outer.contains false = false) {branch : List Instruction}
    (hclosed : Closed branch) (taken : Bool) {t : ScriptStacks}
    (hsize : t.stack.length + t.altstack.length ≤ 1000) :
    e.runCode script branch ⟨t, taken :: outer⟩ =
      (e.runBranch script taken branch t).map (⟨·, taken :: outer⟩) := by
  cases taken with
  | true => exact @runCode_of_closed _ _ (true :: outer) h _ hclosed t
  | false => exact @runCode_of_closed_skipped _ _ (false :: outer) rfl _ hclosed _ hsize

theorem size_of_branch {branch : List Instruction} (taken : Bool) {t t' : ScriptStacks}
    (hsize : t.stack.length + t.altstack.length ≤ 1000)
    (hrun : e.runBranch script taken branch t = .ok t') :
    t'.stack.length + t'.altstack.length ≤ 1000 := by
  cases taken with
  | true =>
    rw [runBranch, if_pos rfl, runBlock] at hrun
    cases hcode : e.runCode script branch ⟨t, []⟩ with
    | error err =>
      rw [hcode] at hrun
      cases hrun
    | ok s =>
      rw [hcode] at hrun
      cases hrun
      exact size_of_runCode hcode hsize
  | false =>
    obtain ⟨hstack, haltstack⟩ := skipCode_stacks hrun
    rwa [hstack, haltstack]

/-- The branches of a conditional, from the first one that is left. -/
theorem runCode_branches (h : outer.contains false = false) {branch : List Instruction}
    {branches : List (List Instruction)} (hclosed : ∀ b ∈ branch :: branches, Closed b)
    (taken : Bool) {t : ScriptStacks} (hsize : t.stack.length + t.altstack.length ≤ 1000) :
    e.runCode script (branchesCode branch branches) ⟨t, taken :: outer⟩ =
      (e.runBranches script taken (branch :: branches) t).map (⟨·, outer⟩) := by
  induction branches generalizing branch taken t with
  | nil =>
    rw [branchesCode, runCode_append, runCode_branch h (hclosed _ List.mem_cons_self) taken hsize,
      except_map_bind, runBranches, except_bind_map]
    refine except_bind_congr fun t' ht => ?_
    rw [runCode_cons, step_endif (size_of_branch taken hsize ht), except_map_bind, except_bind_map]
    rfl
  | cons branch' branches ih =>
    rw [branchesCode, runCode_append, runCode_branch h (hclosed _ List.mem_cons_self) taken hsize,
      except_map_bind, runBranches, except_bind_map]
    refine except_bind_congr fun t' ht => ?_
    have hsize' := size_of_branch taken hsize ht
    rw [runCode_cons, step_else hsize', except_map_bind, except_bind_map]
    refine except_bind_congr fun u hu => ?_
    exact ih (fun b hb => hclosed b (List.mem_cons_of_mem _ hb)) (!taken) (size_of_count hsize' hu)

/-- A conditional inside of others that are executed. -/
theorem runCode_conditional (h : outer.contains false = false) (notIf : Bool)
    {branch : List Instruction} {branches : List (List Instruction)}
    (hclosed : ∀ b ∈ branch :: branches, Closed b) {t : ScriptStacks}
    (hsize : t.stack.length + t.altstack.length ≤ 1000) :
    e.runCode script (conditionalCode notIf branch branches) ⟨t, outer⟩ =
      (e.runConditional script notIf (branch :: branches) t).map (⟨·, outer⟩) := by
  have hop : controlOps.lookup (if notIf then 0x64 else 0x63) = some (.opIf notIf) := by
    cases notIf <;> rfl
  rw [conditionalCode, runCode_cons, step_control hop, runConditional, except_bind_map, bind_assoc]
  refine except_bind_congr fun u hu => ?_
  obtain ⟨-, hu⟩ := require_bind_eq_ok.1 hu
  cases hu
  have hexec : (ScriptState.mk { t with nOpCount := t.nOpCount + 1 } outer).fExec = true := by
    simp only [ScriptState.fExec, h, Bool.not_false]
  rw [ScriptState.evalControl, if_pos hexec]
  obtain ⟨stack, altstack, nOpCount⟩ := t
  cases stack with
  | nil => rfl
  | cons vch stack =>
    have hpop : stack.length + altstack.length ≤ 1000 := by
      simp only [List.length_cons] at hsize
      omega
    show (do
      require (stack.length + altstack.length ≤ 1000) .stackSize
      return _ : Except ScriptError ScriptState) >>= _ = _
    rw [decide_eq_true hpop]
    exact runCode_branches h hclosed _ (t := ⟨stack, altstack, nOpCount + 1⟩) hpop

/-- The depth of an instruction does not depend on what is around it. -/
theorem depthStep_add {i : Instruction} {n m : Nat} (h : depthStep n i = some m) (k : Nat) :
    depthStep (n + k) i = some (m + k) := by
  cases hop : controlOps.lookup i.1 with
  | none =>
    rw [depthStep_of_none hop] at h ⊢
    cases h
    rfl
  | some op =>
    rw [depthStep_of_some hop] at h ⊢
    cases op with
    | opIf notIf =>
      cases h
      exact congrArg some (Nat.add_right_comm n k 1)
    | opElse =>
      cases n with
      | zero => cases h
      | succ n =>
        cases h
        exact if_neg (by omega)
    | opEndif =>
      cases n with
      | zero => cases h
      | succ n =>
        cases h
        exact (if_neg (by omega)).trans (congrArg some (by omega))

theorem depth_add {code : List Instruction} {n m : Nat} (h : code.foldlM depthStep n = some m)
    (k : Nat) : code.foldlM depthStep (n + k) = some (m + k) := by
  induction code generalizing n with
  | nil => exact congrArg some (congrArg (· + k) (Option.some.inj h))
  | cons i code ih =>
    obtain ⟨d, hfirst, hrest⟩ := Option.bind_eq_some_iff.1 h
    exact Option.bind_eq_some_iff.2 ⟨d + k, depthStep_add hfirst k, ih hrest⟩

/-- A part that closes its conditionals leaves as many open as there were before. -/
theorem depth_of_closed {code : List Instruction} (h : Closed code) (k : Nat) :
    code.foldlM depthStep k = some k := by
  have hadd := depth_add h k
  rwa [Nat.zero_add] at hadd

theorem depth_branches {branch : List Instruction} {branches : List (List Instruction)}
    (hclosed : ∀ b ∈ branch :: branches, Closed b) :
    (branchesCode branch branches).foldlM depthStep 1 = some 0 := by
  induction branches generalizing branch with
  | nil =>
    rw [branchesCode, List.foldlM_append, depth_of_closed (hclosed _ List.mem_cons_self)]
    rfl
  | cons branch' branches ih =>
    rw [branchesCode, List.foldlM_append, depth_of_closed (hclosed _ List.mem_cons_self)]
    exact ih fun b hb => hclosed b (List.mem_cons_of_mem _ hb)

/-- A conditional closes itself. -/
theorem closed_conditional (notIf : Bool) {branch : List Instruction}
    {branches : List (List Instruction)} (hclosed : ∀ b ∈ branch :: branches, Closed b) :
    Closed (conditionalCode notIf branch branches) := by
  cases notIf <;> exact depth_branches hclosed

end ScriptEnv

open ScriptEnv

/-- A conditional takes the element on top and runs every other branch, whatever conditionals it
is inside of, and may itself be part of a branch. Where nothing is executed, its instructions are
only tested and counted. -/
theorem conditional_meaning (e : ScriptEnv) (script : CScript) (notIf : Bool)
    {branch : List Instruction} {branches : List (List Instruction)}
    (hclosed : ∀ b ∈ branch :: branches, Closed b) :
    Closed (conditionalCode notIf branch branches) ∧
    ∀ t : ScriptStacks, t.stack.length + t.altstack.length ≤ 1000 → ∀ outer : List Bool,
      e.runCode script (conditionalCode notIf branch branches) ⟨t, outer⟩ =
        (if outer.contains false then skipCode (conditionalCode notIf branch branches) t
          else e.runConditional script notIf (branch :: branches) t).map (⟨·, outer⟩) := by
  refine ⟨closed_conditional notIf hclosed, fun t hsize outer => ?_⟩
  split_ifs with houter
  · exact runCode_of_closed_skipped houter (closed_conditional notIf hclosed) hsize
  · exact runCode_conditional (Bool.eq_false_of_not_eq_true houter) notIf hclosed hsize

/-- The branch after the else is taken. -/
theorem conditional_meaning_else :
    SampleScript.env.runCode [] (conditionalCode false [(0x52, [])] [[(0x53, [])]])
        ⟨⟨[[]], [], 0⟩, [true]⟩ =
      .ok ⟨⟨[[3]], [], 3⟩, [true]⟩ :=
  (conditional_meaning SampleScript.env [] false (by decide)).2 ⟨[[]], [], 0⟩ (by decide) [true]

end IndexChain
