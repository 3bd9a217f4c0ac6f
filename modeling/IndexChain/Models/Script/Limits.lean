import IndexChain.Models.Script.Runs

/-!
# The limits of a script

Whatever script is evaluated, and whether it succeeds or not: in every state that
`EvalScript` reaches the stacks hold at most 1000 elements of at most 520 bytes each, at most
201 instructions were counted, and no more conditionals are open.
-/

namespace IndexChain

open IndexChain.Core

/-! ## What an instruction leaves -/

/-- The elements that the instructions make are hashes and numbers. -/
def Made (v : Valtype) : Prop := v.length ≤ 32

theorem made_serialize (n : Int) : Made (CScriptNum.serialize n) :=
  (CScriptNum.length_serialize_le n).trans (by decide)

theorem made_vchBool (b : Bool) : Made (vchBool b) := by
  cases b
  · exact Nat.zero_le 32
  · exact (by decide : 1 ≤ 32)

theorem made_vector {n : Nat} (v : Vector UInt8 n) (h : n ≤ 32) : Made v.toList := by
  rw [Made, Vector.length_toList]
  exact h

theorem stackOp_mem {op : StackOp} {stack stack' : List Valtype}
    (h : stackOp op stack = some stack')
    {v : Valtype} (hv : v ∈ stack') : v ∈ stack ∨ Made v := by
  unfold stackOp at h
  split at h <;> cases h
  case h_7 x s =>
    split at hv <;> simp_all
  all_goals
    simp only [List.mem_cons] at hv ⊢
    first
    | tauto
    | (obtain rfl | hv := hv
       · exact .inr (made_serialize _)
       · tauto)

namespace ScriptStacks

variable {s t : ScriptStacks} {stack : List Valtype}

/-- An element is on one of the stacks. -/
def Holds (s : ScriptStacks) (v : Valtype) : Prop := v ∈ s.stack ∨ v ∈ s.altstack

/-- The stacks hold what they held before and what was made, and `nOpCount` went up to 201 at
most. -/
structure Grows (s t : ScriptStacks) : Prop where
  /-- What is there. -/
  holds : ∀ v, t.Holds v → s.Holds v ∨ Made v
  /-- The count does not go down. -/
  le : s.nOpCount ≤ t.nOpCount
  /-- It is below the limit where it was. -/
  limit : s.nOpCount ≤ 201 → t.nOpCount ≤ 201

theorem Grows.refl (s : ScriptStacks) : s.Grows s :=
  ⟨fun _ hv => .inl hv, Nat.le_refl _, id⟩

/-- A new stack of elements that were there or were made. -/
theorem Grows.withStack (h : ∀ v ∈ stack, v ∈ s.stack ∨ Made v) : s.Grows (s.withStack stack) := by
  refine ⟨?_, Nat.le_refl _, id⟩
  rintro v (hv | hv)
  · exact (h v hv).imp_left .inl
  · exact .inl (.inr hv)

theorem Grows.leave {fValue verify : Bool} {err : ScriptError} (hstack : ∀ v ∈ stack, v ∈ s.stack)
    (h : s.leave stack fValue verify err = .ok t) : s.Grows t := by
  unfold ScriptStacks.leave at h
  split_ifs at h
  · cases h
    exact .withStack fun v hv => .inl (hstack v hv)
  · cases h
    refine .withStack fun v hv => ?_
    obtain rfl | hv := List.mem_cons.1 hv
    · exact .inr (made_vchBool fValue)
    · exact .inl (hstack v hv)

end ScriptStacks

namespace ScriptEnv

variable {e : ScriptEnv} {script : CScript} {s t : ScriptStacks}

open ScriptStacks

theorem made_hashOp (op : HashOp) (vch : Valtype) : Made (e.hashOp op vch) := by
  cases op <;> exact made_vector _ (by decide)

/-- `OP_CHECKMULTISIG` takes its arguments from the top of the stack. -/
theorem multisigArgs_spec {args : MultisigArgs} {nOpCount : Nat} :
    e.multisigArgs s = .ok (args, nOpCount) ↔ ∃ vchKeys vchSigs,
      s.stack = vchKeys :: (args.keys ++ vchSigs :: (args.sigs ++ args.dummy :: args.below)) ∧
      e.number vchKeys = .ok args.keys.length ∧ e.number vchSigs = .ok args.sigs.length ∧
      args.keys.length ≤ 20 ∧ args.sigs.length ≤ args.keys.length ∧
      nOpCount = s.nOpCount + args.keys.length ∧ nOpCount ≤ 201 := by
  obtain ⟨sigs, keys, dummy, below⟩ := args
  unfold multisigArgs
  constructor
  · intro h
    cases hstack : s.stack with
    | nil =>
      rw [hstack] at h
      cases h
    | cons vchKeys stack =>
      simp only [hstack] at h
      obtain ⟨nKeysCount, hkeys, h⟩ := except_bind_eq_ok.1 h
      obtain ⟨hkeysRange, h⟩ := require_bind_eq_ok.1 h
      obtain ⟨hcount, h⟩ := require_bind_eq_ok.1 h
      simp only [decide_eq_true_eq] at hkeysRange hcount
      obtain ⟨hkeys0, hkeys20⟩ := hkeysRange
      lift nKeysCount to Nat using hkeys0
      cases hdrop : stack.drop nKeysCount with
      | nil => simp [hdrop] at h
      | cons vchSigs stack' =>
        simp only [Int.toNat_natCast, hdrop] at h
        obtain ⟨nSigsCount, hsigs, h⟩ := except_bind_eq_ok.1 h
        obtain ⟨hsigsRange, h⟩ := require_bind_eq_ok.1 h
        simp only [decide_eq_true_eq] at hsigsRange
        obtain ⟨hsigs0, hsigsLe⟩ := hsigsRange
        lift nSigsCount to Nat using hsigs0
        cases hdrop' : stack'.drop nSigsCount with
        | nil => simp [hdrop'] at h
        | cons dummy' below' =>
          simp only [Int.toNat_natCast, hdrop'] at h
          cases h
          have hkeysLength : (stack.take nKeysCount).length = nKeysCount := by
            have := congrArg List.length hdrop
            simp at this ⊢
            omega
          have hsigsLength : (stack'.take nSigsCount).length = nSigsCount := by
            have := congrArg List.length hdrop'
            simp at this ⊢
            omega
          refine ⟨vchKeys, vchSigs, ?_, ?_, ?_, ?_, ?_, ?_, ?_⟩
          · rw [← hdrop', List.take_append_drop, ← hdrop, List.take_append_drop]
          · rw [hkeysLength, hkeys]
          · rw [hsigsLength, hsigs]
          · simp only [hkeysLength]
            omega
          · simp only [hkeysLength, hsigsLength]
            omega
          · rw [hkeysLength]
          · exact hcount
  · rintro ⟨vchKeys, vchSigs, hstack, hkeys, hsigs, hkeys20, hsigsLe, rfl, hcount⟩
    simp only at hstack hkeys hsigs hkeys20 hsigsLe hcount
    simp only [hstack, hkeys, hsigs, except_ok_bind, Int.toNat_natCast, List.drop_left,
      List.take_left]
    refine require_bind_eq_ok.2 ⟨decide_eq_true (by omega), ?_⟩
    refine require_bind_eq_ok.2 ⟨decide_eq_true hcount, ?_⟩
    exact require_bind_eq_ok.2 ⟨decide_eq_true (by omega), rfl⟩

theorem evalMultisig_grows {verify : Bool} (h : e.evalMultisig script verify s = .ok t) :
    s.Grows t := by
  obtain ⟨⟨args, nOpCount⟩, hargs, h⟩ := except_bind_eq_ok.1 h
  obtain ⟨fSuccess, -, h⟩ := except_bind_eq_ok.1 h
  obtain ⟨-, h⟩ := require_bind_eq_ok.1 h
  obtain ⟨vchKeys, vchSigs, hstack, -, -, -, -, rfl, hlimit⟩ := multisigArgs_spec.1 hargs
  have hbelow : ∀ v ∈ args.below, v ∈ s.stack := by
    intro v hv
    rw [hstack]
    simp [hv]
  have hgrows : Grows { s with nOpCount := s.nOpCount + args.keys.length } t := .leave hbelow h
  exact ⟨hgrows.holds, (Nat.le_add_right _ _).trans hgrows.le, fun _ => hgrows.limit hlimit⟩

theorem evalPick_grows {roll : Bool} (h : e.evalPick roll s = .ok t) : s.Grows t := by
  unfold evalPick at h
  split at h
  · next vchN x stack hstack =>
    obtain ⟨n, -, h⟩ := except_bind_eq_ok.1 h
    split at h
    · cases h
    · next vch hvch =>
      cases h
      split_ifs at hvch with hneg
      have hmem := List.mem_of_getElem? hvch
      refine .withStack fun v hv => .inl ?_
      rw [hstack]
      obtain rfl | hv := List.mem_cons.1 hv
      · exact List.mem_cons_of_mem _ hmem
      · split_ifs at hv
        · exact List.mem_cons_of_mem _ (List.mem_of_mem_eraseIdx hv)
        · exact List.mem_cons_of_mem _ hv
  · cases h

theorem evalLockTime_eq (h : e.evalLockTime s = .ok t) : t = s := by
  unfold evalLockTime at h
  split_ifs at h
  · split at h
    · cases h
    · split at h
      · cases h
      · split_ifs at h
        cases h
        rfl
  · cases h
    rfl

theorem evalCondition_grows {verify : Bool} (h : e.evalCondition script verify s = .ok t) :
    s.Grows t := by
  unfold evalCondition at h
  split_ifs at h
  split at h
  · next cond ffill stack hstack =>
    extract_lets fResult at h
    split_ifs at h
    refine .leave (fun v hv => ?_) h
    rw [hstack]
    exact List.mem_cons_of_mem _ (List.mem_cons_of_mem _ hv)
  · cases h

/-- What each instruction leaves. -/
theorem evalOp_grows {op : ScriptOp} (h : e.evalOp script s op = .ok t) : s.Grows t := by
  cases op with
  | pushNumber n =>
    cases h
    refine .withStack fun v hv => ?_
    obtain rfl | hv := List.mem_cons.1 hv
    · exact .inr (made_serialize n)
    · exact .inl hv
  | opNop =>
    cases h
    exact .refl s
  | opChecklocktimeverify =>
    rw [evalLockTime_eq h]
    exact .refl s
  | upgradableNop =>
    rw [evalOp] at h
    split_ifs at h
    cases h
    exact .refl s
  | opVerify =>
    rw [evalOp] at h
    split at h
    · cases h
    · next vch stack hstack =>
      split_ifs at h
      cases h
      refine .withStack fun v hv => .inl ?_
      rw [hstack]
      exact List.mem_cons_of_mem _ hv
  | opReturn => cases h
  | opToaltstack =>
    rw [evalOp] at h
    split at h
    · cases h
    · next vch stack hstack =>
      cases h
      refine ⟨fun v hv => .inl ?_, Nat.le_refl _, id⟩
      simp only [Holds, hstack, List.mem_cons] at hv ⊢
      tauto
  | opFromaltstack =>
    rw [evalOp] at h
    split at h
    · cases h
    · next vch altstack haltstack =>
      cases h
      refine ⟨fun v hv => .inl ?_, Nat.le_refl _, id⟩
      simp only [Holds, haltstack, List.mem_cons] at hv ⊢
      tauto
  | move op =>
    rw [evalOp] at h
    split at h
    · next stack hstack =>
      cases h
      exact .withStack fun v hv => stackOp_mem hstack hv
    · cases h
  | opPick roll => exact evalPick_grows h
  | opEqual verify =>
    rw [evalOp] at h
    split at h
    · next vch2 vch1 stack hstack =>
      refine .leave (fun v hv => ?_) h
      rw [hstack]
      exact List.mem_cons_of_mem _ (List.mem_cons_of_mem _ hv)
    · cases h
  | unary op =>
    rw [evalOp] at h
    split at h
    · next vch stack hstack =>
      obtain ⟨bn, -, h⟩ := except_bind_eq_ok.1 h
      cases h
      refine .withStack fun v hv => ?_
      rw [hstack]
      obtain rfl | hv := List.mem_cons.1 hv
      · exact .inr (made_serialize _)
      · exact .inl (List.mem_cons_of_mem _ hv)
    · cases h
  | binary op =>
    rw [evalOp] at h
    split at h
    · next vch2 vch1 stack hstack =>
      obtain ⟨bn1, -, h⟩ := except_bind_eq_ok.1 h
      obtain ⟨bn2, -, h⟩ := except_bind_eq_ok.1 h
      cases h
      refine .withStack fun v hv => ?_
      rw [hstack]
      obtain rfl | hv := List.mem_cons.1 hv
      · exact .inr (made_serialize _)
      · exact .inl (List.mem_cons_of_mem _ (List.mem_cons_of_mem _ hv))
    · cases h
  | opNumequalverify =>
    rw [evalOp] at h
    split at h
    · next vch2 vch1 stack hstack =>
      obtain ⟨bn1, -, h⟩ := except_bind_eq_ok.1 h
      obtain ⟨bn2, -, h⟩ := except_bind_eq_ok.1 h
      refine .leave (fun v hv => ?_) h
      rw [hstack]
      exact List.mem_cons_of_mem _ (List.mem_cons_of_mem _ hv)
    · cases h
  | opWithin =>
    rw [evalOp] at h
    split at h
    · next vch3 vch2 vch1 stack hstack =>
      obtain ⟨bn1, -, h⟩ := except_bind_eq_ok.1 h
      obtain ⟨bn2, -, h⟩ := except_bind_eq_ok.1 h
      obtain ⟨bn3, -, h⟩ := except_bind_eq_ok.1 h
      cases h
      refine .withStack fun v hv => ?_
      rw [hstack]
      obtain rfl | hv := List.mem_cons.1 hv
      · exact .inr (made_vchBool _)
      · exact .inl (by simp [hv])
    · cases h
  | hash op =>
    rw [evalOp] at h
    split at h
    · next vch stack hstack =>
      cases h
      refine .withStack fun v hv => ?_
      rw [hstack]
      obtain rfl | hv := List.mem_cons.1 hv
      · exact .inr (made_hashOp op vch)
      · exact .inl (List.mem_cons_of_mem _ hv)
    · cases h
  | opChecksig verify =>
    rw [evalOp] at h
    split at h
    · next vchPubKey vchSig stack hstack =>
      obtain ⟨fSuccess, -, h⟩ := except_bind_eq_ok.1 h
      refine .leave (fun v hv => ?_) h
      rw [hstack]
      exact List.mem_cons_of_mem _ (List.mem_cons_of_mem _ hv)
    · cases h
  | opCheckmultisig verify => exact evalMultisig_grows h
  | opCheckcryptocondition verify => exact evalCondition_grows h

/-! ## One round of the loop -/

theorem onStacks_holds {opcode : UInt8} {vchPushValue : Valtype}
    (h : e.onStacks script opcode vchPushValue s = .ok t) {v : Valtype} (hv : t.Holds v) :
    s.Holds v ∨ Made v ∨ v = vchPushValue := by
  unfold onStacks at h
  split_ifs at h
  · cases h
    obtain hv | hv := hv
    · obtain rfl | hv := List.mem_cons.1 hv
      · exact .inr (.inr rfl)
      · exact .inl (.inl hv)
    · exact .inl (.inr hv)
  · split at h
    · exact ((evalOp_grows h).holds v hv).imp_right .inl
    · cases h

theorem onStacks_count {opcode : UInt8} {vchPushValue : Valtype}
    (h : e.onStacks script opcode vchPushValue s = .ok t) :
    s.nOpCount ≤ t.nOpCount ∧ (s.nOpCount ≤ 201 → t.nOpCount ≤ 201) := by
  unfold onStacks at h
  split_ifs at h
  · cases h
    exact ⟨Nat.le_refl _, id⟩
  · split at h
    · exact ⟨(evalOp_grows h).le, (evalOp_grows h).limit⟩
    · cases h

theorem lt_of_control {opcode : UInt8} {op : ControlOp} (h : controlOps.lookup opcode = some op) :
    0x60 < opcode := by
  have hall : ∀ b : BitVec 8, (controlOps.lookup (UInt8.ofBitVec b)).isSome →
      0x60 < UInt8.ofBitVec b := by
    decide
  exact hall opcode.toBitVec (Option.isSome_of_mem h)

end ScriptEnv

namespace ScriptState

variable {s s' : ScriptState}

/-- An instruction of a conditional opens one at most, and makes no element. -/
theorem evalControl_spec {op : ControlOp} (h : s.evalControl op = .ok s') :
    (∀ v, s'.Holds v → s.Holds v) ∧ s'.nOpCount = s.nOpCount ∧
      s'.vfExec.length ≤ s.vfExec.length + 1 := by
  cases op with
  | opIf notIf =>
    rw [evalControl] at h
    split_ifs at h
    · split at h
      · cases h
      · next vch stack hstack =>
        cases h
        refine ⟨fun v hv => hv.imp_left fun hv => ?_, rfl, Nat.le_refl _⟩
        rw [hstack]
        exact List.mem_cons_of_mem _ hv
    · cases h
      exact ⟨fun _ hv => hv, rfl, Nat.le_refl _⟩
  | opElse =>
    rw [evalControl] at h
    split at h
    · cases h
    · next fValue vfExec hexec =>
      cases h
      refine ⟨fun _ hv => hv, rfl, ?_⟩
      rw [hexec]
      exact Nat.le_succ _
  | opEndif =>
    rw [evalControl] at h
    split at h
    · cases h
    · next fValue vfExec hexec =>
      cases h
      refine ⟨fun _ hv => hv, rfl, ?_⟩
      rw [hexec, List.length_cons]
      exact Nat.le_add_right _ 2

/-- The limits. -/
structure Within (s : ScriptState) : Prop where
  /-- `stack` and `altstack` together. -/
  size : s.stack.length + s.altstack.length ≤ 1000
  /-- Every element. -/
  element : ∀ v, s.Holds v → v.length ≤ 520
  /-- The instructions that count. -/
  count : s.nOpCount ≤ 201
  /-- The open conditionals. -/
  nesting : s.vfExec.length ≤ s.nOpCount

theorem within_start {stack : List Valtype} (hsize : stack.length ≤ 1000)
    (helement : ∀ v ∈ stack, v.length ≤ 520) : (start stack).Within where
  size := hsize
  element := by
    rintro v (hv | hv)
    · exact helement v hv
    · cases hv
  count := Nat.zero_le 201
  nesting := Nat.le_refl 0

/-- A round of the loop keeps to the limits. -/
theorem Within.step {e : ScriptEnv} {script : CScript} {opcode : UInt8} {vchPushValue : Valtype}
    (hs : s.Within) (h : e.step script s opcode vchPushValue = .ok s') : s'.Within := by
  obtain ⟨hpush, hlimit, -, h, hsize⟩ := ScriptEnv.step_spec.1 h
  have hcount : ScriptEnv.countOp opcode s.nOpCount ≤ 201 := by
    obtain hle | hle := hlimit
    · rw [ScriptEnv.countOp_of_le hle]
      exact hs.count
    · exact hle
  have hle := ScriptEnv.le_countOp opcode s.nOpCount
  unfold ScriptEnv.execute at h
  split at h
  · next op hop =>
    obtain ⟨hholds, hsame, hopen⟩ := evalControl_spec h
    refine ⟨hsize, fun v hv => hs.element v (hholds v hv), hsame.le.trans hcount, ?_⟩
    rw [hsame]
    simp only [ScriptEnv.countOp_of_lt (ScriptEnv.lt_of_control hop)]
    exact hopen.trans (Nat.succ_le_succ hs.nesting)
  · split_ifs at h
    · obtain ⟨t, ht, h⟩ := except_bind_eq_ok.1 h
      cases h
      obtain ⟨hmore, hmost⟩ := ScriptEnv.onStacks_count ht
      refine ⟨hsize, fun v hv => ?_, hmost hcount, (hs.nesting.trans hle).trans hmore⟩
      obtain hv | hv | rfl := ScriptEnv.onStacks_holds ht hv
      · exact hs.element v hv
      · exact Nat.le_trans hv (by decide)
      · exact hpush
    · cases h
      exact ⟨hsize, hs.element, hcount, hs.nesting.trans hle⟩

end ScriptState

/-- Every state that is reached keeps to the limits, also where the script fails later. -/
theorem ScriptEnv.Ran.within {e : ScriptEnv} {script : CScript} {stack : List Valtype}
    {visits : List Visit} {pc : CScript} {s : ScriptState}
    (h : e.Ran script stack visits pc s) (hstack : (ScriptState.start stack).Within) :
    s.Within := by
  induction h with
  | start => exact hstack
  | next ran read done ih => exact ih.step done

/-- A script that starts within the limits stays within them, and so does what it leaves. -/
theorem script_limits (e : ScriptEnv) (script : CScript) {stack : List Valtype}
    (hsize : stack.length ≤ 1000) (helement : ∀ v ∈ stack, v.length ≤ 520) :
    (∀ visits pc s, e.Ran script stack visits pc s → s.Within) ∧
    ∀ stack', e.evalScript stack script = .ok stack' →
      stack'.length ≤ 1000 ∧ ∀ v ∈ stack', v.length ≤ 520 := by
  have hwithin : ∀ visits pc s, e.Ran script stack visits pc s → s.Within :=
    fun _ _ _ hran => hran.within (ScriptState.within_start hsize helement)
  refine ⟨hwithin, fun stack' h => ?_⟩
  obtain ⟨-, visits, s, hran, -, rfl⟩ := ScriptEnv.ran_of_evalScript h
  have hs := hwithin visits [] s hran
  exact ⟨(Nat.le_add_right _ _).trans hs.size, fun v hv => hs.element v (.inl hv)⟩

/-- A sum on the stack. -/
theorem script_limits_sum :
    [[(2 : UInt8)]].length ≤ 1000 ∧ ∀ v ∈ [[(2 : UInt8)]], v.length ≤ 520 :=
  (@script_limits SampleScript.env [0x51, 0x51, 0x93] [] (by decide) (by decide)).2 [[2]] rfl

end IndexChain
