import Mathlib.Algebra.Order.BigOperators.Group.List
import IndexChain.Models.Prices.ReduceSound

/-!
# Runs of the reducer

The loop of `prices_getreducedexpr` skips as many words as a substitution takes away, so it
may look at an operator whose operands it has never seen. It still never reaches outside
of the expression, and it ends. The words it leaves are separated by commas, and `SplitStr`
finds them again.
-/

namespace IndexChain.Prices

open IndexChain.Core

/-! ## Operators have their operands before them -/

theorem wordAmount_le (t : Token) : wordAmount t ≤ 1 := by
  unfold wordAmount
  split
  · omega
  · split_ifs <;> omega

/-- As many operands as an operator needs are there when it is reached. -/
theorem WellFormed.need_le_sum {vexpr : List Token} (h : WellFormed vexpr) {i : Nat}
    {op : PriceOp} (hop : vexpr[i]? = some op.word) :
    (op.need : ℤ) ≤ ((vexpr.take i).map wordAmount).sum := by
  obtain ⟨hlt, hget⟩ := List.getElem?_eq_some_iff.mp hop
  have hsplit : vexpr = vexpr.take i ++ op.word :: vexpr.drop (i + 1) := by
    rw [← hget, ← List.drop_eq_getElem_cons hlt, List.take_append_drop]
  have hrun := h.depth
  rw [hsplit] at hrun
  obtain ⟨depth, hbefore, hrest⟩ := foldlM_append_eq_some.mp hrun
  obtain ⟨depth', hword, -⟩ := foldlM_cons_eq_some.mp hrest
  have hsum := wordDepth_run hbefore
  simp only [wordDepth, priceOpOf_word] at hword
  split at hword
  · omega
  · cases hword

theorem WellFormed.need_le {vexpr : List Token} (h : WellFormed vexpr) {i : Nat}
    {op : PriceOp} (hop : vexpr[i]? = some op.word) : op.need ≤ i := by
  have hneed := h.need_le_sum hop
  have hsum : ((vexpr.take i).map wordAmount).sum ≤
      ((vexpr.take i).map wordAmount).length • (1 : ℤ) := by
    refine List.sum_le_card_nsmul _ _ ?_
    intro amount hamount
    obtain ⟨t, -, rfl⟩ := List.mem_map.mp hamount
    exact wordAmount_le t
  simp only [List.length_map, List.length_take, nsmul_eq_mul, mul_one] at hsum
  omega

/-! ## The loop stays inside of the expression -/

/-- A round ends when the operands are there. -/
theorem reduceAt_ok {vexpr : List Token} {i : Nat}
    (hneed : ∀ op : PriceOp, vexpr[i]? = some op.word → op.need ≤ i) :
    ∃ vexpr', reduceAt vexpr i = .ok vexpr' := by
  by_cases hoperator : ∃ op : PriceOp, vexpr[i]? = some op.word
  · obtain ⟨op, hop⟩ := hoperator
    obtain ⟨pre, suf, hwindow, hi, hsplit⟩ := exists_window hop (hneed op hop)
    generalize operandWindow vexpr i op = window at hwindow hsplit
    subst hsplit hi
    by_cases hinv : op = .inv
    · subst hinv
      obtain ⟨a, rfl⟩ := List.length_eq_one_iff.mp hwindow
      exact ⟨_, reduceAt_inv pre suf a⟩
    · by_cases hrigid : Rigid (op.operands window)
      · obtain ⟨rs, hreduce⟩ := hrigid.reduceoperands hinv hwindow
        exact ⟨_, reduceAt_eq op pre suf hwindow hreduce⟩
      · obtain ⟨rs, need, hreduce, -⟩ := reduceoperands_of_not_rigid hinv hwindow hrigid
        exact ⟨_, reduceAt_eq op pre suf hwindow hreduce⟩
  · exact ⟨vexpr, reduceAt_of_not_operator (not_exists.mp hoperator)⟩

/-- The operators from a position on have their operands before them. -/
def OperandsBefore (vexpr : List Token) (i : Nat) : Prop :=
  ∀ k, i ≤ k → ∀ op : PriceOp, vexpr[k]? = some op.word → op.need ≤ k

theorem PriceOp.need_le_three (op : PriceOp) : op.need ≤ 3 := by
  cases op <;> decide

theorem PriceOp.one_le_need (op : PriceOp) : 1 ≤ op.need := by
  cases op <;> decide

/-- No operator takes three operands if it comes as the fourth word and the second is `!`. -/
theorem WellFormed.operandsBefore_inv {a : Token} {suf : List Token}
    (h : WellFormed (a :: PriceOp.inv.word :: suf)) :
    OperandsBefore (pricesInvertpair a :: suf) 2 := by
  intro k hk op hop
  by_cases hthree : 3 ≤ k
  · exact op.need_le_three.trans hthree
  · obtain rfl : k = 2 := by omega
    have hop' : (a :: PriceOp.inv.word :: suf)[3]? = some op.word := hop
    have hneed := h.need_le_sum hop'
    obtain ⟨c, rest, rfl⟩ : ∃ c rest, suf = c :: rest := by
      cases suf with
      | nil => cases hop
      | cons c rest => exact ⟨c, rest, rfl⟩
    have hinv : wordAmount PriceOp.inv.word = 0 := rfl
    have ha := wordAmount_le a
    have hc := wordAmount_le c
    simp only [List.take_succ_cons, List.take_zero, List.map_cons, List.map_nil, List.sum_cons,
      List.sum_nil, hinv] at hneed
    omega

/-- The first round that changes an expression leaves the operands before the operators
behind it. -/
theorem WellFormed.operandsBefore {vexpr vexpr' : List Token} {i : Nat} (h : WellFormed vexpr)
    {op : PriceOp} (hop : vexpr[i]? = some op.word) (hround : reduceAt vexpr i = .ok vexpr') :
    OperandsBefore vexpr' (i + 1) := by
  have hneed := h.need_le hop
  have hone := op.one_le_need
  by_cases htwo : 2 ≤ i
  · intro k hk op' _
    have hthree := op'.need_le_three
    omega
  · have hinv : op = .inv := by
      cases op <;> first | rfl | (simp only [PriceOp.need] at hneed; omega)
    subst hinv
    obtain rfl : i = 1 := by omega
    obtain ⟨pre, suf, hwindow, hi, hsplit⟩ := exists_window hop hneed
    generalize operandWindow vexpr 1 .inv = window at hwindow hsplit
    obtain rfl : pre = [] := List.length_eq_zero_iff.mp (by simpa [PriceOp.need] using hi)
    obtain ⟨a, rfl⟩ := List.length_eq_one_iff.mp hwindow
    subst hsplit
    rw [show (1 : Nat) = ([] : List Token).length + PriceOp.inv.need from rfl,
      reduceAt_inv] at hround
    cases hround
    exact h.operandsBefore_inv

/-- An operator that is reached has its operands before it, whatever was substituted. -/
theorem Reaches.need_le {start vexpr : List Token} {i : Nat} (hwf : WellFormed start)
    (h : Reaches start vexpr i) :
    ∀ op : PriceOp, vexpr[i]? = some op.word → op.need ≤ i := by
  have hinvariant : vexpr = start ∨ (2 ≤ i ∧ OperandsBefore vexpr i) := by
    refine h.invariant (P := fun v i => v = start ∨ (2 ≤ i ∧ OperandsBefore v i)) (.inl rfl) ?_
    intro v v' j hreach hv hlt hround
    by_cases hoperator : ∃ op : PriceOp, v[j]? = some op.word
    · obtain ⟨op, hop⟩ := hoperator
      right
      rcases hv with rfl | ⟨htwo, hbefore⟩
      · have hneed := hwf.need_le hop
        have hone := op.one_le_need
        exact ⟨by omega, hwf.operandsBefore hop hround⟩
      · refine ⟨by omega, fun k hk op' _ => ?_⟩
        have hthree := op'.need_le_three
        omega
    · rw [reduceAt_of_not_operator (not_exists.mp hoperator)] at hround
      cases hround
      rcases hv with rfl | ⟨htwo, hbefore⟩
      · exact .inl rfl
      · exact .inr ⟨by omega, fun k hk => hbefore k (by omega)⟩
  intro op hop
  rcases hinvariant with rfl | ⟨-, hbefore⟩
  · exact hwf.need_le hop
  · exact hbefore i le_rfl op hop

/-- The loop ends in an expression that it reaches. -/
theorem WellFormed.reduceFrom_ok {start : List Token} (hwf : WellFormed start) :
    ∃ vexpr i, reduceFrom start 0 = .ok vexpr ∧ Reaches start vexpr i :=
  Reaches.start.reduceFrom_ok fun _ _ hreach _ => reduceAt_ok (hreach.need_le hwf)

/-- What all rounds in order keep is the meaning. -/
theorem Reaches.sameMeaning {start vexpr : List Token} {i : Nat} (hwf : WellFormed start)
    (hrounds : ∀ v j, Reaches start v j → RoundOk v j) (h : Reaches start vexpr i) :
    SameMeaning start vexpr := by
  refine h.invariant (P := fun v _ => SameMeaning start v) (.refl hwf) ?_
  intro v v' j hreach hv hlt hround
  exact hv.trans ((hrounds v j hreach).sameMeaning hv.wellFormed (hreach.need_le hwf) hround)

/-! ## Words and separators -/

/-- A word that `SplitStr` reads as one. -/
def IsUnbroken (t : Token) : Prop := t ≠ [] ∧ ∀ c ∈ t, (isSpace c || c == ',') = false

theorem isUnbroken_of_chars {t : Token} (hne : t ≠ [])
    (hchars : t.all (fun c => isWordChar c && c != '_') = true) : IsUnbroken t := by
  refine ⟨hne, fun c hc => ?_⟩
  have hchar := List.all_eq_true.mp hchars c hc
  simp only [isWordChar, Bool.and_eq_true, bne_iff_ne, Bool.not_eq_true'] at hchar
  simp [hchar.1.1.1, hchar.1.1.2]

theorem IsWord.isUnbroken {t : Token} (h : IsWord t) : IsUnbroken t := by
  rcases h with ⟨op, rfl⟩ | h | h
  · refine ⟨IsPlain.ne_nil (.inl ⟨op, rfl⟩), fun c hc => ?_⟩
    have hchar : c = '*' ∨ c = '/' ∨ c = '!' := by
      cases op <;> simp only [PriceOp.word, List.mem_cons, List.not_mem_nil] at hc <;> tauto
    rcases hchar with rfl | rfl | rfl <;> rfl
  · have hup := isUnbroken_of_chars h.upper.ne_nil h.upper.chars
    have hbottom := isUnbroken_of_chars h.bottom.ne_nil h.bottom.chars
    rw [h.eq_append]
    refine ⟨by simp, fun c hc => ?_⟩
    rcases List.mem_append.mp hc with hc | hc
    · exact hup.2 c hc
    · rcases List.mem_cons.mp hc with rfl | hc
      · decide
      · exact hbottom.2 c hc
  · exact isUnbroken_of_chars (IsPlain.ne_nil (.inr h)) h.chars

/-- The characters of a word are read into it. -/
theorem splitStrFrom_append {t : Token} (ht : ∀ c ∈ t, (isSpace c || c == ',') = false)
    (rest : List Char) (str : Token) :
    splitStrFrom (t ++ rest) str = splitStrFrom rest (str ++ t) := by
  induction t generalizing str with
  | nil => simp
  | cons c t ih =>
    obtain ⟨hc, ht⟩ := List.forall_mem_cons.mp ht
    rw [List.cons_append, splitStrFrom, hc, if_neg Bool.false_ne_true, ih ht, List.append_assoc]
    rfl

/-- The words behind a word, each after a comma and a space. -/
theorem splitStrFrom_separated {vexpr : List Token} (hwords : ∀ t ∈ vexpr, IsUnbroken t)
    {str : Token} (hstr : str ≠ []) :
    splitStrFrom (vexpr.flatMap fun t => [',', ' '] ++ t) str = str :: vexpr := by
  induction vexpr generalizing str with
  | nil => simp [splitStrFrom, hstr]
  | cons t vexpr ih =>
    obtain ⟨ht, hwords⟩ := List.forall_mem_cons.mp hwords
    have hcomma : (isSpace ',' || ',' == ',') = true := by decide
    have hspace : (isSpace ' ' || ' ' == ',') = true := by decide
    have hcons : ((t :: vexpr).flatMap fun t => [',', ' '] ++ t) =
        ',' :: ' ' :: (t ++ vexpr.flatMap fun t => [',', ' '] ++ t) := by
      simp
    rw [hcons, splitStrFrom, if_pos hcomma, if_neg hstr, splitStrFrom, if_pos hspace, if_pos rfl,
      splitStrFrom_append ht.2, List.nil_append, ih hwords ht.1]

/-- After the first word, each word is written after a comma and a space. -/
theorem foldl_joinExpr {vexpr : List Token} {reduced : List Char} (hreduced : reduced ≠ []) :
    vexpr.foldl (fun reduced v =>
      (if reduced ≠ [] then reduced ++ [',', ' '] else reduced) ++ v) reduced =
      reduced ++ vexpr.flatMap fun t => [',', ' '] ++ t := by
  induction vexpr generalizing reduced with
  | nil => simp
  | cons t vexpr ih =>
    rw [List.foldl_cons, if_pos hreduced, ih (by simp [hreduced]), List.flatMap_cons]
    simp

/-- `SplitStr` finds the words of an expression again. -/
theorem splitStr_joinExpr {vexpr : List Token} (hwords : ∀ t ∈ vexpr, IsUnbroken t) :
    splitStr (joinExpr vexpr) = vexpr := by
  cases vexpr with
  | nil => rfl
  | cons t vexpr =>
    obtain ⟨ht, hwords⟩ := List.forall_mem_cons.mp hwords
    rw [joinExpr, List.foldl_cons, if_neg (not_not.mpr rfl), List.nil_append,
      foldl_joinExpr ht.1, splitStr, splitStrFrom_append ht.2, List.nil_append,
      splitStrFrom_separated hwords ht.1]

/-- `prices_getreducedexpr` ends, and if all rounds are in order it writes an expression of
the same meaning. -/
theorem WellFormed.getreducedexpr {expr : List Char} (hwf : WellFormed (splitStr expr)) :
    ∃ reduced, pricesGetreducedexpr expr = .ok reduced ∧
      ((∀ v i, Reaches (splitStr expr) v i → RoundOk v i) →
        SameMeaning (splitStr expr) (splitStr reduced)) := by
  obtain ⟨vexpr, i, hok, hreach⟩ := hwf.reduceFrom_ok
  refine ⟨joinExpr vexpr, ?_, fun hrounds => ?_⟩
  · rw [pricesGetreducedexpr, hok]
    rfl
  · have hsame := hreach.sameMeaning hwf hrounds
    rwa [splitStr_joinExpr fun t ht => (hsame.wellFormed.isWord t ht).isUnbroken]

end IndexChain.Prices
