import IndexChain.Models.Prices.ReduceRounds

/-!
# What a round of the reducer means

An operation on price pairs stands for the product of the pairs, each inverted where the
operator divides by it, and so does what the reducer leaves of it. A word that is no pair
is taken for an operand all the same; this does no harm when it ends the first of three
operands, or when it is a multiplication between two pairs.
-/

namespace IndexChain.Prices

open IndexChain.Core

/-! ## Words without letters -/

/-- A word of the grammar that is no pair. -/
def IsPlain (t : Token) : Prop := (∃ op : PriceOp, t = op.word) ∨ IsWeight t

theorem IsPlain.notMem {t : Token} (h : IsPlain t) : '_' ∉ t := by
  obtain ⟨op, rfl⟩ | h := h
  · exact op.notMem_word
  · exact h.notMem

theorem IsPlain.ne_nil {t : Token} (h : IsPlain t) : t ≠ [] := by
  rintro rfl
  obtain ⟨op, hop⟩ | h := h
  · cases op <;> cases hop
  · cases h.digits

theorem IsPlain.no_letter {t : Token} (h : IsPlain t) : t.any Char.isAlpha = false := by
  obtain ⟨op, rfl⟩ | h := h
  · cases op <;> rfl
  · by_contra hletter
    obtain ⟨c, hc, halpha⟩ := List.any_eq_true.mp (Bool.eq_true_of_not_eq_false hletter)
    have hdigits := h.digits
    have hany : t.any (fun c => c.isAlpha || c == '/') = true :=
      List.any_eq_true.mpr ⟨c, hc, by simp [halpha]⟩
    simp [isWeightStr, hany] at hdigits

theorem IsPlain.ne_quote {t q : Token} (h : IsPlain t) (hq : IsQuote q) : t ≠ q := by
  rintro rfl
  have hletter := hq.letter
  rw [h.no_letter] at hletter
  cases hletter

theorem IsPlain.not_selfPair {t : Token} (h : IsPlain t) : ¬ SelfPair t := by
  rw [SelfPair, splitpair_of_notMem h.notMem]
  exact h.ne_nil

theorem IsPlain.not_cancels {t y : Token} (h : IsPlain t) (hy : IsPair y) : ¬ Cancels t y := by
  rw [Cancels, splitpair_of_notMem h.notMem]
  rintro (heq | heq)
  · exact h.ne_quote hy.bottom heq
  · exact hy.upper.ne_nil heq.symm

theorem IsPair.not_cancels {x t : Token} (hx : IsPair x) (h : IsPlain t) : ¬ Cancels x t := by
  rw [Cancels, splitpair_of_notMem h.notMem]
  rintro (heq | heq)
  · exact hx.upper.ne_nil heq
  · exact h.ne_quote hx.bottom heq.symm

/-! ## Operations on pairs -/

/-- Pairs are pushed one after the other. -/
theorem foldlM_pairs {window : List Token} (hpairs : ∀ v ∈ window, IsPair v)
    {m m' : FormalMachine} (h : window.foldlM formalStep m = some m') :
    m' = { m with stack := (window.map quotient).reverse ++ m.stack } ∧
      (window ≠ [] → m'.stack.length ≤ 3) := by
  induction window generalizing m with
  | nil =>
    cases h
    exact ⟨rfl, fun hne => absurd rfl hne⟩
  | cons v window ih =>
    obtain ⟨hv, hpairs⟩ := List.forall_mem_cons.mp hpairs
    obtain ⟨m₁, hstep, hrest⟩ := foldlM_cons_eq_some.mp h
    rw [hv.formalStep] at hstep
    split at hstep
    case isFalse => cases hstep
    case isTrue hlt =>
      cases hstep
      obtain ⟨rfl, hlength⟩ := ih hpairs hrest
      refine ⟨by simp [FormalMachine.push], fun _ => ?_⟩
      by_cases hne : window = []
      · subst hne
        simp only [FormalMachine.push, List.map_nil, List.reverse_nil, List.nil_append,
          List.length_cons]
        omega
      · exact hlength hne

/-- An operation on pairs pushes the product of their quotients. -/
theorem foldlM_operation (op : PriceOp) {window : List Token} (hpairs : ∀ v ∈ window, IsPair v)
    (hwindow : window.length = op.need) {m m' : FormalMachine}
    (h : (window ++ [op.word]).foldlM formalStep m = some m') :
    m' = m.push (op.product (window.map quotient)) ∧ m.stack.length + op.need ≤ 3 := by
  obtain ⟨m₁, hpush, hop⟩ := foldlM_append_eq_some.mp h
  obtain ⟨rfl, hlength⟩ := foldlM_pairs hpairs hpush
  have hne : window ≠ [] := by
    rintro rfl
    cases op <;> cases hwindow
  have hlength := hlength hne
  obtain ⟨m₂, hword, hend⟩ := foldlM_cons_eq_some.mp hop
  cases hend
  rw [formalStep_word] at hword
  have hreverse : (window.map quotient).reverse.length = op.need := by
    rw [List.length_reverse, List.length_map, hwindow]
  split at hword
  case isFalse => cases hword
  case isTrue hneed =>
    cases hword
    constructor
    · simp [FormalMachine.push, ← hreverse]
    · simp only [List.length_append, hreverse] at hlength
      omega

/-- Words for a product push it. -/
theorem Spells.foldlM {g : QuoteProduct} {rs : List Token} (h : Spells g rs) {m : FormalMachine}
    (hroom : m.stack.length + 2 ≤ 3) : rs.foldlM formalStep m = some (m.push g) := by
  cases h with
  | @one x hx hg =>
    rw [List.foldlM_cons, hx.formalStep, if_pos (by omega), hg]
    rfl
  | @two x y hx hy hg =>
    have hpush : (m.push (quotient x)).stack.length < 3 := by
      simp only [FormalMachine.push, List.length_cons]
      omega
    rw [List.foldlM_cons, hx.formalStep, if_pos (by omega)]
    refine Option.bind_eq_some_iff.mpr ⟨_, rfl, ?_⟩
    rw [List.foldlM_cons, hy.formalStep, if_pos hpush]
    refine Option.bind_eq_some_iff.mpr ⟨_, rfl, ?_⟩
    have hword := formalStep_word .mult ((m.push (quotient x)).push (quotient y))
    rw [List.foldlM_cons, show (['*'] : Token) = PriceOp.mult.word from rfl, hword]
    simp [FormalMachine.push, PriceOp.need, PriceOp.product, PriceOp.divides, hg]

/-! ## Words that may be replaced -/

/-- An inverted pair. -/
theorem replaces_inv {a : Token} (ha : IsPair a) :
    Replaces formalStep [a, PriceOp.inv.word] [pricesInvertpair a] := by
  intro m m' hrun
  have hpairs : ∀ v ∈ [a], IsPair v := by simpa using ha
  obtain ⟨rfl, hroom⟩ := foldlM_operation .inv hpairs rfl hrun
  have hlt : m.stack.length < 3 := hroom
  rw [List.foldlM_cons, ha.invertpair.formalStep, if_pos hlt, ha.quotient_invertpair]
  simp [PriceOp.product, PriceOp.divides]

/-- The operands of an operator multiply to what the operator makes of the pairs. -/
theorem sum_operands (op : PriceOp) {window : List Token} (hpairs : ∀ v ∈ window, IsPair v) :
    ((op.operands window).map quotient).sum = op.product (window.map quotient) := by
  have hmap : ∀ divides : List Bool,
      (List.zipWith (fun divide v => if divide then pricesInvertpair v else v) divides
        window).map quotient =
      List.zipWith (fun divide g => if divide then -g else g) divides (window.map quotient) := by
    induction window with
    | nil => simp
    | cons v window ih =>
      obtain ⟨hv, hpairs⟩ := List.forall_mem_cons.mp hpairs
      rintro (_ | ⟨divide, divides⟩)
      · rfl
      · cases divide
        · simp [ih hpairs]
        · simp [ih hpairs, hv.quotient_invertpair]
  rw [PriceOp.operands, hmap, PriceOp.product]

/-- An operation on pairs. -/
theorem replaces_operation (op : PriceOp) {window rs : List Token}
    (hpairs : ∀ v ∈ window, IsPair v) (hwindow : window.length = op.need) (hneed : 2 ≤ op.need)
    (hrs : Spells (op.product (window.map quotient)) rs) :
    Replaces formalStep (window ++ [op.word]) rs := by
  intro m m' hrun
  obtain ⟨rfl, hroom⟩ := foldlM_operation op hpairs hwindow hrun
  exact hrs.foldlM (by omega)

theorem formalStep_mult {m m' : FormalMachine} :
    formalStep m ['*'] = some m' ↔
      ∃ x y rest, m.stack = y :: x :: rest ∧ m' = { m with stack := (x + y) :: rest } := by
  have hword := formalStep_word .mult m
  rw [show (PriceOp.mult.word : Token) = ['*'] from rfl] at hword
  rw [hword]
  rcases m with ⟨_ | ⟨y, _ | ⟨x, rest⟩⟩, total⟩
  · simp [PriceOp.need]
  · simp [PriceOp.need]
  · simp [PriceOp.need, PriceOp.product, PriceOp.divides, eq_comm]

theorem formalStep_ternary {op : PriceOp} (hneed : op.need = 3) {m m' : FormalMachine} :
    formalStep m op.word = some m' ↔ ∃ x y z rest, m.stack = z :: y :: x :: rest ∧
      m' = { m with stack := op.product [x, y, z] :: rest } := by
  rw [formalStep_word, hneed]
  rcases m with ⟨_ | ⟨z, _ | ⟨y, _ | ⟨x, rest⟩⟩⟩, total⟩
  · simp
  · simp
  · simp
  · simp [eq_comm]

/-- A word before two pairs that cancel stays, and the pairs are merged behind it. -/
theorem replaces_first {op : PriceOp} {t b c b' c' : Token} {rs : List Token}
    (hneed : op.need = 3) (hpairs : IsPair b ∧ IsPair c)
    (hproduct : ∀ x, op.product [x, quotient b, quotient c] = x + (quotient b' + quotient c'))
    (hb' : IsPair b') (hc' : IsPair c') (hcancel : Cancels b' c')
    (hrs : rs = if SelfPair (mergePair b' c') then [t] else [t, mergePair b' c', ['*']]) :
    Replaces formalStep [t, b, c, op.word] rs := by
  intro m m' hrun
  obtain ⟨m₁, ht, hrun⟩ := foldlM_cons_eq_some.mp hrun
  obtain ⟨m₂, hpush, hop⟩ := foldlM_append_eq_some.mp
    (show ([b, c] ++ [op.word]).foldlM formalStep m₁ = some m' from hrun)
  obtain ⟨rfl, hlength⟩ := foldlM_pairs (by simpa using hpairs) hpush
  have hlength := hlength (by simp)
  obtain ⟨m₃, hword, hend⟩ := foldlM_cons_eq_some.mp hop
  cases hend
  obtain ⟨x, y, z, rest, hstack, rfl⟩ := (formalStep_ternary hneed).mp hword
  simp only [List.map_cons, List.map_nil, List.reverse_cons, List.reverse_nil, List.nil_append,
    List.cons_append, List.cons.injEq] at hstack
  obtain ⟨rfl, rfl, hstack⟩ := hstack
  have hmerge := quotient_mergePair hb' hc' hcancel
  subst hrs
  rw [hproduct, ← hmerge]
  split_ifs with hself
  · rw [quotient_eq_zero_iff.mpr hself, add_zero]
    refine foldlM_cons_eq_some.mpr ⟨m₁, ht, ?_⟩
    simp [← hstack]
  · have hlt : m₁.stack.length < 3 := by
      simp only [List.map_cons, List.map_nil, List.reverse_cons, List.reverse_nil, List.nil_append,
        List.cons_append, List.length_cons] at hlength
      omega
    refine foldlM_cons_eq_some.mpr ⟨m₁, ht, ?_⟩
    refine foldlM_cons_eq_some.mpr ⟨_, ((hb'.mergePair hc').formalStep m₁).trans (if_pos hlt), ?_⟩
    refine foldlM_cons_eq_some.mpr ⟨_, formalStep_mult.mpr ⟨x, _, rest, ?_, rfl⟩, rfl⟩
    rw [FormalMachine.push, hstack]

/-- Pairs that cancel around a multiplication are merged before it. -/
theorem replaces_middle {op : PriceOp} {a c c' : Token} {rs : List Token}
    (hneed : op.need = 3) (ha : IsPair a) (hc : IsPair c)
    (hproduct : ∀ x y, op.product [x, y, quotient c] = x + (y + quotient c'))
    (hc' : IsPair c') (hcancel : Cancels a c')
    (hrs : rs = if SelfPair (mergePair a c') then [['*']] else [mergePair a c', ['*'], ['*']]) :
    Replaces formalStep [a, ['*'], c, op.word] rs := by
  intro m m' hrun
  obtain ⟨m₁, hpush, hrun⟩ := foldlM_cons_eq_some.mp hrun
  rw [ha.formalStep] at hpush
  split at hpush
  case isFalse => cases hpush
  case isTrue hlt =>
    cases hpush
    obtain ⟨m₂, hmult, hrun⟩ := foldlM_cons_eq_some.mp hrun
    obtain ⟨y, q, rest, hpushed, rfl⟩ := formalStep_mult.mp hmult
    obtain ⟨rfl, hstack⟩ := List.cons_eq_cons.mp hpushed
    obtain ⟨m₃, hpush, hrun⟩ := foldlM_cons_eq_some.mp hrun
    rw [hc.formalStep] at hpush
    split at hpush
    case isFalse => cases hpush
    case isTrue hlt' =>
      cases hpush
      obtain ⟨m₄, hword, hend⟩ := foldlM_cons_eq_some.mp hrun
      cases hend
      obtain ⟨x, w, q', rest', hoperands, rfl⟩ := (formalStep_ternary hneed).mp hword
      obtain ⟨rfl, hrest⟩ := List.cons_eq_cons.mp hoperands
      obtain ⟨rfl, rfl⟩ := List.cons_eq_cons.mp hrest
      have hmerge := quotient_mergePair ha hc' hcancel
      subst hrs
      rw [hproduct, add_assoc, ← hmerge]
      split_ifs with hself
      · rw [quotient_eq_zero_iff.mpr hself, add_zero]
        refine foldlM_cons_eq_some.mpr ⟨_, formalStep_mult.mpr ⟨x, y, rest', hstack, rfl⟩, rfl⟩
      · refine foldlM_cons_eq_some.mpr
          ⟨_, ((ha.mergePair hc').formalStep m).trans (if_pos hlt), ?_⟩
        refine foldlM_cons_eq_some.mpr ⟨_, formalStep_mult.mpr
          ⟨y, _, x :: rest', congrArg (List.cons _) hstack, rfl⟩, ?_⟩
        exact foldlM_cons_eq_some.mpr ⟨_, formalStep_mult.mpr ⟨x, _, rest', rfl, rfl⟩, rfl⟩

end IndexChain.Prices
