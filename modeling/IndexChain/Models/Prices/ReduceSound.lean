import IndexChain.Models.Prices.ReduceMeaning

/-!
# Rounds that keep the meaning

A round of the reducer keeps the meaning of an expression when `!` follows a price pair,
and when the operands that are cancelled are price pairs, the first of them no quote over
itself, whose product is not one. The words before the first of three operands do not
matter, nor does a multiplication between two of them.
-/

namespace IndexChain.Prices

open IndexChain.Core

/-! ## The rounds that are in order -/

/-- The words before an operator that it takes for its operands. -/
def operandWindow (vexpr : List Token) (i : Nat) (op : PriceOp) : List Token :=
  (vexpr.take i).drop (i - op.need)

/-- Operands, inverted where the operator divides by them, that may be cancelled. -/
inductive Cancellable : List Token → Prop where
  /-- Pairs that are not one together, the first of them no quote over itself. -/
  | pairs {vs : List Token} (hpairs : ∀ v ∈ vs, IsPair v) (hhead : ∀ v ∈ vs.head?, ¬ SelfPair v)
      (hproduct : (vs.map quotient).sum ≠ 0) : Cancellable vs
  /-- Two pairs after the end of a longer operand. -/
  | first {t b c : Token} (ht : IsPlain t) (hb : IsPair b) (hc : IsPair c) : Cancellable [t, b, c]
  /-- Two pairs around a multiplication. -/
  | middle {a c : Token} (ha : IsPair a) (hc : IsPair c) : Cancellable [a, ['*'], c]

/-- A round at an operator inverts a pair, cancels nothing, or cancels what may be
cancelled. -/
def RoundOk (vexpr : List Token) (i : Nat) : Prop :=
  ∀ op : PriceOp, vexpr[i]? = some op.word →
    if op = .inv then ∀ v ∈ operandWindow vexpr i op, IsPair v
    else Rigid (op.operands (operandWindow vexpr i op)) ∨
      Cancellable (op.operands (operandWindow vexpr i op))

/-- An operator with enough words before it. -/
theorem exists_window {vexpr : List Token} {i : Nat} {op : PriceOp}
    (hop : vexpr[i]? = some op.word) (hle : op.need ≤ i) :
    ∃ pre suf, (operandWindow vexpr i op).length = op.need ∧ i = pre.length + op.need ∧
      vexpr = pre ++ operandWindow vexpr i op ++ op.word :: suf := by
  obtain ⟨hlt, hget⟩ := List.getElem?_eq_some_iff.mp hop
  refine ⟨vexpr.take (i - op.need), vexpr.drop (i + 1), ?_, ?_, ?_⟩
  · simp only [operandWindow, List.length_drop, List.length_take]
    omega
  · rw [List.length_take]
    omega
  · have htake : vexpr.take (i - op.need) ++ operandWindow vexpr i op = vexpr.take i := by
      have happend := List.take_append_drop (i - op.need) (vexpr.take i)
      rwa [List.take_take, min_eq_left (Nat.sub_le i op.need)] at happend
    rw [htake, ← hget, ← List.drop_eq_getElem_cons hlt, List.take_append_drop]

/-! ## Operations that are reduced -/

theorem PriceOp.need_cases (op : PriceOp) : op = .inv ∨
    (op.need = 2 ∧ op.tail = [['*']]) ∨ (op.need = 3 ∧ op.tail = [['*', '*', '*']]) := by
  cases op <;> decide

theorem PriceOp.operands_length (op : PriceOp) {window : List Token}
    (hwindow : window.length = op.need) : (op.operands window).length = op.need := by
  rw [PriceOp.operands, List.length_zipWith, hwindow]
  cases op <;> rfl

/-- Operands that stay as they are need as many words as before. -/
theorem Rigid.reduceoperands {op : PriceOp} {window : List Token} (hop : op ≠ .inv)
    (hwindow : window.length = op.need) (h : Rigid (op.operands window)) :
    ∃ rs, pricesReduceoperands (op.operands window ++ op.tail) = .ok (rs, op.need) := by
  have hlength := op.operands_length hwindow
  rcases op.need_cases with rfl | ⟨hneed, htail⟩ | ⟨hneed, htail⟩
  · exact absurd rfl hop
  · rw [hneed] at hlength
    obtain ⟨x, y, heq⟩ := List.length_eq_two.mp hlength
    rw [heq] at h ⊢
    rw [htail, hneed]
    exact h.reduceLoop_mult 2
  · rw [hneed] at hlength
    obtain ⟨x, y, z, heq⟩ := List.length_eq_three.mp hlength
    rw [heq] at h ⊢
    rw [htail, hneed]
    exact h.reduceLoop_three 3

/-- Operands that cancel need fewer words than before. -/
theorem reduceoperands_of_not_rigid {op : PriceOp} {window : List Token} (hop : op ≠ .inv)
    (hwindow : window.length = op.need) (h : ¬ Rigid (op.operands window)) :
    ∃ rs need, pricesReduceoperands (op.operands window ++ op.tail) = .ok (rs, need) ∧
      need < op.need := by
  have hlength := op.operands_length hwindow
  rcases op.need_cases with rfl | ⟨hneed, htail⟩ | ⟨hneed, htail⟩
  · exact absurd rfl hop
  · rw [hneed] at hlength
    obtain ⟨x, y, heq⟩ := List.length_eq_two.mp hlength
    rw [heq, rigid_two, not_or, not_not] at h
    rw [heq, htail, hneed]
    have hone := reduceLoop_two_mult x y 2
    rw [if_neg h.1, if_pos h.2, reduceLoop_one] at hone
    exact ⟨_, _, hone, by decide⟩
  · rw [hneed] at hlength
    obtain ⟨x, y, z, heq⟩ := List.length_eq_three.mp hlength
    rw [heq] at h
    rw [heq, htail, hneed]
    obtain ⟨rs, need, hloop, hle⟩ := endsWithin_three h 3
    exact ⟨rs, need, hloop, by omega⟩

/-- Pairs that cancel, the first of them no quote over itself, leave words for their
product. -/
theorem leaves_operands {op : PriceOp} {window : List Token} (hop : op ≠ .inv)
    (hwindow : window.length = op.need) (hrigid : ¬ Rigid (op.operands window))
    (hpairs : ∀ v ∈ op.operands window, IsPair v)
    (hhead : ∀ v ∈ (op.operands window).head?, ¬ SelfPair v) :
    Leaves (pricesReduceoperands (op.operands window ++ op.tail))
      ((op.operands window).map quotient).sum := by
  have hlength := op.operands_length hwindow
  rcases op.need_cases with rfl | ⟨hneed, htail⟩ | ⟨hneed, htail⟩
  · exact absurd rfl hop
  · rw [hneed] at hlength
    obtain ⟨x, y, heq⟩ := List.length_eq_two.mp hlength
    rw [heq] at hpairs ⊢
    rw [htail]
    have hx : IsPair x := hpairs x (by simp)
    have hy : IsPair y := hpairs y (by simp)
    have hleaves := hx.leaves_two hy 2
    rw [← add_zero (quotient y)] at hleaves
    exact hleaves
  · rw [hneed] at hlength
    obtain ⟨x, y, z, heq⟩ := List.length_eq_three.mp hlength
    rw [heq] at hpairs hrigid hhead ⊢
    rw [htail]
    have hx : IsPair x := hpairs x (by simp)
    have hy : IsPair y := hpairs y (by simp)
    have hz : IsPair z := hpairs z (by simp)
    have hleaves := hx.leaves_three hy hz (hhead x rfl) hrigid 3
    rw [add_assoc, ← add_zero (quotient z)] at hleaves
    exact hleaves

/-- Two pairs that cancel after a word that cancels with none. -/
theorem reduceLoop_first {t b c : Token} (hself : ¬ SelfPair t)
    (hfree : ∀ y, IsPair y → ¬ Cancels t y) (hb : IsPair b) (hc : IsPair c)
    (hrigid : ¬ Rigid [t, b, c]) : Cancels b c ∧
      reduceLoop 3 [t, b, c, ['*', '*', '*']] 3 =
        .ok (if SelfPair (mergePair b c) then [t] else [t, mergePair b c, ['*']], 2) := by
  have hmates : ¬ SelfPair b ∧ Cancels b c := by
    by_contra hnot
    exact hrigid (rigid_three.mpr ⟨.inr (hfree b hb), .inr (hfree c hc), by tauto⟩)
  refine ⟨hmates.2, ?_⟩
  rw [reduceLoop_three_mmm, if_neg hself, if_neg (hfree b hb), if_neg (hfree c hc),
    if_neg hmates.1, if_pos hmates.2, reduceLoop_two_mult, if_neg hself,
    if_neg (hfree _ (hb.mergePair hc)), reduceLoop_one, if_neg hself]
  split_ifs <;> rfl

/-- Two pairs that cancel around a multiplication. -/
theorem IsPair.reduceLoop_middle {a c : Token} (ha : IsPair a) (hc : IsPair c)
    (hrigid : ¬ Rigid [a, ['*'], c]) : Cancels a c ∧
      reduceLoop 3 [a, ['*'], c, ['*', '*', '*']] 3 =
        .ok (if SelfPair (Prices.mergePair a c) then [['*']]
          else [Prices.mergePair a c, ['*'], ['*']], 2) := by
  have hmult : IsPlain ['*'] := .inl ⟨.mult, rfl⟩
  have hself := hmult.not_selfPair
  have ham := ha.not_cancels hmult
  have hmc := hmult.not_cancels hc
  have hmm := (ha.mergePair hc).not_cancels hmult
  have hmates : ¬ SelfPair a ∧ Cancels a c := by
    by_contra hnot
    exact hrigid (rigid_three.mpr ⟨.inr ham, by tauto, .inr hmc⟩)
  refine ⟨hmates.2, ?_⟩
  rw [reduceLoop_three_mmm, if_neg hmates.1, if_neg ham, if_pos hmates.2, reduceLoop_two_mult,
    if_neg hmm, if_neg hself, reduceLoop_one, if_neg hself]
  split_ifs <;> rfl

/-! ## A round in order -/

theorem mem_invertpair (v : Token) : '_' ∈ pricesInvertpair v := by
  simp [pricesInvertpair]

/-- A word of the grammar that is a pair when it is inverted is a pair. -/
theorem IsWord.isPair_of_invertpair {t : Token} (h : IsWord t)
    (hpair : IsPair (pricesInvertpair t)) :
    IsPair t := by
  rcases h with ⟨op, rfl⟩ | h | h
  · have hup := hpair.upper
    rw [pricesInvertpair, splitpair_of_notMem op.notMem_word,
      splitpair_append List.not_mem_nil] at hup
    exact absurd rfl hup.ne_nil
  · exact h
  · have hup := hpair.upper
    rw [pricesInvertpair, splitpair_of_notMem h.notMem, splitpair_append List.not_mem_nil] at hup
    exact absurd rfl hup.ne_nil

/-- An operand that is a pair is one before it is inverted. -/
theorem IsWord.isPair_of_operand {t : Token} (h : IsWord t) {divide : Bool}
    (hpair : IsPair (if divide then pricesInvertpair t else t)) : IsPair t := by
  cases divide
  · exact hpair
  · exact h.isPair_of_invertpair hpair

theorem IsWord.isPair_of_operands {op : PriceOp} {window : List Token}
    (hwords : ∀ v ∈ window, IsWord v) (hwindow : window.length = op.need)
    (hpairs : ∀ v ∈ op.operands window, IsPair v) : ∀ v ∈ window, IsPair v := by
  intro v hv
  obtain ⟨k, hk, rfl⟩ := List.mem_iff_getElem.mp hv
  have hlength := op.operands_length hwindow
  have hoperand := hpairs _
      (List.getElem_mem (by rwa [hlength, ← hwindow]) : (op.operands window)[k] ∈ _)
  simp only [PriceOp.operands, List.getElem_zipWith] at hoperand
  exact (hwords _ (List.getElem_mem hk)).isPair_of_operand hoperand

theorem IsPair.quotient_operand {w : Token} (hw : IsPair w) (divide : Bool) :
    quotient (if divide then pricesInvertpair w else w) =
      if divide then -quotient w else quotient w := by
  cases divide
  · rfl
  · exact hw.quotient_invertpair

/-- A word without `_` is not an inverted operand. -/
theorem operand_eq_of_isPlain {w t : Token} {divide : Bool} (ht : IsPlain t)
    (heq : (if divide then pricesInvertpair w else w) = t) : divide = false ∧ w = t := by
  cases divide
  · exact ⟨rfl, heq⟩
  · exact absurd (heq ▸ mem_invertpair w) ht.notMem

/-- The operands of an operator that takes three. It divides by the first only if it divides
by the second. -/
theorem PriceOp.operands_three {op : PriceOp} (hneed : op.need = 3) :
    ∃ d₀ d₁ d₂ : Bool, (d₁ = false → d₀ = false) ∧
      (∀ w₀ w₁ w₂ : Token, op.operands [w₀, w₁, w₂] =
        [if d₀ then pricesInvertpair w₀ else w₀, if d₁ then pricesInvertpair w₁ else w₁,
          if d₂ then pricesInvertpair w₂ else w₂]) ∧
      ∀ g₀ g₁ g₂ : QuoteProduct, op.product [g₀, g₁, g₂] =
        (if d₀ then -g₀ else g₀) + ((if d₁ then -g₁ else g₁) + (if d₂ then -g₂ else g₂)) := by
  have hdivides : ∃ d₀ d₁ d₂, (d₁ = false → d₀ = false) ∧ op.divides = [d₀, d₁, d₂] := by
    cases op <;> cases hneed <;> exact ⟨_, _, _, by decide, rfl⟩
  obtain ⟨d₀, d₁, d₂, hfirst, hdivides⟩ := hdivides
  refine ⟨d₀, d₁, d₂, hfirst, fun w₀ w₁ w₂ => ?_, fun g₀ g₁ g₂ => ?_⟩
  · simp only [PriceOp.operands, hdivides, List.zipWith_cons_cons, List.zipWith_nil_left]
  · simp only [PriceOp.product, hdivides, List.zipWith_cons_cons, List.zipWith_nil_left,
      List.sum_cons, List.sum_nil, add_zero]

/-- What is left of operands that may be cancelled does what the operation did. -/
theorem Cancellable.replaces {op : PriceOp} {window rs : List Token} {need : Nat}
    (hop : op ≠ .inv) (hwords : ∀ v ∈ window, IsWord v) (hwindow : window.length = op.need)
    (hrigid : ¬ Rigid (op.operands window)) (hcancel : Cancellable (op.operands window))
    (hreduce : pricesReduceoperands (op.operands window ++ op.tail) = .ok (rs, need)) :
    rs ≠ [] ∧ Replaces formalStep (window ++ [op.word]) rs := by
  have hlength := op.operands_length hwindow
  generalize hvs : op.operands window = vs at hcancel hrigid hlength
  cases hcancel with
  | pairs hpairs hhead hproduct =>
    subst hvs
    have hwpairs := IsWord.isPair_of_operands hwords hwindow hpairs
    have hleaves := leaves_operands hop hwindow hrigid hpairs hhead rs need hreduce
    have hspells := hleaves.1 hproduct
    rw [sum_operands op hwpairs] at hspells
    have hneed : 2 ≤ op.need := by
      rcases op.need_cases with rfl | ⟨hneed, -⟩ | ⟨hneed, -⟩
      · exact absurd rfl hop
      · exact hneed.ge
      · omega
    refine ⟨?_, replaces_operation op hwpairs hwindow hneed hspells⟩
    rintro rfl
    cases hspells
  | @first t b c ht hb hc =>
    have hneed : op.need = 3 := hlength.symm
    obtain ⟨d₀, d₁, d₂, -, hoperands, hproduct⟩ := PriceOp.operands_three hneed
    obtain ⟨w₀, w₁, w₂, rfl⟩ := List.length_eq_three.mp (hwindow.trans hneed)
    obtain ⟨h₀, h₁, h₂⟩ : _ ∧ _ ∧ _ := by simpa using (hoperands w₀ w₁ w₂).symm.trans hvs
    obtain ⟨rfl, rfl⟩ := operand_eq_of_isPlain ht h₀
    have hw₁ := (hwords w₁ (by simp)).isPair_of_operand (h₁ ▸ hb)
    have hw₂ := (hwords w₂ (by simp)).isPair_of_operand (h₂ ▸ hc)
    obtain ⟨hmates, hloop⟩ := reduceLoop_first ht.not_selfPair (fun _ => ht.not_cancels) hb hc
      hrigid
    rw [hvs, (op.need_cases.resolve_left hop).resolve_left (by omega) |>.2] at hreduce
    obtain ⟨rfl, rfl⟩ : rs = _ ∧ need = _ := by simpa using hreduce.symm.trans hloop
    refine ⟨by split_ifs <;> simp, ?_⟩
    refine replaces_first hneed ⟨hw₁, hw₂⟩ (fun x => ?_) hb hc hmates rfl
    rw [hproduct, ← h₁, ← h₂, hw₁.quotient_operand, hw₂.quotient_operand]
    rfl
  | @middle a c ha hc =>
    have hneed : op.need = 3 := hlength.symm
    obtain ⟨d₀, d₁, d₂, hfirst, hoperands, hproduct⟩ := PriceOp.operands_three hneed
    obtain ⟨w₀, w₁, w₂, rfl⟩ := List.length_eq_three.mp (hwindow.trans hneed)
    obtain ⟨h₀, h₁, h₂⟩ : _ ∧ _ ∧ _ := by simpa using (hoperands w₀ w₁ w₂).symm.trans hvs
    obtain ⟨rfl, rfl⟩ := operand_eq_of_isPlain (.inl ⟨.mult, rfl⟩) h₁
    obtain rfl := hfirst rfl
    obtain rfl : w₀ = a := h₀
    have hw₂ := (hwords w₂ (by simp)).isPair_of_operand (h₂ ▸ hc)
    obtain ⟨hmates, hloop⟩ := ha.reduceLoop_middle hc hrigid
    rw [hvs, (op.need_cases.resolve_left hop).resolve_left (by omega) |>.2] at hreduce
    obtain ⟨rfl, rfl⟩ : rs = _ ∧ need = _ := by simpa using hreduce.symm.trans hloop
    refine ⟨by split_ifs <;> simp, ?_⟩
    refine replaces_middle hneed ha hw₂ (fun x y => ?_) hc hmates rfl
    rw [hproduct, ← h₂, hw₂.quotient_operand]
    rfl

/-- A round that is in order keeps the meaning of the expression. -/
theorem RoundOk.sameMeaning {vexpr vexpr' : List Token} {i : Nat} (hwf : WellFormed vexpr)
    (hok : RoundOk vexpr i) (hneed : ∀ op : PriceOp, vexpr[i]? = some op.word → op.need ≤ i)
    (hround : reduceAt vexpr i = .ok vexpr') : SameMeaning vexpr vexpr' := by
  by_cases hoperator : ∃ op : PriceOp, vexpr[i]? = some op.word
  · obtain ⟨op, hop⟩ := hoperator
    have hoperands := hok op hop
    obtain ⟨pre, suf, hwindow, hi, hsplit⟩ := exists_window hop (hneed op hop)
    generalize operandWindow vexpr i op = window at hoperands hwindow hsplit
    subst hsplit hi
    have hwords : ∀ v ∈ window, IsWord v := fun v hv => hwf.isWord v (by simp [hv])
    have hassoc : pre ++ window ++ op.word :: suf = pre ++ (window ++ [op.word]) ++ suf := by simp
    split at hoperands
    case isTrue hinv =>
      subst hinv
      obtain ⟨a, rfl⟩ := List.length_eq_one_iff.mp hwindow
      rw [reduceAt_inv] at hround
      cases hround
      rw [hassoc] at hwf ⊢
      exact .of_replaces hwf (by simp) (replaces_inv (hoperands a (by simp)))
    case isFalse hinv =>
      by_cases hrigid : Rigid (op.operands window)
      · obtain ⟨rs, hreduce⟩ := hrigid.reduceoperands hinv hwindow
        rw [reduceAt_eq op pre suf hwindow hreduce, if_neg (lt_irrefl _)] at hround
        cases hround
        exact .refl hwf
      · obtain ⟨rs, need, hreduce, hlt⟩ := reduceoperands_of_not_rigid hinv hwindow hrigid
        rw [reduceAt_eq op pre suf hwindow hreduce, if_pos hlt] at hround
        cases hround
        obtain ⟨hne, hreplaces⟩ := (hoperands.resolve_left hrigid).replaces hinv hwords hwindow
          hrigid hreduce
        rw [hassoc] at hwf ⊢
        exact .of_replaces hwf hne hreplaces
  · rw [reduceAt_of_not_operator (not_exists.mp hoperator)] at hround
    cases hround
    exact .refl hwf

end IndexChain.Prices
