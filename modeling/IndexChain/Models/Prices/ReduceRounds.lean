import IndexChain.Models.Prices.Formal

/-!
# What a round of the reducer does

The operands of an operation, as `prices_invertoperation` takes them from the words before
the operator, and what `prices_reduceoperands` leaves of them. The loop over the operands
is followed once for each number of operands; the meaning of what is left is read off from
there.
-/

namespace IndexChain.Prices

open IndexChain.Core

/-! ## The loop over the operands -/

/-- One operand, with or without something behind it. -/
theorem reduceLoop_one (x : Token) (tail : List Token) (need : Nat) :
    reduceLoop 1 (x :: tail) need =
      .ok (if SelfPair x then popMult tail else x :: tail, need) := by
  by_cases hx : SelfPair x
  · simp [reduceLoop, findMatch, hx]
  · simp [reduceLoop, findMatch, hx]

/-- Two operands. -/
theorem reduceLoop_two (x y : Token) (tail : List Token) (need : Nat) :
    reduceLoop 2 (x :: y :: tail) need =
      if SelfPair x then reduceLoop 1 (popMult (y :: tail)) need
      else if Cancels x y then reduceLoop 1 (weakenMult (mergePair x y :: tail)) (need - 1)
      else if SelfPair y then reduceLoop 1 (popMult (x :: tail)) need
      else .ok (x :: y :: tail, need) := by
  rw [reduceLoop]
  by_cases hx : SelfPair x
  · simp [findMatch, hx]
  · by_cases hxy : Cancels x y
    · simp [findMatch, hx, hxy, List.findIdx?_cons]
    · by_cases hy : SelfPair y
      · simp [findMatch, hx, hxy, hy, List.findIdx?_cons]
      · simp [findMatch, hx, hxy, hy, List.findIdx?_cons]

/-- Three operands. -/
theorem reduceLoop_three (x y z : Token) (tail : List Token) (need : Nat) :
    reduceLoop 3 (x :: y :: z :: tail) need =
      if SelfPair x then reduceLoop 2 (popMult (y :: z :: tail)) need
      else if Cancels x y then reduceLoop 2 (weakenMult (mergePair x y :: z :: tail)) (need - 1)
      else if Cancels x z then reduceLoop 2 (weakenMult (mergePair x z :: y :: tail)) (need - 1)
      else if SelfPair y then reduceLoop 2 (popMult (x :: z :: tail)) need
      else if Cancels y z then reduceLoop 2 (weakenMult (x :: mergePair y z :: tail)) (need - 1)
      else if SelfPair z then reduceLoop 2 (popMult (x :: y :: tail)) need
      else .ok (x :: y :: z :: tail, need) := by
  rw [reduceLoop]
  by_cases hx : SelfPair x
  · simp [findMatch, hx]
  · by_cases hxy : Cancels x y
    · simp [findMatch, hx, hxy, List.findIdx?_cons]
    · by_cases hxz : Cancels x z
      · simp [findMatch, hx, hxy, hxz, List.findIdx?_cons]
      · by_cases hy : SelfPair y
        · simp [findMatch, hx, hxy, hxz, hy, List.findIdx?_cons]
        · by_cases hyz : Cancels y z
          · simp [findMatch, hx, hxy, hxz, hy, hyz, List.findIdx?_cons]
          · by_cases hz : SelfPair z
            · simp [findMatch, hx, hxy, hxz, hy, hyz, hz, List.findIdx?_cons]
            · simp [findMatch, hx, hxy, hxz, hy, hyz, hz, List.findIdx?_cons]

theorem reduceLoop_two_mult (x y : Token) (need : Nat) :
    reduceLoop 2 [x, y, ['*']] need =
      if SelfPair x then reduceLoop 1 [y] need
      else if Cancels x y then reduceLoop 1 [mergePair x y] (need - 1)
      else if SelfPair y then reduceLoop 1 [x] need
      else .ok ([x, y, ['*']], need) := by
  simp [reduceLoop_two, popMult, weakenMult]

theorem reduceLoop_two_mmm (x y : Token) (need : Nat) :
    reduceLoop 2 [x, y, ['*', '*', '*']] need =
      if SelfPair x then reduceLoop 1 [y, ['*', '*', '*']] need
      else if Cancels x y then reduceLoop 1 [mergePair x y, ['*']] (need - 1)
      else if SelfPair y then reduceLoop 1 [x, ['*', '*', '*']] need
      else .ok ([x, y, ['*', '*', '*']], need) := by
  simp [reduceLoop_two, popMult, weakenMult]

theorem reduceLoop_three_mmm (x y z : Token) (need : Nat) :
    reduceLoop 3 [x, y, z, ['*', '*', '*']] need =
      if SelfPair x then reduceLoop 2 [y, z, ['*', '*', '*']] need
      else if Cancels x y then reduceLoop 2 [mergePair x y, z, ['*']] (need - 1)
      else if Cancels x z then reduceLoop 2 [mergePair x z, y, ['*']] (need - 1)
      else if SelfPair y then reduceLoop 2 [x, z, ['*', '*', '*']] need
      else if Cancels y z then reduceLoop 2 [x, mergePair y z, ['*']] (need - 1)
      else if SelfPair z then reduceLoop 2 [x, y, ['*', '*', '*']] need
      else .ok ([x, y, z, ['*', '*', '*']], need) := by
  simp [reduceLoop_three, popMult, weakenMult]

/-! ## Operands that stay as they are -/

/-- No operand that is not one cancels against a later one. -/
def Rigid (operands : List Token) : Prop :=
  operands.Pairwise fun v w => SelfPair v ∨ ¬ Cancels v w

instance (operands : List Token) : Decidable (Rigid operands) :=
  inferInstanceAs (Decidable (operands.Pairwise _))

theorem rigid_two {x y : Token} : Rigid [x, y] ↔ SelfPair x ∨ ¬ Cancels x y := by
  simp [Rigid]

theorem rigid_three {x y z : Token} : Rigid [x, y, z] ↔
    (SelfPair x ∨ ¬ Cancels x y) ∧ (SelfPair x ∨ ¬ Cancels x z) ∧
      (SelfPair y ∨ ¬ Cancels y z) := by
  simp [Rigid]
  tauto

/-- Operands that stay as they are leave the number of operands alone. -/
theorem Rigid.reduceLoop_mult {x y : Token} (h : Rigid [x, y]) (need : Nat) :
    ∃ rs, reduceLoop 2 [x, y, ['*']] need = .ok (rs, need) := by
  rw [reduceLoop_two_mult]
  split_ifs with hx hxy hy
  · exact ⟨_, reduceLoop_one y [] need⟩
  · exact absurd hxy ((rigid_two.mp h).resolve_left hx)
  · exact ⟨_, reduceLoop_one x [] need⟩
  · exact ⟨_, rfl⟩

theorem Rigid.reduceLoop_mmm {x y : Token} (h : Rigid [x, y]) (need : Nat) :
    ∃ rs, reduceLoop 2 [x, y, ['*', '*', '*']] need = .ok (rs, need) := by
  rw [reduceLoop_two_mmm]
  split_ifs with hx hxy hy
  · exact ⟨_, reduceLoop_one y _ need⟩
  · exact absurd hxy ((rigid_two.mp h).resolve_left hx)
  · exact ⟨_, reduceLoop_one x _ need⟩
  · exact ⟨_, rfl⟩

theorem Rigid.reduceLoop_three {x y z : Token} (h : Rigid [x, y, z]) (need : Nat) :
    ∃ rs, reduceLoop 3 [x, y, z, ['*', '*', '*']] need = .ok (rs, need) := by
  obtain ⟨hxy, hxz, hyz⟩ := rigid_three.mp h
  rw [reduceLoop_three_mmm]
  split_ifs with hx hcxy hcxz hy hcyz hz
  · exact (rigid_two.mpr hyz).reduceLoop_mmm need
  · exact absurd hcxy (hxy.resolve_left hx)
  · exact absurd hcxz (hxz.resolve_left hx)
  · exact (rigid_two.mpr hxz).reduceLoop_mmm need
  · exact absurd hcyz (hyz.resolve_left hy)
  · exact (rigid_two.mpr hxy).reduceLoop_mmm need
  · exact ⟨_, rfl⟩

/-! ## What is left of operands -/

/-- The loop over the operands ends, with at most so many operands needed. -/
def EndsWithin (r : Except ReduceFault (List Token × Nat)) (bound : Nat) : Prop :=
  ∃ rs need, r = .ok (rs, need) ∧ need ≤ bound

theorem EndsWithin.mono {r : Except ReduceFault (List Token × Nat)} {bound bound' : Nat}
    (h : EndsWithin r bound) (hle : bound ≤ bound') : EndsWithin r bound' := by
  obtain ⟨rs, need, hr, hneed⟩ := h
  exact ⟨rs, need, hr, hneed.trans hle⟩

theorem endsWithin_one (x : Token) (tail : List Token) (need : Nat) :
    EndsWithin (reduceLoop 1 (x :: tail) need) need :=
  ⟨_, _, reduceLoop_one x tail need, le_rfl⟩

theorem endsWithin_two_mult (x y : Token) (need : Nat) :
    EndsWithin (reduceLoop 2 [x, y, ['*']] need) need := by
  rw [reduceLoop_two_mult]
  split_ifs with hx hxy hy
  · exact endsWithin_one y _ need
  · exact (endsWithin_one _ _ _).mono (Nat.sub_le need 1)
  · exact endsWithin_one x _ need
  · exact ⟨_, _, rfl, le_rfl⟩

/-- Operands that cancel leave an operand less to be needed. -/
theorem endsWithin_two_mmm {x y : Token} (h : ¬ Rigid [x, y]) (need : Nat) :
    EndsWithin (reduceLoop 2 [x, y, ['*', '*', '*']] need) (need - 1) := by
  rw [rigid_two, not_or, not_not] at h
  rw [reduceLoop_two_mmm, if_neg h.1, if_pos h.2]
  exact endsWithin_one _ _ _

theorem endsWithin_three {x y z : Token} (h : ¬ Rigid [x, y, z]) (need : Nat) :
    EndsWithin (reduceLoop 3 [x, y, z, ['*', '*', '*']] need) (need - 1) := by
  rw [reduceLoop_three_mmm]
  split_ifs with hx hxy hxz hy hyz hz
  · refine endsWithin_two_mmm (fun hrigid => h (rigid_three.mpr ⟨.inl hx, .inl hx, ?_⟩)) need
    exact rigid_two.mp hrigid
  · exact endsWithin_two_mult _ _ _
  · exact endsWithin_two_mult _ _ _
  · exact absurd (rigid_three.mpr ⟨.inr hxy, .inr hxz, .inl hy⟩) h
  · exact endsWithin_two_mult _ _ _
  · exact absurd (rigid_three.mpr ⟨.inr hxy, .inr hxz, .inr hyz⟩) h
  · exact absurd (rigid_three.mpr ⟨.inr hxy, .inr hxz, .inr hyz⟩) h

/-- A word, or two words and a `*`, that stand for a product. -/
inductive Spells (g : QuoteProduct) : List Token → Prop where
  /-- The product is a quotient. -/
  | one {x : Token} (hx : IsPair x) (hg : quotient x = g) : Spells g [x]
  /-- The product is one of two quotients. -/
  | two {x y : Token} (hx : IsPair x) (hy : IsPair y) (hg : quotient x + quotient y = g) :
      Spells g [x, y, ['*']]

/-- The loop leaves words for a product, and nothing of a product that is one. -/
def Leaves (r : Except ReduceFault (List Token × Nat)) (g : QuoteProduct) : Prop :=
  ∀ rs need, r = .ok (rs, need) → (g ≠ 0 → Spells g rs) ∧ (g = 0 → rs = [])

theorem IsPair.leaves {x : Token} (hx : IsPair x) (need : Nat) :
    Leaves (reduceLoop 1 [x] need) (quotient x) := by
  rintro rs need' hrs
  rw [reduceLoop_one] at hrs
  rw [quotient_eq_zero_iff, Ne, quotient_eq_zero_iff]
  split_ifs at hrs with hself
  · cases hrs
    exact ⟨fun h => absurd hself h, fun _ => rfl⟩
  · cases hrs
    exact ⟨fun _ => .one hx rfl, fun h => absurd h hself⟩

/-- Two pairs. -/
theorem IsPair.leaves_two {x y : Token} (hx : IsPair x) (hy : IsPair y) (need : Nat) :
    Leaves (reduceLoop 2 [x, y, ['*']] need) (quotient x + quotient y) := by
  rw [reduceLoop_two_mult]
  split_ifs with hselfx hxy hselfy
  · rw [quotient_eq_zero_iff.mpr hselfx, zero_add]
    exact hy.leaves need
  · rw [← quotient_mergePair hx hy hxy]
    exact (hx.mergePair hy).leaves _
  · rw [quotient_eq_zero_iff.mpr hselfy, add_zero]
    exact hx.leaves need
  · rintro rs need' hrs
    cases hrs
    exact ⟨fun _ => .two hx hy rfl, fun h => absurd (cancels_of_add_eq_zero hselfx h) hxy⟩

/-- Three pairs of which some cancel, the first one not a quote over itself. -/
theorem IsPair.leaves_three {x y z : Token} (hx : IsPair x) (hy : IsPair y) (hz : IsPair z)
    (hself : ¬ SelfPair x) (hrigid : ¬ Rigid [x, y, z]) (need : Nat) :
    Leaves (reduceLoop 3 [x, y, z, ['*', '*', '*']] need)
      (quotient x + quotient y + quotient z) := by
  rw [reduceLoop_three_mmm, if_neg hself]
  split_ifs with hxy hxz hselfy hyz hselfz
  · rw [← quotient_mergePair hx hy hxy]
    exact (hx.mergePair hy).leaves_two hz _
  · rw [add_right_comm, ← quotient_mergePair hx hz hxz]
    exact (hx.mergePair hz).leaves_two hy _
  · exact absurd (rigid_three.mpr ⟨.inr hxy, .inr hxz, .inl hselfy⟩) hrigid
  · rw [add_assoc, ← quotient_mergePair hy hz hyz]
    exact hx.leaves_two (hy.mergePair hz) _
  · exact absurd (rigid_three.mpr ⟨.inr hxy, .inr hxz, .inr hyz⟩) hrigid
  · exact absurd (rigid_three.mpr ⟨.inr hxy, .inr hxz, .inr hyz⟩) hrigid

/-! ## The operation at a position -/

/-- The operands of an operator as `prices_invertoperation` passes them on. -/
def PriceOp.operands (op : PriceOp) (window : List Token) : List Token :=
  List.zipWith (fun divide v => if divide then pricesInvertpair v else v) op.divides window

/-- The operator that `prices_invertoperation` puts behind the operands. -/
def PriceOp.tail : PriceOp → List Token
  | inv => []
  | mult => [['*']]
  | div => [['*']]
  | mdd => [['*', '*', '*']]
  | mmd => [['*', '*', '*']]
  | mmm => [['*', '*', '*']]
  | ddd => [['*', '*', '*']]

theorem wordBefore_append (pre suf : List Token) (s : Token) (k : Nat) :
    wordBefore (pre ++ s :: suf) (pre.length + k) k = .ok s := by
  simp [wordBefore]

/-- The words before an operator are its operands. -/
theorem invertoperation_eq (op : PriceOp) (pre suf : List Token) {window : List Token}
    (hwindow : window.length = op.need) :
    pricesInvertoperation (pre ++ window ++ op.word :: suf) (pre.length + op.need) =
      .ok (op.operands window ++ op.tail) := by
  have hop : wordBefore (pre ++ window ++ op.word :: suf) (pre.length + op.need) 0 =
      .ok op.word := by
    have hword := wordBefore_append (pre ++ window) suf op.word 0
    rwa [List.length_append, hwindow] at hword
  have hneed : pricesIsopcode op.word = some op.need := by
    rw [isopcode_eq, priceOpOf_word]
    rfl
  rw [pricesInvertoperation, hop, except_ok_bind, hneed]
  rcases window with _ | ⟨a, _ | ⟨b, _ | ⟨c, _ | ⟨d, rest⟩⟩⟩⟩
  · cases op <;> cases hwindow
  · have ha : wordBefore (pre ++ [a] ++ op.word :: suf) (pre.length + 1) 1 = .ok a := by
      simpa using wordBefore_append pre (op.word :: suf) a 1
    cases op <;> cases hwindow
    simp only [PriceOp.need, ha, except_ok_bind]
    rfl
  · have ha : wordBefore (pre ++ [a, b] ++ op.word :: suf) (pre.length + 2) 2 = .ok a := by
      simpa using wordBefore_append pre (b :: op.word :: suf) a 2
    have hb : wordBefore (pre ++ [a, b] ++ op.word :: suf) (pre.length + 2) 1 = .ok b := by
      simpa using wordBefore_append (pre ++ [a]) (op.word :: suf) b 1
    cases op <;> cases hwindow <;>
      · simp only [PriceOp.need, ha, hb, except_ok_bind]
        rfl
  · have ha : wordBefore (pre ++ [a, b, c] ++ op.word :: suf) (pre.length + 3) 3 = .ok a := by
      simpa using wordBefore_append pre (b :: c :: op.word :: suf) a 3
    have hb : wordBefore (pre ++ [a, b, c] ++ op.word :: suf) (pre.length + 3) 2 = .ok b := by
      simpa using wordBefore_append (pre ++ [a]) (c :: op.word :: suf) b 2
    have hc : wordBefore (pre ++ [a, b, c] ++ op.word :: suf) (pre.length + 3) 1 = .ok c := by
      simpa using wordBefore_append (pre ++ [a, b]) (op.word :: suf) c 1
    cases op <;> cases hwindow <;>
      · simp only [PriceOp.need, ha, hb, hc, except_ok_bind]
        rfl
  · cases op <;> cases hwindow

/-- The position of an operator holds its word. -/
theorem getElem?_operator (op : PriceOp) (pre suf : List Token) {window : List Token}
    (hwindow : window.length = op.need) :
    (pre ++ window ++ op.word :: suf)[pre.length + op.need]? = some op.word := by
  rw [← hwindow, ← List.length_append, List.getElem?_append_right le_rfl]
  simp

/-- A round at an operator: the operation is reduced, and is written back if it needs fewer
operands than before. -/
theorem reduceAt_eq (op : PriceOp) (pre suf : List Token) {window rs : List Token} {need : Nat}
    (hwindow : window.length = op.need)
    (hreduce : pricesReduceoperands (op.operands window ++ op.tail) = .ok (rs, need)) :
    reduceAt (pre ++ window ++ op.word :: suf) (pre.length + op.need) =
      .ok (if need < op.need then pre ++ rs ++ suf else pre ++ window ++ op.word :: suf) := by
  have hneed : ((pre ++ window ++ op.word :: suf)[pre.length + op.need]?).bind pricesIsopcode =
      some op.need := by
    rw [getElem?_operator op pre suf hwindow, Option.bind_some, isopcode_eq, priceOpOf_word]
    rfl
  have hne : op.operands window ++ op.tail ≠ [] := by
    cases op <;> simp [PriceOp.tail, PriceOp.operands, PriceOp.divides]
    rintro rfl
    cases hwindow
  have htake : (pre ++ window ++ op.word :: suf).take pre.length = pre := by
    simp [List.append_assoc]
  have hdrop : (pre ++ window ++ op.word :: suf).drop (pre.length + op.need + 1) = suf := by
    rw [← hwindow, ← List.length_append, List.drop_append]
    simp
  rw [reduceAt, hneed]
  dsimp only
  rw [invertoperation_eq op pre suf hwindow, except_ok_bind, if_neg hne, hreduce, except_ok_bind]
  dsimp only
  split_ifs
  · rw [pricesSubstitutereduced, hneed]
    dsimp only
    rw [if_pos (Nat.le_add_left _ _), Nat.add_sub_cancel, htake, hdrop]
  · rfl

/-- A round at a `!`. -/
theorem reduceAt_inv (pre suf : List Token) (a : Token) :
    reduceAt (pre ++ [a] ++ PriceOp.inv.word :: suf) (pre.length + PriceOp.inv.need) =
      .ok (pre ++ [pricesInvertpair a] ++ suf) := by
  have hreduce : pricesReduceoperands (PriceOp.inv.operands [a] ++ PriceOp.inv.tail) =
      .ok ([pricesInvertpair a], 0) := rfl
  exact reduceAt_eq .inv pre suf rfl hreduce

/-- A round elsewhere. -/
theorem reduceAt_of_not_operator {vexpr : List Token} {i : Nat}
    (h : ∀ op : PriceOp, vexpr[i]? ≠ some op.word) : reduceAt vexpr i = .ok vexpr := by
  have hnone : (vexpr[i]?).bind pricesIsopcode = none := by
    rw [Option.bind_eq_none_iff]
    intro t ht
    rw [isopcode_eq, Option.map_eq_none_iff, Option.eq_none_iff_forall_ne_some]
    intro op hop
    exact h op (ht.trans (congrArg some (priceOpOf_eq_some.mp hop)))
  rw [reduceAt, hnone]

end IndexChain.Prices
