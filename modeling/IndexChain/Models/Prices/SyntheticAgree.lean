import IndexChain.Models.Prices.SyntheticSafety

/-!
# The parser and the evaluator

`prices_syntheticvec` counts operands and lets a weight take one of several;
`prices_syntheticprice` wants exactly one. They agree on an accepted expression when every
weight is applied to the only operand and the weights do not add up to a multiple of
`2 ^ 63` (`syntheticprice_iff`).
-/

namespace IndexChain.Prices

open IndexChain.Core

/-! ## The depth of the stack -/

/-- How the parser counts the operands after an opcode. -/
def depthStep (depth : Nat) (opcode : UInt16) : Option Nat :=
  match priceCode opcode with
  | .index _ => if depth < 3 then some (depth + 1) else none
  | .weight _ => if 1 ≤ depth then some (depth - 1) else none
  | .op op => if op.need ≤ depth then some (depth - op.need + 1) else none
  | .invalid => none

/-- A vector that leads from some operands to none. -/
def Balanced : Nat → List UInt16 → Prop
  | depth, [] => depth = 0
  | depth, opcode :: rest => ∃ depth', depthStep depth opcode = some depth' ∧ Balanced depth' rest

/-- Every weight of a vector is applied where there is one operand. -/
def WeightsAtOne : Nat → List UInt16 → Prop
  | _, [] => True
  | depth, opcode :: rest => (∀ w, priceCode opcode = .weight w → depth = 1) ∧
      ∀ depth', depthStep depth opcode = some depth' → WeightsAtOne depth' rest

/-- The weight of an opcode. -/
def weightOf (opcode : UInt16) : Nat :=
  match priceCode opcode with
  | .weight w => w
  | _ => 0

/-- Every weight is applied to one operand, and the weights are worth something. -/
structure WellWeighted (vec : List UInt16) : Prop where
  /-- There is one operand at each weight. -/
  atOne : WeightsAtOne 0 vec
  /-- The sum of the weights is no multiple of `2 ^ 63`. -/
  sum_ne : (vec.map weightOf).sum % 2 ^ 63 ≠ 0

/-- All prices of a vector are stored and positive. -/
def PositiveFor (vec : List UInt16) (table : PriceTable) : Prop :=
  ∀ opcode ∈ vec, ∀ ind, priceCode opcode = .index ind → ∃ p, table ind = .data p ∧ 0 < p

/-- The errors for a vector that is no expression. -/
def IsStructural (code : Int) : Prop := -12 ≤ code ∧ code ≤ -2

/-- Whatever the prices are, an expression is not found to be malformed. -/
def Agrees (vec : List UInt16) : Prop :=
  ∀ table, PositiveFor vec table → ∀ code, pricesSyntheticprice table vec = .ok code →
    ¬ IsStructural code

/-! ## What the parser accepts -/

theorem priceCode_opcode (op : PriceOp) : priceCode op.opcode = .op op := by
  cases op <;> rfl

theorem priceCode_index {ind : Nat} (h : ind < komodoMaxprices) :
    priceCode (UInt16.ofNat ind) = .index ind := by
  have hlt : ind < 2048 := h
  have hnat : (UInt16.ofNat ind).toNat = ind := by
    rw [UInt16.toNat_ofNat']
    omega
  unfold priceCode
  rw [hnat, Nat.div_eq_of_lt h, Nat.mod_eq_of_lt h]
  rfl

theorem priceCode_weight {w : Nat} (h : w < komodoMaxprices) :
    priceCode (UInt16.ofNat komodoMaxprices ||| UInt16.ofNat w) = .weight w := by
  have hlt : w < 2048 := h
  have hnat : (UInt16.ofNat komodoMaxprices ||| UInt16.ofNat w).toNat = komodoMaxprices + w := by
    have hw : (UInt16.ofNat w).toNat = w := by
      rw [UInt16.toNat_ofNat']
      omega
    have hor := Nat.two_pow_add_eq_or_of_lt (i := 11) hlt 1
    rw [UInt16.toNat_or, hw]
    exact hor.symm
  have hdiv : (komodoMaxprices + w) / komodoMaxprices = 1 := by
    unfold komodoMaxprices
    omega
  have hmod : (komodoMaxprices + w) % komodoMaxprices = w := by
    unfold komodoMaxprices
    omega
  unfold priceCode
  rw [hnat, hdiv, hmod]
  rfl

/-- The units of an opcode tell whether it is a weight. -/
theorem div_eq_one_of_weight {opcode : UInt16} {w : Nat} (h : priceCode opcode = .weight w) :
    opcode.toNat / komodoMaxprices = 1 := by
  unfold priceCode at h
  split at h <;> first | assumption | cases h

theorem div_ne_one {opcode : UInt16} (h : ∀ w, priceCode opcode ≠ .weight w) :
    opcode.toNat / komodoMaxprices ≠ 1 := by
  intro heq
  apply h (opcode.toNat % komodoMaxprices)
  unfold priceCode
  rw [heq]
  rfl

/-- The words of an expression. -/
theorem PriceNames.opcodeOf_cases {names : PriceNames} {opstr : Token} {opcode : UInt16}
    {need : Nat} (h : names.opcodeOf opstr = some (opcode, need)) :
    (∃ op, priceCode opcode = .op op ∧ need = op.need) ∨
    (∃ ind, priceCode opcode = .index ind ∧ need = 0) ∨
    ∃ w, priceCode opcode = .weight w ∧ need = 1 := by
  unfold opcodeOf at h
  cases hop : priceOpOf opstr with
  | some op =>
    rw [hop] at h
    cases h
    exact Or.inl ⟨op, priceCode_opcode op, rfl⟩
  | none =>
    rw [hop] at h
    right
    cases hind : (if isWeightStr opstr then none else names.komodoPriceind opstr.cStr) with
    | some ind =>
      simp only [hind] at h
      cases h
      left
      have hlt : ind < komodoMaxprices := by
        have hfound : names.komodoPriceind opstr.cStr = some ind := by
          by_cases hweight : isWeightStr opstr
          · simp [hweight] at hind
          · simpa [hweight] using hind
        unfold komodoPriceind at hfound
        obtain ⟨hmem, heq⟩ := Option.ite_none_right_eq_some.1 hfound
        have hidx := List.idxOf_lt_length_of_mem hmem
        have := Option.some.inj heq
        have := names.length_lt
        omega
      exact ⟨ind, priceCode_index hlt, rfl⟩
    | none =>
      simp only [hind] at h
      obtain ⟨hw, heq⟩ := Option.ite_none_right_eq_some.1 h
      cases heq
      exact Or.inr ⟨_, priceCode_weight hw.2, rfl⟩

/-- An accepted expression is balanced. -/
theorem PriceNames.balanced_of_parse {names : PriceNames} {rest : List Token} {depth : Nat}
    {vec : List UInt16} (h : names.parse rest depth = .ok vec) : Balanced depth vec := by
  induction rest generalizing depth vec with
  | nil =>
    unfold parse at h
    by_cases hzero : depth = 0
    · rw [if_neg (not_not_intro hzero)] at h
      cases h
      exact hzero
    · rw [if_pos hzero] at h
      cases h
  | cons opstr rest ih =>
    unfold parse at h
    cases hop : names.opcodeOf opstr with
    | none =>
      rw [hop] at h
      cases h
    | some r =>
      obtain ⟨opcode, need⟩ := r
      rw [hop] at h
      simp only at h
      by_cases hneed : depth < need
      · rw [if_pos hneed] at h
        cases h
      rw [if_neg hneed] at h
      by_cases hfull :
          3 < if opcode.toNat / komodoMaxprices ≠ 1 then depth - need + 1 else depth - need
      · rw [if_pos hfull] at h
        cases h
      rw [if_neg hfull] at h
      cases hrest : names.parse rest
          (if opcode.toNat / komodoMaxprices ≠ 1 then depth - need + 1 else depth - need) with
      | error err =>
        rw [hrest] at h
        cases h
      | ok vec' =>
        rw [hrest] at h
        cases h
        refine ⟨_, ?_, ih hrest⟩
        unfold depthStep
        rcases PriceNames.opcodeOf_cases hop with ⟨op, hcode, hn⟩ | ⟨ind, hcode, hn⟩ |
          ⟨w, hcode, hn⟩
        · have hne : opcode.toNat / komodoMaxprices ≠ 1 := div_ne_one (by simp [hcode])
          simp only [hcode, if_pos hne, hn]
          rw [if_pos (by omega)]
        · have hne : opcode.toNat / komodoMaxprices ≠ 1 := div_ne_one (by simp [hcode])
          simp only [if_pos hne] at hfull
          simp only [hcode, if_pos hne, hn]
          rw [if_pos (by omega), Nat.sub_zero]
        · have heq := div_eq_one_of_weight hcode
          simp only [hcode, heq, hn]
          rw [if_pos (by omega)]
          rfl

theorem PriceNames.balanced_of_syntheticvec {names : PriceNames} {synthetic : List Token}
    {vec : List UInt16} (h : names.pricesSyntheticvec synthetic = .ok vec) :
    Balanced 0 vec := by
  unfold pricesSyntheticvec at h
  by_cases hnil : synthetic = []
  · rw [if_pos hnil] at h
    cases h
  · rw [if_neg hnil] at h
    exact PriceNames.balanced_of_parse h

/-! ## Positive prices -/

/-- Quotients of positive numbers are not negative. -/
theorem PriceOp.quotient_nonneg {op : PriceOp} {args : List Int} (h : ∀ x ∈ args, 0 ≤ x) :
    0 ≤ op.quotient args := by
  have hs : 0 ≤ satoshiden := by decide
  rcases args with _ | ⟨a, _ | ⟨b, _ | ⟨c, _ | ⟨d, rest⟩⟩⟩⟩
  · cases op <;> exact Int.le_refl 0
  · have ha := h a (by simp)
    cases op with
    | inv => exact Int.tdiv_nonneg (Int.mul_nonneg hs hs) ha
    | _ => exact Int.le_refl 0
  · have ha := h a (by simp)
    have hb := h b (by simp)
    cases op with
    | mult => exact Int.tdiv_nonneg (Int.mul_nonneg ha hb) hs
    | div => exact Int.tdiv_nonneg (Int.mul_nonneg ha hs) hb
    | _ => exact Int.le_refl 0
  · have ha := h a (by simp)
    have hb := h b (by simp)
    have hc := h c (by simp)
    cases op with
    | mdd =>
      have hq := Int.tdiv_nonneg (Int.mul_nonneg ha hs) hb
      exact Int.tdiv_nonneg (Int.mul_nonneg hq hs) hc
    | mmd => exact Int.tdiv_nonneg (Int.mul_nonneg ha hb) hc
    | mmm =>
      have hq := Int.tdiv_nonneg (Int.mul_nonneg ha hb) hs
      exact Int.tdiv_nonneg (Int.mul_nonneg hq hc) hs
    | ddd =>
      have hp := Int.tdiv_nonneg (Int.mul_nonneg hs hs) ha
      have hq := Int.tdiv_nonneg (Int.mul_nonneg hp hs) hb
      exact Int.tdiv_nonneg (Int.mul_nonneg hq hs) hc
    | _ => exact Int.le_refl 0
  · cases op <;> exact Int.le_refl 0

theorem mpzGetSi_nonneg {z : Int} (h : 0 ≤ z) : 0 ≤ mpzGetSi z := by
  unfold mpzGetSi
  rw [if_pos h]
  exact Int.emod_nonneg z (by decide)

theorem mpzGetSi_natCast (n : Nat) : mpzGetSi n = ((n % 2 ^ 63 : Nat) : Int) := by
  unfold mpzGetSi
  rw [if_pos (Int.natCast_nonneg n)]
  omega

/-- The machine after a part of an expression: as many operands as the parser counts, and
nothing negative. -/
structure Sound (depth : Nat) (sum : Nat) (m : PriceMachine) : Prop where
  /-- The depth is the parser's. -/
  length_eq : m.pricestack.length = depth
  /-- The operands are not negative. -/
  nonneg : ∀ x ∈ m.pricestack, 0 ≤ x
  /-- The total is not negative. -/
  total_nonneg : 0 ≤ m.totalPrice
  /-- The weights are added up. -/
  den_eq : m.den = sum

/-- An opcode on positive prices: a division by zero, an overflow, or the next operands. -/
theorem Sound.step {table : PriceTable} {depth depth' sum : Nat} {m : PriceMachine}
    {opcode : UInt16} (h : Sound depth sum m)
    (hprices : ∀ ind, priceCode opcode = .index ind → ∃ p, table ind = .data p ∧ 0 < p)
    (hone : ∀ w, priceCode opcode = .weight w → depth = 1)
    (hdepth : depthStep depth opcode = some depth') :
    (∃ fault, m.step table opcode = .error fault) ∨
    (∃ m', m.step table opcode = .ok (m', -13)) ∨
    ∃ m', m.step table opcode = .ok (m', 0) ∧ Sound depth' (sum + weightOf opcode) m' := by
  obtain ⟨hlen, hnonneg, htotal, hden⟩ := h
  unfold depthStep at hdepth
  unfold weightOf
  cases hcode : priceCode opcode with
  | index ind =>
    simp only [hcode] at hdepth
    obtain ⟨hlt, hd⟩ := Option.ite_none_right_eq_some.1 hdepth
    cases hd
    obtain ⟨p, htable, hp⟩ := hprices ind hcode
    right
    right
    have hroom : ¬ 4 ≤ m.pricestack.length := by omega
    have hne : ¬ p = 0 := by omega
    simp only [PriceMachine.step, hcode, PriceMachine.pushPrice, if_neg hroom, htable, if_neg hne]
    refine ⟨_, rfl, ?_, ?_, htotal, hden⟩
    · simp [hlen]
    · intro x hx
      rcases List.mem_cons.1 hx with rfl | hx
      · exact Int.le_of_lt hp
      · exact hnonneg x hx
  | weight w =>
    simp only [hcode] at hdepth
    obtain ⟨-, hd⟩ := Option.ite_none_right_eq_some.1 hdepth
    cases hd
    obtain ⟨price, hstack⟩ := List.length_eq_one_iff.1 (hlen.trans (hone w hcode))
    right
    right
    simp only [PriceMachine.step, hcode, PriceMachine.addWeight, hstack]
    refine ⟨_, rfl, ?_, ?_, ?_, ?_⟩
    · simp [hone w hcode]
    · intro x hx
      cases hx
    · have hprice := hnonneg price (by simp [hstack])
      exact Int.add_nonneg htotal (Int.mul_nonneg hprice (Int.natCast_nonneg w))
    · simp [hden]
  | op op =>
    simp only [hcode] at hdepth
    obtain ⟨hle, hd⟩ := Option.ite_none_right_eq_some.1 hdepth
    cases hd
    have henough : op.need ≤ m.pricestack.length := by omega
    simp only [PriceMachine.step, hcode, PriceMachine.applyOp, if_pos henough, PriceOp.result_eq]
    by_cases hzero : 0 ∈ op.divisors (m.pricestack.take op.need).reverse
    · rw [if_pos hzero]
      exact Or.inl ⟨_, rfl⟩
    rw [if_neg hzero, except_ok_bind]
    right
    by_cases hlarge : 2 ^ 63 - 1 < op.quotient (m.pricestack.take op.need).reverse
    · rw [if_pos hlarge]
      exact Or.inl ⟨_, rfl⟩
    · rw [if_neg hlarge]
      refine Or.inr ⟨_, rfl, ?_, ?_, htotal, hden⟩
      · simp [hlen]
      · intro x hx
        rcases List.mem_cons.1 hx with rfl | hx
        · apply mpzGetSi_nonneg
          apply PriceOp.quotient_nonneg
          intro y hy
          exact hnonneg y (List.mem_of_mem_take (List.mem_reverse.1 hy))
        · exact hnonneg x (List.mem_of_mem_drop hx)
  | invalid =>
    simp only [hcode] at hdepth
    cases hdepth

/-- A balanced vector on positive prices, with one operand at each weight. -/
theorem Sound.run {table : PriceTable} {vec : List UInt16} {depth sum : Nat} {m : PriceMachine}
    (h : Sound depth sum m) (hprices : PositiveFor vec table) (hbal : Balanced depth vec)
    (hone : WeightsAtOne depth vec) :
    (∃ fault, PriceMachine.run table vec m = .error fault) ∨
    (∃ m', PriceMachine.run table vec m = .ok (m', -13)) ∨
    ∃ m', PriceMachine.run table vec m = .ok (m', 0) ∧
      Sound 0 (sum + (vec.map weightOf).sum) m' := by
  induction vec generalizing depth sum m with
  | nil =>
    obtain rfl : depth = 0 := hbal
    exact Or.inr (Or.inr ⟨m, rfl, h⟩)
  | cons opcode rest ih =>
    obtain ⟨depth', hdepth, hbal⟩ := hbal
    have hread : ∀ ind, priceCode opcode = .index ind → ∃ p, table ind = .data p ∧ 0 < p :=
      hprices opcode List.mem_cons_self
    rcases h.step hread hone.1 hdepth with
      ⟨fault, hstep⟩ | ⟨m', hstep⟩ | ⟨m', hstep, hsound⟩
    · exact Or.inl ⟨fault, PriceMachine.run_cons_error hstep⟩
    · exact Or.inr (Or.inl ⟨m', PriceMachine.run_cons_errcode hstep (by decide)⟩)
    · rw [PriceMachine.run_cons_zero hstep, List.map_cons, List.sum_cons, ← Nat.add_assoc]
      exact ih hsound (fun op hop => hprices op (List.mem_cons_of_mem opcode hop)) hbal
        (hone.2 depth' hdepth)

/-- An expression with its weights in place is not found to be malformed. -/
theorem agrees_of_wellWeighted {vec : List UInt16} (hbal : Balanced 0 vec)
    (h : WellWeighted vec) : Agrees vec := by
  intro table hprices code hcode hstruct
  obtain ⟨hle, hge⟩ := hstruct
  have hstart : Sound 0 0 PriceMachine.start :=
    ⟨rfl, by simp [PriceMachine.start], Int.le_refl 0, rfl⟩
  rcases hstart.run hprices hbal h.atOne with ⟨fault, hrun⟩ | ⟨m, hrun⟩ | ⟨m, hrun, hsound⟩
  · simp only [pricesSyntheticprice, hrun] at hcode
    cases hcode
  · simp only [pricesSyntheticprice, hrun, except_ok_bind] at hcode
    cases hcode
    simp [PriceMachine.retval] at hle
  · simp only [pricesSyntheticprice, hrun, except_ok_bind] at hcode
    cases hcode
    have hden : mpzGetSi m.den ≠ 0 := by
      rw [hsound.den_eq, Nat.zero_add, mpzGetSi_natCast]
      have := h.sum_ne
      omega
    have hstack : m.pricestack = [] := List.length_eq_zero_iff.1 hsound.length_eq
    have hnonneg : 0 ≤ mpzGetSi (m.totalPrice.tdiv m.den) := by
      apply mpzGetSi_nonneg
      apply Int.tdiv_nonneg hsound.total_nonneg
      rw [hsound.den_eq]
      exact Int.natCast_nonneg _
    simp [PriceMachine.retval, hden, hstack] at hge
    omega

/-! ## Prices of one coin -/

/-- All prices are one coin. -/
def oneCoin : PriceTable := fun _ => .data satoshiden

theorem PriceOp.quotient_satoshiden (op : PriceOp) :
    op.quotient (List.replicate op.need satoshiden) = satoshiden := by
  cases op <;> decide

theorem PriceOp.zero_not_mem_divisors (op : PriceOp) :
    ¬ 0 ∈ op.divisors (List.replicate op.need satoshiden) := by
  cases op <;> decide

/-- The machine after a part of an expression over prices of one coin. -/
structure Flat (depth : Nat) (sum : Nat) (m : PriceMachine) : Prop where
  /-- Every operand is one coin. -/
  stack_eq : m.pricestack = List.replicate depth satoshiden
  /-- The weights are added up. -/
  den_eq : m.den = sum

/-- An opcode on prices of one coin leaves operands of one coin. -/
theorem Flat.step {depth depth' sum : Nat} {m : PriceMachine} {opcode : UInt16}
    (h : Flat depth sum m) (hone : ∀ w, priceCode opcode = .weight w → depth = 1)
    (hdepth : depthStep depth opcode = some depth') :
    ∃ m', m.step oneCoin opcode = .ok (m', 0) ∧ Flat depth' (sum + weightOf opcode) m' := by
  obtain ⟨hstack, hden⟩ := h
  have hlen : m.pricestack.length = depth := by
    rw [hstack, List.length_replicate]
  unfold depthStep at hdepth
  unfold weightOf
  cases hcode : priceCode opcode with
  | index ind =>
    simp only [hcode] at hdepth
    obtain ⟨hlt, hd⟩ := Option.ite_none_right_eq_some.1 hdepth
    cases hd
    have hroom : ¬ 4 ≤ m.pricestack.length := by omega
    have hne : ¬ satoshiden = 0 := by decide
    simp only [PriceMachine.step, hcode, PriceMachine.pushPrice, if_neg hroom, oneCoin, if_neg hne]
    refine ⟨_, rfl, ?_, hden⟩
    rw [hstack, List.replicate_succ]
  | weight w =>
    simp only [hcode] at hdepth
    obtain ⟨-, hd⟩ := Option.ite_none_right_eq_some.1 hdepth
    cases hd
    obtain rfl := hone w hcode
    have hsingle : m.pricestack = [satoshiden] := hstack
    simp only [PriceMachine.step, hcode, PriceMachine.addWeight, hsingle]
    refine ⟨_, rfl, rfl, ?_⟩
    simp [hden]
  | op op =>
    simp only [hcode] at hdepth
    obtain ⟨hle, hd⟩ := Option.ite_none_right_eq_some.1 hdepth
    cases hd
    have henough : op.need ≤ m.pricestack.length := by omega
    have hargs : (m.pricestack.take op.need).reverse = List.replicate op.need satoshiden := by
      rw [hstack, List.take_replicate, Nat.min_eq_left hle, List.reverse_replicate]
    have hsmall : ¬ 2 ^ 63 - 1 < satoshiden := by decide
    simp only [PriceMachine.step, hcode, PriceMachine.applyOp, if_pos henough, PriceOp.result_eq,
      hargs, if_neg op.zero_not_mem_divisors, except_ok_bind, op.quotient_satoshiden,
      if_neg hsmall]
    refine ⟨_, rfl, ?_, hden⟩
    have hsi : mpzGetSi satoshiden = satoshiden := by decide
    rw [hsi, hstack, List.drop_replicate, List.replicate_succ]
  | invalid =>
    simp only [hcode] at hdepth
    cases hdepth

/-- A weight on several operands ends the evaluation. -/
theorem PriceMachine.step_weight_of_ne {table : PriceTable} {m : PriceMachine} {opcode : UInt16}
    {w : Nat} (hcode : priceCode opcode = .weight w) (hne : m.pricestack.length ≠ 1) :
    m.step table opcode = .ok (m, -2) := by
  simp only [PriceMachine.step, hcode, PriceMachine.addWeight]
  rcases hstack : m.pricestack with _ | ⟨price, _ | ⟨next, rest⟩⟩
  · rfl
  · rw [hstack] at hne
    exact absurd rfl hne
  · rfl

/-- A balanced vector on prices of one coin is evaluated to its end, or to the first
weight that meets several operands. -/
theorem Flat.run {vec : List UInt16} {depth sum : Nat} {m : PriceMachine}
    (h : Flat depth sum m) (hbal : Balanced depth vec) :
    WeightsAtOne depth vec ∧ (∃ m', PriceMachine.run oneCoin vec m = .ok (m', 0) ∧
      Flat 0 (sum + (vec.map weightOf).sum) m') ∨
    ∃ m', PriceMachine.run oneCoin vec m = .ok (m', -2) ∧ m'.pricestack ≠ [] := by
  induction vec generalizing depth sum m with
  | nil =>
    obtain rfl : depth = 0 := hbal
    exact Or.inl ⟨trivial, m, rfl, h⟩
  | cons opcode rest ih =>
    obtain ⟨depth', hdepth, hbal⟩ := hbal
    by_cases hone : ∀ w, priceCode opcode = .weight w → depth = 1
    · obtain ⟨m', hstep, hflat⟩ := h.step hone hdepth
      rw [PriceMachine.run_cons_zero hstep, List.map_cons, List.sum_cons, ← Nat.add_assoc]
      rcases ih hflat hbal with ⟨hrest, hrun⟩ | hrun
      · refine Or.inl ⟨⟨hone, fun d hd => ?_⟩, hrun⟩
        rw [hdepth] at hd
        cases hd
        exact hrest
      · exact Or.inr hrun
    · right
      obtain ⟨w, hweight⟩ := not_forall.1 hone
      obtain ⟨hcode, hne⟩ := Classical.not_imp.1 hweight
      have hlen : m.pricestack.length = depth := by
        rw [h.stack_eq, List.length_replicate]
      have hstep : m.step oneCoin opcode = .ok (m, -2) :=
        PriceMachine.step_weight_of_ne hcode (by omega)
      refine ⟨m, PriceMachine.run_cons_errcode hstep (by decide), ?_⟩
      simp only [depthStep, hcode] at hdepth
      obtain ⟨hle, -⟩ := Option.ite_none_right_eq_some.1 hdepth
      apply List.ne_nil_of_length_pos
      omega

theorem wellWeighted_of_agrees {vec : List UInt16} (hbal : Balanced 0 vec) (h : Agrees vec) :
    WellWeighted vec := by
  have hstart : Flat 0 0 PriceMachine.start := ⟨rfl, rfl⟩
  have hprices : PositiveFor vec oneCoin := fun _ _ _ _ => ⟨satoshiden, rfl, by decide⟩
  rcases hstart.run hbal with ⟨hone, m, hrun, hflat⟩ | ⟨m, hrun, hne⟩
  · refine ⟨hone, fun hsum => ?_⟩
    have hden : mpzGetSi m.den = 0 := by
      rw [hflat.den_eq, Nat.zero_add, mpzGetSi_natCast, hsum]
      rfl
    have hcode : pricesSyntheticprice oneCoin vec = .ok (-11) := by
      simp only [pricesSyntheticprice, hrun, except_ok_bind]
      simp [PriceMachine.retval, hden, pure, Except.pure]
    exact h oneCoin hprices _ hcode ⟨by decide, by decide⟩
  · have hcode : ∃ code, pricesSyntheticprice oneCoin vec = .ok code ∧ IsStructural code := by
      simp only [pricesSyntheticprice, hrun, except_ok_bind]
      by_cases hden : mpzGetSi m.den = 0
      · refine ⟨-11, ?_, by decide, by decide⟩
        simp [PriceMachine.retval, hden, pure, Except.pure]
      · refine ⟨-12, ?_, by decide, by decide⟩
        simp [PriceMachine.retval, hden, hne, pure, Except.pure]
    obtain ⟨code, hcode, hstruct⟩ := hcode
    exact absurd hstruct (h oneCoin hprices code hcode)

/-- The evaluation of a vector is safe exactly when its steps are, and the parser and the
evaluator agree on an accepted expression exactly when its weights are right. -/
theorem syntheticprice_iff (names : PriceNames) :
    (∀ table vec, (∀ fault, pricesSyntheticprice table vec ≠ .error fault) ↔
      SafeVec table vec) ∧
    ∀ synthetic vec, names.pricesSyntheticvec synthetic = .ok vec →
      (Agrees vec ↔ WellWeighted vec) := by
  refine ⟨pricesSyntheticprice_safe_iff, fun synthetic vec hvec => ?_⟩
  have hbal := PriceNames.balanced_of_syntheticvec hvec
  exact ⟨wellWeighted_of_agrees hbal, agrees_of_wellWeighted hbal⟩

/-! ## Expressions -/

namespace SamplePrices

/-- A chain with two prices. -/
def names : PriceNames where
  names := [['B', 'T', 'C', '_', 'U', 'S', 'D'], ['B', 'T', 'C', '_', 'G', 'B', 'P']]
  length_lt := by decide

/-- A quotient with a weight. -/
def quotient : List Token :=
  [['B', 'T', 'C', '_', 'U', 'S', 'D'], ['B', 'T', 'C', '_', 'G', 'B', 'P'], ['/'], ['1']]

/-- Two prices with two weights after them. -/
def late : List Token :=
  [['B', 'T', 'C', '_', 'U', 'S', 'D'], ['B', 'T', 'C', '_', 'G', 'B', 'P'], ['1'], ['1']]

end SamplePrices

/-- A quotient of two prices. -/
theorem quotient_agrees :
    SamplePrices.names.pricesSyntheticvec SamplePrices.quotient = .ok [1, 2, 6144, 2049] ∧
    Agrees [1, 2, 6144, 2049] := by
  have hvec : SamplePrices.names.pricesSyntheticvec SamplePrices.quotient =
      .ok [1, 2, 6144, 2049] := eq_ok_of_toOption (by decide +kernel)
  refine ⟨hvec, ((syntheticprice_iff SamplePrices.names).2 _ _ hvec).2 ⟨?_, by decide +kernel⟩⟩
  simp [WeightsAtOne, depthStep, priceCode, komodoMaxprices, PriceOp.need]

/-- Five prices overrun the stack, a product of small prices is divided by, and an accepted
expression is refused. -/
theorem parser_evaluator_differ :
    pricesSyntheticprice oneCoin [1, 1, 1, 1, 1] = .error (.stackOutOfBounds 4) ∧
    pricesSyntheticprice (fun _ => .data 1) [1, 1, 4096, 8192] = .error .divisionByZero ∧
    SamplePrices.names.pricesSyntheticvec SamplePrices.late = .ok [1, 2, 2049, 2049] ∧
    ¬ Agrees [1, 2, 2049, 2049] := by
  refine ⟨by rfl, by rfl, eq_ok_of_toOption (by decide +kernel), fun h => ?_⟩
  have hcode : pricesSyntheticprice oneCoin [1, 2, 2049, 2049] = .ok (-11) := by rfl
  exact h oneCoin (fun _ _ _ _ => ⟨satoshiden, rfl, by decide⟩) _ hcode ⟨by decide, by decide⟩

end IndexChain.Prices
