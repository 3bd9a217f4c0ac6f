import IndexChain.Models.Prices.Synthetic

/-!
# The operands of a synthetic price

A vector of opcodes builds expressions over prices. `Operands` says which expressions are
waiting after a vector, independently of the machine; the machine holds their values
(`run_eq_ok_iff`). It fails exactly where a fifth price is pushed or where an operator
divides by an expression that is worth nothing (`pricesSyntheticprice_safe_iff`).
-/

namespace IndexChain.Prices

open IndexChain.Core

/-! ## Expressions -/

namespace PriceOp

/-- The operands that an operator divides by. -/
def divisors {α : Type} : PriceOp → List α → List α
  | div, [_, b] => [b]
  | inv, [a] => [a]
  | mdd, [_, b, c] => [b, c]
  | mmd, [_, _, c] => [c]
  | ddd, [a, b, c] => [a, b, c]
  | _, _ => []

/-- The quotient of an operator, rounded towards zero after each division. -/
def quotient : PriceOp → List Int → Int
  | mult, [a, b] => (a * b).tdiv satoshiden
  | div, [a, b] => (a * satoshiden).tdiv b
  | inv, [a] => (satoshiden * satoshiden).tdiv a
  | mdd, [a, b, c] => ((a * satoshiden).tdiv b * satoshiden).tdiv c
  | mmd, [a, b, c] => (a * b).tdiv c
  | mmm, [a, b, c] => ((a * b).tdiv satoshiden * c).tdiv satoshiden
  | ddd, [a, b, c] => (((satoshiden * satoshiden).tdiv a * satoshiden).tdiv b * satoshiden).tdiv c
  | _, _ => 0

theorem divisors_map {α β : Type} (f : α → β) (op : PriceOp) (args : List α) :
    op.divisors (args.map f) = (op.divisors args).map f := by
  rcases args with _ | ⟨a, _ | ⟨b, _ | ⟨c, _ | ⟨d, rest⟩⟩⟩⟩ <;> cases op <;> rfl

end PriceOp

theorem mpzTdivQ_eq (n d : Int) :
    mpzTdivQ n d = if 0 = d then .error .divisionByZero else .ok (n.tdiv d) := by
  unfold mpzTdivQ
  by_cases h : d = 0
  · simp [h]
  · simp [h, Ne.symm h]

/-- An operator divides by zero or has its quotient as a result. -/
theorem PriceOp.result_eq (op : PriceOp) (args : List Int) :
    op.result args =
      if 0 ∈ op.divisors args then .error .divisionByZero else .ok (op.quotient args) := by
  have hs : ¬ (0 : Int) = satoshiden := by decide
  rcases args with _ | ⟨a, _ | ⟨b, _ | ⟨c, _ | ⟨d, rest⟩⟩⟩⟩
  · cases op <;> rfl
  · cases op with
    | inv => simp [result, divisors, quotient, mpzTdivQ_eq]
    | _ => rfl
  · cases op with
    | div => simp [result, divisors, quotient, mpzTdivQ_eq]
    | _ => rfl
  · cases op with
    | mdd =>
      by_cases hb : 0 = b
      · simp [result, divisors, mpzTdivQ_eq, hb, bind, Except.bind]
      · simp [result, divisors, quotient, mpzTdivQ_eq, hb, bind, Except.bind]
    | mmd => simp [result, divisors, quotient, mpzTdivQ_eq]
    | ddd =>
      by_cases ha : 0 = a
      · simp [result, divisors, mpzTdivQ_eq, ha, bind, Except.bind]
      · by_cases hb : 0 = b
        · obtain rfl := hb
          simp [result, divisors, mpzTdivQ_eq, ha, bind, Except.bind]
        · simp [result, divisors, quotient, mpzTdivQ_eq, ha, hb, bind, Except.bind]
    | _ => rfl
  · cases op <;> rfl

/-- An expression over prices. -/
inductive PriceExpr where
  /-- A price. -/
  | price (p : Int)
  /-- An operator with its operands. -/
  | node (op : PriceOp) (args : List PriceExpr)

mutual

/-- The value of an expression, as it is kept in 64 bits. -/
def PriceExpr.value : PriceExpr → Int
  | .price p => p
  | .node op args => mpzGetSi (op.quotient (PriceExpr.values args))

/-- The values of some expressions. -/
def PriceExpr.values : List PriceExpr → List Int
  | [] => []
  | e :: es => e.value :: PriceExpr.values es

end

theorem PriceExpr.values_eq (es : List PriceExpr) : PriceExpr.values es = es.map value := by
  induction es with
  | nil => rfl
  | cons e es ih => rw [PriceExpr.values, ih, List.map_cons]

/-! ## Operands -/

/-- The last price that a vector found in a file. -/
def lastPrice (table : PriceTable) (vec : List UInt16) : Int :=
  vec.foldl (fun p opcode => match priceCode opcode with
    | .index ind => match table ind with
      | .data price => price
      | _ => p
    | _ => p) 0

/-- The price of an index after a vector, unless it is missing or zero. -/
def priceAt (table : PriceTable) (vec : List UInt16) (ind : Nat) : Option Int :=
  match table ind with
  | .data p => if p = 0 then none else some p
  | .absent => if lastPrice table vec = 0 then none else some (lastPrice table vec)
  | .short => none

/-- The operands that wait after a vector, the last one first: every price is there, every
weight meets one operand, every operator has its operands, and no quotient is too large. -/
inductive Operands (table : PriceTable) : List UInt16 → List PriceExpr → Prop where
  | nil : Operands table [] []
  | index {vec : List UInt16} {stk : List PriceExpr} {opcode : UInt16} {ind : Nat} {p : Int}
      (before : Operands table vec stk) (code : priceCode opcode = .index ind)
      (room : stk.length < 4) (found : priceAt table vec ind = some p) :
      Operands table (vec ++ [opcode]) (.price p :: stk)
  | weight {vec : List UInt16} {e : PriceExpr} {opcode : UInt16} {value : Nat}
      (before : Operands table vec [e]) (code : priceCode opcode = .weight value) :
      Operands table (vec ++ [opcode]) []
  | op {vec : List UInt16} {stk : List PriceExpr} {opcode : UInt16} {op : PriceOp}
      (before : Operands table vec stk) (code : priceCode opcode = .op op)
      (enough : op.need ≤ stk.length)
      (divides : ∀ d ∈ op.divisors (stk.take op.need).reverse, d.value ≠ 0)
      (fits : op.quotient ((stk.take op.need).reverse.map PriceExpr.value) ≤ 2 ^ 63 - 1) :
      Operands table (vec ++ [opcode])
        (.node op (stk.take op.need).reverse :: stk.drop op.need)

/-- The next opcode pushes no fifth price and divides by no expression that is worth
nothing. -/
structure SafeStep (stk : List PriceExpr) (opcode : UInt16) : Prop where
  /-- There is room for a price. -/
  room : ∀ ind, priceCode opcode = .index ind → stk.length < 4
  /-- The divisors are worth something. -/
  divides : ∀ op, priceCode opcode = .op op → op.need ≤ stk.length →
    ∀ d ∈ op.divisors (stk.take op.need).reverse, d.value ≠ 0

/-- The steps of a vector are safe, up to where its evaluation ends. -/
def SafeVec (table : PriceTable) (vec : List UInt16) : Prop :=
  ∀ (before : List UInt16) (opcode : UInt16) (after : List UInt16) (stk : List PriceExpr),
    vec = before ++ opcode :: after → Operands table before stk → SafeStep stk opcode

/-! ## The machine holds the values of the operands -/

/-- The machine after a vector. -/
structure Holds (table : PriceTable) (vec : List UInt16) (stk : List PriceExpr)
    (m : PriceMachine) : Prop where
  /-- The values of the operands are on the stack. -/
  stack_eq : m.pricestack = stk.map PriceExpr.value
  /-- The last price is in the buffer. -/
  pricedata_eq : m.pricedata = lastPrice table vec

section Step

variable {table : PriceTable} {vec : List UInt16} {stk : List PriceExpr} {m : PriceMachine}
  {opcode : UInt16}

theorem Holds.length_eq (h : Holds table vec stk m) : m.pricestack.length = stk.length := by
  rw [h.stack_eq, List.length_map]

theorem lastPrice_append_index {ind : Nat} (hcode : priceCode opcode = .index ind) :
    lastPrice table (vec ++ [opcode]) =
      match table ind with
      | .data price => price
      | _ => lastPrice table vec := by
  simp only [lastPrice, List.foldl_append, List.foldl_cons, List.foldl_nil, hcode]

theorem lastPrice_append (hcode : ∀ ind, priceCode opcode ≠ .index ind) :
    lastPrice table (vec ++ [opcode]) = lastPrice table vec := by
  simp only [lastPrice, List.foldl_append, List.foldl_cons, List.foldl_nil]

/-- The machine pushes a price that is there. -/
theorem Holds.step_index (h : Holds table vec stk m) {ind : Nat} {p : Int}
    (hcode : priceCode opcode = .index ind) (hroom : stk.length < 4)
    (hfound : priceAt table vec ind = some p) :
    ∃ m', m.step table opcode = .ok (m', 0) ∧
      Holds table (vec ++ [opcode]) (.price p :: stk) m' := by
  have hlen : ¬ 4 ≤ m.pricestack.length := by
    rw [h.length_eq]
    omega
  have hlast : lastPrice table (vec ++ [opcode]) = _ := lastPrice_append_index hcode
  simp only [PriceMachine.step, hcode, PriceMachine.pushPrice, if_neg hlen]
  unfold priceAt at hfound
  cases htable : table ind with
  | absent =>
    rw [htable] at hfound hlast
    obtain ⟨hne, hp⟩ := Option.ite_none_left_eq_some.1 hfound
    have hp := Option.some.inj hp
    rw [h.pricedata_eq, if_neg hne]
    refine ⟨_, rfl, ?_, ?_⟩
    · simp [h.stack_eq, PriceExpr.value, hp]
    · exact hlast.symm
  | short =>
    rw [htable] at hfound
    cases hfound
  | data price =>
    rw [htable] at hfound hlast
    obtain ⟨hne, hp⟩ := Option.ite_none_left_eq_some.1 hfound
    have hp := Option.some.inj hp
    simp only [if_neg hne]
    refine ⟨_, rfl, ?_, hlast.symm⟩
    simp [h.stack_eq, PriceExpr.value, hp]

/-- The evaluation ends at a price that is missing or zero. -/
theorem Holds.step_index_none (h : Holds table vec stk m) {ind : Nat}
    (hcode : priceCode opcode = .index ind) (hroom : stk.length < 4)
    (hfound : priceAt table vec ind = none) :
    ∃ m', m.step table opcode = .ok (m', -14) := by
  have hlen : ¬ 4 ≤ m.pricestack.length := by
    rw [h.length_eq]
    omega
  simp only [PriceMachine.step, hcode, PriceMachine.pushPrice, if_neg hlen]
  unfold priceAt at hfound
  cases htable : table ind with
  | absent =>
    rw [htable] at hfound
    have hzero : lastPrice table vec = 0 := by
      by_contra hne
      rw [if_neg hne] at hfound
      cases hfound
    rw [h.pricedata_eq, if_pos hzero]
    exact ⟨_, rfl⟩
  | short => exact ⟨_, rfl⟩
  | data price =>
    rw [htable] at hfound
    have hzero : price = 0 := by
      by_contra hne
      simp only [if_neg hne] at hfound
      cases hfound
    simp only [if_pos hzero]
    exact ⟨_, rfl⟩

/-- The machine adds the weighted price of its only operand. -/
theorem Holds.step_weight {e : PriceExpr} (h : Holds table vec [e] m) {value : Nat}
    (hcode : priceCode opcode = .weight value) :
    ∃ m', m.step table opcode = .ok (m', 0) ∧ Holds table (vec ++ [opcode]) [] m' := by
  have hstack : m.pricestack = [e.value] := h.stack_eq
  simp only [PriceMachine.step, hcode, PriceMachine.addWeight, hstack]
  refine ⟨_, rfl, rfl, ?_⟩
  rw [lastPrice_append (by simp [hcode])]
  exact h.pricedata_eq

/-- The operands that an operator finds on the stack. -/
theorem Holds.args_eq (h : Holds table vec stk m) (n : Nat) :
    (m.pricestack.take n).reverse = (stk.take n).reverse.map PriceExpr.value := by
  rw [h.stack_eq, List.map_reverse, List.map_take]

theorem zero_mem_divisors_iff {op : PriceOp} {args : List PriceExpr} :
    0 ∈ op.divisors (args.map PriceExpr.value) ↔ ∃ d ∈ op.divisors args, d.value = 0 := by
  rw [PriceOp.divisors_map, List.mem_map]

/-- The machine applies an operator to its operands. -/
theorem Holds.step_op (h : Holds table vec stk m) {op : PriceOp}
    (hcode : priceCode opcode = .op op) (henough : op.need ≤ stk.length)
    (hdivides : ∀ d ∈ op.divisors (stk.take op.need).reverse, d.value ≠ 0) :
    ∃ m', m.step table opcode = .ok (m',
        if 2 ^ 63 - 1 < op.quotient ((stk.take op.need).reverse.map PriceExpr.value) then -13
        else 0) ∧
      Holds table (vec ++ [opcode])
        (.node op (stk.take op.need).reverse :: stk.drop op.need) m' := by
  have hlen : op.need ≤ m.pricestack.length := by
    rw [h.length_eq]
    exact henough
  have hzero : ¬ 0 ∈ op.divisors ((stk.take op.need).reverse.map PriceExpr.value) := by
    rw [zero_mem_divisors_iff]
    rintro ⟨d, hd, hval⟩
    exact hdivides d hd hval
  simp only [PriceMachine.step, hcode, PriceMachine.applyOp, if_pos hlen, h.args_eq,
    PriceOp.result_eq, if_neg hzero, except_ok_bind]
  refine ⟨_, rfl, ?_, ?_⟩
  · simp [h.stack_eq, PriceExpr.value, PriceExpr.values_eq, List.map_drop]
  · rw [lastPrice_append (by simp [hcode])]
    exact h.pricedata_eq

/-- The machine fails where a step is not safe. -/
theorem Holds.step_unsafe (h : Holds table vec stk m) (hsafe : ¬ SafeStep stk opcode) :
    ∃ fault, m.step table opcode = .error fault := by
  by_contra hne
  apply hsafe
  refine ⟨fun ind hcode => ?_, fun op hcode henough d hd hval => ?_⟩
  · by_contra hroom
    apply hne
    have hlen : 4 ≤ m.pricestack.length := by
      rw [h.length_eq]
      omega
    simp only [PriceMachine.step, hcode, PriceMachine.pushPrice, if_pos hlen]
    exact ⟨_, rfl⟩
  · apply hne
    have hlen : op.need ≤ m.pricestack.length := by
      rw [h.length_eq]
      exact henough
    have hzero : 0 ∈ op.divisors ((stk.take op.need).reverse.map PriceExpr.value) :=
      zero_mem_divisors_iff.2 ⟨d, hd, hval⟩
    simp only [PriceMachine.step, hcode, PriceMachine.applyOp, if_pos hlen, h.args_eq,
      PriceOp.result_eq, if_pos hzero]
    exact ⟨_, rfl⟩

/-- A safe step leads to the operands of the longer vector, or ends the evaluation. -/
theorem Holds.step_safe (h : Holds table vec stk m) (hstk : Operands table vec stk)
    (hsafe : SafeStep stk opcode) :
    (∃ stk' m', m.step table opcode = .ok (m', 0) ∧ Operands table (vec ++ [opcode]) stk' ∧
      Holds table (vec ++ [opcode]) stk' m') ∨
    ∃ m' errcode, m.step table opcode = .ok (m', errcode) ∧ errcode ≠ 0 := by
  cases hcode : priceCode opcode with
  | index ind =>
    have hroom := hsafe.room ind hcode
    cases hfound : priceAt table vec ind with
    | none =>
      obtain ⟨m', hstep⟩ := h.step_index_none hcode hroom hfound
      exact Or.inr ⟨m', -14, hstep, by decide⟩
    | some p =>
      obtain ⟨m', hstep, hholds⟩ := h.step_index hcode hroom hfound
      exact Or.inl ⟨_, m', hstep, .index hstk hcode hroom hfound, hholds⟩
  | weight value =>
    match stk, h, hstk with
    | [e], h, hstk =>
      obtain ⟨m', hstep, hholds⟩ := h.step_weight hcode
      exact Or.inl ⟨_, m', hstep, .weight hstk hcode, hholds⟩
    | [], h, _ =>
      have hstack : m.pricestack = [] := h.stack_eq
      refine Or.inr ⟨m, -2, ?_, by decide⟩
      simp only [PriceMachine.step, hcode, PriceMachine.addWeight, hstack]
    | a :: b :: rest, h, _ =>
      have hstack : m.pricestack = a.value :: b.value :: rest.map PriceExpr.value := h.stack_eq
      refine Or.inr ⟨m, -2, ?_, by decide⟩
      simp only [PriceMachine.step, hcode, PriceMachine.addWeight, hstack]
  | op op =>
    by_cases henough : op.need ≤ stk.length
    · have hdivides := hsafe.divides op hcode henough
      obtain ⟨m', hstep, hholds⟩ := h.step_op hcode henough hdivides
      by_cases hlarge :
          2 ^ 63 - 1 < op.quotient ((stk.take op.need).reverse.map PriceExpr.value)
      · rw [if_pos hlarge] at hstep
        exact Or.inr ⟨m', -13, hstep, by decide⟩
      · rw [if_neg hlarge] at hstep
        exact Or.inl ⟨_, m', hstep, .op hstk hcode henough hdivides (Int.not_lt.1 hlarge), hholds⟩
    · have hlen : ¬ op.need ≤ m.pricestack.length := by
        rw [h.length_eq]
        exact henough
      refine Or.inr ⟨m, op.errcode, ?_, by cases op <;> decide⟩
      simp only [PriceMachine.step, hcode, PriceMachine.applyOp, if_neg hlen]
  | invalid =>
    refine Or.inr ⟨m, -10, ?_, by decide⟩
    simp only [PriceMachine.step, hcode]

end Step

/-! ## Runs -/

namespace PriceMachine

theorem run_cons_zero {table : PriceTable} {m m' : PriceMachine} {opcode : UInt16}
    {rest : List UInt16} (h : m.step table opcode = .ok (m', 0)) :
    run table (opcode :: rest) m = run table rest m' := by
  simp only [run, h, except_ok_bind, if_true]

theorem run_cons_errcode {table : PriceTable} {m m' : PriceMachine} {opcode : UInt16}
    {rest : List UInt16} {errcode : Int} (h : m.step table opcode = .ok (m', errcode))
    (hne : errcode ≠ 0) : run table (opcode :: rest) m = .ok (m', errcode) := by
  simp only [run, h, except_ok_bind, if_neg hne]
  rfl

theorem run_cons_error {table : PriceTable} {m : PriceMachine} {opcode : UInt16}
    {rest : List UInt16} {fault : PriceFault} (h : m.step table opcode = .error fault) :
    run table (opcode :: rest) m = .error fault := by
  simp only [run, h]
  rfl

/-- A vector after one that is evaluated to its end. -/
theorem run_append {table : PriceTable} {vec rest : List UInt16} {m m' : PriceMachine}
    (h : run table vec m = .ok (m', 0)) : run table (vec ++ rest) m = run table rest m' := by
  induction vec generalizing m with
  | nil =>
    cases h
    rfl
  | cons opcode vec ih =>
    cases hstep : m.step table opcode with
    | error fault =>
      rw [run_cons_error hstep] at h
      cases h
    | ok r =>
      obtain ⟨m₁, errcode⟩ := r
      by_cases hzero : errcode = 0
      · subst hzero
        rw [run_cons_zero hstep] at h
        rw [List.cons_append, run_cons_zero hstep]
        exact ih h
      · rw [run_cons_errcode hstep hzero] at h
        cases h
        exact absurd rfl hzero

end PriceMachine

/-- The machine reaches the operands of a vector. -/
theorem Operands.run {table : PriceTable} {vec : List UInt16} {stk : List PriceExpr}
    (h : Operands table vec stk) :
    ∃ m, PriceMachine.run table vec .start = .ok (m, 0) ∧ Holds table vec stk m := by
  induction h with
  | nil => exact ⟨_, rfl, rfl, rfl⟩
  | index before code room found ih =>
    obtain ⟨m, hrun, hholds⟩ := ih
    obtain ⟨m', hstep, hholds'⟩ := hholds.step_index code room found
    exact ⟨m', (PriceMachine.run_append hrun).trans (PriceMachine.run_cons_zero hstep), hholds'⟩
  | weight before code ih =>
    obtain ⟨m, hrun, hholds⟩ := ih
    obtain ⟨m', hstep, hholds'⟩ := hholds.step_weight code
    exact ⟨m', (PriceMachine.run_append hrun).trans (PriceMachine.run_cons_zero hstep), hholds'⟩
  | op before code enough divides fits ih =>
    obtain ⟨m, hrun, hholds⟩ := ih
    obtain ⟨m', hstep, hholds'⟩ := hholds.step_op code enough divides
    rw [if_neg (Int.not_lt.2 fits)] at hstep
    exact ⟨m', (PriceMachine.run_append hrun).trans (PriceMachine.run_cons_zero hstep), hholds'⟩

/-- The machine does not fail on what follows operands when every step is safe. -/
theorem Holds.run_safe {table : PriceTable} {vec rest : List UInt16} {stk : List PriceExpr}
    {m : PriceMachine} (h : Holds table vec stk m) (hstk : Operands table vec stk)
    (hsafe : SafeVec table (vec ++ rest)) : ∃ r, PriceMachine.run table rest m = .ok r := by
  induction rest generalizing vec stk m with
  | nil => exact ⟨_, rfl⟩
  | cons opcode rest ih =>
    rcases h.step_safe hstk (hsafe vec opcode rest stk rfl hstk) with
      ⟨stk', m', hstep, hstk', hholds⟩ | ⟨m', errcode, hstep, hne⟩
    · rw [PriceMachine.run_cons_zero hstep]
      apply ih hholds hstk'
      rw [List.append_assoc]
      exact hsafe
    · exact ⟨_, PriceMachine.run_cons_errcode hstep hne⟩

/-- A price is computed without a failure exactly when the steps of the vector are safe. -/
theorem pricesSyntheticprice_safe_iff (table : PriceTable) (vec : List UInt16) :
    (∀ fault, pricesSyntheticprice table vec ≠ .error fault) ↔ SafeVec table vec := by
  constructor
  · intro hsafe before opcode after stk hvec hstk
    by_contra hunsafe
    obtain ⟨m, hrun, hholds⟩ := hstk.run
    obtain ⟨fault, hstep⟩ := hholds.step_unsafe hunsafe
    apply hsafe fault
    simp only [pricesSyntheticprice, hvec, PriceMachine.run_append hrun,
      PriceMachine.run_cons_error hstep]
    rfl
  · intro hsafe fault
    have hstart : Holds table [] [] PriceMachine.start := ⟨rfl, rfl⟩
    obtain ⟨r, hrun⟩ := hstart.run_safe .nil hsafe
    simp only [pricesSyntheticprice, hrun, except_ok_bind]
    intro h
    cases h

end IndexChain.Prices
