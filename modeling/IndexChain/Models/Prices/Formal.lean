import Mathlib.Algebra.BigOperators.Finsupp.Basic
import Mathlib.Data.List.TakeWhile
import Mathlib.Tactic.Abel
import IndexChain.Core.Rewriting
import IndexChain.Models.Prices.Reduce

/-!
# The meaning of a synthetic expression

The grammar that `prices_syntheticvec` accepts, over all price pairs `A_B`, and what an
expression of it stands for: a pair is the formal quotient of its quotes, an operator
multiplies and divides the last operands, and a weight adds the last operand to a weighted
sum. The products are written additively, in the free abelian group over the quotes.
-/

namespace IndexChain.Prices

open IndexChain.Core

/-! ## The grammar -/

/-- A character that `SplitStr` leaves in a word and `c_str` does not end at. -/
def isWordChar (c : Char) : Bool := !isSpace c && c != ',' && c != Char.ofNat 0

/-- A quote of a price pair: a word with a letter and without `_`. -/
structure IsQuote (q : Token) : Prop where
  /-- There is a letter. -/
  letter : q.any Char.isAlpha = true
  /-- The characters are those of a word, and none is a `_`. -/
  chars : q.all (fun c => isWordChar c && c != '_') = true

instance (q : Token) : Decidable (IsQuote q) :=
  decidable_of_iff (q.any Char.isAlpha = true ∧ q.all (fun c => isWordChar c && c != '_') = true)
    ⟨fun h => ⟨h.1, h.2⟩, fun h => ⟨h.1, h.2⟩⟩

/-- A price pair `A_B`. -/
structure IsPair (t : Token) : Prop where
  /-- The quote before the `_`. -/
  upper : IsQuote (pricesSplitpair t).1
  /-- The quote after it. -/
  bottom : IsQuote (pricesSplitpair t).2

instance (t : Token) : Decidable (IsPair t) :=
  decidable_of_iff (IsQuote (pricesSplitpair t).1 ∧ IsQuote (pricesSplitpair t).2)
    ⟨fun h => ⟨h.1, h.2⟩, fun h => ⟨h.1, h.2⟩⟩

/-- The weight that `prices_syntheticvec` reads from a word. -/
def weightOfWord (t : Token) : Nat := (atoi t.cStr % 2 ^ 16).toNat

/-- A weight. -/
structure IsWeight (t : Token) : Prop where
  /-- There are digits, and no letters. -/
  digits : isWeightStr t = true
  /-- The characters are those of a word, and none is a `_`. -/
  chars : t.all (fun c => isWordChar c && c != '_') = true
  /-- The number fits in an opcode. -/
  range : 0 < weightOfWord t ∧ weightOfWord t < komodoMaxprices

instance (t : Token) : Decidable (IsWeight t) :=
  decidable_of_iff (isWeightStr t = true ∧ t.all (fun c => isWordChar c && c != '_') = true ∧
      (0 < weightOfWord t ∧ weightOfWord t < komodoMaxprices))
    ⟨fun h => ⟨h.1, h.2.1, h.2.2⟩, fun h => ⟨h.1, h.2, h.3⟩⟩

/-- How many operands there are after a word. -/
def wordDepth (depth : Nat) (t : Token) : Option Nat :=
  match priceOpOf t with
  | some op => if op.need ≤ depth then some (depth - op.need + 1) else none
  | none =>
    if IsPair t then if depth < 3 then some (depth + 1) else none
    else if IsWeight t then if 1 ≤ depth then some (depth - 1) else none
    else none

/-- The expressions of the grammar. -/
structure WellFormed (expr : List Token) : Prop where
  /-- There is a word. -/
  ne_nil : expr ≠ []
  /-- The words never need more operands than there are, and leave none. -/
  depth : expr.foldlM wordDepth 0 = some 0

instance (expr : List Token) : Decidable (WellFormed expr) :=
  decidable_of_iff (expr ≠ [] ∧ expr.foldlM wordDepth 0 = some 0)
    ⟨fun h => ⟨h.1, h.2⟩, fun h => ⟨h.1, h.2⟩⟩

/-- The word of an operator. -/
def PriceOp.word : PriceOp → Token
  | mult => ['*']
  | div => ['/']
  | inv => ['!']
  | mdd => ['*', '/', '/']
  | mmd => ['*', '*', '/']
  | mmm => ['*', '*', '*']
  | ddd => ['/', '/', '/']

/-! ## The meaning -/

/-- A formal product of quotes and their inverses. -/
abbrev QuoteProduct : Type := Token →₀ ℤ

/-- A weighted sum of products. -/
abbrev WeightedSum : Type := QuoteProduct →₀ ℕ

/-- A pair as the quotient of its quotes. -/
noncomputable def quotient (t : Token) : QuoteProduct :=
  Finsupp.single (pricesSplitpair t).1 1 - Finsupp.single (pricesSplitpair t).2 1

/-- The operands that an operator divides by. -/
def PriceOp.divides : PriceOp → List Bool
  | mult => [false, false]
  | div => [false, true]
  | inv => [true]
  | mdd => [false, true, true]
  | mmd => [false, false, true]
  | mmm => [false, false, false]
  | ddd => [true, true, true]

/-- What an operator makes of its operands, in the order they were pushed. -/
noncomputable def PriceOp.product (op : PriceOp) (operands : List QuoteProduct) : QuoteProduct :=
  (List.zipWith (fun divide g => if divide then -g else g) op.divides operands).sum

/-- The variables of the formal evaluation. -/
structure FormalMachine where
  /-- The operands, the last one first. -/
  stack : List QuoteProduct
  /-- The weighted sum so far. -/
  total : WeightedSum

/-- Push a product. -/
def FormalMachine.push (m : FormalMachine) (g : QuoteProduct) : FormalMachine :=
  { m with stack := g :: m.stack }

/-- One word. -/
noncomputable def formalStep (m : FormalMachine) (t : Token) : Option FormalMachine :=
  match priceOpOf t with
  | some op =>
    if op.need ≤ m.stack.length then
      some { m with
        stack := op.product (m.stack.take op.need).reverse :: m.stack.drop op.need }
    else none
  | none =>
    if IsPair t then if m.stack.length < 3 then some (m.push (quotient t)) else none
    else if IsWeight t then
      match m.stack with
      | [] => none
      | g :: rest => some ⟨rest, m.total + Finsupp.single g (weightOfWord t)⟩
    else none

/-- The weighted sum of products that an expression stands for. -/
noncomputable def denote (expr : List Token) : Option WeightedSum :=
  match expr, expr.foldlM formalStep ⟨[], 0⟩ with
  | _ :: _, some ⟨[], total⟩ => some total
  | _, _ => none

/-- Two expressions of the grammar with one meaning. -/
structure SameMeaning (expr expr' : List Token) : Prop where
  /-- The second is an expression. -/
  wellFormed : WellFormed expr'
  /-- It stands for the same weighted sum. -/
  denote_eq : denote expr' = denote expr

/-! ## Pairs -/

/-- Splitting at a `_` between two quotes. -/
theorem splitpair_append {up bottom : Token} (hup : '_' ∉ up) :
    pricesSplitpair (up ++ '_' :: bottom) = (up, bottom) := by
  have hall : ∀ c ∈ up, (c != '_') = true := by
    intro c hc
    exact bne_iff_ne.mpr (ne_of_mem_of_not_mem hc hup)
  simp [pricesSplitpair, List.takeWhile_append_of_pos hall, List.dropWhile_append_of_pos hall]

/-- A word without `_` is all upper quote. -/
theorem splitpair_of_notMem {t : Token} (ht : '_' ∉ t) : pricesSplitpair t = (t, []) := by
  have hall : ∀ c ∈ t, (c != '_') = true := by
    intro c hc
    exact bne_iff_ne.mpr (ne_of_mem_of_not_mem hc ht)
  rw [pricesSplitpair, List.takeWhile_eq_self_iff.mpr hall, List.dropWhile_eq_nil_iff.mpr hall,
    List.drop_nil]

theorem IsQuote.notMem {q : Token} (h : IsQuote q) : '_' ∉ q := by
  intro hmem
  simpa using List.all_eq_true.mp h.chars _ hmem

theorem IsQuote.ne_nil {q : Token} (h : IsQuote q) : q ≠ [] := by
  rintro rfl
  cases h.letter

theorem IsPair.of_quotes {up bottom : Token} (hup : IsQuote up) (hbottom : IsQuote bottom) :
    IsPair (up ++ '_' :: bottom) := by
  have hsplit : pricesSplitpair (up ++ '_' :: bottom) = (up, bottom) := splitpair_append hup.notMem
  exact ⟨by rwa [hsplit], by rwa [hsplit]⟩

/-- A word without `_` is no pair. -/
theorem IsPair.mem {t : Token} (h : IsPair t) : '_' ∈ t := by
  by_contra hmem
  have hbottom := h.bottom
  rw [splitpair_of_notMem hmem] at hbottom
  exact hbottom.ne_nil rfl

theorem IsPair.eq_append {t : Token} (h : IsPair t) :
    t = (pricesSplitpair t).1 ++ '_' :: (pricesSplitpair t).2 := by
  obtain ⟨up, bottom, rfl, hup⟩ := List.eq_append_cons_of_mem h.mem
  rw [splitpair_append hup]

theorem IsPair.splitpair_invertpair {t : Token} (h : IsPair t) :
    pricesSplitpair (pricesInvertpair t) = ((pricesSplitpair t).2, (pricesSplitpair t).1) :=
  splitpair_append h.bottom.notMem

theorem IsPair.invertpair {t : Token} (h : IsPair t) : IsPair (pricesInvertpair t) :=
  .of_quotes h.bottom h.upper

theorem IsPair.mergePair {v w : Token} (hv : IsPair v) (hw : IsPair w) :
    IsPair (mergePair v w) := by
  unfold Prices.mergePair
  split
  · exact .of_quotes hw.upper hv.bottom
  · exact .of_quotes hv.upper hw.bottom

/-! ## Quotients -/

/-- To invert a pair is to invert its quotient. -/
theorem IsPair.quotient_invertpair {t : Token} (h : IsPair t) :
    quotient (pricesInvertpair t) = -quotient t := by
  simp [quotient, h.splitpair_invertpair]

/-- Two operands that cancel are merged to their product. -/
theorem quotient_mergePair {v w : Token} (hv : IsPair v) (hw : IsPair w) (hcancel : Cancels v w) :
    quotient (mergePair v w) = quotient v + quotient w := by
  unfold mergePair
  split
  case isTrue heq =>
    simp only [quotient, splitpair_append hw.upper.notMem, heq]
    abel
  case isFalse hne =>
    have heq := hcancel.resolve_left hne
    simp only [quotient, splitpair_append hv.upper.notMem, heq]
    abel

/-- Only a pair of a quote with itself is one. -/
theorem quotient_eq_zero_iff {t : Token} : quotient t = 0 ↔ SelfPair t := by
  rw [quotient, sub_eq_zero, Finsupp.single_left_inj one_ne_zero]
  rfl

/-- Two operands whose product is one cancel, unless each is one. -/
theorem cancels_of_add_eq_zero {v w : Token} (hself : ¬ SelfPair v)
    (hsum : quotient v + quotient w = 0) : Cancels v w := by
  have hne : (pricesSplitpair v).2 ≠ (pricesSplitpair v).1 := fun h => hself h.symm
  have happly := DFunLike.congr_fun hsum (pricesSplitpair v).1
  simp only [quotient, Finsupp.add_apply, Finsupp.sub_apply, Finsupp.single_eq_same,
    Finsupp.single_eq_of_ne hne.symm, Finsupp.coe_zero, Pi.zero_apply] at happly
  by_contra hcancel
  have hbottom : (pricesSplitpair v).1 ≠ (pricesSplitpair w).2 := fun h => hcancel (.inl h)
  rw [Finsupp.single_eq_of_ne hbottom] at happly
  by_cases hup : (pricesSplitpair v).1 = (pricesSplitpair w).1
  · rw [hup, Finsupp.single_eq_same] at happly
    omega
  · rw [Finsupp.single_eq_of_ne hup] at happly
    omega

/-! ## Operators -/

@[simp] theorem priceOpOf_word (op : PriceOp) : priceOpOf op.word = some op := by
  cases op <;> rfl

/-- The operators are known by their words. -/
theorem priceOpOf_eq_some {t : Token} {op : PriceOp} : priceOpOf t = some op ↔ t = op.word := by
  constructor
  · intro h
    unfold priceOpOf at h
    -- the words are tried one after the other
    iterate 7
      obtain ⟨hword, hop⟩ | ⟨-, h⟩ := ite_eq_iff.mp h
      · cases hop
        exact hword
    cases h
  · rintro rfl
    exact priceOpOf_word op

/-- `prices_isopcode` knows the operators of `prices_syntheticvec`. -/
theorem isopcode_eq (t : Token) : pricesIsopcode t = (priceOpOf t).map PriceOp.need := by
  cases h : priceOpOf t with
  | some op =>
    obtain rfl := priceOpOf_eq_some.mp h
    cases op <;> rfl
  | none =>
    have hne : ∀ op : PriceOp, t ≠ op.word := by
      intro op heq
      rw [priceOpOf_eq_some.mpr heq] at h
      cases h
    have hmult := hne .mult
    have hdiv := hne .div
    have hinv := hne .inv
    have hmmd := hne .mmd
    have hmdd := hne .mdd
    have hmmm := hne .mmm
    have hddd := hne .ddd
    simp only [PriceOp.word] at hmult hdiv hinv hmmd hmdd hmmm hddd
    simp [pricesIsopcode, hmult, hdiv, hinv, hmmd, hmdd, hmmm, hddd]

theorem PriceOp.notMem_word (op : PriceOp) : '_' ∉ op.word := by
  cases op <;> decide

theorem IsPair.priceOpOf {t : Token} (h : IsPair t) : priceOpOf t = none := by
  cases hop : Prices.priceOpOf t with
  | none => rfl
  | some op =>
    obtain rfl := priceOpOf_eq_some.mp hop
    exact absurd h.mem op.notMem_word

theorem IsWeight.notMem {t : Token} (h : IsWeight t) : '_' ∉ t := by
  intro hmem
  simpa using List.all_eq_true.mp h.chars _ hmem

theorem IsWeight.priceOpOf {t : Token} (h : IsWeight t) : priceOpOf t = none := by
  cases hop : Prices.priceOpOf t with
  | none => rfl
  | some op =>
    obtain rfl := priceOpOf_eq_some.mp hop
    have hdigits := h.digits
    cases op <;> cases hdigits

/-! ## Words of the formal evaluation -/

theorem IsPair.formalStep {t : Token} (h : IsPair t) (m : FormalMachine) :
    formalStep m t = if m.stack.length < 3 then some (m.push (quotient t)) else none := by
  simp [Prices.formalStep, h.priceOpOf, h]

theorem formalStep_word (op : PriceOp) (m : FormalMachine) :
    formalStep m op.word = if op.need ≤ m.stack.length then
      some { m with
        stack := op.product (m.stack.take op.need).reverse :: m.stack.drop op.need }
    else none := by
  simp [formalStep]

/-- The formal evaluation counts the operands as the grammar does. -/
theorem formalStep_depth (m : FormalMachine) (t : Token) :
    (formalStep m t).map (fun m => m.stack.length) = wordDepth m.stack.length t := by
  unfold formalStep wordDepth
  split
  case h_1 op hop =>
    split
    case isTrue hneed =>
      simp
    case isFalse hneed => rfl
  case h_2 hop =>
    split_ifs with hpair hlt hweight hne
    · rfl
    · rfl
    · cases hstack : m.stack with
      | nil => simp [hstack] at hne
      | cons g rest => simp
    · cases hstack : m.stack with
      | nil => rfl
      | cons g rest => simp [hstack] at hne
    · rfl

/-- The formal evaluation of a list counts the operands as the grammar does. -/
theorem foldlM_formalStep_depth (expr : List Token) (m : FormalMachine) :
    (expr.foldlM formalStep m).map (fun m => m.stack.length) =
      expr.foldlM wordDepth m.stack.length := by
  induction expr generalizing m with
  | nil => rfl
  | cons t rest ih =>
    rw [List.foldlM_cons, List.foldlM_cons, ← formalStep_depth]
    cases formalStep m t with
    | none => rfl
    | some m' => exact ih m'

/-- The variables before the first word. -/
def FormalMachine.start : FormalMachine := ⟨[], 0⟩

theorem denote_eq_some {expr : List Token} {total : WeightedSum} :
    denote expr = some total ↔
      expr ≠ [] ∧ expr.foldlM formalStep FormalMachine.start = some ⟨[], total⟩ := by
  unfold denote FormalMachine.start
  split
  case h_1 t rest total' heq =>
    rw [heq]
    simp
  case h_2 hnot =>
    constructor
    · intro h
      cases h
    · rintro ⟨hne, heq⟩
      obtain ⟨t, rest, rfl⟩ := List.exists_cons_of_ne_nil hne
      exact (hnot t rest total rfl heq).elim

/-- The expressions of the grammar are the ones that stand for something. -/
theorem wellFormed_iff_denote {expr : List Token} :
    WellFormed expr ↔ ∃ total, denote expr = some total := by
  have hdepth := foldlM_formalStep_depth expr FormalMachine.start
  constructor
  · intro h
    rw [show expr.foldlM wordDepth FormalMachine.start.stack.length = some 0 from h.depth] at hdepth
    obtain ⟨⟨stack, total⟩, hrun, hlength⟩ := Option.map_eq_some_iff.mp hdepth
    obtain rfl := List.length_eq_zero_iff.mp hlength
    exact ⟨total, denote_eq_some.mpr ⟨h.ne_nil, hrun⟩⟩
  · rintro ⟨total, h⟩
    obtain ⟨hne, hrun⟩ := denote_eq_some.mp h
    rw [hrun] at hdepth
    exact ⟨hne, hdepth.symm⟩

/-! ## One meaning -/

theorem SameMeaning.refl {expr : List Token} (h : WellFormed expr) : SameMeaning expr expr :=
  ⟨h, rfl⟩

theorem SameMeaning.trans {expr expr' expr'' : List Token} (h : SameMeaning expr expr')
    (h' : SameMeaning expr' expr'') : SameMeaning expr expr'' :=
  ⟨h'.wellFormed, h'.denote_eq.trans h.denote_eq⟩

/-- Replacing some words of an expression by others that do what these did keeps its
meaning. -/
theorem SameMeaning.of_replaces {pre old new suf : List Token}
    (h : WellFormed (pre ++ old ++ suf)) (hnew : new ≠ [])
    (hreplaces : Replaces formalStep old new) :
    SameMeaning (pre ++ old ++ suf) (pre ++ new ++ suf) := by
  obtain ⟨total, hdenote⟩ := wellFormed_iff_denote.mp h
  obtain ⟨-, hrun⟩ := denote_eq_some.mp hdenote
  have hne : pre ++ new ++ suf ≠ [] := by simp [hnew]
  have hdenote' := denote_eq_some.mpr ⟨hne, hreplaces.context pre suf _ _ hrun⟩
  exact ⟨wellFormed_iff_denote.mpr ⟨total, hdenote'⟩, hdenote'.trans hdenote.symm⟩

/-! ## What is not an expression -/

/-- The words of the grammar. -/
def IsWord (t : Token) : Prop := (∃ op : PriceOp, t = op.word) ∨ IsPair t ∨ IsWeight t

/-- What a word adds to the number of operands. -/
def wordAmount (t : Token) : ℤ :=
  match priceOpOf t with
  | some op => 1 - op.need
  | none => if IsPair t then 1 else -1

/-- A word that can be used is one of the grammar and changes the number of operands by its
own amount. -/
theorem wordDepth_eq_some {depth depth' : Nat} {t : Token} (h : wordDepth depth t = some depth') :
    IsWord t ∧ (depth' : ℤ) = depth + wordAmount t := by
  unfold wordDepth at h
  cases hop : priceOpOf t with
  | some op =>
    simp only [hop] at h
    split at h
    case isTrue hneed =>
      cases h
      refine ⟨.inl ⟨op, priceOpOf_eq_some.mp hop⟩, ?_⟩
      simp only [wordAmount, hop, Nat.cast_add, Nat.cast_sub hneed, Nat.cast_one]
      omega
    case isFalse hneed => cases h
  | none =>
    simp only [hop] at h
    split_ifs at h with hpair hlt hweight hle
    · cases h
      exact ⟨.inr (.inl hpair), by simp [wordAmount, hop, hpair]⟩
    · cases h
      refine ⟨.inr (.inr hweight), ?_⟩
      simp only [wordAmount, hop, hpair, if_false, Nat.cast_sub hle, Nat.cast_one]
      omega

theorem WellFormed.isWord {expr : List Token} (h : WellFormed expr) : ∀ t ∈ expr, IsWord t := by
  have hstep : ∀ depth t depth', wordDepth depth t = some depth' → IsWord t :=
    fun _ _ _ hword => (wordDepth_eq_some hword).1
  exact foldlM_forall hstep h.depth

/-- Words change the number of operands by the sum of their amounts. -/
theorem wordDepth_run {depth depth' : Nat} {words : List Token}
    (h : words.foldlM wordDepth depth = some depth') :
    (depth' : ℤ) = depth + (words.map wordAmount).sum := by
  have hstep : ∀ depth t depth', wordDepth depth t = some depth' →
      (Nat.cast depth' : ℤ) = Nat.cast depth + wordAmount t :=
    fun _ _ _ hword => (wordDepth_eq_some hword).2
  exact foldlM_measure hstep h

theorem WellFormed.sum_wordAmount {expr : List Token} (h : WellFormed expr) :
    (expr.map wordAmount).sum = 0 := by
  simpa using (wordDepth_run h.depth).symm

/-- Words that add different numbers of operands cannot replace each other. -/
theorem WellFormed.sum_eq_of_replaced {pre old new suf : List Token}
    (h : WellFormed (pre ++ old ++ suf)) (h' : WellFormed (pre ++ new ++ suf)) :
    (new.map wordAmount).sum = (old.map wordAmount).sum := by
  have hsum := h.sum_wordAmount
  have hsum' := h'.sum_wordAmount
  simp only [List.map_append, List.sum_append] at hsum hsum'
  omega

end IndexChain.Prices
