import IndexChain.Models.Prices.ReduceRuns

/-!
# Rounds that break an expression

A round that is not in order leaves a word that is none, or the wrong number of operands,
unless it cancels around a word that lies between the operands of an operator that takes
three. So an expression stays one all along the run exactly when every round is in order
(`getreducedexpr_iff`).
-/

namespace IndexChain.Prices

open IndexChain.Core

/-! ## What cannot be a word -/

theorem IsWord.isPair_or_isPlain {t : Token} (h : IsWord t) : IsPair t ∨ IsPlain t := by
  rcases h with h | h | h
  · exact .inr (.inl h)
  · exact .inl h
  · exact .inr (.inr h)

/-- A word with a `_` is a pair. -/
theorem IsWord.isPair_of_mem {t : Token} (h : IsWord t) (hmem : '_' ∈ t) : IsPair t :=
  h.isPair_or_isPlain.resolve_right fun hplain => hplain.notMem hmem

theorem IsPlain.splitpair_invertpair {t : Token} (h : IsPlain t) :
    pricesSplitpair (pricesInvertpair t) = ([], t) := by
  rw [pricesInvertpair, splitpair_of_notMem h.notMem, splitpair_append List.not_mem_nil]

/-- An operator or a weight that is inverted like a pair is no word any more. -/
theorem IsPlain.not_isWord_invertpair {t : Token} (h : IsPlain t) :
    ¬ IsWord (pricesInvertpair t) := by
  intro hword
  have hup := (hword.isPair_of_mem (mem_invertpair t)).upper
  rw [h.splitpair_invertpair] at hup
  exact hup.ne_nil rfl

/-- Two words that are no pairs do not become one. -/
theorem IsPlain.not_isWord_mergePair {a b : Token} (ha : IsPlain a) (hb : IsPlain b) :
    ¬ IsWord (mergePair a (pricesInvertpair b)) := by
  have hsplit := splitpair_of_notMem ha.notMem
  intro hword
  unfold mergePair at hword
  rw [hsplit, hb.splitpair_invertpair] at hword
  split at hword
  · have hup := (hword.isPair_of_mem (by simp)).upper
    rw [splitpair_append List.not_mem_nil] at hup
    exact hup.ne_nil rfl
  · have hup := (hword.isPair_of_mem (by simp)).upper
    rw [splitpair_append ha.notMem] at hup
    exact ha.ne_quote hup rfl

theorem IsPlain.not_cancels_isPlain {a b : Token} (ha : IsPlain a) (hb : IsPlain b) :
    ¬ Cancels a b := by
  rw [Cancels, splitpair_of_notMem ha.notMem, splitpair_of_notMem hb.notMem]
  rintro (heq | heq)
  · exact ha.ne_nil heq
  · exact hb.ne_nil heq.symm

theorem IsPair.not_cancels_invertpair {a b : Token} (ha : IsPair a) (hb : IsPlain b) :
    ¬ Cancels a (pricesInvertpair b) := by
  rw [Cancels, hb.splitpair_invertpair]
  rintro (heq | heq)
  · exact hb.ne_quote ha.upper heq.symm
  · exact ha.bottom.ne_nil heq

theorem IsPlain.not_cancels_of_invertpair {a b : Token} (ha : IsPlain a) (hb : IsPair b) :
    ¬ Cancels (pricesInvertpair a) b := by
  rw [Cancels, ha.splitpair_invertpair]
  rintro (heq | heq)
  · exact hb.bottom.ne_nil heq.symm
  · exact ha.ne_quote hb.upper heq

theorem IsPlain.not_selfPair_invertpair {a : Token} (ha : IsPlain a) :
    ¬ SelfPair (pricesInvertpair a) := by
  rw [SelfPair, ha.splitpair_invertpair]
  exact fun h => ha.ne_nil h.symm

/-! ## Numbers of operands -/

theorem IsPair.wordAmount {t : Token} (h : IsPair t) : wordAmount t = 1 := by
  simp [Prices.wordAmount, h.priceOpOf, h]

theorem wordAmount_word (op : PriceOp) : wordAmount op.word = 1 - op.need := by
  simp [wordAmount]

theorem IsPlain.wordAmount_le {t : Token} (h : IsPlain t) : wordAmount t ≤ 0 := by
  obtain ⟨op, rfl⟩ | hweight := h
  · have hone := op.one_le_need
    rw [wordAmount_word]
    omega
  · have hpair : ¬ IsPair t := fun hpair => hweight.notMem hpair.mem
    simp [wordAmount, hweight.priceOpOf, hpair]

theorem sum_wordAmount_pairs {window : List Token} (hpairs : ∀ v ∈ window, IsPair v) :
    (window.map wordAmount).sum = window.length := by
  have hmap : window.map wordAmount = window.map fun _ => 1 :=
    List.map_congr_left fun v hv => (hpairs v hv).wordAmount
  simp [hmap]

/-- An operation on pairs leaves one operand. -/
theorem sum_wordAmount_operation {op : PriceOp} {window : List Token}
    (hpairs : ∀ v ∈ window, IsPair v) (hwindow : window.length = op.need) :
    ((window ++ [op.word]).map wordAmount).sum = 1 := by
  rw [List.map_append, List.sum_append, sum_wordAmount_pairs hpairs, hwindow]
  simp [wordAmount_word]

/-! ## Rounds out of order -/

/-- What cannot be written in the place of some words of an expression. -/
def Breaks (old new : List Token) : Prop :=
  (∃ t ∈ new, ¬ IsWord t) ∨ (new.map wordAmount).sum ≠ (old.map wordAmount).sum

theorem Breaks.not_wellFormed {pre old new suf : List Token} (h : Breaks old new)
    (hwf : WellFormed (pre ++ old ++ suf)) : ¬ WellFormed (pre ++ new ++ suf) := by
  intro hwf'
  rcases h with ⟨t, ht, hword⟩ | hsum
  · exact hword (hwf'.isWord t (by simp [ht]))
  · exact hsum (hwf.sum_eq_of_replaced hwf')

theorem IsPair.operand {w : Token} (hw : IsPair w) (divide : Bool) :
    IsPair (if divide then pricesInvertpair w else w) := by
  cases divide
  · exact hw
  · exact hw.invertpair

theorem isPair_operands (op : PriceOp) {window : List Token} (hpairs : ∀ v ∈ window, IsPair v) :
    ∀ v ∈ op.operands window, IsPair v := by
  intro v hv
  obtain ⟨k, hk, rfl⟩ := List.mem_iff_getElem.mp hv
  simp only [PriceOp.operands, List.getElem_zipWith]
  exact (hpairs _ (List.getElem_mem _)).operand _

/-- Pairs that are one together are cancelled to nothing. -/
theorem breaks_pairs {op : PriceOp} {window rs : List Token} {need : Nat} (hop : op ≠ .inv)
    (hpairs : ∀ v ∈ window, IsPair v) (hwindow : window.length = op.need)
    (hrigid : ¬ Rigid (op.operands window)) (hcancel : ¬ Cancellable (op.operands window))
    (hhead : ∀ v ∈ (op.operands window).head?, ¬ SelfPair v)
    (hreduce : pricesReduceoperands (op.operands window ++ op.tail) = .ok (rs, need)) :
    Breaks (window ++ [op.word]) rs := by
  have hoperands := isPair_operands op hpairs
  have hproduct : ((op.operands window).map quotient).sum = 0 := by
    by_contra hne
    exact hcancel (.pairs hoperands hhead hne)
  obtain rfl := (leaves_operands hop hwindow hrigid hoperands hhead rs need hreduce).2 hproduct
  right
  rw [sum_wordAmount_operation hpairs hwindow]
  simp

/-- Three pairs of which the first is a quote over itself: the operator stays with one
operand. -/
theorem breaks_selfPair {op : PriceOp} {window rs : List Token} {x y z : Token} {need : Nat}
    (hpairs : ∀ v ∈ window, IsPair v) (hwindow : window.length = op.need)
    (hy : IsPair y) (hz : IsPair z) (hself : SelfPair x) (hrigid : ¬ Rigid [x, y, z])
    (hreduce : reduceLoop 3 [x, y, z, ['*', '*', '*']] 3 = .ok (rs, need)) :
    Breaks (window ++ [op.word]) rs := by
  have hmates : ¬ SelfPair y ∧ Cancels y z := by
    by_contra hnot
    exact hrigid (rigid_three.mpr ⟨.inl hself, .inl hself, by tauto⟩)
  rw [reduceLoop_three_mmm, if_pos hself, reduceLoop_two_mmm, if_neg hmates.1, if_pos hmates.2,
    reduceLoop_one] at hreduce
  right
  rw [sum_wordAmount_operation hpairs hwindow]
  have hmult : wordAmount ['*'] = -1 := wordAmount_word .mult
  split_ifs at hreduce
  · cases hreduce
    simp [popMult]
  · cases hreduce
    simp [(hy.mergePair hz).wordAmount, hmult]

/-- The operands of `*` and `/`. -/
theorem PriceOp.operands_two {op : PriceOp} (hneed : op.need = 2) : ∃ d : Bool, ∀ a b : Token,
    op.operands [a, b] = [a, if d then pricesInvertpair b else b] := by
  cases op <;> cases hneed
  · exact ⟨false, fun _ _ => rfl⟩
  · exact ⟨true, fun _ _ => rfl⟩

/-- Two operands that cancel are two pairs, or two words that are none. -/
theorem breaks_two {op : PriceOp} {a b : Token} {rs : List Token} {need : Nat}
    (hneed : op.need = 2) (ha : IsWord a) (hb : IsWord b)
    (hrigid : ¬ Rigid (op.operands [a, b])) (hcancel : ¬ Cancellable (op.operands [a, b]))
    (hreduce : pricesReduceoperands (op.operands [a, b] ++ op.tail) = .ok (rs, need)) :
    Breaks ([a, b] ++ [op.word]) rs := by
  obtain ⟨d, hoperands⟩ := PriceOp.operands_two hneed
  have hmates := hrigid
  rw [hoperands, rigid_two, not_or, not_not] at hmates
  have hop : op ≠ .inv := by
    rintro rfl
    cases hneed
  rcases ha.isPair_or_isPlain with ha | ha
  · rcases hb.isPair_or_isPlain with hb | hb
    · refine breaks_pairs hop (by simp [ha, hb]) hneed.symm hrigid hcancel ?_ hreduce
      rw [hoperands]
      simpa using hmates.1
    · cases d
      · exact absurd hmates.2 (ha.not_cancels hb)
      · exact absurd hmates.2 (ha.not_cancels_invertpair hb)
  · rcases hb.isPair_or_isPlain with hb | hb
    · exact absurd hmates.2 (ha.not_cancels (hb.operand d))
    · cases d
      · exact absurd hmates.2 (ha.not_cancels_isPlain hb)
      · have htail : op.tail = [['*']] := by
          rcases op.need_cases with rfl | ⟨-, htail⟩ | ⟨hthree, -⟩
          · exact absurd rfl hop
          · exact htail
          · omega
        have hloop := reduceLoop_two_mult a (pricesInvertpair b) 2
        rw [if_pos rfl] at hmates
        rw [if_neg hmates.1, if_pos hmates.2, reduceLoop_one] at hloop
        rw [hoperands, htail] at hreduce
        obtain ⟨rfl, -⟩ : rs = _ ∧ _ := by simpa using hreduce.symm.trans hloop
        split_ifs
        · right
          have hale := ha.wordAmount_le
          have hble := hb.wordAmount_le
          simp only [popMult, List.cons_append, List.nil_append, List.map_cons, List.map_nil,
            List.sum_cons, List.sum_nil, wordAmount_word, hneed]
          simp
          omega
        · exact .inl ⟨_, by simp, ha.not_isWord_mergePair hb⟩

/-- Two pairs at the end of three operands. -/
theorem breaks_three {op : PriceOp} {a b c : Token} {rs : List Token} {need : Nat}
    (hneed : op.need = 3) (ha : IsWord a) (hb : IsPair b) (hc : IsPair c)
    (hrigid : ¬ Rigid (op.operands [a, b, c])) (hcancel : ¬ Cancellable (op.operands [a, b, c]))
    (hreduce : pricesReduceoperands (op.operands [a, b, c] ++ op.tail) = .ok (rs, need)) :
    Breaks ([a, b, c] ++ [op.word]) rs := by
  obtain ⟨d₀, d₁, d₂, -, hoperands, -⟩ := PriceOp.operands_three hneed
  have hop : op ≠ .inv := by
    rintro rfl
    cases hneed
  have htail : op.tail = [['*', '*', '*']] := by
    rcases op.need_cases with rfl | ⟨htwo, -⟩ | ⟨-, htail⟩
    · exact absurd rfl hop
    · omega
    · exact htail
  have hloop := hreduce
  have hrigid' := hrigid
  rw [hoperands, htail] at hloop
  rw [hoperands] at hrigid'
  rcases ha.isPair_or_isPlain with ha | ha
  · by_cases hself : SelfPair (if d₀ then pricesInvertpair a else a)
    · exact breaks_selfPair (by simp [ha, hb, hc]) hneed.symm (hb.operand d₁) (hc.operand d₂)
        hself hrigid' hloop
    · refine breaks_pairs hop (by simp [ha, hb, hc]) hneed.symm hrigid hcancel ?_ hreduce
      rw [hoperands]
      simpa using hself
  · cases d₀
    · rw [hoperands] at hcancel
      exact absurd (.first ha (hb.operand d₁) (hc.operand d₂)) hcancel
    · rw [if_pos rfl] at hloop hrigid'
      obtain ⟨-, hfirst⟩ := reduceLoop_first ha.not_selfPair_invertpair
        (fun _ => ha.not_cancels_of_invertpair) (hb.operand d₁) (hc.operand d₂) hrigid'
      obtain ⟨rfl, -⟩ : rs = _ ∧ _ := by simpa using hloop.symm.trans hfirst
      exact .inl ⟨pricesInvertpair a, by split_ifs <;> simp, ha.not_isWord_invertpair⟩

/-! ## Runs -/

/-- An operator that takes three operands has a word that is no pair as the second or third
before it. -/
def Buried (vexpr : List Token) (i : Nat) : Prop :=
  ∃ op : PriceOp, vexpr[i]? = some op.word ∧ op.need = 3 ∧
    ¬ ∀ v ∈ (operandWindow vexpr i op).tail, IsPair v

/-- A round out of order breaks the expression. -/
theorem WellFormed.broken_of_not_roundOk {vexpr vexpr' : List Token} {i : Nat}
    (hwf : WellFormed vexpr) (hneed : ∀ op : PriceOp, vexpr[i]? = some op.word → op.need ≤ i)
    (hok : ¬ RoundOk vexpr i) (hburied : ¬ Buried vexpr i)
    (hround : reduceAt vexpr i = .ok vexpr') : ¬ WellFormed vexpr' := by
  obtain ⟨op, hok⟩ := not_forall.mp hok
  obtain ⟨hop, hoperands⟩ := Classical.not_imp.mp hok
  have htail : op.need = 3 → ∀ v ∈ (operandWindow vexpr i op).tail, IsPair v := by
    intro hthree
    by_contra hnot
    exact hburied ⟨op, hop, hthree, hnot⟩
  obtain ⟨pre, suf, hwindow, hi, hsplit⟩ := exists_window hop (hneed op hop)
  generalize operandWindow vexpr i op = window at hoperands htail hwindow hsplit
  subst hsplit hi
  have hwords : ∀ v ∈ window, IsWord v := fun v hv => hwf.isWord v (by simp [hv])
  have hassoc : pre ++ window ++ op.word :: suf = pre ++ (window ++ [op.word]) ++ suf := by simp
  rw [hassoc] at hwf
  split at hoperands
  case isTrue hinv =>
    subst hinv
    obtain ⟨a, rfl⟩ := List.length_eq_one_iff.mp hwindow
    rw [reduceAt_inv] at hround
    cases hround
    have hplain := (hwords a (by simp)).isPair_or_isPlain.resolve_left (by simpa using hoperands)
    exact Breaks.not_wellFormed (.inl ⟨_, by simp, hplain.not_isWord_invertpair⟩) hwf
  case isFalse hinv =>
    obtain ⟨hrigid, hcancel⟩ := not_or.mp hoperands
    obtain ⟨rs, need, hreduce, hlt⟩ := reduceoperands_of_not_rigid hinv hwindow hrigid
    rw [reduceAt_eq op pre suf hwindow hreduce, if_pos hlt] at hround
    cases hround
    refine Breaks.not_wellFormed ?_ hwf
    rcases op.need_cases with rfl | ⟨htwo, -⟩ | ⟨hthree, -⟩
    · exact absurd rfl hinv
    · obtain ⟨a, b, rfl⟩ := List.length_eq_two.mp (hwindow.trans htwo)
      exact breaks_two htwo (hwords a (by simp)) (hwords b (by simp)) hrigid hcancel hreduce
    · obtain ⟨a, b, c, rfl⟩ := List.length_eq_three.mp (hwindow.trans hthree)
      have hpairs := htail hthree
      exact breaks_three hthree (hwords a (by simp)) (hpairs b (by simp)) (hpairs c (by simp))
        hrigid hcancel hreduce

/-- `prices_getreducedexpr` on an expression of the grammar. It ends. If every round is in
order, then it writes an expression of the same meaning; and the words are an expression of
the same meaning after every round exactly when every round is in order, as long as no
operator comes between the operands of another one that takes three. -/
theorem getreducedexpr_iff {expr : List Char} (hwf : WellFormed (splitStr expr)) :
    (∃ reduced, pricesGetreducedexpr expr = .ok reduced ∧
      ((∀ v i, Reaches (splitStr expr) v i → RoundOk v i) →
        SameMeaning (splitStr expr) (splitStr reduced))) ∧
    ((∀ v i, Reaches (splitStr expr) v i → ¬ Buried v i) →
      ((∀ v i, Reaches (splitStr expr) v i → SameMeaning (splitStr expr) v) ↔
        ∀ v i, Reaches (splitStr expr) v i → RoundOk v i)) := by
  refine ⟨hwf.getreducedexpr, fun hburied => ⟨fun hsame v i hreach => ?_, fun hrounds v i hreach =>
    hreach.sameMeaning hwf hrounds⟩⟩
  by_contra hok
  have hneed := hreach.need_le hwf
  obtain ⟨v', hround⟩ := reduceAt_ok hneed
  have hlt : i < v.length := by
    by_contra hge
    refine hok fun op hop => ?_
    rw [List.getElem?_eq_none (Nat.le_of_not_lt hge)] at hop
    cases hop
  exact (hsame v i hreach).wellFormed.broken_of_not_roundOk hneed hok (hburied v i hreach) hround
    (hsame v' (i + 1) (hreach.next hlt hround)).wellFormed

/-- The price of a coin in dollars. -/
def btcUsd : Token := ['B', 'T', 'C', '_', 'U', 'S', 'D']

/-- The price of a coin in euros. -/
def btcEur : Token := ['B', 'T', 'C', '_', 'E', 'U', 'R']

/-- The price of a euro in dollars. -/
def eurUsd : Token := ['E', 'U', 'R', '_', 'U', 'S', 'D']

/-- Two prices divided. -/
def dividedPrices : List Token := [btcUsd, btcEur, ['/'], ['1']]

theorem splitStr_dividedPrices : splitStr (joinExpr dividedPrices) = dividedPrices := by
  decide

/-- All that is reached from `BTC_USD, BTC_EUR, /, 1`. -/
theorem reaches_dividedPrices {v : List Token} {i : Nat} (h : Reaches dividedPrices v i) :
    (v = dividedPrices ∧ i ≤ 2) ∨ (v = [eurUsd, ['1']] ∧ 3 ≤ i) := by
  refine h.invariant
    (P := fun v i => (v = dividedPrices ∧ i ≤ 2) ∨ (v = [eurUsd, ['1']] ∧ 3 ≤ i))
    (.inl ⟨rfl, Nat.zero_le 2⟩) ?_
  rintro v v' j - (⟨rfl, hle⟩ | ⟨rfl, hge⟩) hlt hround
  · have hbefore : ∀ j < 2, reduceAt dividedPrices j = .ok dividedPrices := by
      decide
    have hdivide : reduceAt dividedPrices 2 = .ok [eurUsd, ['1']] := by
      decide
    rcases Nat.lt_or_eq_of_le hle with hlt | rfl
    · rw [hbefore j hlt] at hround
      cases hround
      exact .inl ⟨rfl, hlt⟩
    · rw [hdivide] at hround
      cases hround
      exact .inr ⟨rfl, le_rfl⟩
  · simp only [List.length_cons, List.length_nil] at hlt
    omega

/-- Every round over a quotient meets the condition. -/
theorem roundOk_dividedPrices {v : List Token} {i : Nat} (h : Reaches dividedPrices v i) :
    RoundOk v i := by
  intro op hop
  rcases reaches_dividedPrices h with ⟨rfl, hle⟩ | ⟨rfl, hge⟩
  · obtain rfl : i = 2 := by
      have hneed : op.need ≤ i := WellFormed.need_le (by decide) hop
      have hone := op.one_le_need
      have hfirst : ∀ op : PriceOp, dividedPrices[1]? ≠ some op.word := by
        intro op
        cases op <;> decide
      by_contra hne
      obtain rfl : i = 1 := by omega
      exact hfirst op hop
    obtain rfl : op = .div := by
      cases op <;> first | rfl | exact absurd hop (by decide)
    rw [if_neg (by decide)]
    have hinvert : PriceOp.div.operands (operandWindow dividedPrices 2 .div) =
        [btcUsd, pricesInvertpair btcEur] := rfl
    rw [hinvert]
    refine .inr (.pairs ?_ ?_ ?_)
    · decide
    · intro v hv
      cases hv
      decide
    · rw [List.map_cons, List.map_cons, List.map_nil, List.sum_cons, List.sum_cons, List.sum_nil,
        add_zero, ← quotient_mergePair (by decide) (by decide) (by decide), Ne,
        quotient_eq_zero_iff]
      decide
  · have hnone : ([eurUsd, ['1']] : List Token)[i]? = none := List.getElem?_eq_none (by
      simp only [List.length_cons, List.length_nil]
      omega)
    rw [hnone] at hop
    cases hop

/-- `BTC_USD, BTC_EUR, /, 1` is reduced to an expression of the same meaning. -/
theorem divided_prices_reduced : ∃ reduced,
    pricesGetreducedexpr (joinExpr dividedPrices) = .ok reduced ∧
      SameMeaning (splitStr (joinExpr dividedPrices)) (splitStr reduced) := by
  have hwf : WellFormed (splitStr (joinExpr dividedPrices)) := by
    rw [splitStr_dividedPrices]
    decide
  obtain ⟨⟨reduced, hok, hsame⟩, -⟩ := getreducedexpr_iff hwf
  refine ⟨reduced, hok, hsame fun v i hreach => ?_⟩
  rw [splitStr_dividedPrices] at hreach
  exact roundOk_dividedPrices hreach

/-- The product of two prices, inverted. -/
def invertedProduct : List Token := [btcUsd, btcEur, ['*'], ['!'], ['1']]

theorem splitStr_invertedProduct : splitStr (joinExpr invertedProduct) = invertedProduct := by
  decide

/-- The `*` before a `!` is inverted in the place of the product: `BTC_USD, BTC_EUR, *, !, 1`
is reduced to `BTC_USD, BTC_EUR, _*, 1`, which is no expression. -/
theorem inverted_product_broken :
    ¬ ∀ expr : List Char, WellFormed (splitStr expr) →
      ∃ reduced, pricesGetreducedexpr expr = .ok reduced ∧
        SameMeaning (splitStr expr) (splitStr reduced) := by
  intro hclaim
  have hwf : WellFormed (splitStr (joinExpr invertedProduct)) := by
    rw [splitStr_invertedProduct]
    decide
  obtain ⟨reduced, hok, hsame⟩ := hclaim _ hwf
  have hrun : reduceFrom invertedProduct 0 = .ok [btcUsd, btcEur, ['_', '*'], ['1']] := by
    have hsame : ∀ i < 3, reduceAt invertedProduct i = .ok invertedProduct := by
      decide
    have hinvert : reduceAt invertedProduct 3 = .ok [btcUsd, btcEur, ['_', '*'], ['1']] := rfl
    rw [reduceFrom_of_lt (by decide) (hsame 0 (by decide)),
      reduceFrom_of_lt (by decide) (hsame 1 (by decide)),
      reduceFrom_of_lt (by decide) (hsame 2 (by decide)),
      reduceFrom_of_lt (by decide) hinvert, reduceFrom_of_ge (by decide)]
  have hsplit : splitStr (joinExpr [btcUsd, btcEur, ['_', '*'], ['1']]) =
      [btcUsd, btcEur, ['_', '*'], ['1']] := by
    decide
  rw [pricesGetreducedexpr, splitStr_invertedProduct, hrun] at hok
  cases hok
  have hbroken := hsame.wellFormed
  rw [hsplit] at hbroken
  revert hbroken
  decide

end IndexChain.Prices
