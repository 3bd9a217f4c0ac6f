import IndexChain.Models.Prices.Formal
import IndexChain.Models.Prices.SyntheticAgree

/-!
# The grammar of the parser

On a chain whose prices are named by price pairs, `prices_syntheticvec` accepts the
expressions of the grammar and no others (`PriceNames.syntheticvec_iff`).
-/

namespace IndexChain.Prices

open IndexChain.Core

/-! ## Words and their opcodes -/

/-- The words of a chain's expressions: operators, the names of its prices, and weights. -/
def PriceNames.Knows (names : PriceNames) (t : Token) : Prop :=
  (∃ op : PriceOp, t = op.word) ∨ (IsPair t ∧ t ∈ names.names) ∨ IsWeight t

theorem PriceNames.opcodeOf_word (names : PriceNames) (op : PriceOp) :
    names.opcodeOf op.word = some (op.opcode, op.need) := by
  rw [opcodeOf, priceOpOf_word]

/-- A pair is a string for `c_str`. -/
theorem IsPair.cStr {t : Token} (h : IsPair t) : t.cStr = t := by
  have hquote : ∀ {q : Token}, IsQuote q → ∀ c ∈ q, (c != Char.ofNat 0) = true := by
    intro q hq c hc
    have hchar := List.all_eq_true.mp hq.chars c hc
    simp only [isWordChar, Bool.and_eq_true] at hchar
    exact hchar.1.2
  rw [Token.cStr, List.takeWhile_eq_self_iff, h.eq_append]
  intro c hc
  rcases List.mem_append.mp hc with hc | hc
  · exact hquote h.upper c hc
  · rcases List.mem_cons.mp hc with rfl | hc
    · decide
    · exact hquote h.bottom c hc

/-- A pair has letters, so it is not taken for a weight. -/
theorem IsPair.isWeightStr {t : Token} (h : IsPair t) : isWeightStr t = false := by
  obtain ⟨c, hc, halpha⟩ := List.any_eq_true.mp h.upper.letter
  have hmem : c ∈ t := by
    rw [h.eq_append]
    exact List.mem_append_left _ hc
  have hany : t.any (fun c => c.isAlpha || c == '/') = true :=
    List.any_eq_true.mpr ⟨c, hmem, by simp [halpha]⟩
  simp [Prices.isWeightStr, hany]

theorem PriceNames.opcodeOf_pair (names : PriceNames) {t : Token} (h : IsPair t)
    (hmem : t ∈ names.names) :
    names.opcodeOf t = some (UInt16.ofNat (names.names.idxOf t + 1), 0) := by
  rw [opcodeOf, h.priceOpOf]
  simp [h.isWeightStr, h.cStr, komodoPriceind, hmem]

theorem PriceNames.opcodeOf_weight (names : PriceNames) {t : Token} (h : IsWeight t) :
    names.opcodeOf t =
      some (UInt16.ofNat komodoMaxprices ||| UInt16.ofNat (weightOfWord t), 1) := by
  rw [opcodeOf, h.priceOpOf]
  dsimp only
  rw [if_pos h.digits]
  exact if_pos h.range

/-! ## The parser -/

/-- One word of the parser's loop. -/
theorem PriceNames.parse_cons {names : PriceNames} {t : Token} {opcode : UInt16} {need : Nat}
    (hopcode : names.opcodeOf t = some (opcode, need)) (rest : List Token) (depth : Nat) :
    (∃ vec, names.parse (t :: rest) depth = .ok vec) ↔ need ≤ depth ∧
      ∃ depth', depth' = (if opcode.toNat / komodoMaxprices ≠ 1 then depth - need + 1
        else depth - need) ∧ depth' ≤ 3 ∧ ∃ vec, names.parse rest depth' = .ok vec := by
  rw [parse, hopcode]
  dsimp only
  by_cases hneed : depth < need
  · rw [if_pos hneed]
    constructor
    · rintro ⟨vec, h⟩
      cases h
    · rintro ⟨hle, -⟩
      omega
  · rw [if_neg hneed]
    generalize (if opcode.toNat / komodoMaxprices ≠ 1 then depth - need + 1
      else depth - need) = depth'
    by_cases hfull : 3 < depth'
    · rw [if_pos hfull]
      constructor
      · rintro ⟨vec, h⟩
        cases h
      · rintro ⟨-, d, rfl, hle, -⟩
        omega
    · rw [if_neg hfull]
      cases hrest : names.parse rest depth' with
      | error err =>
        constructor
        · rintro ⟨vec, h⟩
          cases h
        · rintro ⟨-, d, rfl, -, vec, h⟩
          rw [hrest] at h
          cases h
      | ok vec =>
        exact ⟨fun _ => ⟨Nat.le_of_not_lt hneed, depth', rfl, Nat.le_of_not_lt hfull, vec, hrest⟩,
          fun _ => ⟨_, rfl⟩⟩

/-- A word of the parser's loop changes the number of operands as in the grammar. -/
theorem PriceNames.Knows.parse_cons {names : PriceNames} {t : Token} (ht : names.Knows t)
    (rest : List Token) {depth : Nat} (hdepth : depth ≤ 3) :
    (∃ vec, names.parse (t :: rest) depth = .ok vec) ↔
      ∃ depth', wordDepth depth t = some depth' ∧ depth' ≤ 3 ∧
        ∃ vec, names.parse rest depth' = .ok vec := by
  rcases ht with ⟨op, rfl⟩ | ⟨hpair, hmem⟩ | hweight
  · have hne : op.opcode.toNat / komodoMaxprices ≠ 1 := div_ne_one (by simp [priceCode_opcode])
    rw [PriceNames.parse_cons (names.opcodeOf_word op), if_pos hne]
    simp [wordDepth]
  · have hlt : names.names.idxOf t + 1 < komodoMaxprices := by
      have hidx := List.idxOf_lt_length_of_mem hmem
      have hroom := names.length_lt
      omega
    have hne : (UInt16.ofNat (names.names.idxOf t + 1)).toNat / komodoMaxprices ≠ 1 :=
      div_ne_one fun w hw => by
        rw [priceCode_index hlt] at hw
        cases hw
    rw [PriceNames.parse_cons (names.opcodeOf_pair hpair hmem), if_pos hne]
    simp only [wordDepth, hpair.priceOpOf, if_pos hpair, Option.ite_none_right_eq_some,
      Option.some.injEq]
    constructor
    · rintro ⟨-, depth', rfl, hle, hparse⟩
      exact ⟨depth + 1, ⟨by omega, rfl⟩, hle, hparse⟩
    · rintro ⟨depth', ⟨-, rfl⟩, hle, hparse⟩
      exact ⟨Nat.zero_le depth, depth + 1, rfl, hle, hparse⟩
  · have heq := div_eq_one_of_weight (priceCode_weight hweight.range.2)
    have hpair : ¬ IsPair t := fun hpair => hweight.notMem hpair.mem
    rw [PriceNames.parse_cons (names.opcodeOf_weight hweight), if_neg (not_not_intro heq)]
    simp [wordDepth, hpair, hweight, hweight.priceOpOf]

/-- There are never more than three operands. -/
theorem wordDepth_le {depth depth' : Nat} {t : Token} (h : wordDepth depth t = some depth')
    (hdepth : depth ≤ 3) : depth' ≤ 3 := by
  unfold wordDepth at h
  split at h
  case h_1 op hop =>
    have hone : 1 ≤ op.need := by cases op <;> decide
    split_ifs at h
    cases h
    omega
  case h_2 hop =>
    split_ifs at h
    · cases h
      omega
    · cases h
      omega

/-- The parser accepts the words that use up their operands. -/
theorem PriceNames.parse_iff {names : PriceNames} {rest : List Token}
    (hwords : ∀ t ∈ rest, names.Knows t) {depth : Nat} (hdepth : depth ≤ 3) :
    (∃ vec, names.parse rest depth = .ok vec) ↔ rest.foldlM wordDepth depth = some 0 := by
  induction rest generalizing depth with
  | nil =>
    rw [parse]
    by_cases hzero : depth = 0
    · subst hzero
      simp
    · simp [hzero]
  | cons t rest ih =>
    obtain ⟨ht, hwords⟩ := List.forall_mem_cons.mp hwords
    rw [ht.parse_cons rest hdepth, foldlM_cons_eq_some]
    constructor
    · rintro ⟨depth', hword, hle, hparse⟩
      exact ⟨depth', hword, (ih hwords hle).mp hparse⟩
    · rintro ⟨depth', hword, hrun⟩
      have hle := wordDepth_le hword hdepth
      exact ⟨depth', hword, hle, (ih hwords hle).mpr hrun⟩

/-- `prices_syntheticvec` accepts the expressions of the grammar. -/
theorem PriceNames.syntheticvec_iff {names : PriceNames} {expr : List Token}
    (hwords : ∀ t ∈ expr, names.Knows t) :
    (∃ vec, names.pricesSyntheticvec expr = .ok vec) ↔ WellFormed expr := by
  unfold pricesSyntheticvec
  by_cases hnil : expr = []
  · rw [if_pos hnil]
    constructor
    · rintro ⟨vec, h⟩
      cases h
    · exact fun h => absurd hnil h.ne_nil
  · rw [if_neg hnil, parse_iff hwords (Nat.zero_le 3)]
    exact ⟨fun h => ⟨hnil, h⟩, fun h => h.depth⟩

/-- A price over itself with a weight is accepted. -/
theorem PriceNames.syntheticvec_iff_divided :
    (∃ vec, (PriceNames.mk [['A', '_', 'B']] (by decide)).pricesSyntheticvec
        [['A', '_', 'B'], ['A', '_', 'B'], ['/'], ['1']] = .ok vec) ↔
      WellFormed [['A', '_', 'B'], ['A', '_', 'B'], ['/'], ['1']] := by
  refine PriceNames.syntheticvec_iff fun t ht => ?_
  simp only [List.mem_cons, List.not_mem_nil, or_false] at ht
  rcases ht with rfl | rfl | rfl | rfl
  · exact .inr (.inl (by decide))
  · exact .inr (.inl (by decide))
  · exact .inl ⟨.div, rfl⟩
  · exact .inr (.inr (by decide))

end IndexChain.Prices
