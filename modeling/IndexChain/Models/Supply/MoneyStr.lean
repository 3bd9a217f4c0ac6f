import IndexChain.Core.Numerals
import IndexChain.Core.Words
import IndexChain.Models.Prices.Synthetic
import Mathlib.Data.Rat.Lemmas
import Mathlib.Tactic.FieldSimp

/-!
# Amounts as text

`utilmoneystr.cpp`. `FormatMoney` writes an amount with eight decimals and drops zeros from the
end while two stay. `ParseMoney` takes ten digits before the point and eight behind it, so it
does not read back amounts from ten billion coins on (`parseMoney_formatMoney`), which a chain
with a large supply has. What it reads it reads exactly (`parseMoney_exact`).
-/

namespace IndexChain.Supply

open IndexChain.Core Prices

/-- `COIN`. -/
def coin : Nat := 100000000

/-- `CENT`. -/
def cent : Nat := 1000000

/-! ## Writing -/

/-- The loop that drops zeros from the end, on the text read from the end. The character two
places before the one that is dropped has to be a digit. -/
def rightTrim : List Char → List Char
  | c :: b :: a :: s => if c = '0' ∧ a.isDigit then rightTrim (b :: a :: s) else c :: b :: a :: s
  | s => s

/-- `FormatMoney`. -/
def formatMoney (n : Int) : List Char :=
  let nAbs := n.natAbs
  let str := Nat.toDigits 10 (nAbs / coin) ++ '.' :: padded 8 (nAbs % coin)
  let str := (rightTrim str.reverse).reverse
  if n < 0 then '-' :: str else str

/-! ## Reading -/

/-- The digits behind the point, while `nMult` is not zero: their units and what follows. -/
def parseUnits (nUnits nMult : Nat) : List Char → Nat × List Char
  | [] => (nUnits, [])
  | c :: p =>
    if c.isDigit ∧ 0 < nMult then parseUnits (nUnits + nMult * digitValue c) (nMult / 10) p
    else (nUnits, c :: p)

/-- The loop of `ParseMoney`: the digits before the point, the units, and what follows. -/
def parseLoop (strWhole : List Char) : List Char → Option (List Char × Nat × List Char)
  | [] => some (strWhole, 0, [])
  | c :: p =>
    if c = '.' then some (strWhole, parseUnits 0 (cent * 10) p)
    else if isSpace c then some (strWhole, 0, c :: p)
    else if !c.isDigit then none
    else parseLoop (strWhole ++ [c]) p

/-- `atoi64` of a string of digits: `strtoll` stops at the largest number. -/
def atoi64 (s : List Char) : Int := min (numeral s) (2 ^ 63 - 1)

/-- `ParseMoney`. -/
def parseMoney (str : List Char) : Option Int := do
  let (strWhole, nUnits, p) ← parseLoop [] ((Token.cStr str).dropWhile isSpace)
  ensure (p.all isSpace)
  ensure (decide (strWhole.length ≤ 10))
  ensure (decide (nUnits ≤ coin))
  pure (toInt64 (toInt64 (atoi64 strWhole * coin) + nUnits))

/-! ## The digits behind the point -/

/-- The digits that `parseUnits` takes. -/
def unitDigits (places : Nat) (p : List Char) : List Char := (p.takeWhile Char.isDigit).take places

theorem unitDigits_digits (places : Nat) (p : List Char) : Digits (unitDigits places p) :=
  (Digits.takeWhile p).take places

theorem unitDigits_length_le (places : Nat) (p : List Char) :
    (unitDigits places p).length ≤ places := by
  rw [unitDigits, List.length_take]
  omega

theorem unitDigits_cons {places : Nat} {c : Char} {p : List Char} (hc : c.isDigit = true) :
    unitDigits (places + 1) (c :: p) = c :: unitDigits places p := by
  rw [unitDigits, List.takeWhile_cons, hc, if_pos rfl, List.take_succ_cons]
  rfl

theorem unitDigits_cons_of_not {places : Nat} {c : Char} {p : List Char} (hc : c.isDigit = false) :
    unitDigits places (c :: p) = [] := by
  rw [unitDigits, List.takeWhile_cons, hc]
  simp

/-- The units are those of the digits, each counted at its place. -/
theorem parseUnits_eq (nUnits places : Nat) (p : List Char) :
    parseUnits nUnits (10 ^ places / 10) p =
      (nUnits + numeral (unitDigits places p) * 10 ^ (places - (unitDigits places p).length),
        p.drop (unitDigits places p).length) := by
  induction p generalizing nUnits places with
  | nil => simp [parseUnits, unitDigits]
  | cons c p ih =>
    rw [parseUnits]
    by_cases hc : c.isDigit = true
    · cases places with
      | zero => simp [unitDigits]
      | succ places =>
        have hmult : 10 ^ (places + 1) / 10 = 10 ^ places := by
          rw [Nat.pow_succ, Nat.mul_div_cancel _ (by decide)]
        have hlen := unitDigits_length_le places p
        have hpow : 10 ^ places =
            10 ^ (unitDigits places p).length * 10 ^ (places - (unitDigits places p).length) := by
          rw [← Nat.pow_add, Nat.add_sub_cancel' hlen]
        rw [hmult, if_pos ⟨hc, Nat.pow_pos (by decide)⟩, ih, unitDigits_cons hc, numeral_cons,
          List.length_cons, List.drop_succ_cons, Nat.add_sub_add_right, hpow]
        congr 1
        ring
    · rw [if_neg (fun h => hc h.1), unitDigits_cons_of_not (by simpa using hc)]
      simp

/-! ## The digits before the point -/

/-- A digit is not a blank. -/
theorem isSpace_of_isDigit {c : Char} (hc : c.isDigit = true) : isSpace c = false := by
  rw [Char.isDigit, Bool.and_eq_true, decide_eq_true_iff, decide_eq_true_iff] at hc
  have hlow : 48 ≤ c.toNat := UInt32.le_iff_toNat_le.1 hc.1
  have hblank : c ≠ ' ' := by
    rintro rfl
    exact absurd hlow (by decide)
  simp only [isSpace, Bool.or_eq_false_iff, beq_eq_false_iff_ne, Bool.and_eq_false_iff,
    decide_eq_false_iff_not]
  exact ⟨hblank, Or.inr (by omega)⟩

/-- The digits before the point are read one by one. -/
theorem parseLoop_digits {s : List Char} (hs : Digits s) (strWhole p : List Char) :
    parseLoop strWhole (s ++ p) = parseLoop (strWhole ++ s) p := by
  induction s generalizing strWhole with
  | nil => rw [List.nil_append, List.append_nil]
  | cons c s ih =>
    obtain ⟨hc, hs⟩ := Digits.cons_iff.1 hs
    have hpoint : c ≠ '.' := by
      rintro rfl
      exact absurd hc (by decide)
    rw [List.cons_append, parseLoop, if_neg hpoint, isSpace_of_isDigit hc, hc, ih hs,
      List.append_assoc]
    rfl

/-- What a run of the loop has read. -/
theorem parseLoop_eq_some {strWhole p whole rest : List Char} {nUnits : Nat}
    (h : parseLoop strWhole p = some (whole, nUnits, rest)) :
    ∃ s, Digits s ∧ whole = strWhole ++ s ∧
      ((p = s ++ rest ∧ nUnits = 0) ∨
        ∃ q, p = s ++ '.' :: q ∧ parseUnits 0 (cent * 10) q = (nUnits, rest)) := by
  induction p generalizing strWhole with
  | nil =>
    cases h
    exact ⟨[], Digits.nil, (List.append_nil _).symm, Or.inl ⟨rfl, rfl⟩⟩
  | cons c p ih =>
    rw [parseLoop] at h
    by_cases hpoint : c = '.'
    · rw [if_pos hpoint, Option.some_inj, Prod.mk.injEq] at h
      exact ⟨[], Digits.nil, by rw [List.append_nil, h.1], Or.inr ⟨p, by rw [hpoint]; rfl, h.2⟩⟩
    rw [if_neg hpoint] at h
    by_cases hspace : isSpace c = true
    · rw [if_pos hspace] at h
      cases h
      exact ⟨[], Digits.nil, (List.append_nil _).symm, Or.inl ⟨rfl, rfl⟩⟩
    rw [if_neg hspace] at h
    by_cases hc : c.isDigit = true
    · rw [hc] at h
      obtain ⟨s, hs, hwhole, hrest⟩ := ih h
      refine ⟨c :: s, Digits.cons_iff.2 ⟨hc, hs⟩, ?_, ?_⟩
      · rw [hwhole, List.append_assoc]
        rfl
      · rcases hrest with ⟨hp, hu⟩ | ⟨q, hp, hu⟩
        · exact Or.inl ⟨by rw [hp]; rfl, hu⟩
        · exact Or.inr ⟨q, by rw [hp]; rfl, hu⟩
    · rw [if_pos (by simpa using hc)] at h
      cases h

/-! ## What is read -/

/-- A run of `ParseMoney` that succeeds. -/
theorem parseMoney_eq_some {str : List Char} {n : Int} :
    parseMoney str = some n ↔
      ∃ whole nUnits rest,
        parseLoop [] ((Token.cStr str).dropWhile isSpace) = some (whole, nUnits, rest) ∧
        rest.all isSpace = true ∧ whole.length ≤ 10 ∧ nUnits ≤ coin ∧
        n = toInt64 (toInt64 (atoi64 whole * coin) + nUnits) := by
  rw [parseMoney, Option.bind_eq_bind, Option.bind_eq_some_iff]
  constructor
  · rintro ⟨⟨whole, nUnits, rest⟩, hloop, h⟩
    rw [ensure_bind_eq_some, ensure_bind_eq_some, ensure_bind_eq_some, decide_eq_true_iff,
      decide_eq_true_iff] at h
    obtain ⟨hrest, hwhole, hunits, hn⟩ := h
    exact ⟨whole, nUnits, rest, hloop, hrest, hwhole, hunits, (Option.some_inj.1 hn).symm⟩
  · rintro ⟨whole, nUnits, rest, hloop, hrest, hwhole, hunits, rfl⟩
    refine ⟨(whole, nUnits, rest), hloop, ?_⟩
    rw [ensure_bind_eq_some, ensure_bind_eq_some, ensure_bind_eq_some, decide_eq_true_iff,
      decide_eq_true_iff]
    exact ⟨hrest, hwhole, hunits, rfl⟩

/-- Ten digits and the units of a coin do not wrap around. -/
theorem amount_of_digits {whole : List Char} {nUnits : Nat} (hdigits : Digits whole)
    (hwhole : whole.length ≤ 10) (hunits : nUnits ≤ coin) :
    toInt64 (toInt64 (atoi64 whole * coin) + nUnits) = numeral whole * coin + nUnits := by
  have hlt : numeral whole < 10 ^ 10 :=
    (numeral_lt hdigits).trans_le (Nat.pow_le_pow_right (by decide) hwhole)
  have hmin : atoi64 whole = numeral whole := by
    rw [atoi64]
    omega
  rw [coin] at hunits ⊢
  rw [hmin, toInt64_of_range (x := numeral whole * (100000000 : Nat)) (by omega) (by omega),
    toInt64_of_range (by omega) (by omega)]

/-- A text writes an amount in coins: digits, and a point with at most eight digits behind it,
between blanks. -/
structure Writes (str whole frac : List Char) : Prop where
  /-- The digits before the point. -/
  whole_digits : Digits whole
  /-- The digits behind the point. -/
  frac_digits : Digits frac
  /-- No part of an amount is lost. -/
  frac_length : frac.length ≤ 8
  /-- The text, without a point when there is none. -/
  text : ∃ before mid after, before.all isSpace = true ∧ after.all isSpace = true ∧
    Token.cStr str = before ++ mid ++ after ∧
    (mid = whole ++ '.' :: frac ∨ mid = whole ∧ frac = [])

/-- The number that is written, in coins. -/
def written (whole frac : List Char) : ℚ := numeral whole + numeral frac / 10 ^ frac.length

/-- The units of a fraction of at most eight digits. -/
theorem written_mul_coin {whole frac : List Char} (h : frac.length ≤ 8) :
    written whole frac * coin =
      (numeral whole * coin + numeral frac * 10 ^ (8 - frac.length) : Nat) := by
  have hcoin : coin = 10 ^ frac.length * 10 ^ (8 - frac.length) := by
    rw [← Nat.pow_add, Nat.add_sub_cancel' h]
    rfl
  have hpos : (10 ^ frac.length : ℚ) ≠ 0 := pow_ne_zero _ (by norm_num)
  rw [written, hcoin]
  push_cast
  field_simp

theorem all_takeWhile (f : Char → Bool) (s : List Char) : (s.takeWhile f).all f = true :=
  List.all_eq_true.2 fun _ hc => List.mem_takeWhile_imp hc

/-- The units of a fraction are less than a coin. -/
theorem unitDigits_lt (q : List Char) :
    numeral (unitDigits 8 q) * 10 ^ (8 - (unitDigits 8 q).length) < coin := by
  have hlen := unitDigits_length_le 8 q
  have hlt := numeral_lt (unitDigits_digits 8 q)
  calc numeral (unitDigits 8 q) * 10 ^ (8 - (unitDigits 8 q).length)
      < 10 ^ (unitDigits 8 q).length * 10 ^ (8 - (unitDigits 8 q).length) :=
        Nat.mul_lt_mul_of_pos_right hlt (Nat.pow_pos (by decide))
    _ = 10 ^ 8 := by rw [← Nat.pow_add, Nat.add_sub_cancel' hlen]
    _ = coin := rfl

theorem parseUnits_coin (q : List Char) :
    parseUnits 0 (cent * 10) q =
      (numeral (unitDigits 8 q) * 10 ^ (8 - (unitDigits 8 q).length),
        q.drop (unitDigits 8 q).length) := by
  have h := parseUnits_eq 0 8 q
  rw [Nat.zero_add] at h
  exact h

theorem unitDigits_append_drop (places : Nat) (q : List Char) :
    unitDigits places q ++ q.drop (unitDigits places q).length = q := by
  have hpre : unitDigits places q <+: q :=
    (List.take_prefix places _).trans (List.takeWhile_prefix _)
  exact List.prefix_iff_eq_append.1 hpre

/-- What `ParseMoney` accepts, it reads exactly. -/
theorem parseMoney_exact {str : List Char} {n : Int} (h : parseMoney str = some n) :
    ∃ whole frac, Writes str whole frac ∧ (n : ℚ) = written whole frac * coin ∧
      0 ≤ n ∧ n < 10 ^ 18 := by
  obtain ⟨whole, nUnits, rest, hloop, hrest, hlen, hunits, rfl⟩ := parseMoney_eq_some.1 h
  obtain ⟨s, hs, hwhole, hcase⟩ := parseLoop_eq_some hloop
  rw [List.nil_append] at hwhole
  obtain rfl := hwhole
  have hlt : numeral whole < 10 ^ 10 :=
    (numeral_lt hs).trans_le (Nat.pow_le_pow_right (by decide) hlen)
  have hsplit := (List.takeWhile_append_dropWhile (p := isSpace) (l := Token.cStr str)).symm
  rw [amount_of_digits hs hlen hunits]
  rcases hcase with ⟨htext, rfl⟩ | ⟨q, htext, hparse⟩
  · rw [htext, ← List.append_assoc] at hsplit
    refine ⟨whole, [], ⟨hs, Digits.nil, by decide, _, whole, rest, all_takeWhile _ (Token.cStr str),
      hrest, hsplit, Or.inr ⟨rfl, rfl⟩⟩, ?_, by exact_mod_cast Nat.zero_le _, ?_⟩
    · rw [written_mul_coin (by decide)]
      simp
    · rw [coin]
      omega
  · rw [parseUnits_coin, Prod.mk.injEq] at hparse
    obtain ⟨rfl, rfl⟩ := hparse
    have hq := unitDigits_append_drop 8 q
    have hunit := unitDigits_lt q
    generalize hfrac : unitDigits 8 q = frac at hq hunits hunit hrest ⊢
    have hfl : frac.length ≤ 8 := hfrac ▸ unitDigits_length_le 8 q
    have hfd : Digits frac := hfrac ▸ unitDigits_digits 8 q
    refine ⟨whole, frac, ⟨hs, hfd, hfl, _, whole ++ '.' :: frac, _,
      all_takeWhile _ (Token.cStr str),
      hrest, ?_, Or.inl rfl⟩, ?_, by exact_mod_cast Nat.zero_le _, ?_⟩
    · rw [htext] at hsplit
      refine hsplit.trans ?_
      rw [List.append_assoc, List.append_assoc, List.cons_append, hq]
    · rw [written_mul_coin hfl]
      push_cast
      rfl
    · rw [coin] at hunit ⊢
      omega

/-! ## Reading back what is written -/

/-- The zeros that are dropped. -/
theorem rightTrim_digits {d : List Char} (hd : Digits d) (hlen : 2 ≤ d.length) (w : List Char) :
    ∃ k d', d = List.replicate k '0' ++ d' ∧ 2 ≤ d'.length ∧
      rightTrim (d ++ '.' :: w) = d' ++ '.' :: w := by
  induction d with
  | nil => exact absurd hlen (by simp)
  | cons c d ih =>
    match d, hlen, ih with
    | [b], _, _ =>
      refine ⟨0, [c, b], rfl, by simp, ?_⟩
      rw [List.cons_append, List.cons_append, List.nil_append, rightTrim, if_neg]
      exact fun h => absurd h.2 (by decide)
    | b :: a :: d, _, ih =>
      obtain ⟨hc, hd⟩ := Digits.cons_iff.1 hd
      have ha : a.isDigit = true := hd a (by simp)
      rw [List.cons_append, List.cons_append, List.cons_append, rightTrim]
      by_cases hzero : c = '0'
      · obtain ⟨k, d', heq, hlen', htrim⟩ := ih hd (by simp)
        rw [if_pos ⟨hzero, ha⟩]
        refine ⟨k + 1, d', ?_, hlen', htrim⟩
        rw [heq, hzero, List.replicate_succ]
        rfl
      · rw [if_neg (fun h => hzero h.1)]
        exact ⟨0, c :: b :: a :: d, rfl, by simp, rfl⟩

/-- An amount is written with the digits of its coins, a point, and its units less some zeros. -/
theorem formatMoney_eq (n : Nat) :
    ∃ frac, formatMoney n = Nat.toDigits 10 (n / coin) ++ '.' :: frac ∧ Digits frac ∧
      frac.length ≤ 8 ∧ numeral frac * 10 ^ (8 - frac.length) = n % coin := by
  have hlt : n % coin < 10 ^ 8 := Nat.mod_lt _ (by decide)
  have hlength := padded.length (by decide : 0 < 8) hlt
  have hdigits : Digits (padded 8 (n % coin)).reverse := fun c hc =>
    padded.digits 8 (n % coin) c (List.mem_reverse.1 hc)
  obtain ⟨k, d, heq, hlen, htrim⟩ := rightTrim_digits hdigits
    (by rw [List.length_reverse, hlength]; decide) (Nat.toDigits 10 (n / coin)).reverse
  have hpad : padded 8 (n % coin) = d.reverse ++ List.replicate k '0' := by
    rw [← List.reverse_reverse (padded 8 (n % coin)), heq, List.reverse_append,
      List.reverse_replicate]
  have hk : d.length + k = 8 := by
    rw [hpad, List.length_append, List.length_reverse, List.length_replicate] at hlength
    exact hlength
  refine ⟨d.reverse, ?_, ?_, ?_, ?_⟩
  · rw [formatMoney, if_neg (by omega), Int.natAbs_natCast]
    rw [List.reverse_append, List.reverse_cons, List.append_assoc, List.singleton_append, htrim,
      List.reverse_append, List.reverse_cons, List.reverse_reverse, List.append_assoc]
    rfl
  · exact fun c hc => hdigits c (by rw [heq]; exact List.mem_append_right _ (List.mem_reverse.1 hc))
  · rw [List.length_reverse]
    omega
  · have hval := padded.numeral 8 (n % coin)
    rw [hpad, numeral_append_zeros] at hval
    rw [List.length_reverse, ← hk, Nat.add_sub_cancel_left, hval]

/-- A text of digits and a point is read from its start to its end. -/
theorem parseLoop_formatted {whole frac : List Char} (hwhole : Digits whole) (hne : whole ≠ [])
    (hfrac : Digits frac) (hlen : frac.length ≤ 8) :
    parseLoop [] ((Token.cStr (whole ++ '.' :: frac)).dropWhile isSpace) =
      some (whole, numeral frac * 10 ^ (8 - frac.length), []) := by
  have hnul : ∀ c : Char, c.isDigit = true → (c != Char.ofNat 0) = true := by
    intro c hc
    rw [bne_iff_ne]
    rintro rfl
    exact absurd hc (by decide)
  have htext : Token.cStr (whole ++ '.' :: frac) = whole ++ '.' :: frac := by
    rw [Token.cStr, List.takeWhile_eq_self_iff]
    intro c hc
    rcases List.mem_append.1 hc with hc | hc
    · exact hnul c (hwhole c hc)
    · rcases List.mem_cons.1 hc with rfl | hc
      · decide
      · exact hnul c (hfrac c hc)
  have hunits : unitDigits 8 frac = frac := by
    rw [unitDigits, hfrac.takeWhile_eq, List.take_of_length_le hlen]
  have hstart : (whole ++ '.' :: frac).dropWhile isSpace = whole ++ '.' :: frac := by
    obtain ⟨c, s, rfl⟩ := List.exists_cons_of_ne_nil hne
    rw [List.cons_append, List.dropWhile_cons, if_neg]
    rw [isSpace_of_isDigit (hwhole c List.mem_cons_self)]
    simp
  rw [htext, hstart, parseLoop_digits hwhole, List.nil_append, parseLoop, if_pos rfl,
    parseUnits_coin, hunits, List.drop_length]

/-- The text of an amount is read back exactly when the amount is below ten billion coins, and
refused otherwise. -/
theorem parseMoney_formatMoney (n : Nat) :
    parseMoney (formatMoney n) = if n < 10 ^ 18 then some (n : Int) else none := by
  obtain ⟨frac, htext, hfrac, hlen, hval⟩ := formatMoney_eq n
  have hdigits := Digits.toDigits (n / coin)
  have hloop := parseLoop_formatted hdigits Nat.toDigits_ne_nil hfrac hlen
  rw [hval] at hloop
  have hunits : n % coin ≤ coin := (Nat.mod_lt _ (by decide)).le
  have hten : (Nat.toDigits 10 (n / coin)).length ≤ 10 ↔ n < 10 ^ 18 := by
    rw [Nat.length_toDigits_le_iff (by decide) (by decide), Nat.div_lt_iff_lt_mul (by decide)]
    rfl
  rw [htext]
  by_cases hn : n < 10 ^ 18
  · rw [if_pos hn, parseMoney_eq_some]
    refine ⟨_, _, _, hloop, rfl, hten.2 hn, hunits, ?_⟩
    rw [amount_of_digits hdigits (hten.2 hn) hunits, numeral_toDigits]
    exact_mod_cast (Nat.div_add_mod' n coin).symm
  · rw [if_neg hn, Option.eq_none_iff_forall_ne_some]
    intro v hv
    obtain ⟨whole, nUnits, rest, hloop', -, hlength, -⟩ := parseMoney_eq_some.1 hv
    rw [hloop, Option.some_inj, Prod.mk.injEq] at hloop'
    rw [← hloop'.1] at hlength
    exact hn (hten.1 hlength)

/-! ## The whole range of money -/

/-- `KOMODO_MAXNVALUE`. -/
def komodoMaxnvalue : Nat := 2 ^ 63 - 1

/-- Whatever the largest amount of a chain is, its amounts below ten billion coins are read back
and the others are refused; every amount that is read is the one that is written. -/
theorem money_text (maxMoney : Nat) :
    (∀ n : Nat, n ≤ maxMoney →
      parseMoney (formatMoney n) = if n < 10 ^ 18 then some (n : Int) else none) ∧
    (∀ (str : List Char) (n : Int), parseMoney str = some n →
      ∃ whole frac, Writes str whole frac ∧ (n : ℚ) = written whole frac * coin ∧
        0 ≤ n ∧ n < 10 ^ 18) :=
  ⟨fun n _ => parseMoney_formatMoney n, fun _ _ h => parseMoney_exact h⟩

/-- Twelve and a half coins, as they are written and as they are typed. -/
theorem money_text_sample :
    parseMoney (formatMoney 1250000000) = some 1250000000 ∧
    ∃ whole frac, Writes " 12.5".toList whole frac ∧
      ((1250000000 : Int) : ℚ) = written whole frac * coin ∧
      0 ≤ (1250000000 : Int) ∧ (1250000000 : Int) < 10 ^ 18 :=
  ⟨(money_text (10 ^ 10)).1 1250000000 (by decide),
    (money_text (10 ^ 10)).2 " 12.5".toList 1250000000 (by decide)⟩

/-- Ten billion coins are an amount of a chain with a large supply, and are not read back. -/
theorem ten_billion_refused :
    10 ^ 18 ≤ komodoMaxnvalue ∧ formatMoney (10 ^ 18) = "10000000000.00".toList ∧
    parseMoney (formatMoney (10 ^ 18)) = none := by
  refine ⟨by decide, by decide, ?_⟩
  exact_mod_cast parseMoney_formatMoney (10 ^ 18)

end IndexChain.Supply
