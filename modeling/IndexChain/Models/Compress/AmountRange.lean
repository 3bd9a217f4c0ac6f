import IndexChain.Models.Compress.Amount

/-!
# Amounts that are compressed without a reduction

`CompressAmount` and `DecompressAmount` of `compressor.cpp` once more, with every addition,
subtraction and multiplication as a step of its own that fails when its result is not a
64-bit number. An amount of at most a thousand million coins passes all of them.
-/

namespace IndexChain.Compress

/-- A sum of 64 bits. -/
def add64 (x y : Nat) : Option Nat :=
  if x + y < 2 ^ 64 then some (x + y) else none

/-- A difference that is not negative. -/
def sub64 (x y : Nat) : Option Nat :=
  if y ≤ x then some (x - y) else none

/-- A product of 64 bits. -/
def mul64 (x y : Nat) : Option Nat :=
  if x * y < 2 ^ 64 then some (x * y) else none

theorem add64_of_lt {x y : Nat} (h : x + y < 2 ^ 64) : add64 x y = some (x + y) :=
  if_pos h

theorem sub64_of_le {x y : Nat} (h : y ≤ x) : sub64 x y = some (x - y) :=
  if_pos h

theorem mul64_of_lt {x y : Nat} (h : x * y < 2 ^ 64) : mul64 x y = some (x * y) :=
  if_pos h

/-- `CompressAmount`, which fails where a step leaves 64 bits. -/
def compressAmountExact (n : Nat) : Option Nat :=
  if n = 0 then some 0
  else
    let (n, e) := trailingZeros 9 n 0
    if e < 9 then do
      let d := n % 10
      let n := n / 10
      let x ← mul64 n 9
      let x ← add64 x d
      let x ← sub64 x 1
      let x ← mul64 x 10
      let x ← add64 1 x
      add64 x e
    else do
      let x ← sub64 n 1
      let x ← mul64 x 10
      let x ← add64 1 x
      add64 x 9

/-- The loop of `DecompressAmount`, which fails where a step leaves 64 bits. -/
def timesTenExact : Nat → Nat → Option Nat
  | 0, n => some n
  | e + 1, n => do
    let n ← mul64 n 10
    timesTenExact e n

/-- `DecompressAmount`, which fails where a step leaves 64 bits. -/
def decompressAmountExact (x : Nat) : Option Nat :=
  if x = 0 then some 0
  else do
    let x ← sub64 x 1
    let e := x % 10
    let x := x / 10
    let n ←
      if e < 9 then do
        let d := x % 9 + 1
        let x := x / 9
        let n ← mul64 x 10
        add64 n d
      else add64 x 1
    timesTenExact e n

/-! ## The steps -/

/-- An amount without its trailing zeros is coded without a reduction. -/
theorem compressAmountExact_short {n m e : Nat} (hn : n ≠ 0)
    (hloop : trailingZeros 9 n 0 = (m, e)) (he : e < 9) (hdigit : m % 10 ≠ 0)
    (hm : m ≤ 10 ^ 18) : compressAmountExact n = some (shortCode m e) := by
  have h9 : m / 10 * 9 < 2 ^ 64 := by omega
  have hd : m / 10 * 9 + m % 10 < 2 ^ 64 := by omega
  have h1 : 1 ≤ m / 10 * 9 + m % 10 := by omega
  have h10 : (m / 10 * 9 + m % 10 - 1) * 10 < 2 ^ 64 := by omega
  have hsucc : 1 + (m / 10 * 9 + m % 10 - 1) * 10 < 2 ^ 64 := by omega
  have hexp : 1 + (m / 10 * 9 + m % 10 - 1) * 10 + e < 2 ^ 64 := by omega
  unfold compressAmountExact shortCode
  rw [if_neg hn, hloop]
  dsimp only
  simp only [if_pos he, mul64_of_lt h9, add64_of_lt hd, sub64_of_le h1, mul64_of_lt h10,
    add64_of_lt hsucc, add64_of_lt hexp, Option.bind_eq_bind, Option.bind_some]

/-- An amount with nine trailing zeros or more is coded without a reduction. -/
theorem compressAmountExact_long {n m : Nat} (hn : n ≠ 0) (hloop : trailingZeros 9 n 0 = (m, 9))
    (hpos : 0 < m) (hm : m ≤ 10 ^ 18) :
    compressAmountExact n = some (1 + (m - 1) * 10 + 9) := by
  have h10 : (m - 1) * 10 < 2 ^ 64 := by omega
  have hsucc : 1 + (m - 1) * 10 < 2 ^ 64 := by omega
  have hexp : 1 + (m - 1) * 10 + 9 < 2 ^ 64 := by omega
  unfold compressAmountExact
  rw [if_neg hn, hloop]
  dsimp only
  simp only [if_neg (Nat.lt_irrefl 9), sub64_of_le hpos, mul64_of_lt h10, add64_of_lt hsucc,
    add64_of_lt hexp, Option.bind_eq_bind, Option.bind_some]

/-- The loop passes while the result is a 64-bit number. -/
theorem timesTenExact_of_lt {e n : Nat} (h : n * 10 ^ e < 2 ^ 64) :
    timesTenExact e n = some (n * 10 ^ e) := by
  induction e generalizing n with
  | zero =>
    rw [Nat.pow_zero, Nat.mul_one]
    rfl
  | succ e ih =>
    have hsplit : n * 10 ^ (e + 1) = n * 10 * 10 ^ e := by rw [Nat.pow_succ', Nat.mul_assoc]
    rw [hsplit] at h ⊢
    have hstep : n * 10 < 2 ^ 64 :=
      Nat.lt_of_le_of_lt (Nat.le_mul_of_pos_right _ (Nat.pow_pos (by decide))) h
    unfold timesTenExact
    rw [mul64_of_lt hstep, Option.bind_eq_bind, Option.bind_some]
    exact ih h

/-- A code with a digit of its own is read without a reduction. -/
theorem decompressAmountExact_short {m e : Nat} (he : e < 9) (hdigit : m % 10 ≠ 0)
    (hm : m * 10 ^ e ≤ 10 ^ 18) :
    decompressAmountExact (shortCode m e) = some (m * 10 ^ e) := by
  have hcode : shortCode m e - 1 = (m / 10 * 9 + m % 10 - 1) * 10 + e := by
    unfold shortCode
    omega
  have hle : m ≤ m * 10 ^ e := Nat.le_mul_of_pos_right m (Nat.pow_pos (by decide))
  have hpos : 1 ≤ shortCode m e := by
    unfold shortCode
    omega
  have hexp : ((m / 10 * 9 + m % 10 - 1) * 10 + e) % 10 = e := by omega
  have hrest : ((m / 10 * 9 + m % 10 - 1) * 10 + e) / 10 = m / 10 * 9 + m % 10 - 1 := by omega
  have hten : (m / 10 * 9 + m % 10 - 1) / 9 * 10 < 2 ^ 64 := by omega
  have hm' : (m / 10 * 9 + m % 10 - 1) / 9 * 10 + ((m / 10 * 9 + m % 10 - 1) % 9 + 1) = m := by
    omega
  unfold decompressAmountExact
  rw [if_neg (Nat.ne_of_gt hpos), sub64_of_le hpos, hcode, Option.bind_eq_bind, Option.bind_some]
  dsimp only
  rw [hexp, hrest, if_pos he, mul64_of_lt hten, Option.bind_some, add64_of_lt (by omega), hm',
    Option.bind_some]
  exact timesTenExact_of_lt (by omega)

/-- A code of nine zeros or more is read without a reduction. -/
theorem decompressAmountExact_long {m : Nat} (hpos : 0 < m) (hm : m * 10 ^ 9 ≤ 10 ^ 18) :
    decompressAmountExact (1 + (m - 1) * 10 + 9) = some (m * 10 ^ 9) := by
  have h1 : 1 ≤ 1 + (m - 1) * 10 + 9 := by omega
  have hcode : 1 + (m - 1) * 10 + 9 - 1 = (m - 1) * 10 + 9 := by omega
  have hexp : ((m - 1) * 10 + 9) % 10 = 9 := by omega
  have hrest : ((m - 1) * 10 + 9) / 10 = m - 1 := by omega
  unfold decompressAmountExact
  rw [if_neg (Nat.ne_of_gt h1), sub64_of_le h1, hcode, Option.bind_eq_bind, Option.bind_some]
  dsimp only
  rw [hexp, hrest, if_neg (Nat.lt_irrefl 9), add64_of_lt (by omega), Nat.sub_add_cancel hpos,
    Option.bind_some]
  exact timesTenExact_of_lt (by omega)

/-! ## Amounts of the range -/

/-- The code of an amount, by its digits without the trailing zeros and their number. -/
theorem exists_digits {n : Nat} (hn : n ≠ 0) :
    ∃ m e, trailingZeros 9 n 0 = (m, e) ∧ n = m * 10 ^ e ∧ 0 < m ∧ m ≤ n ∧
      (e < 9 ∧ m % 10 ≠ 0 ∨ e = 9) := by
  obtain ⟨⟨m, e⟩, hloop⟩ : ∃ p, trailingZeros 9 n 0 = p := ⟨_, rfl⟩
  obtain ⟨-, he, hvalue, hlast⟩ := trailingZeros_spec hloop
  rw [Nat.sub_zero] at hvalue
  have hpos : 0 < m := by
    refine Nat.pos_of_ne_zero fun hzero => hn ?_
    rw [hvalue, hzero, Nat.zero_mul]
  have hle : m ≤ n := by
    rw [hvalue]
    exact Nat.le_mul_of_pos_right m (Nat.pow_pos (by decide))
  refine ⟨m, e, hloop, hvalue, hpos, hle, ?_⟩
  by_cases he9 : e < 9
  · exact Or.inl ⟨he9, hlast (by omega)⟩
  · exact Or.inr (by omega)

/-- No step of either function leaves 64 bits, and the code is the one of `CompressAmount`. -/
theorem exact_of_le {n : Nat} (h : n ≤ 10 ^ 18) :
    compressAmountExact n = some (compressAmount n) ∧
      decompressAmountExact (compressAmount n) = some n := by
  by_cases hn : n = 0
  · subst hn
    exact ⟨rfl, rfl⟩
  obtain ⟨m, e, hloop, hvalue, hpos, hle, hcase⟩ := exists_digits hn
  have hm : m ≤ 10 ^ 18 := hle.trans h
  rw [hvalue] at h
  have hcompress : compressAmount n =
      if e < 9 then shortCode m e % 2 ^ 64 else (1 + (m - 1) * 10 + 9) % 2 ^ 64 := by
    unfold compressAmount
    rw [if_neg hn, hloop]
    rfl
  obtain ⟨he, hdigit⟩ | rfl := hcase
  · have hlt : shortCode m e < 2 ^ 64 := by
      unfold shortCode
      omega
    rw [hcompress, if_pos he, Nat.mod_eq_of_lt hlt]
    refine ⟨compressAmountExact_short hn hloop he hdigit hm, ?_⟩
    rw [decompressAmountExact_short he hdigit h, ← hvalue]
  · rw [hcompress, if_neg (Nat.lt_irrefl 9), Nat.mod_eq_of_lt (by omega)]
    refine ⟨compressAmountExact_long hn hloop hpos hm, ?_⟩
    rw [decompressAmountExact_long hpos h, ← hvalue]

/-- An amount of the range is restored, no step of the two functions is reduced, and no other
amount of the range has its code. -/
theorem restored_without_reduction {n : Nat} (h : n ≤ 10 ^ 18) :
    decompressAmount (compressAmount n) = n ∧
      compressAmountExact n = some (compressAmount n) ∧
      decompressAmountExact (compressAmount n) = some (decompressAmount (compressAmount n)) ∧
      ∀ m ≤ 10 ^ 18, compressAmount m = compressAmount n → m = n := by
  have hrestored : ∀ k ≤ 10 ^ 18, decompressAmount (compressAmount k) = k := fun k hk =>
    (decompress_compress_iff (by omega)).2 (Or.inr (by omega))
  obtain ⟨hcompress, hdecompress⟩ := exact_of_le h
  rw [hrestored n h]
  refine ⟨rfl, hcompress, hdecompress, fun m hm heq => ?_⟩
  rw [← hrestored m hm, heq, hrestored n h]

/-- The last amount of the range. -/
theorem restored_without_reduction_last :
    decompressAmount (compressAmount (10 ^ 18 - 1)) = 10 ^ 18 - 1 ∧
      compressAmountExact (10 ^ 18 - 1) = some (compressAmount (10 ^ 18 - 1)) ∧
      decompressAmountExact (compressAmount (10 ^ 18 - 1)) =
        some (decompressAmount (compressAmount (10 ^ 18 - 1))) ∧
      ∀ m ≤ 10 ^ 18, compressAmount m = compressAmount (10 ^ 18 - 1) → m = 10 ^ 18 - 1 :=
  restored_without_reduction (by decide)

end IndexChain.Compress
