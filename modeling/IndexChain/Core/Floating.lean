import Mathlib.Order.Bounds.Basic
import Mathlib.Tactic.Ring

/-!
# Numbers with a short mantissa

The products of a mantissa below a bound and a power of a base. Rounding a number down to its
upper digits gives the greatest of these products that is not above it.
-/

namespace IndexChain.Core

/-- The numbers with a mantissa below `M` in base `B`. -/
def shortMantissa (B M : Nat) : Set Nat :=
  {v | ∃ m < M, ∃ k, v = m * B ^ k}

variable {B M k v : Nat}

/-- Dropping digits rounds down. -/
theorem roundDown_le (B k v : Nat) : v / B ^ k * B ^ k ≤ v :=
  Nat.div_mul_le_self v _

/-- A product with at least as many zeros as digits are dropped stays below. -/
theorem le_roundDown_of_dvd {u : Nat} (hB : 0 < B) (hdvd : B ^ k ∣ u) (hle : u ≤ v) :
    u ≤ v / B ^ k * B ^ k := by
  obtain ⟨c, rfl⟩ := hdvd
  have hc : c ≤ v / B ^ k := (Nat.le_div_iff_mul_le (Nat.pow_pos hB)).2 (by rwa [Nat.mul_comm])
  calc
    B ^ k * c = c * B ^ k := Nat.mul_comm _ _
    _ ≤ v / B ^ k * B ^ k := Nat.mul_le_mul_right _ hc

/-- A product with fewer zeros is below the number whose mantissa is full. -/
theorem le_roundDown_of_lt {m j : Nat} (hB : 0 < B) (hm : m < M) (hj : j < k)
    (hfull : M ≤ v / B ^ k * B) : m * B ^ j ≤ v / B ^ k * B ^ k := by
  obtain ⟨i, rfl⟩ := Nat.exists_eq_add_of_lt hj
  have hpow : B ^ j ≤ B ^ (j + i) := Nat.pow_le_pow_right hB (Nat.le_add_right j i)
  generalize v / B ^ (j + i + 1) = q at *
  calc
    m * B ^ j ≤ q * B * B ^ (j + i) := Nat.mul_le_mul (hm.le.trans hfull) hpow
    _ = q * B ^ (j + i + 1) := by ring

/-- No number with a short mantissa lies between a number and what is left of it, when the
mantissa that is left is short and no more digits are dropped than needed. -/
theorem isGreatest_roundDown (hB : 0 < B) (hshort : v / B ^ k < M)
    (hfull : k = 0 ∨ M ≤ v / B ^ k * B) :
    IsGreatest {u | u ∈ shortMantissa B M ∧ u ≤ v} (v / B ^ k * B ^ k) := by
  refine ⟨⟨⟨_, hshort, k, rfl⟩, roundDown_le B k v⟩, ?_⟩
  rintro _ ⟨⟨m, hm, j, rfl⟩, hle⟩
  obtain hjk | hkj := Nat.lt_or_ge j k
  · exact le_roundDown_of_lt hB hm hjk (hfull.resolve_left (Nat.ne_zero_of_lt hjk))
  · exact le_roundDown_of_dvd hB ((Nat.pow_dvd_pow B hkj).trans (Nat.dvd_mul_left _ m)) hle

end IndexChain.Core
