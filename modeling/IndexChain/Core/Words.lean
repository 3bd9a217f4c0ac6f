import Mathlib.Algebra.Order.BigOperators.Group.List
import IndexChain.Core.Bytes

/-!
# Machine words

Sums and products in 64-bit registers. A register holds the exact result when it is in
range, and reducing an operand first makes no difference.
-/

namespace IndexChain.Core

/-! ## Signed words -/

theorem toInt64_add_left (a b : Int) : toInt64 (toInt64 a + b) = toInt64 (a + b) :=
  Int.bmod_add_bmod

theorem toInt64_add_right (a b : Int) : toInt64 (a + toInt64 b) = toInt64 (a + b) :=
  Int.add_bmod_bmod

theorem toInt64_add_toUint64 (a b : Int) : toInt64 (a + toUint64 b) = toInt64 (a + b) :=
  Int.add_emod_bmod b (2 ^ 64)

/-- A register holds what is in its range. -/
theorem toInt64_of_range {x : Int} (hlow : -2 ^ 63 ≤ x) (hhigh : x < 2 ^ 63) : toInt64 x = x := by
  unfold toInt64
  rw [Int.bmod_eq_of_le (by omega) (by omega)]

/-- What a register holds is in its range. -/
theorem toInt64_range (x : Int) : -2 ^ 63 ≤ toInt64 x ∧ toInt64 x < 2 ^ 63 := by
  have hlow := @Int.le_bmod x (2 ^ 64) (by decide)
  have hhigh := @Int.bmod_lt x (2 ^ 64) (by decide)
  unfold toInt64
  omega

/-- A register differs from the exact result by a multiple of its size. -/
theorem toInt64_eq_sub (x : Int) : ∃ k : Int, toInt64 x = x - k * 2 ^ 64 :=
  ⟨x.bdiv (2 ^ 64), Int.bmod_eq_self_sub_bdiv_mul x (2 ^ 64)⟩

@[simp] theorem toInt64_toInt64 (x : Int) : toInt64 (toInt64 x) = toInt64 x :=
  toInt64_of_range (toInt64_range x).1 (toInt64_range x).2

@[simp] theorem toInt64_toUint64 (x : Int) : toInt64 (toUint64 x) = toInt64 x :=
  Int.emod_bmod x (2 ^ 64)

/-- The value that an 8-bit signed register holds. -/
def toInt8 (x : Int) : Int := x.bmod (2 ^ 8)

theorem toInt8_eq_sub (x : Int) : ∃ k : Int, toInt8 x = x - k * 2 ^ 8 :=
  ⟨x.bdiv (2 ^ 8), Int.bmod_eq_self_sub_bdiv_mul x (2 ^ 8)⟩

theorem toInt8_range (x : Int) : -2 ^ 7 ≤ toInt8 x ∧ toInt8 x < 2 ^ 7 := by
  have hlow := @Int.le_bmod x (2 ^ 8) (by decide)
  have hhigh := @Int.bmod_lt x (2 ^ 8) (by decide)
  unfold toInt8
  omega

/-! ## Running sums -/

/-- The exact results of the additions that accumulate terms in a signed register. -/
def runningSums : Int → List Int → List Int
  | _, [] => []
  | n, v :: vs => (n + v) :: runningSums (toInt64 (n + v)) vs

/-- Where no term is negative, a total that fits a register bounds every running sum. -/
theorem runningSums_range {n : Int} {vs : List Int} (hn : 0 ≤ n) (hvs : ∀ v ∈ vs, 0 ≤ v)
    (htotal : n + vs.sum < 2 ^ 63) : ∀ x ∈ runningSums n vs, 0 ≤ x ∧ x < 2 ^ 63 := by
  induction vs generalizing n with
  | nil => simp [runningSums]
  | cons v vs ih =>
    have hv := hvs v List.mem_cons_self
    have hrest : ∀ w ∈ vs, 0 ≤ w := fun w hw => hvs w (List.mem_cons_of_mem v hw)
    have hsum := List.sum_nonneg hrest
    rw [List.sum_cons] at htotal
    have hreg : toInt64 (n + v) = n + v := toInt64_of_range (by omega) (by omega)
    intro x hx
    rw [runningSums, hreg, List.mem_cons] at hx
    rcases hx with rfl | hx
    · omega
    · exact ih (by omega) hrest (by omega) x hx

/-! ## Unsigned words -/

theorem toUint64_of_range {x : Int} (hlow : 0 ≤ x) (hhigh : x < 2 ^ 64) : toUint64 x = x :=
  Int.emod_eq_of_lt hlow hhigh

theorem toUint64_range (x : Int) : 0 ≤ toUint64 x ∧ toUint64 x < 2 ^ 64 :=
  ⟨Int.emod_nonneg _ (by decide), Int.emod_lt_of_pos _ (by decide)⟩

@[simp] theorem toUint64_toInt64 (x : Int) : toUint64 (toInt64 x) = toUint64 x := by
  obtain ⟨k, hk⟩ := toInt64_eq_sub x
  rw [hk]
  unfold toUint64
  omega

theorem toUint64_mul_toInt64 (x y : Int) : toUint64 (toInt64 x * y) = toUint64 (x * y) := by
  have hx : toInt64 x % 2 ^ 64 = x % 2 ^ 64 := toUint64_toInt64 x
  rw [toUint64, toUint64, Int.mul_emod, hx, ← Int.mul_emod]

theorem toUint64_sub_toInt64 (x y : Int) : toUint64 (toInt64 x - y) = toUint64 (x - y) := by
  obtain ⟨k, hk⟩ := toInt64_eq_sub x
  rw [hk]
  unfold toUint64
  omega

theorem toUint64_add_toUint64 (x y : Int) : toUint64 (x + y) = toUint64 (toUint64 x + y) := by
  unfold toUint64
  omega

/-- An unsigned number whose bits are those of a signed zero is zero. -/
theorem toInt64_eq_zero {n : Nat} (hn : n < 2 ^ 64) : toInt64 n = 0 ↔ n = 0 := by
  obtain ⟨k, hk⟩ := toInt64_eq_sub n
  refine ⟨fun h => by omega, ?_⟩
  rintro rfl
  rfl

end IndexChain.Core
