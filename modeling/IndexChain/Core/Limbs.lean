import Mathlib.Algebra.Order.Group.Nat
import Mathlib.Data.Nat.ModEq
import Mathlib.Tactic.Ring

/-!
# Numbers in limbs

The value of the first limbs of a number, its bits when the base is a power of two, and what
loops over the limbs compute that hand a carry on from one limb to the next.
-/

namespace IndexChain.Core

/-- A loop that counts up from 0. -/
def countUp {α : Type} (f : α → Nat → α) (x : α) : Nat → α
  | 0 => x
  | m + 1 => f (countUp f x m) m

/-- The value of `m` limbs in base `B`, the least significant first. -/
def limbsValue (B : Nat) (f : Nat → Nat) : Nat → Nat
  | 0 => 0
  | m + 1 => limbsValue B f m + f m * B ^ m

variable {B : Nat} {f g : Nat → Nat} {m n : Nat}

theorem limbsValue_succ (f : Nat → Nat) (m : Nat) :
    limbsValue B f (m + 1) = limbsValue B f m + f m * B ^ m :=
  rfl

theorem limbsValue_congr (h : ∀ i < m, f i = g i) : limbsValue B f m = limbsValue B g m := by
  induction m with
  | zero => rfl
  | succ m ih =>
    rw [limbsValue_succ, limbsValue_succ, ih fun i hi => h i (Nat.lt_succ_of_lt hi),
      h m (Nat.lt_succ_self m)]

theorem limbsValue_zero (m : Nat) : limbsValue B (fun _ => 0) m = 0 := by
  induction m with
  | zero => rfl
  | succ m ih => rw [limbsValue_succ, ih, Nat.zero_mul]

theorem limbsValue_add (f g : Nat → Nat) (m : Nat) :
    limbsValue B (fun i => f i + g i) m = limbsValue B f m + limbsValue B g m := by
  induction m with
  | zero => rfl
  | succ m ih =>
    simp only [limbsValue_succ, ih]
    ring

theorem limbsValue_mul (c : Nat) (f : Nat → Nat) (m : Nat) :
    limbsValue B (fun i => c * f i) m = c * limbsValue B f m := by
  induction m with
  | zero => rfl
  | succ m ih =>
    simp only [limbsValue_succ, ih]
    ring

/-- The limbs above the first ones count for their power of the base. -/
theorem limbsValue_append (f : Nat → Nat) (m n : Nat) :
    limbsValue B f (m + n) = limbsValue B f m + B ^ m * limbsValue B (fun i => f (i + m)) n := by
  induction n with
  | zero => simp [limbsValue]
  | succ n ih =>
    rw [← Nat.add_assoc, limbsValue_succ, limbsValue_succ, ih, Nat.add_comm m n]
    ring

/-- Changing one limb changes the number by its part. -/
theorem limbsValue_change {i : Nat} (hi : i < m) (h : ∀ l < m, l ≠ i → g l = f l) :
    limbsValue B g m + f i * B ^ i = limbsValue B f m + g i * B ^ i := by
  induction m with
  | zero => cases hi
  | succ m ih =>
    rw [limbsValue_succ, limbsValue_succ]
    obtain hlt | rfl := Nat.lt_succ_iff_lt_or_eq.1 hi
    · have hrest := ih hlt fun l hl hne => h l (Nat.lt_succ_of_lt hl) hne
      rw [h m (Nat.lt_succ_self m) (Nat.ne_of_gt hlt)]
      omega
    · rw [limbsValue_congr fun l hl => h l (Nat.lt_succ_of_lt hl) (Nat.ne_of_lt hl)]
      omega

/-- The largest number of as many limbs. -/
theorem limbsValue_max (hB : 0 < B) (m : Nat) : limbsValue B (fun _ => B - 1) m + 1 = B ^ m := by
  induction m with
  | zero => rfl
  | succ m ih =>
    rw [limbsValue_succ, Nat.pow_succ', Nat.add_right_comm, ih]
    calc
      B ^ m + (B - 1) * B ^ m = (1 + (B - 1)) * B ^ m := by ring
      _ = B * B ^ m := by rw [Nat.add_sub_of_le hB]

/-- Limbs below the base give a number of as many digits. -/
theorem limbsValue_lt (h : ∀ i < m, f i < B) : limbsValue B f m < B ^ m := by
  induction m with
  | zero => exact Nat.one_pos
  | succ m ih =>
    have hlow := ih fun i hi => h i (Nat.lt_succ_of_lt hi)
    have htop := h m (Nat.lt_succ_self m)
    calc
      limbsValue B f m + f m * B ^ m < B ^ m + f m * B ^ m := Nat.add_lt_add_right hlow _
      _ = (f m + 1) * B ^ m := by ring
      _ ≤ B * B ^ m := Nat.mul_le_mul_right _ htop
      _ = B ^ (m + 1) := (Nat.pow_succ').symm

/-- A number with a smaller top limb is smaller. -/
theorem limbsValue_lt_of_top (h : ∀ i < m, f i < B) (htop : f m < g m) :
    limbsValue B f (m + 1) < limbsValue B g (m + 1) := by
  have hlow := limbsValue_lt h
  calc
    limbsValue B f (m + 1) < B ^ m + f m * B ^ m := Nat.add_lt_add_right hlow _
    _ = (f m + 1) * B ^ m := by ring
    _ ≤ g m * B ^ m := Nat.mul_le_mul_right _ htop
    _ ≤ limbsValue B g (m + 1) := Nat.le_add_left _ _

/-- A bit of the number is a bit of a limb. -/
theorem testBit_limbsValue {w : Nat} (hw : 0 < w) (h : ∀ i < m, f i < 2 ^ w) (n : Nat) :
    (limbsValue (2 ^ w) f m).testBit n = (decide (n / w < m) && (f (n / w)).testBit (n % w)) := by
  induction m with
  | zero => simp [limbsValue]
  | succ m ih =>
    have hlow : limbsValue (2 ^ w) f m < 2 ^ (w * m) := by
      rw [Nat.pow_mul]
      exact limbsValue_lt fun i hi => h i (Nat.lt_succ_of_lt hi)
    have hsplit : limbsValue (2 ^ w) f (m + 1) = 2 ^ (w * m) * f m + limbsValue (2 ^ w) f m := by
      rw [limbsValue_succ, ← Nat.pow_mul]
      ring
    rw [hsplit, Nat.testBit_two_pow_mul_add _ hlow, ih fun i hi => h i (Nat.lt_succ_of_lt hi)]
    have hdivide := Nat.div_add_mod n w
    have hlt : n < w * m ↔ n / w < m := by rw [Nat.div_lt_iff_lt_mul hw, Nat.mul_comm]
    obtain hbelow | rfl | habove := lt_trichotomy (n / w) m
    · rw [if_pos (hlt.2 hbelow), decide_eq_true hbelow, decide_eq_true (Nat.lt_succ_of_lt hbelow)]
    · have hmod : n - w * (n / w) = n % w := by omega
      rw [if_neg (fun h => Nat.lt_irrefl _ (hlt.1 h)), hmod, decide_eq_true (Nat.lt_succ_self _),
        Bool.true_and]
    · -- the bit is above the last limb
      have hmul : w * (m + 1) ≤ w * (n / w) := Nat.mul_le_mul_left w habove
      have hge : w ≤ n - w * m := by
        rw [Nat.mul_succ] at hmul
        omega
      have htop : f m < 2 ^ (n - w * m) :=
        (h m (Nat.lt_succ_self m)).trans_le (Nat.pow_le_pow_right (by decide) hge)
      rw [if_neg (fun h => Nat.lt_asymm habove (hlt.1 h)), Nat.testBit_lt_two_pow htop,
        decide_eq_false (by omega), Bool.false_and]

end IndexChain.Core
