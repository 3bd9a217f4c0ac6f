import Mathlib.Data.BitVec
import Mathlib.Data.List.Basic

/-!
# Bit masks

A mask collects indices by setting their bits, and its weight counts them.
-/

namespace IndexChain.Core

variable {w : Nat}

/-- The mask with one bit set. -/
def bit (w k : Nat) : BitVec w := 1#w <<< k

theorem getLsbD_bit (k n : Nat) : (bit w k).getLsbD n = (decide (n < w) && decide (n = k)) := by
  rw [bit, BitVec.getLsbD_shiftLeft]
  rcases Nat.lt_trichotomy n k with h | h | h
  · simp [h, Nat.ne_of_lt h]
  · subst h
    by_cases hw : n < w
    · simp [hw, Nat.lt_of_le_of_lt (Nat.zero_le n) hw]
    · simp [hw]
  · have hne : n - k ≠ 0 := by omega
    simp [Nat.ne_of_gt h, hne]

/-- Set the bits of a list of indices. -/
def collect (m : BitVec w) (ks : List Nat) : BitVec w :=
  ks.foldl (fun m k => m ||| bit w k) m

/-- A bit of a collected mask was set before or is in the list. -/
theorem getLsbD_collect (m : BitVec w) (ks : List Nat) (n : Nat) :
    (collect m ks).getLsbD n = true ↔ m.getLsbD n = true ∨ (n < w ∧ n ∈ ks) := by
  induction ks generalizing m with
  | nil => simp [collect]
  | cons k ks ih =>
    change (collect (m ||| bit w k) ks).getLsbD n = true ↔ _
    rw [ih, BitVec.getLsbD_or, getLsbD_bit, List.mem_cons, Bool.or_eq_true, Bool.and_eq_true,
      decide_eq_true_eq, decide_eq_true_eq]
    constructor
    · rintro ((h | ⟨hw, hk⟩) | ⟨hw, hk⟩)
      · exact Or.inl h
      · exact Or.inr ⟨hw, Or.inl hk⟩
      · exact Or.inr ⟨hw, Or.inr hk⟩
    · rintro (h | ⟨hw, hk | hk⟩)
      · exact Or.inl (Or.inl h)
      · exact Or.inl (Or.inr ⟨hw, hk⟩)
      · exact Or.inr ⟨hw, hk⟩

/-- The number of set bits. -/
def weight (m : BitVec w) : Nat :=
  (List.range w).countP m.getLsbD

/-- A mask whose bits all satisfy a predicate weighs at most the indices that do. -/
theorem weight_le_countP {m : BitVec w} {p : Nat → Bool}
    (h : ∀ k < w, m.getLsbD k = true → p k = true) : weight m ≤ (List.range w).countP p :=
  List.countP_mono_left fun k hk => h k (List.mem_range.1 hk)

end IndexChain.Core
