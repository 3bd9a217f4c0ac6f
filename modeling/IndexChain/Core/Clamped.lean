import Mathlib.Algebra.BigOperators.Group.List.Basic
import Mathlib.Algebra.Order.Group.Int
import Mathlib.Algebra.Ring.Int.Defs

/-!
# Totals that stop at zero

A sequence of changes is undone from the last one back, on a total that is set to 0 whenever it
would fall below. What is left in the end depends on the lowest point of the running total.
-/

namespace IndexChain.Core

/-- A running total never falls below 0. -/
def Steady : Int → List Int → Prop
  | s, [] => 0 ≤ s
  | s, d :: ds => 0 ≤ s ∧ Steady (s + d) ds

/-- Undo changes, the last one first, without going below 0. -/
def undoClamped (x : Int) : List Int → Int
  | [] => x
  | d :: ds => max 0 (undoClamped x ds - d)

variable {x s : Int} {ds : List Int}

theorem steady_append {ds' : List Int} :
    Steady s (ds ++ ds') ↔ Steady s ds ∧ Steady (s + ds.sum) ds' := by
  induction ds generalizing s with
  | nil =>
    rw [List.nil_append, List.sum_nil, Int.add_zero]
    refine ⟨fun h => ⟨?_, h⟩, And.right⟩
    cases ds' with
    | nil => exact h
    | cons d ds' => exact h.1
  | cons d ds ih =>
    rw [List.cons_append, Steady, Steady, ih, List.sum_cons, Int.add_assoc, and_assoc]

/-- Gains keep a running total above 0. -/
theorem steady_of_nonneg (hs : 0 ≤ s) (hds : ∀ d ∈ ds, 0 ≤ d) : Steady s ds := by
  induction ds generalizing s with
  | nil => exact hs
  | cons d ds ih =>
    have hd := hds d List.mem_cons_self
    exact ⟨hs, ih (Int.add_nonneg hs hd) fun e he => hds e (List.mem_cons_of_mem _ he)⟩

/-- The running total after some of the changes. -/
theorem Steady.take_nonneg (h : Steady s ds) (n : Nat) : 0 ≤ s + (ds.take n).sum := by
  induction ds generalizing s n with
  | nil =>
    rw [List.take_nil, List.sum_nil, Int.add_zero]
    exact h
  | cons d ds ih =>
    cases n with
    | zero => simpa using h.1
    | succ n =>
      rw [List.take_succ_cons, List.sum_cons, ← Int.add_assoc]
      exact ih h.2 n

theorem undoClamped_append {ds' : List Int} :
    undoClamped x (ds ++ ds') = undoClamped (undoClamped x ds') ds := by
  induction ds with
  | nil => rfl
  | cons d ds ih => rw [List.cons_append, undoClamped, undoClamped, ih]

theorem undoClamped_nonneg (hx : 0 ≤ x) : 0 ≤ undoClamped x ds := by
  cases ds with
  | nil => exact hx
  | cons d ds => exact le_max_left _ _

/-- What is left is bounded exactly if the running total from the bound on stays above 0 and ends
above the total that was started from. -/
theorem undoClamped_le_iff :
    undoClamped x ds ≤ s ↔
      x ≤ s + ds.sum ∧ ∀ n < ds.length, 0 ≤ s + (ds.take n).sum := by
  induction ds generalizing s with
  | nil => simp [undoClamped]
  | cons d ds ih =>
    have hmove : undoClamped x ds - d ≤ s ↔ undoClamped x ds ≤ s + d := by omega
    rw [undoClamped, max_le_iff, hmove, ih, List.sum_cons, ← Int.add_assoc]
    constructor
    · rintro ⟨hs, hx, hrest⟩
      refine ⟨hx, fun n hn => ?_⟩
      cases n with
      | zero => simpa using hs
      | succ n =>
        rw [List.take_succ_cons, List.sum_cons, ← Int.add_assoc]
        exact hrest n (Nat.lt_of_succ_lt_succ hn)
    · rintro ⟨hx, hrest⟩
      have hs := hrest 0 (Nat.succ_pos _)
      refine ⟨by simpa using hs, hx, fun n hn => ?_⟩
      have hnext := hrest (n + 1) (Nat.succ_lt_succ hn)
      rwa [List.take_succ_cons, List.sum_cons, ← Int.add_assoc] at hnext

/-- The changes are undone exactly: the running total never falls below 0, and it ends where the
total is that was started from, or above and then it has been 0. -/
theorem undoClamped_eq_iff :
    undoClamped x ds = s ↔
      x ≤ s + ds.sum ∧ (∀ n < ds.length, 0 ≤ s + (ds.take n).sum) ∧
        (x = s + ds.sum ∨ ∃ n < ds.length, s + (ds.take n).sum = 0) := by
  have hle : undoClamped x ds ≤ s ↔
      x ≤ s + ds.sum ∧ ∀ n < ds.length, 0 ≤ s + (ds.take n).sum := undoClamped_le_iff
  have hbelow : undoClamped x ds ≤ s - 1 ↔
      x ≤ s - 1 + ds.sum ∧ ∀ n < ds.length, 0 ≤ s - 1 + (ds.take n).sum := undoClamped_le_iff
  constructor
  · intro heq
    obtain ⟨hx, hpos⟩ := hle.1 heq.le
    refine ⟨hx, hpos, ?_⟩
    by_contra hnot
    rw [not_or] at hnot
    refine absurd (hbelow.2 ⟨by omega, fun n hn => ?_⟩) (by omega)
    have hne : s + (ds.take n).sum ≠ 0 := fun hzero => hnot.2 ⟨n, hn, hzero⟩
    have hn := hpos n hn
    omega
  · rintro ⟨hx, hpos, hlast⟩
    refine le_antisymm (hle.2 ⟨hx, hpos⟩) (not_lt.1 fun hlt => ?_)
    obtain ⟨hx', hpos'⟩ := hbelow.1 (Int.le_sub_one_of_lt hlt)
    obtain heq | ⟨n, hn, hzero⟩ := hlast
    · omega
    · have hn := hpos' n hn
      omega

/-- A total goes along with changes, and never below 0. -/
structure Follows (s : Int) (ds : List Int) (s' : Int) : Prop where
  /-- It never falls below 0. -/
  steady : Steady s ds
  /-- It ends at the sum. -/
  total : s' = s + ds.sum

namespace Follows

variable {s' s'' : Int} {ds' : List Int}

theorem refl (h : 0 ≤ s) : Follows s [] s :=
  ⟨h, (Int.add_zero s).symm⟩

theorem trans (h : Follows s ds s') (h' : Follows s' ds' s'') : Follows s (ds ++ ds') s'' where
  steady := steady_append.2 ⟨h.steady, h.total ▸ h'.steady⟩
  total := by rw [h'.total, h.total, List.sum_append, Int.add_assoc]

end Follows

end IndexChain.Core
