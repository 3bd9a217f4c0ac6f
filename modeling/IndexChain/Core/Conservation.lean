import Mathlib.Algebra.BigOperators.Group.Finset.Basic
import Mathlib.Algebra.Order.BigOperators.Group.Finset
import Mathlib.Data.BitVec

/-!
# Conservation over a set of unspent items

A step removes the items `P` from a finite set `U` and adds the items `N`. Values
may be reassessed by the step, as long as the items that stay keep theirs.
-/

namespace IndexChain.Core

variable {α : Type*} [DecidableEq α] {f f' : α → ℤ} {U P Q N : Finset α}

/-- The total does not grow when the new items are worth at most some of the removed ones. -/
theorem sum_step_le (hQU : Q ⊆ U) (hQP : Q ⊆ P) (hf' : ∀ o, 0 ≤ f' o)
    (hagree : ∀ o ∈ U, f' o = f o) (hnew : ∑ o ∈ N, f' o ≤ ∑ o ∈ Q, f o) :
    ∑ o ∈ (U \ P) ∪ N, f' o ≤ ∑ o ∈ U, f o := by
  have hsub : U \ P ⊆ U \ Q := Finset.sdiff_subset_sdiff (Finset.Subset.refl U) hQP
  calc ∑ o ∈ (U \ P) ∪ N, f' o
      ≤ ∑ o ∈ U \ P, f' o + ∑ o ∈ N, f' o := by
        rw [← Finset.sum_union_inter]
        exact le_add_of_nonneg_right (Finset.sum_nonneg fun o _ => hf' o)
    _ ≤ ∑ o ∈ U \ Q, f' o + ∑ o ∈ Q, f o :=
        add_le_add (Finset.sum_le_sum_of_subset_of_nonneg hsub fun o _ _ => hf' o) hnew
    _ = ∑ o ∈ U \ Q, f o + ∑ o ∈ Q, f o := by
        rw [Finset.sum_congr rfl fun o ho => hagree o (Finset.mem_sdiff.1 ho).1]
    _ = ∑ o ∈ U, f o := Finset.sum_sdiff hQU

/-- Where one function is below another on a list, the sums agree only if the functions do. -/
theorem sum_map_eq_iff {β : Type*} {l : List β} {f g : β → ℤ} (h : ∀ x ∈ l, g x ≤ f x) :
    (l.map f).sum = (l.map g).sum ↔ ∀ x ∈ l, f x = g x := by
  induction l with
  | nil => simp
  | cons x l ih =>
    have hx : g x ≤ f x := h x (by simp)
    have hl : (l.map g).sum ≤ (l.map f).sum :=
      List.sum_le_sum fun y hy => h y (List.mem_cons_of_mem x hy)
    simp only [List.map_cons, List.sum_cons, List.forall_mem_cons]
    rw [← ih fun y hy => h y (List.mem_cons_of_mem x hy)]
    omega

/-- A sum with one entry that counts. -/
theorem sum_map_eq_single {β : Type*} {l : List β} {f : β → ℤ} {k : ℕ} {x : β}
    (hx : l[k]? = some x) (h : ∀ i y, i ≠ k → l[i]? = some y → f y = 0) :
    (l.map f).sum = f x := by
  induction l generalizing k with
  | nil => simp at hx
  | cons a l ih =>
    rw [List.map_cons, List.sum_cons]
    cases k with
    | zero =>
      obtain rfl : a = x := by simpa using hx
      have hrest : (l.map f).sum = 0 := by
        apply List.sum_eq_zero
        intro v hv
        obtain ⟨y, hy, rfl⟩ := List.mem_map.1 hv
        obtain ⟨i, hi⟩ := List.getElem?_of_mem hy
        exact h (i + 1) y (by omega) (by simpa using hi)
      rw [hrest, add_zero]
    | succ k =>
      rw [h 0 a (by omega) rfl, zero_add]
      exact ih (by simpa using hx) fun i y hi hy => h (i + 1) y (by omega) (by simpa using hy)

end IndexChain.Core
