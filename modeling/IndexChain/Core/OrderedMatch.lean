import Mathlib.Data.List.Forall2

/-!
# Matching one list into another, in order

Every entry of the first list takes an entry of the second one that comes after those the
entries before it have taken. Taking the first one that fits finds such a choice whenever
there is one.
-/

namespace IndexChain.Core

variable {α β : Type} {fits : α → β → Bool}

/-- The entries of the first list fit entries of the second one, in order. -/
def OrderedMatch (fits : α → β → Bool) (xs : List α) (ys : List β) : Prop :=
  ∃ taken, taken.Sublist ys ∧ List.Forall₂ (fun x y => fits x y = true) xs taken

theorem OrderedMatch.nil (ys : List β) : OrderedMatch fits [] ys :=
  ⟨[], List.nil_sublist ys, .nil⟩

theorem OrderedMatch.length_le {xs : List α} {ys : List β} (h : OrderedMatch fits xs ys) :
    xs.length ≤ ys.length := by
  obtain ⟨taken, hsub, hall⟩ := h
  rw [hall.length_eq]
  exact hsub.length_le

/-- An entry that fits may be taken at once. -/
theorem orderedMatch_of_fits {x : α} {y : β} {xs : List α} {ys : List β} (h : fits x y = true) :
    OrderedMatch fits (x :: xs) (y :: ys) ↔ OrderedMatch fits xs ys := by
  constructor
  · rintro ⟨taken, hsub, hall⟩
    cases hall with
    | cons hx hall => exact ⟨_, hsub.tail, hall⟩
  · rintro ⟨taken, hsub, hall⟩
    exact ⟨y :: taken, hsub.cons_cons y, .cons h hall⟩

/-- An entry that does not fit is passed over. -/
theorem orderedMatch_of_not_fits {x : α} {y : β} {xs : List α} {ys : List β}
    (h : fits x y = false) :
    OrderedMatch fits (x :: xs) (y :: ys) ↔ OrderedMatch fits (x :: xs) ys := by
  constructor
  · rintro ⟨taken, hsub, hall⟩
    obtain hsub | ⟨rest, rfl, -⟩ := List.sublist_cons_iff.1 hsub
    · exact ⟨taken, hsub, hall⟩
    · cases hall with
      | cons hx hall => exact absurd hx (by simp [h])
  · rintro ⟨taken, hsub, hall⟩
    exact ⟨taken, hsub.cons y, hall⟩

end IndexChain.Core
