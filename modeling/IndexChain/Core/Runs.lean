import Mathlib.Data.List.Basic

/-!
# Lists cut into runs

Rows claim the items of a list in order, one nonempty run each. A scan that lets each row
take the longest run it can leaves no more behind than any other way to cut the list.
-/

namespace IndexChain.Core

variable {ρ α : Type}

/-- A list starts with a nonempty run for each row, in order; what follows them is left. -/
inductive Runs (claims : ρ → α → Prop) : List ρ → List α → List α → Prop where
  | done (rest : List α) : Runs claims [] rest rest
  | run {row : ρ} {rows : List ρ} {as bs rest : List α} (nonempty : as ≠ [])
      (claimed : ∀ a ∈ as, claims row a) (after : Runs claims rows bs rest) :
      Runs claims (row :: rows) (as ++ bs) rest

/-- What is left when each row takes the longest run it can. -/
def leftover (takes : ρ → α → Bool) : List ρ → List α → List α
  | [], as => as
  | row :: rows, as => leftover takes rows (as.dropWhile (takes row))

/-- Dropping from a part of a run and what follows it ends in what follows. -/
theorem dropWhile_suffix_of_suffix {p : α → Bool} {as bs cs : List α} (hcs : cs <:+ as ++ bs)
    (has : ∀ a ∈ as, p a = true) : cs.dropWhile p <:+ bs := by
  rcases List.suffix_or_suffix_of_suffix hcs (List.suffix_append as bs) with hshort | hlong
  · exact (List.dropWhile_suffix p).trans hshort
  · obtain ⟨s, rfl⟩ := hlong
    obtain ⟨t, ht⟩ := hcs
    rw [← List.append_assoc] at ht
    have hts : t ++ s = as := List.append_cancel_right ht
    have hs : ∀ a ∈ s, p a = true := by
      intro a ha
      apply has
      rw [← hts]
      exact List.mem_append_right t ha
    rw [List.dropWhile_append_of_pos hs]
    exact List.dropWhile_suffix p

/-- However a list is cut into runs, the scan leaves at most what is left there. -/
theorem Runs.leftover_suffix {claims : ρ → α → Prop} {rows : List ρ} {as rest : List α}
    (h : Runs claims rows as rest) (takes : ρ → α → Bool)
    (htakes : ∀ {row a}, claims row a → takes row a = true) {cs : List α} (hcs : cs <:+ as) :
    leftover takes rows cs <:+ rest := by
  induction h generalizing cs with
  | done rest => exact hcs
  | run nonempty claimed after ih =>
    apply ih
    exact dropWhile_suffix_of_suffix hcs fun a ha => htakes (claimed a ha)

end IndexChain.Core
