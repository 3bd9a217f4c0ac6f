import Mathlib.Data.Finset.Basic
import Mathlib.Logic.Function.Basic

/-!
# Sets by key

A map from keys to sets. Inserting a value at a key that is missing makes a new set, and a
set that loses its last value is dropped, so that a key is there exactly when it has a value.
-/

namespace IndexChain.Core

variable {κ ν : Type} [DecidableEq κ] [DecidableEq ν]

/-- The set of a key, or nothing. -/
abbrev SetIndex (κ ν : Type) := κ → Option (Finset ν)

namespace SetIndex

/-- Insert a value at a key, which may be missing. -/
def insert (v : ν) (idx : SetIndex κ ν) (k : κ) : SetIndex κ ν :=
  Function.update idx k (some (Insert.insert v ((idx k).getD ∅)))

/-- Erase a value at a key, and the key when nothing is left. -/
def erase (v : ν) (idx : SetIndex κ ν) (k : κ) : SetIndex κ ν :=
  match idx k with
  | none => idx
  | some values =>
    let values := values.erase v
    Function.update idx k (if values = ∅ then none else some values)

/-- A value is in the set of a key. -/
def Holds (idx : SetIndex κ ν) (k : κ) (v : ν) : Prop :=
  ∃ values, idx k = some values ∧ v ∈ values

/-- No set is empty. -/
def NoEmpty (idx : SetIndex κ ν) : Prop :=
  ∀ k values, idx k = some values → values ≠ ∅

variable {idx : SetIndex κ ν} {k k' : κ} {v v' : ν}

theorem holds_insert : (idx.insert v k).Holds k' v' ↔ idx.Holds k' v' ∨ k' = k ∧ v' = v := by
  by_cases hk : k' = k
  · subst hk
    simp only [Holds, insert, Function.update_self, Option.some.injEq, exists_eq_left',
      Finset.mem_insert, true_and]
    cases idx k' with
    | none => simp
    | some values => simp [or_comm]
  · simp [Holds, insert, hk]

/-- Exactly one pair is erased. -/
theorem holds_erase : (idx.erase v k).Holds k' v' ↔ idx.Holds k' v' ∧ ¬ (k' = k ∧ v' = v) := by
  rw [erase]
  split
  · next hnone =>
    refine ⟨fun h => ⟨h, ?_⟩, And.left⟩
    rintro ⟨rfl, -⟩
    obtain ⟨values, hvalues, -⟩ := h
    rw [hnone] at hvalues
    cases hvalues
  · next values hvalues =>
    by_cases hk : k' = k
    · subst hk
      simp only [Holds, Function.update_self, hvalues, Option.some.injEq, exists_eq_left',
        true_and]
      split
      · next hempty =>
        have hnot : ¬ v' ∈ values.erase v := hempty ▸ Finset.notMem_empty v'
        rw [Finset.mem_erase] at hnot
        simp only [reduceCtorEq, false_and, exists_false, false_iff]
        exact fun h => hnot ⟨h.2, h.1⟩
      · simp [and_comm]
    · simp [Holds, hk]

theorem NoEmpty.insert (h : idx.NoEmpty) : (idx.insert v k).NoEmpty := by
  intro k' values hvalues
  by_cases hk : k' = k
  · subst hk
    rw [SetIndex.insert, Function.update_self, Option.some.injEq] at hvalues
    subst hvalues
    exact Finset.insert_ne_empty v _
  · rw [SetIndex.insert, Function.update_of_ne hk] at hvalues
    exact h k' values hvalues

theorem NoEmpty.erase (h : idx.NoEmpty) : (idx.erase v k).NoEmpty := by
  rw [SetIndex.erase]
  split
  · exact h
  · intro k' values' hvalues'
    by_cases hk : k' = k
    · subst hk
      rw [Function.update_self] at hvalues'
      obtain ⟨hne, heq⟩ := Option.ite_none_left_eq_some.1 hvalues'
      cases heq
      exact hne
    · rw [Function.update_of_ne hk] at hvalues'
      exact h k' values' hvalues'

/-! ## A value at many keys -/

theorem holds_foldl_insert (ks : List κ) :
    (ks.foldl (insert v) idx).Holds k' v' ↔ idx.Holds k' v' ∨ k' ∈ ks ∧ v' = v := by
  induction ks generalizing idx with
  | nil => simp
  | cons k ks ih =>
    rw [List.foldl_cons, ih, holds_insert, List.mem_cons, or_and_right, or_assoc]

theorem holds_foldl_erase (ks : List κ) :
    (ks.foldl (erase v) idx).Holds k' v' ↔ idx.Holds k' v' ∧ ¬ (k' ∈ ks ∧ v' = v) := by
  induction ks generalizing idx with
  | nil => simp
  | cons k ks ih =>
    rw [List.foldl_cons, ih, holds_erase, List.mem_cons, or_and_right, not_or, and_assoc]

theorem NoEmpty.foldl_insert (h : idx.NoEmpty) (ks : List κ) :
    NoEmpty (ks.foldl (SetIndex.insert v) idx) := by
  induction ks generalizing idx with
  | nil => exact h
  | cons k ks ih => exact ih h.insert

theorem NoEmpty.foldl_erase (h : idx.NoEmpty) (ks : List κ) :
    NoEmpty (ks.foldl (SetIndex.erase v) idx) := by
  induction ks generalizing idx with
  | nil => exact h
  | cons k ks ih => exact ih h.erase

end SetIndex

end IndexChain.Core
