import Mathlib.Logic.Function.Basic

/-!
# Indexes with owners

An index maps keys to values, and notes for each owner the keys that were entered for it,
so that they can be erased when the owner goes. A key that is taken keeps its value, and
an owner that is noted keeps its note. What is found in the index belongs to an owner that
is noted with that key, as long as entries are made for owners that are not noted yet.
-/

namespace IndexChain.Core

variable {η κ ν : Type} [DecidableEq η] [DecidableEq κ]

/-- Values by key, and the keys entered by owner. -/
structure OwnedIndex (η κ ν : Type) where
  /-- The value of a key. -/
  entries : κ → Option ν := fun _ => none
  /-- The keys that were entered for an owner. -/
  inserted : η → Option (List κ) := fun _ => none

namespace OwnedIndex

/-- Enter one value, unless the key is taken. -/
def enter (m : κ → Option ν) (kv : κ × ν) : κ → Option ν :=
  if (m kv.1).isSome then m else Function.update m kv.1 (some kv.2)

/-- Enter the values of an owner, and note their keys. -/
def add (idx : OwnedIndex η κ ν) (h : η) (l : List (κ × ν)) : OwnedIndex η κ ν where
  entries := l.foldl enter idx.entries
  inserted := if (idx.inserted h).isSome then idx.inserted
    else Function.update idx.inserted h (some (l.map Prod.fst))

/-- Erase the keys that are noted for an owner, and the note. -/
def remove (idx : OwnedIndex η κ ν) (h : η) : OwnedIndex η κ ν :=
  match idx.inserted h with
  | none => idx
  | some keys =>
    { entries := fun k => if k ∈ keys then none else idx.entries k
      inserted := Function.update idx.inserted h none }

/-- Nothing is entered and no owner is noted. -/
structure IsEmpty (idx : OwnedIndex η κ ν) : Prop where
  entries : ∀ k, idx.entries k = none
  inserted : ∀ h, idx.inserted h = none

/-- What is entered belongs to an owner that is noted with its key. -/
def Owned (owner : κ → ν → η) (idx : OwnedIndex η κ ν) : Prop :=
  ∀ k v, idx.entries k = some v → ∃ keys, idx.inserted (owner k v) = some keys ∧ k ∈ keys

variable {owner : κ → ν → η} {idx : OwnedIndex η κ ν} {h h' : η} {l : List (κ × ν)}

/-- A value that is found after the entries was found before or is one of them. -/
theorem of_foldl_enter {m : κ → Option ν} {k : κ} {v : ν} (hk : l.foldl enter m k = some v) :
    m k = some v ∨ (k, v) ∈ l := by
  induction l generalizing m with
  | nil => exact Or.inl hk
  | cons kv l ih =>
    rcases ih hk with hbefore | hmem
    · rw [enter] at hbefore
      split at hbefore
      · exact Or.inl hbefore
      · by_cases heq : k = kv.1
        · subst heq
          rw [Function.update_self, Option.some.injEq] at hbefore
          exact Or.inr (List.mem_cons.2 (Or.inl (Prod.ext rfl hbefore.symm)))
        · rw [Function.update_of_ne heq] at hbefore
          exact Or.inl hbefore
    · exact Or.inr (List.mem_cons_of_mem _ hmem)

/-- Entries of an owner that is not noted yet keep every value owned. -/
theorem Owned.add (hidx : Owned owner idx) (hnew : idx.inserted h = none)
    (hl : ∀ kv ∈ l, owner kv.1 kv.2 = h) : Owned owner (idx.add h l) := by
  intro k v hk
  rw [OwnedIndex.add, hnew]
  rcases of_foldl_enter hk with hbefore | hmem
  · obtain ⟨keys, hkeys, hin⟩ := hidx k v hbefore
    have hne : owner k v ≠ h := by
      intro heq
      rw [heq, hnew] at hkeys
      cases hkeys
    exact ⟨keys, (Function.update_of_ne hne _ _).trans hkeys, hin⟩
  · refine ⟨l.map Prod.fst, ?_, List.mem_map_of_mem hmem⟩
    rw [hl _ hmem]
    exact Function.update_self _ _ _

/-- Erasing the keys of an owner keeps every other value owned. -/
theorem Owned.remove (hidx : Owned owner idx) (h : η) : Owned owner (idx.remove h) := by
  rw [OwnedIndex.remove]
  split
  · exact hidx
  · next keys hkeys =>
    intro k v hk
    obtain ⟨hnot, hk⟩ := Option.ite_none_left_eq_some.1 hk
    obtain ⟨keys', hkeys', hin⟩ := hidx k v hk
    have hne : owner k v ≠ h := by
      intro heq
      rw [heq, hkeys, Option.some.injEq] at hkeys'
      exact hnot (hkeys' ▸ hin)
    exact ⟨keys', (Function.update_of_ne hne _ _).trans hkeys', hin⟩

/-- The owners that are noted after an entry. -/
theorem inserted_add_of_ne (hne : h' ≠ h) : (idx.add h l).inserted h' = idx.inserted h' := by
  rw [add]
  split
  · rfl
  · exact Function.update_of_ne hne _ _

/-- An owner that is removed is not noted any more, and the others are as before. -/
theorem inserted_remove : (idx.remove h).inserted h' =
    if h' = h then none else idx.inserted h' := by
  rw [remove]
  split
  · next hnone =>
    split
    · next heq => rw [heq, hnone]
    · rfl
  · exact Function.update_apply _ _ _ _

end OwnedIndex

end IndexChain.Core
