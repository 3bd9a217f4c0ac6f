import Mathlib.Data.List.Basic
import Mathlib.Data.List.Nodup

/-!
# Sets with a key

A container that holds at most one element of a key, kept in the order of a comparison
of keys. Inserting an element whose key is taken changes nothing.
-/

namespace IndexChain.Core

variable {α κ : Type}

/-- Elements with distinct keys, in the order of iteration. -/
structure Keyed (key : α → κ) where
  /-- The elements. -/
  toList : List α := []
  /-- No key occurs twice. -/
  unique : (toList.map key).Nodup := by exact List.nodup_nil

namespace Keyed

variable {key : α → κ}

/-- Insert before the first element with a larger key. -/
def place (lt : κ → κ → Bool) (key : α → κ) (a : α) : List α → List α
  | [] => [a]
  | b :: l => if lt (key a) (key b) then a :: b :: l else b :: place lt key a l

theorem place_perm (lt : κ → κ → Bool) (a : α) (l : List α) : (place lt key a l).Perm (a :: l) := by
  induction l with
  | nil => exact List.Perm.refl _
  | cons b l ih =>
    rw [place]
    split
    · exact List.Perm.refl _
    · exact (ih.cons b).trans (List.Perm.swap a b l)

/-- A key determines its element. -/
theorem eq_of_key {s : Keyed key} {a b : α} (ha : a ∈ s.toList) (hb : b ∈ s.toList)
    (h : key a = key b) : a = b :=
  List.inj_on_of_nodup_map s.unique ha hb h

variable [DecidableEq κ]

/-- Whether a key is there. -/
def contains (s : Keyed key) (k : κ) : Bool :=
  (s.toList.map key).contains k

/-- The element of a key. -/
def find? (s : Keyed key) (k : κ) : Option α :=
  s.toList.find? fun a => key a == k

/-- Insert an element unless its key is taken. -/
def insert (lt : κ → κ → Bool) (s : Keyed key) (a : α) : Keyed key :=
  if h : s.contains (key a) = true then s
  else
    { toList := place lt key a s.toList
      unique := by
        have hperm : (place lt key a s.toList).Perm (a :: s.toList) := place_perm lt a s.toList
        rw [(hperm.map key).nodup_iff, List.map_cons, List.nodup_cons]
        exact ⟨fun hmem => h (List.contains_iff_mem.2 hmem), s.unique⟩ }

/-- Remove the element of a key. -/
def erase (s : Keyed key) (k : κ) : Keyed key where
  toList := s.toList.filter fun a => !(key a == k)
  unique := s.unique.sublist (List.filter_sublist.map key)

variable {lt : κ → κ → Bool} {s : Keyed key} {a b : α} {k : κ}

theorem contains_iff : s.contains k = true ↔ ∃ a ∈ s.toList, key a = k := by
  rw [contains, List.contains_iff_mem, List.mem_map]

theorem find?_eq_some_iff : s.find? k = some a ↔ a ∈ s.toList ∧ key a = k := by
  constructor
  · intro h
    exact ⟨List.mem_of_find?_eq_some h, by simpa using List.find?_some h⟩
  · rintro ⟨ha, rfl⟩
    unfold find?
    cases h : s.toList.find? fun b => key b == key a with
    | none =>
      have hne := List.find?_eq_none.1 h a ha
      rw [beq_self_eq_true] at hne
      exact absurd rfl hne
    | some b =>
      have hkey : key b = key a := by simpa using List.find?_some h
      rw [eq_of_key (List.mem_of_find?_eq_some h) ha hkey]

theorem find?_eq_none_iff : s.find? k = none ↔ s.contains k = false := by
  rw [find?, List.find?_eq_none, ← Bool.not_eq_true, contains_iff]
  constructor
  · rintro h ⟨a, ha, hk⟩
    exact h a ha (by rw [hk, beq_self_eq_true])
  · intro h a ha hk
    exact h ⟨a, ha, by simpa using hk⟩

@[simp] theorem mem_insert :
    b ∈ (s.insert lt a).toList ↔ b ∈ s.toList ∨ (b = a ∧ s.contains (key a) = false) := by
  unfold insert
  split
  · rename_i h
    simp [h]
  · rename_i h
    have hfalse : s.contains (key a) = false := Bool.eq_false_iff.2 h
    dsimp only
    rw [(place_perm lt a s.toList).mem_iff, List.mem_cons, hfalse]
    simp [or_comm]

@[simp] theorem mem_erase : b ∈ (s.erase k).toList ↔ b ∈ s.toList ∧ key b ≠ k := by
  simp [erase]

/-- A new element comes on top of the others. -/
theorem perm_insert (h : s.contains (key a) = false) :
    (s.insert lt a).toList.Perm (a :: s.toList) := by
  unfold insert
  rw [dif_neg (Bool.eq_false_iff.1 h)]
  exact place_perm lt a s.toList

/-- Erasing a key takes its element out. -/
theorem perm_erase (ha : a ∈ s.toList) : s.toList.Perm (a :: (s.erase (key a)).toList) := by
  classical
  have herase : (s.erase (key a)).toList = s.toList.erase a := by
    rw [s.unique.of_map.erase_eq_filter]
    refine List.filter_congr fun b hb => ?_
    by_cases hkey : key b = key a
    · simp [eq_of_key hb ha hkey]
    · have hne : b ≠ a := fun h => hkey (congrArg key h)
      rw [beq_eq_false_iff_ne.2 hkey, bne_iff_ne.2 hne]
      rfl
  rw [herase]
  exact List.perm_cons_erase ha

end Keyed

end IndexChain.Core
