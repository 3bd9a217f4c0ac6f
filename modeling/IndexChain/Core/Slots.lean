import Mathlib.Data.List.GetD
import Mathlib.Order.Nat

/-!
# Files of equal records

A file of records of one size is written at positions. A position behind the end is reached by
filling the gap with blanks. What is written at a position depends on nothing else in the file,
and what stands before it is kept.
-/

namespace IndexChain.Core

/-- Write a record at a position. -/
def writeSlot {α : Type} (blank : α) (l : List α) (pos : Nat) (a : α) : List α :=
  if pos < l.length then l.set pos a else l ++ List.replicate (pos - l.length) blank ++ [a]

section WriteSlot

variable {α : Type} {blank a : α} {l : List α} {pos i : Nat}

theorem length_writeSlot : (writeSlot blank l pos a).length = max l.length (pos + 1) := by
  unfold writeSlot
  split
  · rw [List.length_set]
    omega
  · simp
    omega

@[simp] theorem writeSlot_self : (writeSlot blank l pos a)[pos]? = some a := by
  unfold writeSlot
  split
  · rename_i hpos
    exact List.getElem?_set_self hpos
  · rename_i hpos
    have hlen : (l ++ List.replicate (pos - l.length) blank).length = pos := by
      simp
      omega
    rw [List.getElem?_append_right hlen.le, hlen]
    simp

/-- What stands behind the position is kept. -/
theorem writeSlot_of_gt (h : pos < i) : (writeSlot blank l pos a)[i]? = l[i]? := by
  unfold writeSlot
  split
  · exact List.getElem?_set_ne h.ne
  · rename_i hpos
    rw [List.getElem?_eq_none (by simp; omega), List.getElem?_eq_none (by omega)]

/-- What stands before the position is kept, or filled with blanks. -/
theorem writeSlot_of_lt (h : i < pos) :
    (writeSlot blank l pos a)[i]? = some (l[i]?.getD blank) := by
  unfold writeSlot
  split
  · rename_i hpos
    rw [List.getElem?_set_ne h.ne', List.getElem?_eq_getElem (h.trans hpos)]
    rfl
  · rename_i hpos
    by_cases hi : i < l.length
    · rw [List.append_assoc, List.getElem?_append_left hi, List.getElem?_eq_getElem hi]
      rfl
    · have hlen : i < (l ++ List.replicate (pos - l.length) blank).length := by
        simp
        omega
      rw [List.getElem?_append_left hlen, List.getElem?_append_right (not_lt.1 hi),
        List.getElem?_eq_none (not_lt.1 hi), List.getElem?_replicate_of_lt (by omega)]
      rfl

/-- A file that reaches the position has no gap. -/
theorem writeSlot_of_filled (h : i < pos) (hfilled : pos ≤ l.length) :
    (writeSlot blank l pos a)[i]? = l[i]? := by
  rw [writeSlot_of_lt h, List.getElem?_eq_getElem (h.trans_le hfilled)]
  rfl

/-- The last of two writes at one position counts. -/
@[simp] theorem writeSlot_writeSlot (b : α) :
    writeSlot blank (writeSlot blank l pos a) pos b = writeSlot blank l pos b := by
  ext1 i
  rcases lt_trichotomy i pos with hlt | rfl | hgt
  · rw [writeSlot_of_filled hlt (by rw [length_writeSlot]; omega), writeSlot_of_lt hlt,
      writeSlot_of_lt hlt]
  · rw [writeSlot_self, writeSlot_self]
  · rw [writeSlot_of_gt hgt, writeSlot_of_gt hgt, writeSlot_of_gt hgt]

end WriteSlot

end IndexChain.Core
