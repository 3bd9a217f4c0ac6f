import Mathlib.Data.List.Basic
import Mathlib.Logic.Function.Basic

/-!
# Batches of writes

A database answers each key with a value or with nothing. A batch is a list of
writes and erasures that take effect in order, so that the last one on a key decides
the answer.
-/

namespace IndexChain.Core

variable {κ ν : Type} [DecidableEq κ]

/-- The answer of a database for each key. -/
abbrev Store (κ ν : Type) := κ → Option ν

/-- Writes and erasures in order; a key without a value is erased. -/
abbrev Batch (κ ν : Type) := List (κ × Option ν)

namespace Store

variable {db db' : Store κ ν} {batch : Batch κ ν} {k : κ}

/-- Apply a batch. -/
def writeBatch (db : Store κ ν) (batch : Batch κ ν) : Store κ ν :=
  batch.foldl (fun db op => Function.update db op.1 op.2) db

@[simp] theorem writeBatch_nil (db : Store κ ν) : db.writeBatch [] = db := rfl

@[simp] theorem writeBatch_cons (db : Store κ ν) (op : κ × Option ν) (batch : Batch κ ν) :
    db.writeBatch (op :: batch) = writeBatch (Function.update db op.1 op.2) batch := rfl

/-- A batch leaves the keys alone that it does not name. -/
theorem writeBatch_of_notMem (h : k ∉ batch.map Prod.fst) : db.writeBatch batch k = db k := by
  induction batch generalizing db with
  | nil => rfl
  | cons op batch ih =>
    rw [List.map_cons, List.mem_cons, not_or] at h
    rw [writeBatch_cons, ih h.2, Function.update_of_ne h.1]

/-- A key that the batch names is answered from the batch. -/
theorem writeBatch_mem (db : Store κ ν) (h : k ∈ batch.map Prod.fst) :
    (k, db.writeBatch batch k) ∈ batch := by
  induction batch generalizing db with
  | nil => cases h
  | cons op batch ih =>
    rw [writeBatch_cons]
    by_cases hmem : k ∈ batch.map Prod.fst
    · exact List.mem_cons_of_mem op (ih _ hmem)
    · rw [writeBatch_of_notMem hmem]
      rw [List.map_cons, List.mem_cons] at h
      obtain rfl : k = op.1 := h.resolve_right hmem
      rw [Function.update_self]
      exact List.mem_cons_self

/-- The answer for a named key does not depend on what was there before. -/
theorem writeBatch_congr (h : k ∈ batch.map Prod.fst) (db db' : Store κ ν) :
    db.writeBatch batch k = db'.writeBatch batch k := by
  induction batch generalizing db db' with
  | nil => cases h
  | cons op batch ih =>
    rw [writeBatch_cons, writeBatch_cons]
    by_cases hmem : k ∈ batch.map Prod.fst
    · exact ih hmem _ _
    · rw [writeBatch_of_notMem hmem, writeBatch_of_notMem hmem]
      rw [List.map_cons, List.mem_cons] at h
      obtain rfl : k = op.1 := h.resolve_right hmem
      rw [Function.update_self, Function.update_self]

/-- Erasing the keys that a batch names takes it back, if they had no answer before. -/
theorem writeBatch_undo {undo : Batch κ ν}
    (hkeys : ∀ k, k ∈ batch.map Prod.fst ↔ k ∈ undo.map Prod.fst) (hnone : ∀ op ∈ undo, op.2 = none)
    (hfree : ∀ k ∈ batch.map Prod.fst, db k = none) :
    (db.writeBatch batch).writeBatch undo = db := by
  funext k
  by_cases hmem : k ∈ batch.map Prod.fst
  · have hundo := writeBatch_mem (db.writeBatch batch) ((hkeys k).1 hmem)
    rw [hfree k hmem]
    exact hnone _ hundo
  · rw [writeBatch_of_notMem fun hin => hmem ((hkeys k).2 hin), writeBatch_of_notMem hmem]

/-- A batch that gives some keys the same answer leaves the others. -/
theorem writeBatch_const (db : Store κ ν) (keys : List κ) (o : Option ν) (k : κ) :
    db.writeBatch (keys.map fun k => (k, o)) k = if k ∈ keys then o else db k := by
  have hfst : (keys.map fun k => (k, o)).map Prod.fst = keys := by
    rw [List.map_map]
    exact List.map_id keys
  split
  · rename_i hmem
    have h := writeBatch_mem db (hfst ▸ hmem)
    obtain ⟨k', -, heq⟩ := List.mem_map.1 h
    exact (congrArg Prod.snd heq).symm
  · rename_i hmem
    refine writeBatch_of_notMem fun hin => hmem ?_
    rwa [hfst] at hin

/-- Erasing keys leaves the others. -/
theorem writeBatch_erase (db : Store κ ν) (keys : List κ) (k : κ) :
    db.writeBatch (keys.map fun k => (k, none)) k = if k ∈ keys then none else db k :=
  writeBatch_const db keys none k

/-- Batches one after the other. -/
theorem writeBatch_append (db : Store κ ν) (b b' : Batch κ ν) :
    db.writeBatch (b ++ b') = (db.writeBatch b).writeBatch b' :=
  List.foldl_append

end Store

end IndexChain.Core
