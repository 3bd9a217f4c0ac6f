import IndexChain.Core.Batch
import Mathlib.Algebra.BigOperators.Group.Finset.Basic
import Mathlib.Algebra.BigOperators.Group.Finset.Piecewise
import Mathlib.Algebra.Order.BigOperators.Group.Finset
import Mathlib.Algebra.Order.Group.Int
import Mathlib.Algebra.Ring.Int.Defs

/-!
# Totals over a store

An iterator goes through the entries of a store, each once. A sum over what it finds is a sum
over any set of keys that has them all, and a batch that gives some keys the same answer changes
it by the parts of these keys.
-/

namespace IndexChain.Core

variable {κ ν : Type} [DecidableEq κ]

/-- The list has every entry of a store once. -/
structure Iterates (l : List (κ × ν)) (db : Store κ ν) : Prop where
  /-- No key comes twice. -/
  nodup : (l.map Prod.fst).Nodup
  /-- The entries are those of the store. -/
  mem_iff : ∀ k v, (k, v) ∈ l ↔ db k = some v

omit [DecidableEq κ] in
theorem Iterates.nil : Iterates ([] : List (κ × ν)) fun _ => none where
  nodup := List.nodup_nil
  mem_iff := by
    intro k v
    constructor
    · exact fun h => absurd h List.not_mem_nil
    · intro h
      cases h

theorem Iterates.singleton (k : κ) (v : ν) :
    Iterates [(k, v)] (Function.update (fun _ => none) k (some v)) where
  nodup := List.nodup_singleton k
  mem_iff := by
    intro k' v'
    rw [List.mem_singleton, Prod.mk.injEq, Function.update_apply]
    constructor
    · rintro ⟨rfl, rfl⟩
      exact if_pos rfl
    · intro h
      split at h
      · rename_i heq
        exact ⟨heq, (Option.some.inj h).symm⟩
      · cases h

/-- The sum of a weight over the entries of some keys. -/
def storeTotal (g : κ → ν → Int) (F : Finset κ) (db : Store κ ν) : Int :=
  ∑ k ∈ F, (db k).elim 0 (g k)

variable {g : κ → ν → Int} {F : Finset κ} {db : Store κ ν} {l : List (κ × ν)}

/-- What an iterator adds up. -/
theorem Iterates.sum_eq (h : Iterates l db) (hF : ∀ e ∈ l, e.1 ∈ F) :
    (l.map fun e => g e.1 e.2).sum = storeTotal g F db := by
  have hsub : (l.map Prod.fst).toFinset ⊆ F := by
    intro k hk
    obtain ⟨e, he, rfl⟩ := List.mem_map.1 (List.mem_toFinset.1 hk)
    exact hF e he
  have hrest : ∀ k ∈ F, k ∉ (l.map Prod.fst).toFinset → (db k).elim 0 (g k) = 0 := by
    intro k _ hk
    cases hdb : db k with
    | none => rfl
    | some v =>
      have hmem := (h.mem_iff k v).2 hdb
      exact absurd (List.mem_toFinset.2 (List.mem_map_of_mem hmem)) hk
  rw [storeTotal, ← Finset.sum_subset hsub hrest, List.sum_toFinset _ h.nodup, List.map_map]
  congr 1
  refine List.map_congr_left fun e he => ?_
  rw [Function.comp, (h.mem_iff e.1 e.2).1 he, Option.elim_some]

omit [DecidableEq κ] in
theorem storeTotal_nonneg (hg : ∀ k v, db k = some v → 0 ≤ g k v) : 0 ≤ storeTotal g F db := by
  refine Finset.sum_nonneg fun k _ => ?_
  cases hdb : db k with
  | none => exact le_refl _
  | some v => exact hg k v hdb

/-- A batch that gives some keys the same answer changes the total by the parts of these keys. -/
theorem storeTotal_writeBatch (db : Store κ ν) {keys : List κ} (hF : ∀ k ∈ keys, k ∈ F)
    (o : Option ν) :
    storeTotal g F (db.writeBatch (keys.map fun k => (k, o))) +
        ∑ k ∈ keys.toFinset, (db k).elim 0 (g k) =
      storeTotal g F db + ∑ k ∈ keys.toFinset, o.elim 0 (g k) := by
  have hsub : keys.toFinset ⊆ F := fun k hk => hF k (List.mem_toFinset.1 hk)
  have hin : ∑ k ∈ keys.toFinset, (db.writeBatch (keys.map fun k => (k, o)) k).elim 0 (g k) =
      ∑ k ∈ keys.toFinset, o.elim 0 (g k) := by
    refine Finset.sum_congr rfl fun k hk => ?_
    rw [Store.writeBatch_const, if_pos (List.mem_toFinset.1 hk)]
  have hout : ∑ k ∈ F \ keys.toFinset,
      (db.writeBatch (keys.map fun k => (k, o)) k).elim 0 (g k) =
        ∑ k ∈ F \ keys.toFinset, (db k).elim 0 (g k) := by
    refine Finset.sum_congr rfl fun k hk => ?_
    have hnot := (Finset.mem_sdiff.1 hk).2
    rw [Store.writeBatch_const, if_neg fun hmem => hnot (List.mem_toFinset.2 hmem)]
  rw [storeTotal, storeTotal, ← Finset.sum_sdiff hsub, ← Finset.sum_sdiff hsub, hin, hout]
  omega

end IndexChain.Core
