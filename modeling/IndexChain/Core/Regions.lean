import Mathlib.Order.CompletePartialOrder
import Mathlib.Order.Interval.Set.Disjoint
import Mathlib.Data.List.Pairwise

/-!
# Regions laid out one after another

Regions lie in files that have a number of bytes in use. A region that starts where the
bytes in use end meets none of the regions before it, as long as the mark is never lowered
below the end of a region.
-/

namespace IndexChain.Core

variable {κ : Type*}

/-- Bytes of one file. -/
structure Region (κ : Type*) where
  /-- The file. -/
  file : κ
  /-- The first byte. -/
  start : Nat
  /-- The number of bytes. -/
  size : Nat
  deriving DecidableEq, Repr

namespace Region

/-- The bytes of a region. -/
def bytes (r : Region κ) : Set Nat := Set.Ico r.start (r.start + r.size)

/-- Two regions of one file have no byte in common. -/
def Apart (r r' : Region κ) : Prop := r.file = r'.file → Disjoint r.bytes r'.bytes

/-- A region that ends before another one starts is apart from it. -/
theorem apart_of_le {r r' : Region κ} (h : r'.start + r'.size ≤ r.start) : r.Apart r' := by
  intro _
  rw [bytes, bytes, Set.Ico_disjoint_Ico]
  exact (min_le_right _ _).trans (h.trans (le_max_left _ _))

end Region

/-- Regions that are apart and end within the bytes in use of their files. -/
structure Laid (used : κ → Nat) (regions : List (Region κ)) : Prop where
  covered : ∀ r ∈ regions, r.start + r.size ≤ used r.file
  apart : regions.Pairwise Region.Apart

namespace Laid

variable {used used' : κ → Nat} {regions : List (Region κ)}

theorem nil (used : κ → Nat) : Laid used [] := ⟨by simp, .nil⟩

/-- More bytes may be in use. -/
theorem mono (h : Laid used regions) (hle : ∀ k, used k ≤ used' k) : Laid used' regions := by
  refine ⟨?_, h.apart⟩
  intro r hr
  exact (h.covered r hr).trans (hle r.file)

/-- A region that starts at the mark of its file, with the mark raised over it. -/
theorem cons (h : Laid used regions) (hle : ∀ k, used k ≤ used' k) {file : κ} {size : Nat}
    (hsize : used file + size ≤ used' file) :
    Laid used' ({ file := file, start := used file, size := size } :: regions) := by
  constructor
  · rw [List.forall_mem_cons]
    exact ⟨hsize, (h.mono hle).covered⟩
  · rw [List.pairwise_cons]
    refine ⟨?_, h.apart⟩
    intro r hr hfile
    have hend : r.start + r.size ≤ used file := by
      rw [show file = r.file from hfile]
      exact h.covered r hr
    exact Region.apart_of_le hend hfile

end Laid

end IndexChain.Core
