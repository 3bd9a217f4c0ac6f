import Mathlib.Data.List.DropRight

/-!
# Trimmed lists

A sparse array is stored as a list in which a designated value `d` marks an
empty cell, and empty cells at the end are dropped (`List.rdropWhile`). Emptying
a cell and trimming can be undone by `putAt`, which pads with `d` before it
writes. The predicate `p` recognises empty cells; it may accept more values than
`d` as long as the list at hand has none of them.
-/

namespace IndexChain.Core

variable {α : Type*} {p : α → Bool} {d : α}

/-- Write `x` at index `n`, padding with `d` when the list is too short. -/
def putAt (d : α) (l : List α) (n : Nat) (x : α) : List α :=
  (l ++ List.replicate (n + 1 - l.length) d).set n x

theorem getElem?_putAt (d : α) (l : List α) (n : Nat) (x : α) : (putAt d l n x)[n]? = some x := by
  unfold putAt
  rw [List.getElem?_set_self]
  rw [List.length_append, List.length_replicate]
  omega

/-- A full cell stays where it is when the list is trimmed. -/
theorem getElem?_rdropWhile {l : List α} {n : Nat} {x : α} (hx : ¬ p x = true) :
    (l.rdropWhile p)[n]? = some x ↔ l[n]? = some x := by
  constructor
  · intro h
    obtain ⟨t, ht⟩ := List.rdropWhile_prefix p l
    rw [← ht, List.getElem?_append_left (List.getElem?_eq_some_iff.1 h).1, h]
  · intro h
    rw [← @List.rdropWhile_append_rtakeWhile _ p l] at h
    by_cases hn : n < (l.rdropWhile p).length
    · rwa [List.getElem?_append_left hn] at h
    · rw [List.getElem?_append_right (by omega)] at h
      exact absurd (List.mem_rtakeWhile_imp (List.mem_of_getElem? h)) hx

/-- No empty cell other than `d`, and none at the end. -/
structure Trimmed (p : α → Bool) (d : α) (l : List α) : Prop where
  /-- The only empty cell value is `d`. -/
  blank : ∀ o ∈ l, p o = true → o = d
  /-- The last cell is not empty. -/
  trim : l.rdropWhile p = l

theorem Trimmed.nil : Trimmed p d [] where
  blank := by simp
  trim := by simp

theorem Trimmed.eq_nil_of_all {l : List α} (h : Trimmed p d l) (hp : ∀ o ∈ l, p o = true) :
    l = [] := by
  rw [← h.trim, List.rdropWhile_eq_nil_iff]
  exact hp

/-- Trimming a list whose empty cells are all `d` gives a trimmed list. -/
theorem trimmed_rdropWhile {l : List α} (h : ∀ o ∈ l, p o = true → o = d) :
    Trimmed p d (l.rdropWhile p) where
  blank := fun o ho => h o ((List.rdropWhile_prefix p l).subset ho)
  trim := List.rdropWhile_idempotent p l

theorem blank_set {l : List α} (h : ∀ o ∈ l, p o = true → o = d) {x : α}
    (hx : p x = true → x = d) (n : Nat) : ∀ o ∈ l.set n x, p o = true → o = d := by
  intro o ho hp
  rcases List.mem_or_eq_of_mem_set ho with hmem | rfl
  · exact h o hmem hp
  · exact hx hp

/-- Appending a full cell keeps a list trimmed. -/
theorem Trimmed.concat {l : List α} (h : Trimmed p d l) {x : α} (hx : p x = false) :
    Trimmed p d (l ++ [x]) where
  blank := by
    intro o ho hp
    rcases List.mem_append.1 ho with hmem | hmem
    · exact h.blank o hmem hp
    · rw [List.mem_singleton.1 hmem, hx] at hp
      cases hp
  trim := List.rdropWhile_concat_neg p l x (by simp [hx])

private theorem last_ne_of_trimmed {l : List α} (h : Trimmed p d l) (hl : l ≠ []) :
    p (l.getLast hl) = false := by
  have := List.rdropWhile_eq_self_iff.1 h.trim hl
  simpa using this

/-- Padding the trimmed list back recovers the list with the cell emptied. -/
private theorem trim_pad {l : List α} (h : Trimmed p d l) {n : Nat} (hn : n < l.length) :
    let t := (l.set n d).rdropWhile p
    t ++ List.replicate (n + 1 - t.length) d = l.set n d := by
  intro t
  have hsplit : t ++ (l.set n d).rtakeWhile p = l.set n d :=
    List.rdropWhile_append_rtakeWhile
  set tail := (l.set n d).rtakeWhile p with htail
  have hlen : t.length + tail.length = l.length := by
    have := congrArg List.length hsplit
    simpa using this
  -- every cell of the tail is empty, hence `d`
  have hall : tail = List.replicate tail.length d := by
    rw [List.eq_replicate_iff]
    refine ⟨rfl, fun o ho => ?_⟩
    have hp : p o = true := List.mem_rtakeWhile_imp ho
    have hmem : o ∈ l.set n d := by
      rw [← hsplit]
      exact List.mem_append_right t ho
    exact blank_set h.blank (fun _ => rfl) n o hmem hp
  by_cases hnil : tail = []
  · have hz : n + 1 - t.length = 0 := by
      rw [hnil, List.length_nil] at hlen
      omega
    rw [hz, List.replicate_zero]
    rw [hnil] at hsplit
    exact hsplit
  · -- the last cell became empty, so it is the one that was written
    have hne : l.set n d ≠ [] := by
      intro he
      rw [he, List.append_eq_nil_iff] at hsplit
      exact hnil hsplit.2
    have hlast : p ((l.set n d).getLast hne) = true := by
      by_contra hc
      exact hnil (List.rtakeWhile_eq_nil_iff.2 fun _ => hc)
    have hidx : n + 1 = l.length := by
      by_contra hc
      have hl : l ≠ [] := by
        rintro rfl
        simp at hn
      have hsame : (l.set n d).getLast hne = l.getLast hl := by
        rw [List.getLast_eq_getElem, List.getLast_eq_getElem]
        simp only [List.length_set]
        have hneq : n ≠ l.length - 1 := by omega
        exact List.getElem_set_of_ne hneq d _
      rw [hsame, last_ne_of_trimmed h hl] at hlast
      cases hlast
    have hrep : n + 1 - t.length = tail.length := by omega
    rw [hrep, ← hall]
    exact hsplit

/-- Emptying cell `n`, trimming and writing the old value back is the identity. -/
theorem putAt_rdropWhile_set {l : List α} (h : Trimmed p d l) {n : Nat} {x : α}
    (hx : l[n]? = some x) : putAt d ((l.set n d).rdropWhile p) n x = l := by
  obtain ⟨hn, hget⟩ := List.getElem?_eq_some_iff.1 hx
  unfold putAt
  rw [trim_pad h hn, List.set_set, ← hget]
  exact List.set_getElem_self hn

/-- The emptied cell reads as `d`, or is trimmed away. -/
theorem getElem?_rdropWhile_set {l : List α} {n : Nat} {x : α}
    (hx : ((l.set n d).rdropWhile p)[n]? = some x) : x = d := by
  obtain ⟨hn, hget⟩ := List.getElem?_eq_some_iff.1 hx
  have hpre := List.rdropWhile_prefix p (l.set n d)
  have hlt : n < l.length := by
    have := hpre.length_le
    rw [List.length_set] at this
    omega
  rw [← hget, hpre.getElem hn]
  exact List.getElem_set_self _

end IndexChain.Core
