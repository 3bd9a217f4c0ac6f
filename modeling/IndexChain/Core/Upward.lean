import Mathlib.Data.List.Basic

/-!
# Ways up a forest

A node has at most one node above it. The way of a node goes up from it, until a node
where it stops; `FirstBad` is the first bad node that it meets.
-/

namespace IndexChain.Upward

section Defs

variable {α : Type*} (up : α → Option α) (stop bad : α → Bool)

/-- A node and the ones above it, at most `fuel` of them. -/
def way : Nat → α → List α
  | 0, _ => []
  | fuel + 1, a => a :: (up a).elim [] (way fuel)

/-- The second node is on the way of the first. -/
inductive OnWay : α → α → Prop where
  | here {a : α} (hstop : stop a = false) : OnWay a a
  | above {a p x : α} (hstop : stop a = false) (hup : up a = some p) (hway : OnWay p x) :
      OnWay a x

/-- The second node is the first bad one on the way of the first. -/
inductive FirstBad : α → α → Prop where
  | here {a : α} (hstop : stop a = false) (hbad : bad a = true) : FirstBad a a
  | above {a p x : α} (hstop : stop a = false) (hgood : bad a = false) (hup : up a = some p)
      (hfirst : FirstBad p x) : FirstBad a x

end Defs

variable {α : Type*} {up : α → Option α} {stop bad : α → Bool} {a p x y : α}

theorem FirstBad.onWay (h : FirstBad up stop bad a x) : OnWay up stop a x := by
  induction h with
  | here hstop _ => exact .here hstop
  | above hstop _ hup _ ih => exact .above hstop hup ih

theorem FirstBad.isBad (h : FirstBad up stop bad a x) : bad x = true := by
  induction h with
  | here _ hbad => exact hbad
  | above _ _ _ _ ih => exact ih

theorem FirstBad.self (h : FirstBad up stop bad a x) : FirstBad up stop bad x x := by
  induction h with
  | here hstop hbad => exact .here hstop hbad
  | above _ _ _ _ ih => exact ih

/-- There is one first bad node. -/
theorem FirstBad.unique (hx : FirstBad up stop bad a x) (hy : FirstBad up stop bad a y) :
    x = y := by
  induction hx with
  | here _ hbad =>
    cases hy with
    | here => rfl
    | above _ hgood =>
      rw [hbad] at hgood
      cases hgood
  | above _ hgood hup _ ih =>
    cases hy with
    | here _ hbad =>
      rw [hbad] at hgood
      cases hgood
    | above _ _ hup' hfirst =>
      rw [hup] at hup'
      cases hup'
      exact ih hfirst

theorem FirstBad.goes (h : FirstBad up stop bad a x) : stop a = false := by
  cases h with
  | here hstop _ => exact hstop
  | above hstop _ _ _ => exact hstop

/-- The first bad node of a good node is that of the node above it. -/
theorem firstBad_of_good (hstop : stop a = false) (hgood : bad a = false) :
    FirstBad up stop bad a x ↔ ∃ p, up a = some p ∧ FirstBad up stop bad p x := by
  constructor
  · intro h
    cases h with
    | here _ hbad =>
      rw [hgood] at hbad
      cases hbad
    | above _ _ hup hfirst => exact ⟨_, hup, hfirst⟩
  · rintro ⟨p, hup, hfirst⟩
    exact .above hstop hgood hup hfirst

/-- A way to another node goes on above the first one. -/
theorem FirstBad.next (h : FirstBad up stop bad a x) (hne : a ≠ x) :
    ∃ p, up a = some p ∧ FirstBad up stop bad p x := by
  cases h with
  | here => exact absurd rfl hne
  | above _ _ hup hfirst => exact ⟨_, hup, hfirst⟩

/-- A way with a bad node on it has a first one. -/
theorem OnWay.exists_firstBad (h : OnWay up stop a x) (hbad : bad x = true) :
    ∃ y, FirstBad up stop bad a y := by
  induction h with
  | here hstop => exact ⟨_, .here hstop hbad⟩
  | @above a p x hstop hup _ ih =>
    cases hself : bad a with
    | true => exact ⟨a, .here hstop hself⟩
    | false =>
      obtain ⟨y, hy⟩ := ih hbad
      exact ⟨y, .above hstop hself hup hy⟩

/-- The nodes before the first bad one have it as theirs. -/
theorem FirstBad.of_mem_takeWhile [DecidableEq α] {fuel : Nat} (h : FirstBad up stop bad a x)
    (hy : y ∈ (way up fuel a).takeWhile (· ≠ x)) : y ≠ x ∧ FirstBad up stop bad y x := by
  induction fuel generalizing a with
  | zero => cases hy
  | succ fuel ih =>
    rw [way, List.takeWhile_cons] at hy
    split at hy
    · rename_i hne
      have hne' : a ≠ x := of_decide_eq_true hne
      rcases List.mem_cons.1 hy with rfl | hrest
      · exact ⟨hne', h⟩
      · obtain ⟨p, hup, hfirst⟩ := h.next hne'
        rw [hup] at hrest
        exact ih hfirst hrest
    · cases hy

end IndexChain.Upward
