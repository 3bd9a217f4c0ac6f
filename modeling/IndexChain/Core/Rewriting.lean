import Mathlib.Algebra.BigOperators.Group.List.Basic
import Mathlib.Algebra.Ring.Int.Defs

/-!
# Rewriting a list of instructions

A machine takes the instructions of a list one after the other and can get stuck. A window
of the list may be replaced when the new instructions do what the old ones did wherever
these do not get stuck. A quantity that each instruction changes by its own amount is
changed by the sum of the amounts.
-/

namespace IndexChain.Core

section

variable {σ α : Type}

theorem foldlM_append_eq_some {step : σ → α → Option σ} {xs ys : List α} {s s' : σ} :
    (xs ++ ys).foldlM step s = some s' ↔
      ∃ t, xs.foldlM step s = some t ∧ ys.foldlM step t = some s' := by
  rw [List.foldlM_append]
  exact Option.bind_eq_some_iff

theorem foldlM_cons_eq_some {step : σ → α → Option σ} {x : α} {xs : List α} {s s' : σ} :
    (x :: xs).foldlM step s = some s' ↔
      ∃ t, step s x = some t ∧ xs.foldlM step t = some s' := by
  rw [List.foldlM_cons]
  exact Option.bind_eq_some_iff

/-- Where the instructions `old` can be carried out, `new` can be, and does the same. -/
def Replaces (step : σ → α → Option σ) (old new : List α) : Prop :=
  ∀ s s', old.foldlM step s = some s' → new.foldlM step s = some s'

/-- A window may be replaced in any list. -/
theorem Replaces.context {step : σ → α → Option σ} {old new : List α}
    (h : Replaces step old new) (pre suf : List α) :
    Replaces step (pre ++ old ++ suf) (pre ++ new ++ suf) := by
  intro s s' hrun
  obtain ⟨t, hpre, hsuf⟩ := foldlM_append_eq_some.mp hrun
  obtain ⟨u, hpre, hold⟩ := foldlM_append_eq_some.mp hpre
  exact foldlM_append_eq_some.mpr ⟨t, foldlM_append_eq_some.mpr ⟨u, hpre, h u t hold⟩, hsuf⟩

/-- A quantity that every instruction changes by its own amount. -/
theorem foldlM_measure {step : σ → α → Option σ} {measure : σ → ℤ} {amount : α → ℤ}
    (hstep : ∀ s x s', step s x = some s' → measure s' = measure s + amount x)
    {xs : List α} {s s' : σ} (h : xs.foldlM step s = some s') :
    measure s' = measure s + (xs.map amount).sum := by
  induction xs generalizing s with
  | nil =>
    cases h
    simp
  | cons x xs ih =>
    obtain ⟨t, hx, hxs⟩ := foldlM_cons_eq_some.mp h
    rw [ih hxs, hstep s x t hx, List.map_cons, List.sum_cons, add_assoc]

/-- Every instruction that is carried out is one that can be. -/
theorem foldlM_forall {step : σ → α → Option σ} {P : α → Prop}
    (hstep : ∀ s x s', step s x = some s' → P x)
    {xs : List α} {s s' : σ} (h : xs.foldlM step s = some s') : ∀ x ∈ xs, P x := by
  induction xs generalizing s with
  | nil => exact fun x hx => (List.not_mem_nil hx).elim
  | cons y xs ih =>
    obtain ⟨t, hy, hxs⟩ := foldlM_cons_eq_some.mp h
    exact List.forall_mem_cons.mpr ⟨hstep s y t hy, ih hxs⟩

/-- What every instruction keeps is kept. -/
theorem foldlM_keeps {step : σ → α → Option σ} {P : σ → Prop}
    (hstep : ∀ s x s', step s x = some s' → P s → P s')
    {xs : List α} {s s' : σ} (h : xs.foldlM step s = some s') (hs : P s) : P s' := by
  induction xs generalizing s with
  | nil =>
    cases h
    exact hs
  | cons x xs ih =>
    obtain ⟨t, hx, hxs⟩ := foldlM_cons_eq_some.mp h
    exact ih hxs (hstep s x t hx hs)

end

end IndexChain.Core
