import Mathlib.Algebra.BigOperators.Finprod

/-!
# Totals over finite maps

A map that holds finitely many keys has a total: the sum of the sizes of its values.
Changing the value at one key changes the total by the difference of the two sizes.
-/

namespace IndexChain.Core

variable {κ α : Type*}

/-- A map that holds finitely many keys. -/
def FiniteMap (m : κ → Option α) : Prop :=
  {k | (m k).isSome = true}.Finite

/-- The sum of the sizes of the values. -/
noncomputable def tally (size : α → ℕ) (m : κ → Option α) : ℕ :=
  ∑ᶠ k, (m k).elim 0 size

theorem FiniteMap.empty : FiniteMap (fun _ : κ => (none : Option α)) := by
  simp [FiniteMap]

@[simp] theorem tally_empty (size : α → ℕ) : tally size (fun _ : κ => none) = 0 := by
  simp [tally]

variable {size : α → ℕ} {m : κ → Option α}

/-- A total is the sum over any finite set that has the keys. -/
theorem tally_eq_sum (s : Finset κ) (hs : ∀ k, (m k).isSome = true → k ∈ s) :
    tally size m = ∑ k ∈ s, (m k).elim 0 size := by
  apply finsum_eq_sum_of_support_subset
  intro k hk
  apply hs
  cases hm : m k with
  | some a => rfl
  | none =>
    rw [Function.mem_support, hm] at hk
    exact absurd rfl hk

variable [DecidableEq κ]


theorem FiniteMap.update (hm : FiniteMap m) (k : κ) (o : Option α) :
    FiniteMap (Function.update m k o) := by
  apply (Set.Finite.insert k hm).subset
  intro i hi
  by_cases hik : i = k
  · exact Or.inl hik
  · have hi' : (Function.update m k o i).isSome = true := hi
    rw [Function.update_of_ne hik] at hi'
    exact Or.inr hi'

variable (size) in
/-- A new value replaces the size of the old one. -/
theorem tally_update (hm : FiniteMap m) (k : κ) (o : Option α) :
    tally size (Function.update m k o) + (m k).elim 0 size = tally size m + o.elim 0 size := by
  let s : Finset κ := insert k hm.toFinset
  have hold : ∀ i, (m i).isSome = true → i ∈ s := by
    intro i hi
    exact Finset.mem_insert_of_mem (hm.mem_toFinset.2 hi)
  have hnew : ∀ i, (Function.update m k o i).isSome = true → i ∈ s := by
    intro i hi
    by_cases hik : i = k
    · exact hik ▸ Finset.mem_insert_self k _
    · rw [Function.update_of_ne hik] at hi
      exact hold i hi
  have hk : k ∈ s := Finset.mem_insert_self k _
  have hrest : ∑ i ∈ s.erase k, (Function.update m k o i).elim 0 size =
      ∑ i ∈ s.erase k, (m i).elim 0 size := by
    apply Finset.sum_congr rfl
    intro i hi
    rw [Function.update_of_ne (Finset.ne_of_mem_erase hi)]
  rw [tally_eq_sum s hnew, tally_eq_sum s hold, ← Finset.add_sum_erase s _ hk,
    ← Finset.add_sum_erase s (fun i => (m i).elim 0 size) hk, hrest, Function.update_self]
  ring

variable (size) in
/-- A value at a key that was free adds its size. -/
theorem tally_insert (hm : FiniteMap m) {k : κ} (hk : m k = none) (a : α) :
    tally size (Function.update m k (some a)) = tally size m + size a := by
  have h := tally_update size hm k (some a)
  rw [hk] at h
  exact h

/-- A key that no entry has is not found. -/
theorem lookup_eq_none {k : κ} {l : List (κ × α)} (hk : k ∉ l.map Prod.fst) :
    l.lookup k = none := by
  rw [List.lookup_eq_none_iff]
  intro p hp
  rw [bne_iff_ne]
  rintro rfl
  exact hk (List.mem_map_of_mem hp)

/-- A loop that merges the entries of distinct keys into the map that a part of a state holds
merges them key by key, whatever their order. -/
theorem foldl_merge {S C β γ : Type*} (get : C → κ → Option γ) (set : C → (κ → Option γ) → C)
    {merge : Option β → Option γ → Option γ} {part : S → C} {step : S → κ × β → S}
    (get_set : ∀ c f, get (set c f) = f) (set_set : ∀ c f g, set (set c f) g = set c g)
    (set_get : ∀ c, set c (get c) = c) (merge_none : ∀ v, merge none v = v)
    (hstep : ∀ s k e, part (step s (k, e)) = set (part s)
      (Function.update (get (part s)) k (merge (some e) (get (part s) k))))
    {l : List (κ × β)} (hl : (l.map Prod.fst).Nodup) (s : S) :
    part (l.foldl step s) =
      set (part s) fun k => merge (l.lookup k) (get (part s) k) := by
  induction l generalizing s with
  | nil =>
    simp only [List.foldl_nil, List.lookup_nil, merge_none]
    exact (set_get _).symm
  | cons entry l ih =>
    obtain ⟨k, e⟩ := entry
    rw [List.map_cons, List.nodup_cons] at hl
    rw [List.foldl_cons, ih hl.2, hstep, set_set, get_set]
    congr 1
    funext k'
    by_cases hk : k' = k
    · subst hk
      simp [lookup_eq_none hl.1, merge_none]
    · have hne : (k' == k) = false := beq_eq_false_iff_ne.2 hk
      simp [List.lookup_cons, hne, hk]

end IndexChain.Core
