import Mathlib.Data.List.Infix

/-!
# States along a run

A step relation takes a state and an input to a state. When a step from a good state
ends in a good one just if the input fits, all states along a run are good just if all
inputs fit where they are taken.
-/

namespace IndexChain.Core

variable {σ ι : Type*}

/-- A list of inputs takes one state to another. -/
def RunsTo (step : σ → ι → σ → Prop) : σ → List ι → σ → Prop
  | s, [], s' => s' = s
  | s, i :: l, s' => ∃ s₁, step s i s₁ ∧ RunsTo step s₁ l s'

variable {step : σ → ι → σ → Prop} {Inv Good : σ → Prop} {Fit : σ → ι → Prop} {s : σ}

variable (step Inv Good Fit) in
/-- Every state is good just when every input fits. An input that leads nowhere is taken
to fit. -/
theorem good_iff_fit {l : List ι}
    (hstep : ∀ i ∈ l, ∀ s s', Inv s → Good s → step s i s' → Inv s' ∧ (Good s' ↔ Fit s i))
    (hstuck : ∀ pre i s', pre ++ [i] <+: l → RunsTo step s pre s' → Inv s' → Good s' →
      (∃ s'', step s' i s'') ∨ Fit s' i)
    (hinv : Inv s) (hgood : Good s) :
    (∀ pre s', pre <+: l → RunsTo step s pre s' → Good s') ↔
      ∀ pre i s', pre ++ [i] <+: l → RunsTo step s pre s' → Fit s' i := by
  induction l generalizing s with
  | nil =>
    constructor
    · intro _ pre i s' hpre
      simp at hpre
    · intro _ pre s' hpre hrun
      rw [List.prefix_nil.1 hpre] at hrun
      rw [show s' = s from hrun]
      exact hgood
  | cons i l ih =>
    have hnext := hstep i List.mem_cons_self s
    -- what holds after the first input
    have hrest : ∀ s₁, step s i s₁ → Fit s i →
        ((∀ pre s', pre <+: l → RunsTo step s₁ pre s' → Good s') ↔
          ∀ pre i s', pre ++ [i] <+: l → RunsTo step s₁ pre s' → Fit s' i) := by
      intro s₁ hs hfit
      obtain ⟨hinv₁, hiff⟩ := hnext s₁ hinv hgood hs
      apply ih (fun j hj => hstep j (List.mem_cons_of_mem i hj)) _ hinv₁ (hiff.2 hfit)
      intro pre j s' hpre hrun
      exact hstuck (i :: pre) j s' (List.cons_prefix_cons.2 ⟨rfl, hpre⟩) ⟨s₁, hs, hrun⟩
    constructor
    · intro hall
      have hfit : Fit s i := by
        rcases hstuck [] i s ⟨l, rfl⟩ rfl hinv hgood with ⟨s₁, hs⟩ | hfit
        · apply (hnext s₁ hinv hgood hs).2.1
          exact hall [i] s₁ ⟨l, rfl⟩ ⟨s₁, hs, rfl⟩
        · exact hfit
      intro pre j s' hpre hrun
      cases pre with
      | nil =>
        obtain ⟨rfl, -⟩ := List.cons_prefix_cons.1 hpre
        rw [show s' = s from hrun]
        exact hfit
      | cons k pre =>
        obtain ⟨rfl, hpre'⟩ := List.cons_prefix_cons.1 hpre
        obtain ⟨s₁, hs, hrun'⟩ := hrun
        apply (hrest s₁ hs hfit).1 _ pre j s' hpre' hrun'
        intro pre' t hpre'' hrun''
        exact hall (k :: pre') t (List.cons_prefix_cons.2 ⟨rfl, hpre''⟩) ⟨s₁, hs, hrun''⟩
    · intro hall pre s' hpre hrun
      cases pre with
      | nil =>
        rw [show s' = s from hrun]
        exact hgood
      | cons k pre =>
        obtain ⟨rfl, hpre'⟩ := List.cons_prefix_cons.1 hpre
        obtain ⟨s₁, hs, hrun'⟩ := hrun
        apply (hrest s₁ hs (hall [] k s ⟨l, rfl⟩ rfl)).2 _ pre s' hpre' hrun'
        intro pre' j t hpre'' hrun''
        exact hall (k :: pre') j t (List.cons_prefix_cons.2 ⟨rfl, hpre''⟩) ⟨s₁, hs, hrun''⟩

end IndexChain.Core
