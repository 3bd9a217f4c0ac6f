import IndexChain.Models.Coins.StackRun

/-!
# The best block and anchors after a flush

A null hash in a cache means that the layer below has not been asked. `BatchWrite`
of a cache copies the hashes of the child even when they are null, where the
database skips null ones. A child that was never asked for a hash and never set it
thus erases the one its parent holds, and the parent then answers as its own base.
-/

namespace IndexChain

namespace CacheOp

/-- The operations on one cache: everything but building, flushing and dropping it. -/
def onCache : CacheOp → Bool
  | .flush | .push | .pop => false
  | _ => true

end CacheOp

namespace Stack

variable (P : TreeHashes)

/-- The best block and the best anchors the top layer answers with. -/
def bests (s : Stack) : Uint256 × (ShieldedType → Uint256) :=
  ((s.getBestBlock P).1, fun ty => (s.getBestAnchor P ty).1)

/-- The child `s.top` over the parent of `s₀`: each hash of the child is known, or the
parent holds none of its own, or the parent's is that of its base. -/
def HashesKept (s₀ s : Stack) : Prop :=
  (s.top.hashBlock ≠ 0 ∨ s₀.top.hashBlock = 0 ∨
    s₀.top.hashBlock = (s₀.base P).getBestBlock) ∧
  ∀ ty, s.top.hashAnchor ty ≠ 0 ∨ s₀.top.hashAnchor ty = 0 ∨
    s₀.top.hashAnchor ty = (s₀.base P).getBestAnchor ty

/-- A stack whose layers under the top one answer as those of `s₀`. -/
structure ChildOf (s₀ s : Stack) : Prop where
  /-- The bottom is the same. -/
  bottom : s.bottom = s₀.bottom
  /-- The parent and what is below it answer as before. -/
  lower : ∃ p lower, s.lower = p :: lower ∧
    Layers.view (s₀.bottom.answers P) lower = s₀.base P ∧ p.view (s₀.base P) = s₀.view P

variable {P} {s₀ s s' t : Stack}

/-- Lookups change no answer of the lower layers. -/
theorem ChildOf.fills (h : ChildOf P s₀ s)
    (hfills : Layers.Fills s.bottom.Keeps (s.bottom.answers P) s.lower t.lower)
    (hbottom : t.bottom = s.bottom) : ChildOf P s₀ t := by
  obtain ⟨p, lower, hl, hview, hp⟩ := h.lower
  rw [hl, h.bottom] at hfills
  refine ⟨hbottom.trans h.bottom, ?_⟩
  cases hl' : t.lower with
  | nil =>
    rw [hl'] at hfills
    cases hfills
  | cons p' lower' =>
    rw [hl'] at hfills
    cases hfills with
    | cons hlower hc =>
      have hc' := hc.view_eq
      rw [hview] at hc'
      exact ⟨p', lower', rfl, hlower.view_eq.trans hview, hc'.trans hp⟩

theorem ChildOf.filled (h : ChildOf P s₀ s) (ht : Filled P s t) : ChildOf P s₀ t := by
  have hfills := ht.fills
  cases hfills with
  | cons hlower _ => exact h.fills hlower ht.bottom

/-- An operation on the child changes no answer of the lower layers. -/
theorem ChildOf.step {op : CacheOp} (h : ChildOf P s₀ s) (hop : op.onCache = true)
    (hstep : s.step P op = some s') : ChildOf P s₀ s' := by
  cases op with
  | fetchCoins txid =>
    cases hstep
    exact h.filled (getCoins_spec P s txid).2
  | getNullifier ty nf =>
    cases hstep
    exact h.filled (getNullifier_spec P s ty nf).2
  | getAnchorAt ty rt =>
    cases hstep
    exact h.filled (getAnchorAt_spec P s ty rt).2
  | getBestBlock =>
    cases hstep
    exact h.filled (getBestBlock_spec P s).2
  | getBestAnchor ty =>
    cases hstep
    exact h.filled (getBestAnchor_spec P s ty).2
  | modifyCoins txid f =>
    cases hstep
    exact h.fills (fills_modifyCoins P s txid f) rfl
  | setNullifiers tx spent =>
    cases hstep
    exact ⟨h.bottom, h.lower⟩
  | setBestBlock hashBlock =>
    cases hstep
    exact ⟨h.bottom, h.lower⟩
  | pushAnchor ty tree =>
    cases hstep
    have hbest := h.filled (getBestAnchor_spec P s ty).2
    exact ⟨hbest.bottom, hbest.lower⟩
  | popAnchor newrt ty =>
    obtain ⟨s₁, s₂, c, hs₁, hs₂, -, -, rfl⟩ := popAnchor_cases hstep
    have hpop := (h.filled hs₁).filled hs₂
    exact ⟨hpop.bottom, hpop.lower⟩
  | flush => cases hop
  | push => cases hop
  | pop => cases hop

theorem ChildOf.run {ops : List CacheOp} (h : ChildOf P s₀ s)
    (hops : ∀ op ∈ ops, op.onCache = true) (hrun : s.run P ops = some s') :
    ChildOf P s₀ s' := by
  induction ops generalizing s with
  | nil =>
    cases hrun
    exact h
  | cons op ops ih =>
    obtain ⟨u, hstep, hrest⟩ := Option.bind_eq_some_iff.1 hrun
    exact ih (h.step (hops op List.mem_cons_self) hstep)
      (fun o ho => hops o (List.mem_cons_of_mem op ho)) hrest

/-- What the child hands to its parent is what it answers, unless its hash is null
and the parent answers otherwise than its base. -/
theorem handed_eq_iff (h p b : Uint256) :
    (if h = 0 then b else h) = (if h = 0 then if p = 0 then b else p else h) ↔
      h ≠ 0 ∨ p = 0 ∨ p = b := by
  by_cases hh : h = 0
  · rw [if_pos hh, if_pos hh]
    by_cases hp : p = 0
    · rw [if_pos hp]
      exact iff_of_true rfl (Or.inr (Or.inl hp))
    · rw [if_neg hp]
      refine ⟨fun heq => Or.inr (Or.inr heq.symm), ?_⟩
      rintro (hne | hzero | heq)
      · exact absurd hh hne
      · exact absurd hzero hp
      · exact heq.symm
  · rw [if_neg hh, if_neg hh]
    exact iff_of_true rfl (Or.inl hh)

/-- After any operations on a child cache and a flush, the parent answers with the best
block and anchors of the child exactly when each hash of the child is known or the
parent's own is not needed. -/
theorem flush_bests_iff (s₀ s : Stack) (ops : List CacheOp)
    (hops : ∀ op ∈ ops, op.onCache = true) (hrun : s₀.run P (.push :: ops) = some s) :
    ∃ t, s.run P [.flush, .pop] = some t ∧ (t.bests P = s.bests P ↔ HashesKept P s₀ s) := by
  have hpush : ChildOf P s₀ { s₀ with top := {}, lower := s₀.top :: s₀.lower } :=
    ⟨rfl, s₀.top, s₀.lower, rfl, rfl, rfl⟩
  have hchild : ChildOf P s₀ s := hpush.run hops hrun
  obtain ⟨p, lower, hl, hview, hp⟩ := hchild.lower
  refine ⟨{ s with top := p.batchWrite s.top, lower := lower }, ?_, ?_⟩
  · simp only [Stack.run, Stack.step, flush, hl, Option.bind_some]
  · -- the parent takes the child's hashes and asks its base where they are null
    have hafter : view P { s with top := p.batchWrite s.top, lower := lower } =
        (p.batchWrite s.top).view (s₀.base P) := by
      simp only [view, base, hchild.bottom, hview]
    -- the child asks the parent
    have hbefore : s.view P = s.top.view (s₀.top.view (s₀.base P)) := by
      have hbase : s.base P = s₀.view P := by
        simp only [base, hchild.bottom, hl, Layers.view, hview]
        exact hp
      rw [view, hbase, view]
    simp only [bests, Prod.mk.injEq, funext_iff, (getBestBlock_spec P _).1,
      (getBestAnchor_spec P _ _).1, hafter, hbefore]
    exact and_congr (handed_eq_iff _ _ _) (forall_congr' fun ty => handed_eq_iff _ _ _)

/-- A parent whose best block is set and not yet flushed, over the small database. -/
def unflushedParent : Stack where
  top := { hashBlock := 5 }
  bottom := .db { sampleDB with bestBlock := some 3 }

/-- A child that sets its best block and looks up both anchors hands them on. -/
theorem child_hands_on : ∃ t,
    unflushedParent.run sampleHashes
        [.push, .setBestBlock 8, .getBestAnchor .sprout, .getBestAnchor .sapling, .flush, .pop] =
      some t ∧ (t.bests sampleHashes).1 = 8 := by
  obtain ⟨s, hs⟩ : ∃ s, unflushedParent.run sampleHashes
      [.push, .setBestBlock 8, .getBestAnchor .sprout, .getBestAnchor .sapling] = some s :=
    ⟨_, rfl⟩
  obtain ⟨t, ht, hiff⟩ := flush_bests_iff unflushedParent s
    [.setBestBlock 8, .getBestAnchor .sprout, .getBestAnchor .sapling] (by decide) hs
  have hkept : HashesKept sampleHashes unflushedParent s := by
    cases hs
    refine ⟨Or.inl (by decide), fun ty => Or.inr (Or.inl ?_)⟩
    rfl
  refine ⟨t, ?_, ?_⟩
  · cases hs
    exact ht
  · rw [hiff.2 hkept]
    cases hs
    decide +kernel

/-- A child on which nothing was done erases the parent's best block. -/
theorem idle_child_erases_best_block :
    (unflushedParent.run sampleHashes [.push]).map (fun s => (s.getBestBlock sampleHashes).1) =
      some 5 ∧
    (unflushedParent.run sampleHashes [.push, .flush, .pop]).map
        (fun s => (s.getBestBlock sampleHashes).1) = some 3 := by
  constructor <;> decide +kernel

end Stack

end IndexChain
