import IndexChain.Models.Chain.NewBlocks

/-!
# Runs and the law of the candidates

Every step keeps the law for the best tip, so every run does.
-/

namespace IndexChain.Chain

open BlockStatus

namespace Watch

variable {env : TipEnv} {w w' : Watch}

/-- One step keeps the law. -/
theorem Lawful.step {step : CandidateStep} (h : w.Lawful env) (hok : w.StepOk step)
    (hstep : w.step env step = some w') : w'.Lawful env := by
  cases step with
  | acceptBlockHeader a nProof =>
    cases hstep
    exact h.acceptBlockHeader hok
  | receivedBlockTransactions pindexNew nTx nFile =>
    cases hstep
    obtain ⟨hnTx, hentry, hsmall⟩ := hok
    obtain ⟨e, he, hnew⟩ := (Option.any_eq_true _ _).1 hentry
    rw [Bool.and_eq_true, Bool.not_eq_true', Bool.not_eq_true'] at hnew
    exact h.receivedBlockTransactions hnTx he hnew.1 hnew.2 hsmall
  | connectTip pindexNew =>
    obtain ⟨⟨r, s⟩, hconnect, rfl⟩ := Option.map_eq_some_iff.1 hstep
    have hlaw := h.connectTip hok hconnect
    cases r with
    | connected => exact hlaw
    | invalid => exact hlaw
    | error => exact hlaw
  | disconnectTip =>
    obtain ⟨⟨b, s⟩, hdisconnect, rfl⟩ := Option.map_eq_some_iff.1 hstep
    exact h.disconnectTip hdisconnect
  | invalidateBlock pindex =>
    obtain ⟨⟨b, s⟩, hinvalidate, rfl⟩ := Option.map_eq_some_iff.1 hstep
    exact h.invalidateBlock hinvalidate
  | reconsiderBlock pindex =>
    cases hstep
    exact h.reconsiderBlock pindex

theorem Lawful.run {steps : List CandidateStep} (h : w.Lawful env) (hok : w.RunOk env steps)
    (hrun : w.run env steps = some w') : w'.Lawful env := by
  induction steps generalizing w with
  | nil =>
    cases hrun
    exact h
  | cons step steps ih =>
    obtain ⟨w₁, hstep, hrest⟩ := Option.bind_eq_some_iff.1 hrun
    exact ih (h.step hok.1 hstep) (hok.2 w₁ hstep) hrest

/-- Watch a state from its tip on. -/
def start (s : ChainState) (tip : Uint256) : Watch where
  state := s
  best := tip
  cleared := fun _ => false

/-- From a state in which the law holds for the tip, and along a run that is as the callers
see to, the law holds for the best tip, which is not worse than the tip. -/
theorem candidates_hold (env : TipEnv) (s : ChainState) (tip : Uint256) (w' : Watch)
    (steps : List CandidateStep) (hs : s.Consistent) (htip : s.tip = some tip)
    (hlaw : s.CandidateLaw env tip fun _ => false) (hok : (start s tip).RunOk env steps)
    (hrun : (start s tip).run env steps = some w') :
    w'.state.CandidateLaw env w'.best w'.cleared ∧
      w'.state.worseThanTip env w'.best = false := by
  have hstart : Lawful env (start s tip) := by
    obtain ⟨tip', htip', hlinked⟩ := hs.active
    rw [htip] at htip'
    cases htip'
    refine ⟨hs, hlinked, ?_, hlaw⟩
    have hself : s.worseThanTip env tip = s.workLess env tip tip := by
      rw [ChainState.worseThanTip, htip, Option.elim_some]
    exact hself.trans ChainState.workLess_self
  have hend := hstart.run hok hrun
  exact ⟨hend.law, hend.notWorse⟩

end Watch

/-! ## A chain of two blocks -/

namespace TwoBlocks

theorem toNat_injective : Function.Injective fun hash : Uint256 => hash.toNat :=
  fun _ _ => BitVec.eq_of_toNat_eq

/-- Block 1 is the genesis block. -/
def fixed : TipEnv where
  hashGenesisBlock := 1
  assetchainsCC := true
  notarizedHeight := 0
  notarizedHash := 1
  maxReorgLength := 99
  addr := fun hash => hash.toNat
  addr_injective := toNat_injective
  verdict := fun _ => {}

/-- The genesis block, connected. -/
def genesis : CBlockIndex where
  nStatus := validScripts ||| haveData
  nTx := 1

/-- It is the tip. -/
def state : ChainState where
  tree := { mapBlockIndex := fun hash => if hash = 1 then some (some genesis) else none }
  chainActive := [some 1]
  nChainTx := fun hash => if hash = 1 then 1 else 0
  chainWork := fun hash => if hash = 1 then 1 else 0
  setBlockIndexCandidates := fun hash => hash == 1

theorem eq_of_find {hash : Uint256} {e : CBlockIndex} (h : state.tree.find hash = some e) :
    hash = 1 ∧ e = genesis := by
  simp only [state, BlockTree.find] at h
  split at h
  · rename_i hid
    cases h
    exact ⟨hid, rfl⟩
  · cases h

theorem eq_of_link {hash : Uint256} {place : Option Uint256 × Int}
    (h : state.tree.link hash = some place) : hash = 1 ∧ place = (none, 0) := by
  obtain ⟨e, he, rfl⟩ := Option.map_eq_some_iff.1 h
  obtain ⟨hid, rfl⟩ := eq_of_find he
  exact ⟨hid, rfl⟩

theorem eq_of_linked {hash : Uint256} (h : state.nChainTx hash ≠ 0) : hash = 1 := by
  by_contra hne
  exact h (if_neg hne)

/-- The sample state keeps the laws of a run. -/
theorem consistent : state.Consistent where
  path :=
    { root := by
        intro hash n hlink
        cases (eq_of_link hlink).2
        rfl
      parent := by
        intro hash p n hlink
        cases (eq_of_link hlink).2
      active
        | 0, _, rfl => ⟨1, rfl, rfl⟩
        | _ + 1, _, h => by cases h }
  height := by
    intro hash p n hlink
    cases (eq_of_link hlink).2
    exact le_rfl
  work := by
    intro hash p n hlink
    cases (eq_of_link hlink).2
  parent := by
    intro hash p n hlink
    cases (eq_of_link hlink).2
  received := by
    intro hash hlinked
    rw [eq_of_linked hlinked]
    exact ⟨genesis, rfl, by decide, by decide⟩
  waiting := by
    intro p hash hmem
    cases hmem
  once := List.nodup_nil
  active := ⟨1, rfl, by decide⟩

theorem lawful : state.CandidateLaw fixed 1 fun _ => false where
  present := by
    intro hash e _ hlinked _ _ _ _
    rw [eq_of_linked hlinked]
    rfl
  linked := by
    intro hash hcand
    rw [beq_iff_eq.1 hcand]
    decide
  notWorse := by
    intro hash hcand
    rw [beq_iff_eq.1 hcand]
    rfl

/-- Block 2 comes, becomes the tip, is invalidated and reconsidered. -/
def steps : List CandidateStep :=
  [.acceptBlockHeader { hash := 2, hashPrevBlock := 1, nTime := 0 } 1,
    .receivedBlockTransactions 2 1 0, .connectTip 2, .invalidateBlock 2, .reconsiderBlock 2]

theorem isSome_run : ((Watch.start state 1).run fixed steps).isSome = true := by decide

/-- The state then. -/
def after : Watch :=
  ((Watch.start state 1).run fixed steps).get isSome_run

theorem runOk : (Watch.start state 1).RunOk fixed steps := by decide

/-- The tip is block 1 again, and block 2 is a candidate. -/
theorem reconsidered_candidate : after.best = 1 ∧ after.cleared 2 = false ∧
    after.state.setBlockIndexCandidates 2 = true ∧
      after.state.CandidateLaw fixed after.best after.cleared := by
  have hlaw := Watch.candidates_hold fixed state 1 after steps consistent rfl lawful runOk
    (Option.some_get isSome_run).symm
  exact ⟨by decide +kernel, by decide +kernel, by decide +kernel, hlaw.1⟩

/-- Block 2 comes, becomes the tip and is disconnected. -/
def disconnected : List CandidateStep :=
  [.acceptBlockHeader { hash := 2, hashPrevBlock := 1, nTime := 0 } 1,
    .receivedBlockTransactions 2 1 0, .connectTip 2, .disconnectTip]

theorem isSome_disconnected : ((Watch.start state 1).run fixed disconnected).isSome = true := by
  decide

/-- The state then. -/
def between : Watch :=
  ((Watch.start state 1).run fixed disconnected).get isSome_disconnected

/-- `DisconnectTip` alone leaves a tip that is not a candidate. -/
theorem tip_not_candidate : ¬ ∀ (env : TipEnv) (s : ChainState) (tip : Uint256) (w' : Watch)
    (steps : List CandidateStep), s.Consistent → s.tip = some tip →
    (s.CandidateLaw env tip fun _ => false) → (Watch.start s tip).run env steps = some w' →
    ∀ tip', w'.state.tip = some tip' → w'.state.CandidateLaw env tip' fun _ => false := by
  intro h
  have hlaw := h fixed state 1 between disconnected consistent rfl lawful
    (Option.some_get isSome_disconnected).symm 1 (by decide +kernel)
  have hentry : (between.state.tree.find 1).any (fun e => !e.failed) = true := by decide +kernel
  obtain ⟨e, he, hnot⟩ := (Option.any_eq_true _ _).1 hentry
  rw [Bool.not_eq_true'] at hnot
  have hcand := hlaw.present 1 e he (by decide +kernel) hnot (by decide +kernel)
    ChainState.workLess_self rfl
  have hgone : between.state.setBlockIndexCandidates 1 = false := by decide +kernel
  rw [hgone] at hcand
  cases hcand

end TwoBlocks

end IndexChain.Chain
