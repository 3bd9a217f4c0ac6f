import IndexChain.Models.Chain.Consistent

/-!
# The law of the candidates

`DisconnectTip` does not put the new tip back into `setBlockIndexCandidates`, so between
it and the next `ConnectTip` the law of the candidates holds with the best tip since the
set was last filled in the place of the tip. A block whose failure marks were cleared
without making it a candidate is not under the law until the set is filled again.
-/

namespace IndexChain.Chain

open BlockStatus

namespace Watch

variable {env : TipEnv} {w w' : Watch} {s s' : ChainState} {hash best : Uint256}
  {cleared cleared' : Uint256 → Bool}

/-- The law of the candidates holds for the best tip. -/
structure Lawful (env : TipEnv) (w : Watch) : Prop where
  /-- Linked blocks are received. -/
  consistent : w.state.Consistent
  /-- The best tip is linked. -/
  linked : w.state.nChainTx w.best ≠ 0
  /-- It is not worse than the tip. -/
  notWorse : w.state.worseThanTip env w.best = false
  /-- The law holds for it. -/
  law : w.state.CandidateLaw env w.best w.cleared

/-- The candidates need not be searched for missing data. -/
theorem Lawful.present (h : w.Lawful env) {e : CBlockIndex}
    (he : w.state.tree.find hash = some e) (hlinked : w.state.nChainTx hash ≠ 0)
    (hfailed : e.failed = false) (hbest : w.state.workLess env hash w.best = false)
    (hclear : w.cleared hash = false) : w.state.setBlockIndexCandidates hash = true :=
  h.law.present hash e he hlinked hfailed (h.consistent.dataToFork hash hlinked) hbest hclear

/-- A block that is not worse than the best tip is not worse than the tip. -/
theorem Lawful.not_worseThanTip (h : w.Lawful env)
    (hbest : w.state.workLess env hash w.best = false) :
    w.state.worseThanTip env hash = false := by
  obtain ⟨tip, htip, -⟩ := h.consistent.active
  have hnotWorse := h.notWorse
  rw [ChainState.worseThanTip, htip] at hnotWorse ⊢
  exact ChainState.not_workLess_trans hbest hnotWorse

/-- The marks of a block with a clean record were not cleared. -/
theorem of_clear {p : Uint256 → Bool} {e : CBlockIndex} (h : w.clear p hash = false)
    (he : w.state.tree.find hash = some e) :
    w.cleared hash = false ∧ (e.failed = true → p hash = false) := by
  simp only [clear, he, Option.elim_some, Bool.or_eq_false_iff, Bool.and_eq_false_iff] at h
  refine ⟨h.1, fun hfailed => ?_⟩
  rcases h.2 with hp | hnot
  · exact hp
  · rw [hfailed] at hnot
    cases hnot

/-! ## Marks -/

/-- A change of marks keeps the law when the blocks that are no longer failed become
candidates or are taken out of it, and new candidates are linked and not worse than the tip. -/
theorem Lawful.remarked (h : Lawful env ⟨s, best, cleared⟩) (hs : s.Remarked s')
    (hpresent : ∀ hash e e', s.tree.find hash = some e → s'.tree.find hash = some e' →
      s.nChainTx hash ≠ 0 → e'.failed = false → s.workLess env hash best = false →
      cleared' hash = false → cleared hash = false ∧
        ((e.failed = false → s.setBlockIndexCandidates hash = true) →
          s'.setBlockIndexCandidates hash = true))
    (hnew : ∀ hash, s'.setBlockIndexCandidates hash = true →
      s.setBlockIndexCandidates hash = true ∨
        s.nChainTx hash ≠ 0 ∧ s.worseThanTip env hash = false) :
    Lawful env ⟨s', best, cleared'⟩ where
  consistent := hs.consistent h.consistent
  linked := hs.nChainTx ▸ h.linked
  notWorse := (hs.worseThanTip best).trans h.notWorse
  law := by
    constructor
    · intro hash e' he' hlinked hfailed _ hbest hclear
      obtain ⟨e, he⟩ := BlockTree.find_of_link hs.link.symm he'
      have hlinked' : s.nChainTx hash ≠ 0 := hs.nChainTx ▸ hlinked
      have hbest' : s.workLess env hash best = false := (hs.workLess hash best).symm.trans hbest
      obtain ⟨hclear', hcand⟩ := hpresent hash e e' he he' hlinked' hfailed hbest' hclear
      apply hcand
      intro hold
      exact h.present he hlinked' hold hbest' hclear'
    · intro hash hcand
      rw [hs.nChainTx]
      rcases hnew hash hcand with hold | ⟨hlinked, -⟩
      · exact h.law.linked hash hold
      · exact hlinked
    · intro hash hcand
      rw [hs.worseThanTip]
      rcases hnew hash hcand with hold | ⟨-, hworse⟩
      · exact h.law.notWorse hash hold
      · exact hworse

/-- A change of marks that fails no fewer blocks and leaves the candidates. -/
theorem Lawful.kept (h : Lawful env ⟨s, best, cleared⟩) (hs : s.Remarked s')
    (hfailed : ∀ hash e e', s.tree.find hash = some e → s'.tree.find hash = some e' →
      e'.failed = e.failed)
    (hcand : s'.setBlockIndexCandidates = s.setBlockIndexCandidates) :
    Lawful env ⟨s', best, cleared⟩ := by
  apply h.remarked hs
  · intro hash e e' he he' _ hnot _ hclear
    refine ⟨hclear, fun hold => ?_⟩
    rw [hcand]
    exact hold ((hfailed hash e e' he he').symm.trans hnot)
  · intro hash hmem
    rw [hcand] at hmem
    exact Or.inl hmem

/-- Nothing that the law reads has changed. -/
theorem Lawful.same (h : Lawful env ⟨s, best, cleared⟩) (htree : s'.tree = s.tree)
    (hs : s.Remarked s') (hcand : s'.setBlockIndexCandidates = s.setBlockIndexCandidates) :
    Lawful env ⟨s', best, cleared⟩ := by
  apply h.kept hs _ hcand
  intro hash e e' he he'
  rw [htree, he] at he'
  cases he'
  rfl

theorem Lawful.called (h : Lawful env ⟨s, best, cleared⟩) : Lawful env ⟨s.called, best, cleared⟩ :=
  h.same rfl (.of_tree rfl rfl rfl rfl rfl rfl) rfl

/-- A failed block is no candidate. -/
theorem Lawful.failed (h : Lawful env ⟨s, best, cleared⟩) (hash : Uint256) (flag : BlockStatus)
    (hflag : flag &&& failedMask ≠ 0#32) :
    Lawful env ⟨(s.modify hash fun e => e.orStatus flag).eraseCandidate hash, best, cleared⟩ := by
  apply h.remarked ((ChainState.Remarked.orStatus s hash flag).eraseCandidate hash)
  · intro id e e' he he' _ hnot _ hclear
    refine ⟨hclear, fun hold => ?_⟩
    have hfind : (s.tree.modify hash fun e => e.orStatus flag).find id = some e' := he'
    rw [BlockTree.find_modify, he] at hfind
    by_cases hid : id = hash
    · rw [if_pos hid] at hfind
      cases hfind
      rw [CBlockIndex.failed_of_orStatus hflag] at hnot
      cases hnot
    · rw [if_neg hid] at hfind
      cases hfind
      simp only [ChainState.eraseCandidate, Function.update_of_ne hid]
      exact hold hnot
  · intro id hcand
    by_cases hid : id = hash
    · subst hid
      simp [ChainState.eraseCandidate] at hcand
    · simp only [ChainState.eraseCandidate, Function.update_of_ne hid] at hcand
      exact Or.inl hcand

/-! ## Moving the tip -/

/-- The active chain has moved to a linked tip. -/
theorem moved_consistent {vChain : CChain} {tip : Uint256} (h : s.Consistent)
    (hpath : vChain.Linked s.tree) (htip : vChain.tip = some tip) (hlinked : s.nChainTx tip ≠ 0) :
    (s.moved vChain).Consistent where
  path := hpath
  height := h.height
  work := h.work
  parent := h.parent
  received := h.received
  waiting := by
    intro p hash hmem
    obtain ⟨hwaits, hlink⟩ := h.waiting p hash hmem
    exact ⟨⟨hwaits.unlinked, hwaits.entry⟩, hlink⟩
  once := h.once
  active := ⟨tip, htip, hlinked⟩

/-- The predecessor of the tip is worse, so the law stays. -/
theorem Lawful.disconnectTip {b : Bool} (h : Lawful env ⟨s, best, cleared⟩)
    (hstep : s.disconnectTip env = some (b, s')) : Lawful env ⟨s', best, cleared⟩ := by
  have hcalled := h.called
  obtain ⟨-, rfl⟩ | ⟨-, u, hash, p, hu, hp, -, rfl⟩ :=
    ChainState.disconnectTip_cases h.consistent.path hstep
  · exact hcalled
  · have hpath := h.consistent.path
    rw [hu] at hpath
    have hlink := hpath.tip_link
    rw [hp] at hlink
    have htip : s.tip = some hash := by
      rw [ChainState.tip, hu, CChain.tip_append]
    have hlinkedTip : s.nChainTx hash ≠ 0 := by
      obtain ⟨tip, htip', hlinked⟩ := h.consistent.active
      rw [htip] at htip'
      cases htip'
      exact hlinked
    have hlinked : s.nChainTx p ≠ 0 := h.consistent.parent hash p _ hlink hlinkedTip
    -- the predecessor is worse than the old tip
    have hless : s.workLess env hash p = false :=
      ChainState.workLess_asymm (ChainState.workLess_of_chainWork
        (h.consistent.work hash p _ hlink))
    have hdown : ∀ id, s.worseThanTip env id = false →
        (s.called.moved u).worseThanTip env id = false := by
      intro id hid
      have htip' : (s.called.moved u).tip = some p := hp
      rw [ChainState.worseThanTip, htip] at hid
      rw [ChainState.worseThanTip, htip']
      exact ChainState.not_workLess_trans (s := s) hid hless
    exact
      { consistent := moved_consistent hcalled.consistent hpath.of_append hp hlinked
        linked := h.linked
        notWorse := hdown best h.notWorse
        law :=
          { present := fun id e he hlinked hfailed _ hbest hclear =>
              h.present he hlinked hfailed hbest hclear
            linked := h.law.linked
            notWorse := fun id hcand => hdown id (h.law.notWorse id hcand) } }

theorem blockConnected_remarked (pindexNew : Uint256) (hlinked : s.nChainTx pindexNew ≠ 0) :
    s.Remarked (s.blockConnected env pindexNew) where
  link := ChainState.link_blockConnected
  chainActive := rfl
  nChainTx := rfl
  nSequenceId := rfl
  chainWork := rfl
  mapBlocksUnlinked := rfl
  entry := by
    intro hash e e' he he'
    simp only [ChainState.blockConnected] at he'
    rw [BlockTree.find_connectBlock, he] at he'
    split at he'
    · rename_i hid
      cases he'
      have hid' : hash = pindexNew := hid
      subst hid'
      exact ⟨(CBlockIndex.connectBlock_marks _ _ e).2,
        fun hwaits => absurd hwaits.unlinked hlinked⟩
    · cases he'
      exact ⟨fun hreceived => hreceived, fun _ => rfl⟩

theorem Lawful.blockConnected (h : Lawful env ⟨s, best, cleared⟩) (pindexNew : Uint256)
    (hlinked : s.nChainTx pindexNew ≠ 0) :
    Lawful env ⟨s.blockConnected env pindexNew, best, cleared⟩ := by
  apply h.kept (blockConnected_remarked pindexNew hlinked)
  · intro hash e e' he he'
    simp only [ChainState.blockConnected] at he'
    rw [BlockTree.find_connectBlock, he] at he'
    split at he'
    · cases he'
      exact (CBlockIndex.connectBlock_marks _ _ e).1
    · cases he'
      rfl
  · rfl

/-- A linked block above the tip becomes the tip, and the candidates are pruned. -/
theorem Lawful.tipUp {n : Int} (h : Lawful env w) (pindexNew : Uint256)
    (hlinked : w.state.nChainTx pindexNew ≠ 0)
    (hlink : w.state.tree.link pindexNew = some (w.state.chainActive.tip, n)) :
    Lawful env (w.moveUp env ((w.state.moved
      (w.state.chainActive ++ [some pindexNew])).pruneBlockIndexCandidates env) pindexNew) := by
  have hpath := h.consistent.path.push hlink
  have htip : (w.state.chainActive ++ [some pindexNew]).tip = some pindexNew :=
    CChain.tip_append _ _
  have hmoved := moved_consistent h.consistent hpath htip hlinked
  set s := (w.state.moved (w.state.chainActive ++ [some pindexNew])).pruneBlockIndexCandidates env
  have hpruned : (w.state.moved (w.state.chainActive ++ [some pindexNew])).Remarked s :=
    .of_tree rfl rfl rfl rfl rfl rfl
  have hworse : ∀ id, s.worseThanTip env id = w.state.workLess env id pindexNew := by
    intro id
    have htip' : s.tip = some pindexNew := htip
    rw [ChainState.worseThanTip, htip']
    rfl
  -- the better of the best tip and the new one is not worse than either
  obtain ⟨hold, hnew, hbest⟩ :
      w.state.workLess env (w.moveUp env s pindexNew).best w.best = false ∧
      w.state.workLess env (w.moveUp env s pindexNew).best pindexNew = false ∧
      s.nChainTx (w.moveUp env s pindexNew).best ≠ 0 := by
    have hless : s.workLess env w.best pindexNew = w.state.workLess env w.best pindexNew := rfl
    simp only [moveUp]
    rw [hless]
    split
    · rename_i hbetter
      exact ⟨ChainState.workLess_asymm hbetter, ChainState.workLess_self, hlinked⟩
    · rename_i hnot
      exact ⟨ChainState.workLess_self, Bool.not_eq_true _ ▸ hnot, h.linked⟩
  refine ⟨hpruned.consistent hmoved, hbest, (hworse _).trans hnew, ?_, ?_, ?_⟩
  · intro id e he hlinked hfailed _ hnot hclear
    have hnot' : w.state.workLess env id (w.moveUp env s pindexNew).best = false := hnot
    have hcand : w.state.setBlockIndexCandidates id = true :=
      h.present he hlinked hfailed (ChainState.not_workLess_trans hnot' hold) hclear
    have hkept : (w.state.setBlockIndexCandidates id && !s.worseThanTip env id) = true := by
      rw [hcand, hworse, ChainState.not_workLess_trans hnot' hnew]
      rfl
    exact hkept
  · intro id hcand
    exact h.law.linked id (Bool.and_eq_true_iff.1 hcand).1
  · intro id hcand
    have hkept := (Bool.and_eq_true_iff.1 hcand).2
    rwa [Bool.not_eq_true'] at hkept

theorem Lawful.connectTip {r : ChainState.TipResult} (h : Lawful env ⟨s, best, cleared⟩)
    (hlinked : s.nChainTx hash ≠ 0) (hstep : s.connectTip env hash = some (r, s')) :
    Lawful env (match r with
      | .connected => Watch.moveUp env ⟨s, best, cleared⟩ (s'.pruneBlockIndexCandidates env) hash
      | _ => ⟨s', best, cleared⟩) := by
  have hblock := h.blockConnected hash hlinked
  obtain ⟨rfl, rfl⟩ | ⟨rfl, rfl⟩ | ⟨rfl, corruptionPossible, rfl⟩ | ⟨rfl, n, hlink, rfl⟩ :=
    ChainState.connectTip_cases h.consistent.path hstep
  · exact h.called
  · exact hblock
  · dsimp only
    simp only [ChainState.invalidBlockFound]
    split
    · exact hblock
    · exact hblock.failed hash failedValid (by decide)
  · apply hblock.tipUp hash hlinked
    rw [ChainState.link_blockConnected]
    exact hlink

/-! ## InvalidateBlock -/

theorem Lawful.disconnectThrough {fuel : Nat} {b : Bool}
    (h : Lawful env ⟨s, best, cleared⟩) (hstep : s.disconnectThrough env hash fuel = some (b, s')) :
    Lawful env ⟨s', best, cleared⟩ := by
  induction fuel generalizing s with
  | zero =>
    cases hstep
    exact h
  | succ fuel ih =>
    simp only [ChainState.disconnectThrough] at hstep
    split at hstep
    · split at hstep
      · cases hstep
      · rename_i pindexWalk _
        have hmarked := h.failed pindexWalk failedChild (by decide)
        split at hstep
        · cases hstep
        · rename_i hdisconnect
          cases hstep
          exact hmarked.disconnectTip hdisconnect
        · rename_i hdisconnect
          exact ih (hmarked.disconnectTip hdisconnect) hstep
    · cases hstep
      exact h

/-- When the candidates are filled the law holds for the tip. -/
theorem Lawful.addCandidates {tip : Uint256} (h : Lawful env ⟨s, best, cleared⟩)
    (htip : s.tip = some tip) :
    Lawful env ⟨s.addCandidates env, tip, fun _ => false⟩ where
  consistent := by
    have hfilled : s.Remarked (s.addCandidates env) := .of_tree rfl rfl rfl rfl rfl rfl
    exact hfilled.consistent h.consistent
  linked := by
    obtain ⟨tip', htip', hlinked⟩ := h.consistent.active
    rw [htip] at htip'
    cases htip'
    exact hlinked
  notWorse := by
    have htip' : (s.addCandidates env).tip = some tip := htip
    rw [ChainState.worseThanTip, htip']
    exact ChainState.workLess_self
  law := by
    constructor
    · intro hash e he hlinked hfailed _ hbest _
      have hfind : s.tree.find hash = some e := he
      have hlinked' : s.nChainTx hash ≠ 0 := hlinked
      obtain ⟨e', he', hreceived⟩ := h.consistent.received hash hlinked
      rw [hfind] at he'
      cases he'
      have hvalid : e.isValid validTransactions = true := by
        simp [CBlockIndex.isValid, hfailed, hreceived.valid]
      have hworse : s.worseThanTip env hash = false := by
        rw [ChainState.worseThanTip, htip]
        exact hbest
      simp [ChainState.addCandidates, hfind, hvalid, hlinked', hworse]
    · intro hash hcand
      simp only [ChainState.addCandidates, Bool.or_eq_true, Bool.and_eq_true, bne_iff_ne] at hcand
      rcases hcand with hold | ⟨⟨-, hlinked⟩, -⟩
      · exact h.law.linked hash hold
      · exact hlinked
    · intro hash hcand
      simp only [ChainState.addCandidates, Bool.or_eq_true, Bool.and_eq_true,
        Bool.not_eq_true'] at hcand
      rcases hcand with hold | ⟨-, hworse⟩
      · exact h.law.notWorse hash hold
      · exact hworse

theorem Lawful.invalidateBlock {b : Bool} (h : Lawful env ⟨s, best, cleared⟩)
    (hstep : s.invalidateBlock env hash = some (b, s')) :
    Lawful env (if b then ⟨s', s'.tip.getD best, fun _ => false⟩ else ⟨s', best, cleared⟩) := by
  have hmarked := h.failed hash failedValid (by decide)
  simp only [ChainState.invalidateBlock] at hstep
  split at hstep
  · cases hstep
  · rename_i hloop
    cases hstep
    exact hmarked.disconnectThrough hloop
  · rename_i s₁ hloop
    cases hstep
    have hdone := hmarked.disconnectThrough hloop
    obtain ⟨tip, htip, -⟩ := hdone.consistent.active
    have htip' : (s₁.addCandidates env).tip = some tip := htip
    rw [if_pos rfl, htip', Option.getD_some]
    exact hdone.addCandidates htip

/-! ## ReconsiderBlock -/

variable {pindex : Uint256} {e : CBlockIndex}

theorem reconsiderBlock_remarked (env : TipEnv) (s : ChainState) (pindex : Uint256) :
    s.Remarked (s.reconsiderBlock env pindex) where
  link := by
    funext id
    simp only [BlockTree.link, ChainState.reconsiderBlock]
    rw [BlockTree.find_reconsiderBlock, Option.map_map]
    congr 1
    funext e
    rw [Function.comp_apply]
    split <;> rfl
  chainActive := rfl
  nChainTx := rfl
  nSequenceId := rfl
  chainWork := rfl
  mapBlocksUnlinked := rfl
  entry := by
    intro id e e' he he'
    have hfind : (s.tree.reconsiderBlock pindex).find id = some e' := he'
    rw [BlockTree.find_reconsiderBlock, he, Option.map_some] at hfind
    rw [← Option.some.inj hfind]
    split
    · exact ⟨fun hreceived => hreceived.clearStatus (by decide) (by decide), fun _ => rfl⟩
    · exact ⟨fun hreceived => hreceived, fun _ => rfl⟩

/-- A failed block whose marks are cleared is an ancestor of the block, or the block or
one of its descendants. -/
theorem reconsiders_of_failed (h : s.Consistent)
    (hnot : hash ∉ (s.tree.ancestry ((s.heightOf pindex).toNat + 1) pindex).tail)
    (he : s.tree.find hash = some e) (hfailed : e.failed = true)
    (hcleared : s.tree.reconsidered pindex hash e = true) :
    s.reconsiders pindex hash = true := by
  have hvalid : e.isValid validTransactions = false := by
    simp [CBlockIndex.isValid, hfailed]
  cases hpindex : s.tree.find pindex with
  | none =>
    rw [BlockTree.reconsidered, hpindex] at hcleared
    cases hcleared
  | some p =>
    have hheight : s.heightOf pindex = p.nHeight := by
      rw [ChainState.heightOf, hpindex, Option.elim_some]
    rw [ChainState.reconsiders, he, Option.elim_some, hvalid, hheight]
    rw [BlockTree.reconsidered, hpindex, Option.elim_some, hvalid, hfailed] at hcleared
    rw [hheight, BlockTree.ancestry, hpindex] at hnot
    simp only [BlockTree.ancestry, hpindex, Bool.not_false, Bool.true_and, Bool.and_true,
      Bool.or_eq_true, decide_eq_true_eq, List.mem_cons] at hcleared ⊢
    rcases hcleared with hbelow | rfl | habove
    · exact hbelow
    · -- the block itself
      have hnonneg := h.height hash p.pprev p.nHeight (BlockTree.link_of_find hpindex)
      have hself : s.tree.getAncestor hash p.nHeight = some hash := by
        rw [BlockTree.getAncestor, hpindex]
        dsimp only
        rw [if_neg (by omega), Int.sub_self]
        rfl
      rw [hself, beq_self_eq_true]
    · exact absurd habove hnot

/-- A failed block that comes back is no ancestor of the block, and not the tip. -/
theorem Lawful.reconsiderBlock (h : Lawful env ⟨s, best, cleared⟩) (pindex : Uint256) :
    Lawful env ⟨s.reconsiderBlock env pindex, best, clear ⟨s, best, cleared⟩ fun hash =>
      (s.tree.ancestry ((s.heightOf pindex).toNat + 1) pindex).tail.contains hash ||
        s.tip == some hash⟩ := by
  obtain ⟨tip, htip, -⟩ := h.consistent.active
  have htip' : s.tip = some tip := htip
  apply h.remarked (reconsiderBlock_remarked env s pindex)
  · intro hash e e' he he' hlinked hnot hbest hclear
    obtain ⟨hold, hblock⟩ := of_clear hclear he
    refine ⟨hold, fun hcand => ?_⟩
    have hfind : (s.tree.reconsiderBlock pindex).find hash = some e' := he'
    rw [BlockTree.find_reconsiderBlock, he, Option.map_some] at hfind
    cases hfailed : e.failed with
    | false => simp [ChainState.reconsiderBlock, hcand hfailed]
    | true =>
      obtain ⟨hancestor, hne⟩ := Bool.or_eq_false_iff.1 (hblock hfailed)
      have hcleared : s.tree.reconsidered pindex hash e = true := by
        by_contra hkept
        rw [if_neg hkept] at hfind
        cases hfind
        rw [hfailed] at hnot
        cases hnot
      rw [if_pos hcleared] at hfind
      cases hfind
      have hreconsiders : s.reconsiders pindex hash = true := by
        apply reconsiders_of_failed h.consistent _ he hfailed hcleared
        intro hmem
        rw [List.contains_iff_mem.2 hmem] at hancestor
        cases hancestor
      obtain ⟨e', he', hreceived⟩ := h.consistent.received hash hlinked
      rw [he] at he'
      cases he'
      have hreceived' : (e.clearStatus failedMask).Received :=
        hreceived.clearStatus (by decide) (by decide)
      have hvalid : (e.clearStatus failedMask).isValid validTransactions = true := by
        simp [CBlockIndex.isValid, hnot, hreceived'.valid]
      -- the block is not the tip, so it is better than the tip
      have hne' : tip ≠ hash := by
        rintro rfl
        rw [htip', beq_self_eq_true] at hne
        cases hne
      have hworse := h.not_worseThanTip hbest
      rw [ChainState.worseThanTip, htip] at hworse
      have hbetter : s.workLess env tip hash = true := ChainState.workLess_of_ne hne' hworse
      simp [ChainState.reconsiderBlock, hreconsiders, he, hvalid, hlinked, htip', hbetter]
  · intro hash hcand
    simp only [ChainState.reconsiderBlock, htip', Option.elim_some, Bool.or_eq_true,
      Bool.and_eq_true, bne_iff_ne] at hcand
    rcases hcand with hold | ⟨⟨-, hlinked⟩, hbetter⟩
    · exact Or.inl hold
    · refine Or.inr ⟨hlinked, ?_⟩
      rw [ChainState.worseThanTip, htip']
      exact ChainState.workLess_asymm hbetter

end Watch

end IndexChain.Chain
