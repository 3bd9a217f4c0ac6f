import IndexChain.Models.Chain.ChainSums

/-!
# Linking blocks

What `ReceivedBlockTransactions` and `AcceptBlockHeader` keep of the sums. Every block of
the queue has its predecessor linked, so its sums are those of its path; a received block
whose predecessor is not linked waits for it.
-/

namespace IndexChain.Chain

open BlockStatus

namespace SumIndex

variable {s s' : SumIndex} {hash id p : Uint256} {n : Int} {e : CBlockIndex}

/-! ## Linking a block -/

/-- The block is received, and its predecessor, if there is one, is linked. -/
structure Linkable (s : SumIndex) (hash : Uint256) : Prop where
  /-- The block is received. -/
  received : s.nTx hash ≠ 0
  /-- Its predecessor is linked. -/
  above : ∀ p, s.pprev hash = some p → s.chain.nChainTx p ≠ 0

/-- What holds between two steps, and inside the loops, where `pending` are the blocks
they still come to. -/
structure SumsInv (s : SumIndex) (pending : Uint256 → Prop) : Prop extends s.OnDisk where
  /-- Linked blocks are received, and have their sums. -/
  summed : ∀ id, s.chain.nChainTx id ≠ 0 → s.nTx id ≠ 0 ∧ s.Summed id
  /-- The predecessor of a linked block is linked. -/
  above : ∀ id p, s.pprev id = some p → s.chain.nChainTx id ≠ 0 → s.chain.nChainTx p ≠ 0
  /-- Other blocks have no sums. -/
  unsummed : ∀ id, s.chain.nChainTx id = 0 →
    s.nChainSproutValue id = none ∧ s.nChainSaplingValue id = none
  /-- A block that can be linked is. -/
  ready : ∀ id, s.Linkable id → s.chain.nChainTx id ≠ 0 ∨ pending id
  /-- A block that cannot waits for its predecessor. -/
  waits : ∀ id p, s.nTx id ≠ 0 → s.pprev id = some p → s.chain.nChainTx p = 0 →
    (p, id) ∈ s.chain.mapBlocksUnlinked ∨ pending id
  /-- Only received blocks wait, under their predecessor. -/
  unlinked : ∀ x ∈ s.chain.mapBlocksUnlinked, s.nTx x.2 ≠ 0 ∧ s.pprev x.2 = some x.1

variable {pending pending' : Uint256 → Prop}

/-- A predecessor is another block. -/
theorem pprev_ne_self (h : s.OnDisk) : s.pprev hash ≠ some hash := by
  intro hself
  obtain ⟨e, he, hp⟩ := Option.bind_eq_some_iff.1 hself
  have hlink := BlockTree.link_of_find he
  rw [hp] at hlink
  obtain ⟨q, hq⟩ := h.path.parent hash hash e.nHeight hlink
  rw [hlink] at hq
  injection hq with hq
  injection hq with _ hn
  omega

/-- Only received blocks are still to come. -/
theorem SumsInv.mono (h : s.SumsInv pending)
    (hpending : ∀ id, s.nTx id ≠ 0 → pending id → pending' id) : s.SumsInv pending' where
  toOnDisk := h.toOnDisk
  summed := h.summed
  above := h.above
  unsummed := h.unsummed
  ready := fun id hid => (h.ready id hid).imp_right (hpending id hid.received)
  waits := fun id p hid hp hnot => (h.waits id p hid hp hnot).imp_right (hpending id hid)
  unlinked := h.unlinked

/-- The path of a block that can be linked is received. -/
theorem SumsInv.received (h : s.SumsInv pending) (hlinkable : s.Linkable hash) :
    s.PathReceived hash := by
  obtain ⟨e, he, -⟩ := find_of_nTx hlinkable.received
  refine (pathReceived_iff h.toOnDisk he).2 ⟨hlinkable.received, ?_⟩
  intro p hp
  exact (h.summed p (hlinkable.above p hp)).2.received

/-- `linkBlock` gives a block that can be linked its sums. -/
theorem SumsInv.summed_linkBlock (h : s.SumsInv pending) (hlinkable : s.Linkable hash) :
    (s.linkBlock hash).Summed hash := by
  obtain ⟨e, he, -⟩ := find_of_nTx hlinkable.received
  have hreceived := h.received hlinkable
  obtain ⟨hsmall, hsprout, hsapling⟩ := h.small hash hreceived
  refine ⟨hreceived, ?_, ?_, ?_⟩
  · have htx : (s.linkBlock hash).chain.nChainTx hash =
        ((s.pprev hash).elim 0 s.chain.nChainTx + s.nTx hash) % 2 ^ 32 :=
      Function.update_self _ _ _
    have hpath : (s.linkBlock hash).pathTx hash = s.pathTx hash := rfl
    rw [htx, hpath]
    rw [pathTx_eq h.toOnDisk he] at hsmall ⊢
    cases hp : s.pprev hash with
    | none =>
      rw [hp] at hsmall
      exact Nat.mod_eq_of_lt hsmall
    | some p =>
      rw [hp] at hsmall
      rw [Option.elim_some, (h.summed p (hlinkable.above p hp)).2.nChainTx]
      exact Nat.mod_eq_of_lt hsmall
  · have hpath : (s.linkBlock hash).pathSprout hash = s.pathSprout hash := rfl
    rw [hpath]
    rw [pathSprout_eq h.toOnDisk he] at hsprout ⊢
    refine (Function.update_self _ _ _).trans ?_
    cases hp : s.pprev hash with
    | none => rfl
    | some p =>
      simp only [hp] at hsprout
      simp only [(h.summed p (hlinkable.above p hp)).2.sprout]
      cases hchain : s.pathSprout p with
      | none => rfl
      | some chainValue =>
        cases hvalue : s.nSproutValue hash with
        | none => rfl
        | some value =>
          rw [hchain, hvalue] at hsprout
          exact congrArg some (toInt64_of_isAmount (hsprout _ rfl))
  · have hpath : (s.linkBlock hash).pathSapling hash = s.pathSapling hash := rfl
    rw [hpath]
    rw [pathSapling_eq h.toOnDisk he] at hsapling ⊢
    refine (Function.update_self _ _ _).trans ?_
    cases hp : s.pprev hash with
    | none => simp
    | some p =>
      rw [hp, Option.elim_some] at hsapling
      simp only [(h.summed p (hlinkable.above p hp)).2.sapling, Option.elim_some,
        toInt64_of_isAmount hsapling]

theorem nChainTx_linkBlock_of_ne (hne : id ≠ hash) :
    (s.linkBlock hash).chain.nChainTx id = s.chain.nChainTx id :=
  Function.update_of_ne hne _ _

/-- A linked block has a received one at the end of its path. -/
theorem SumsInv.nChainTx_linkBlock_self (h : s.SumsInv pending) (hlinkable : s.Linkable hash) :
    (s.linkBlock hash).chain.nChainTx hash ≠ 0 := by
  obtain ⟨e, he, -⟩ := find_of_nTx hlinkable.received
  have hreceived := hlinkable.received
  have hpath : (s.linkBlock hash).pathTx hash = s.pathTx hash := rfl
  rw [(h.summed_linkBlock hlinkable).nChainTx, hpath, pathTx_eq h.toOnDisk he]
  omega

/-- A block is linked that can be; the blocks above it, unless it was linked before, are
still to come. -/
theorem SumsInv.linkBlock (h : s.SumsInv pending) (hlinkable : s.Linkable hash)
    (hpending : ∀ id, pending id → id = hash ∨ pending' id)
    (habove : ∀ id, s.nTx id ≠ 0 → s.pprev id = some hash → s.chain.nChainTx hash = 0 →
      pending' id) : (s.linkBlock hash).SumsInv pending' where
  path := h.path
  height := h.height
  small := h.small
  summed := by
    intro id hlinked
    by_cases hid : id = hash
    · rw [hid]
      exact ⟨hlinkable.received, h.summed_linkBlock hlinkable⟩
    · rw [nChainTx_linkBlock_of_ne hid] at hlinked
      obtain ⟨hreceived, hsums⟩ := h.summed id hlinked
      refine ⟨hreceived, hsums.received, ?_, ?_, ?_⟩
      · exact (nChainTx_linkBlock_of_ne hid).trans hsums.nChainTx
      · exact (Function.update_of_ne hid _ _).trans hsums.sprout
      · exact (Function.update_of_ne hid _ _).trans hsums.sapling
  above := by
    intro id p hp hlinked
    have hold : s.chain.nChainTx p ≠ 0 := by
      by_cases hid : id = hash
      · exact hlinkable.above p (hid ▸ hp)
      · rw [nChainTx_linkBlock_of_ne hid] at hlinked
        exact h.above id p hp hlinked
    by_cases hself : p = hash
    · rw [hself]
      exact h.nChainTx_linkBlock_self hlinkable
    · rw [nChainTx_linkBlock_of_ne hself]
      exact hold
  unsummed := by
    intro id hnot
    have hid : id ≠ hash := by
      rintro rfl
      exact h.nChainTx_linkBlock_self hlinkable hnot
    rw [nChainTx_linkBlock_of_ne hid] at hnot
    obtain ⟨hsprout, hsapling⟩ := h.unsummed id hnot
    exact ⟨(Function.update_of_ne hid _ _).trans hsprout,
      (Function.update_of_ne hid _ _).trans hsapling⟩
  ready := by
    intro id hid
    by_cases hself : id = hash
    · rw [hself]
      exact Or.inl (h.nChainTx_linkBlock_self hlinkable)
    · rw [nChainTx_linkBlock_of_ne hself]
      by_cases hchild : s.pprev id = some hash ∧ s.chain.nChainTx hash = 0
      · exact Or.inr (habove id hid.received hchild.1 hchild.2)
      · -- its predecessor was linked before
        have hbefore : s.Linkable id := by
          refine ⟨hid.received, ?_⟩
          intro p hp
          by_cases hphash : p = hash
          · rw [hphash] at hp ⊢
            exact fun hzero => hchild ⟨hp, hzero⟩
          · have hlinked := hid.above p hp
            rwa [nChainTx_linkBlock_of_ne hphash] at hlinked
        refine (h.ready id hbefore).imp_right fun hp => ?_
        exact (hpending id hp).resolve_left hself
  waits := by
    intro id p hreceived hp hnot
    have hself : p ≠ hash := by
      rintro rfl
      exact h.nChainTx_linkBlock_self hlinkable hnot
    rw [nChainTx_linkBlock_of_ne hself] at hnot
    refine (h.waits id p hreceived hp hnot).imp_right fun hpend => ?_
    refine (hpending id hpend).resolve_left ?_
    rintro rfl
    exact hlinkable.above p hp hnot
  unlinked := h.unlinked

/-- A block that cannot be linked is put in `mapBlocksUnlinked`. -/
theorem SumsInv.wait (h : s.SumsInv pending) (hreceived : s.nTx hash ≠ 0)
    (hp : s.pprev hash = some p) (hnot : s.chain.nChainTx p = 0)
    (hpending : ∀ id, pending id → id = hash ∨ pending' id) :
    SumsInv { s with chain := { s.chain with
      mapBlocksUnlinked := s.chain.mapBlocksUnlinked ++ [(p, hash)] } } pending' where
  path := h.path
  height := h.height
  small := h.small
  summed := fun id hlinked => ⟨(h.summed id hlinked).1, (h.summed id hlinked).2.received,
    (h.summed id hlinked).2.nChainTx, (h.summed id hlinked).2.sprout,
    (h.summed id hlinked).2.sapling⟩
  above := h.above
  unsummed := h.unsummed
  ready := by
    intro id hid
    refine (h.ready id ⟨hid.received, hid.above⟩).imp_right fun hpend => ?_
    refine (hpending id hpend).resolve_left ?_
    rintro rfl
    exact hid.above p hp hnot
  waits := by
    intro id q hreceived' hq hnot'
    obtain hmem | hpend := h.waits id q hreceived' hq hnot'
    · exact Or.inl (List.mem_append_left _ hmem)
    · refine (hpending id hpend).imp_left ?_
      rintro rfl
      have hsame : some p = some q := hp.symm.trans hq
      cases hsame
      exact List.mem_append_right _ List.mem_cons_self
  unlinked := by
    intro x hx
    obtain hold | hnew := List.mem_append.1 hx
    · exact h.unlinked x hold
    · rw [List.mem_singleton.1 hnew]
      exact ⟨hreceived, hp⟩

/-! ## The loop of ReceivedBlockTransactions -/

variable {env : TipEnv} {queue : List Uint256}

/-- Nobody waits for a block that is linked. -/
theorem SumsInv.release (h : s.SumsInv pending) (hlinked : s.chain.nChainTx hash ≠ 0) :
    SumsInv { s with chain := (s.chain.offerCandidate env hash).release hash } pending where
  path := h.path
  height := h.height
  small := h.small
  summed := fun id hid => ⟨(h.summed id hid).1, (h.summed id hid).2.received,
    (h.summed id hid).2.nChainTx, (h.summed id hid).2.sprout, (h.summed id hid).2.sapling⟩
  above := h.above
  unsummed := h.unsummed
  ready := fun id hid => h.ready id ⟨hid.received, hid.above⟩
  waits := by
    intro id p hreceived hp hnot
    refine (h.waits id p hreceived hp hnot).imp_left fun hmem => ?_
    refine List.mem_filter.2 ⟨hmem, ?_⟩
    have hne : p ≠ hash := by
      rintro rfl
      exact hlinked hnot
    simp [hne]
  unlinked := fun x hx => h.unlinked x (List.mem_filter.1 hx).1

/-- What holds of the queue. -/
structure SumsQueue (s : SumIndex) (queue : List Uint256) : Prop extends
    s.SumsInv (· ∈ queue) where
  /-- Its blocks can be linked. -/
  linkable : ∀ id ∈ queue, s.Linkable id

/-- The blocks that waited for a block are next. -/
theorem SumsQueue.linkNext (h : s.SumsQueue (hash :: queue)) :
    (s.linkNext env hash).SumsQueue (queue ++ s.chain.waitingFor hash) := by
  have hself := h.linkable hash List.mem_cons_self
  have hlinked := h.nChainTx_linkBlock_self hself
  have hblock : (s.linkBlock hash).SumsInv (· ∈ queue ++ s.chain.waitingFor hash) := by
    apply h.toSumsInv.linkBlock hself
    · intro id hid
      exact (List.mem_cons.1 hid).imp_right (List.mem_append_left _)
    · intro id hreceived hp hnot
      obtain hmem | hpend := h.waits id hash hreceived hp hnot
      · exact List.mem_append_right _ (Watch.mem_waitingFor.2 hmem)
      · refine List.mem_append_left _ ((List.mem_cons.1 hpend).resolve_left ?_)
        rintro rfl
        exact pprev_ne_self h.toOnDisk hp
  refine ⟨hblock.release hlinked, ?_⟩
  intro id hid
  have habove : ∀ p, s.chain.nChainTx p ≠ 0 ∨ p = hash →
      (s.linkBlock hash).chain.nChainTx p ≠ 0 := by
    intro p hp
    by_cases hne : p = hash
    · rw [hne]
      exact hlinked
    · rw [nChainTx_linkBlock_of_ne hne]
      exact hp.resolve_right hne
  rcases List.mem_append.1 hid with hold | hnew
  · have hbefore := h.linkable id (List.mem_cons_of_mem _ hold)
    exact ⟨hbefore.received, fun p hp => habove p (Or.inl (hbefore.above p hp))⟩
  · obtain ⟨hreceived, hprev⟩ := h.unlinked _ (Watch.mem_waitingFor.1 hnew)
    refine ⟨hreceived, fun p hp => habove p (Or.inr ?_)⟩
    have hsame : some p = some hash := hp.symm.trans hprev
    exact Option.some.inj hsame

/-- The loop ends with an empty queue. -/
theorem SumsQueue.linkQueue {fuel : Nat} (h : s.SumsQueue queue)
    (hfuel : queue.length + s.chain.mapBlocksUnlinked.length ≤ fuel) :
    (s.linkQueue env fuel queue).SumsQueue [] := by
  induction fuel generalizing s queue with
  | zero =>
    have hnil : queue = [] := List.length_eq_zero_iff.1 (by omega)
    rw [SumIndex.linkQueue, ← hnil]
    exact h
  | succ fuel ih =>
    cases queue with
    | nil => exact h
    | cons hash queue =>
      rw [List.length_cons] at hfuel
      have hlength : (queue ++ s.chain.waitingFor hash).length +
          (s.linkNext env hash).chain.mapBlocksUnlinked.length =
            queue.length + s.chain.mapBlocksUnlinked.length :=
        @Watch.length_linkNext env s.chain queue hash
      rw [SumIndex.linkQueue]
      exact ih h.linkNext (hlength.trans_le (by omega))

/-! ## Blocks that come into the index -/

variable (s s') in
/-- Blocks are added, or their transactions arrive. -/
structure Grows : Prop where
  /-- No block changes its place. -/
  link : ∀ id place, s.chain.tree.link id = some place → s'.chain.tree.link id = some place
  /-- Received blocks keep their values. -/
  values : ∀ id, s.nTx id ≠ 0 → s'.nTx id = s.nTx id ∧
    s'.nSproutValue id = s.nSproutValue id ∧ s'.nSaplingValue id = s.nSaplingValue id
  /-- The sums are the same. -/
  nChainTx : s'.chain.nChainTx = s.chain.nChainTx
  /-- Those of the Sprout pool. -/
  nChainSproutValue : s'.nChainSproutValue = s.nChainSproutValue
  /-- Those of the Sapling pool. -/
  nChainSaplingValue : s'.nChainSaplingValue = s.nChainSaplingValue
  /-- The same blocks wait. -/
  mapBlocksUnlinked : s'.chain.mapBlocksUnlinked = s.chain.mapBlocksUnlinked

theorem ancestry_of_link {t t' : BlockTree} (hpath : CChain.Linked t [])
    (hlink : ∀ id place, t.link id = some place → t'.link id = some place) {fuel : Nat}
    {place : Option Uint256 × Int} (h : t.link hash = some place) :
    t'.ancestry fuel hash = t.ancestry fuel hash := by
  induction fuel generalizing hash place with
  | zero => rfl
  | succ fuel ih =>
    obtain ⟨e, he, -⟩ := BlockTree.link_eq_some h
    obtain ⟨e', he', hprev, -⟩ := BlockTree.link_eq_some (hlink hash _ (BlockTree.link_of_find he))
    rw [BlockTree.ancestry, BlockTree.ancestry, he, he']
    dsimp only
    rw [hprev]
    cases hp : e.pprev with
    | none => rfl
    | some p =>
      have hup := BlockTree.link_of_find he
      rw [hp] at hup
      obtain ⟨q, hq⟩ := hpath.parent hash p e.nHeight hup
      rw [Option.elim_some, Option.elim_some, ih hq]

/-- The entry of a block that was there before. -/
theorem Grows.find (hg : s.Grows s') (he : s.chain.tree.find hash = some e) :
    ∃ e', s'.chain.tree.find hash = some e' ∧ e'.pprev = e.pprev ∧ e'.nHeight = e.nHeight :=
  BlockTree.link_eq_some (hg.link hash _ (BlockTree.link_of_find he))

theorem Grows.pprev (hg : s.Grows s') (hreceived : s.nTx hash ≠ 0) :
    s'.pprev hash = s.pprev hash := by
  obtain ⟨e, he, -⟩ := find_of_nTx hreceived
  obtain ⟨e', he', hp, -⟩ := hg.find he
  rw [SumIndex.pprev, SumIndex.pprev, he, he', Option.bind_some, Option.bind_some, hp]

theorem Grows.path (hg : s.Grows s') (h : s.OnDisk) (he : s.chain.tree.find hash = some e) :
    s'.path hash = s.path hash := by
  obtain ⟨e', he', -, hn⟩ := hg.find he
  have hheight : s'.chain.heightOf hash = s.chain.heightOf hash := by
    rw [ChainState.heightOf, ChainState.heightOf, he, he', Option.elim_some, Option.elim_some, hn]
  rw [SumIndex.path, SumIndex.path, hheight]
  exact ancestry_of_link h.path hg.link (BlockTree.link_of_find he)

theorem mapM_congr_left {f g : Uint256 → Option Int} {ids : List Uint256}
    (h : ∀ id ∈ ids, f id = g id) : ids.mapM f = ids.mapM g := by
  induction ids with
  | nil => rfl
  | cons id ids ih =>
    rw [List.forall_mem_cons] at h
    rw [List.mapM_cons, List.mapM_cons, h.1, ih h.2]

/-- The sums over a received path are the same. -/
theorem Grows.sums (hg : s.Grows s') (h : s.OnDisk) (he : s.chain.tree.find hash = some e)
    (hreceived : s.PathReceived hash) : s'.pathTx hash = s.pathTx hash ∧
      s'.pathSprout hash = s.pathSprout hash ∧ s'.pathSapling hash = s.pathSapling hash := by
  have hpath := hg.path h he
  have hvalues := fun id hid => hg.values id (hreceived id hid)
  refine ⟨?_, ?_, ?_⟩
  · rw [pathTx, pathTx, hpath, List.map_congr_left fun id hid => (hvalues id hid).1]
  · rw [pathSprout, pathSprout, hpath, mapM_congr_left fun id hid => (hvalues id hid).2.1]
  · rw [pathSapling, pathSapling, hpath, List.map_congr_left fun id hid => (hvalues id hid).2.2]

/-- The sums of a linked block are those of its path still. -/
theorem Summed.grows (hsums : s.Summed hash) (hg : s.Grows s') (h : s.OnDisk)
    (he : s.chain.tree.find hash = some e) : s'.Summed hash := by
  obtain ⟨htx, hsprout, hsapling⟩ := hg.sums h he hsums.received
  constructor
  · intro id hid
    rw [hg.path h he] at hid
    rw [(hg.values id (hsums.received id hid)).1]
    exact hsums.received id hid
  · rw [hg.nChainTx, htx, hsums.nChainTx]
  · rw [hg.nChainSproutValue, hsprout, hsums.sprout]
  · rw [hg.nChainSaplingValue, hsapling, hsums.sapling]

/-- The blocks whose transactions have arrived are still to come. -/
theorem SumsInv.grows (h : s.SumsInv pending) (hg : s.Grows s') (hdisk : s'.OnDisk)
    (hnew : ∀ id, s'.nTx id ≠ 0 → s.nTx id ≠ 0 ∨ pending' id)
    (hpending : ∀ id, pending id → pending' id) : s'.SumsInv pending' where
  toOnDisk := hdisk
  summed := by
    intro id hlinked
    rw [hg.nChainTx] at hlinked
    obtain ⟨hreceived, hsums⟩ := h.summed id hlinked
    obtain ⟨e, he, -⟩ := find_of_nTx hreceived
    refine ⟨?_, hsums.grows hg h.toOnDisk he⟩
    rwa [(hg.values id hreceived).1]
  above := by
    intro id p hp hlinked
    rw [hg.nChainTx] at hlinked ⊢
    rw [hg.pprev (h.summed id hlinked).1] at hp
    exact h.above id p hp hlinked
  unsummed := by
    intro id hnot
    rw [hg.nChainTx] at hnot
    rw [hg.nChainSproutValue, hg.nChainSaplingValue]
    exact h.unsummed id hnot
  ready := by
    intro id hid
    rw [hg.nChainTx]
    obtain hreceived | hpend := hnew id hid.received
    · refine (h.ready id ⟨hreceived, ?_⟩).imp_right (hpending id)
      intro p hp
      rw [← hg.pprev hreceived] at hp
      rw [← hg.nChainTx]
      exact hid.above p hp
    · exact Or.inr hpend
  waits := by
    intro id p hid hp hnot
    rw [hg.nChainTx] at hnot
    obtain hreceived | hpend := hnew id hid
    · rw [hg.pprev hreceived] at hp
      rw [hg.mapBlocksUnlinked]
      exact (h.waits id p hreceived hp hnot).imp_right (hpending id)
    · exact Or.inr hpend
  unlinked := by
    intro x hx
    rw [hg.mapBlocksUnlinked] at hx
    obtain ⟨hreceived, hp⟩ := h.unlinked x hx
    rw [(hg.values _ hreceived).1, hg.pprev hreceived]
    exact ⟨hreceived, hp⟩

/-- Between two steps a block is linked when its path is received. -/
theorem SumsInv.linked_iff (h : s.SumsInv fun _ => False)
    (he : s.chain.tree.find hash = some e) :
    s.chain.nChainTx hash ≠ 0 ↔ s.PathReceived hash := by
  refine ⟨fun hlinked => (h.summed hash hlinked).2.received, ?_⟩
  have hup : ∀ (n : Nat) hash e, s.chain.tree.find hash = some e → e.nHeight.toNat = n →
      s.PathReceived hash → s.chain.nChainTx hash ≠ 0 := by
    intro n
    induction n using Nat.strong_induction_on with
    | _ n ih =>
      intro hash e he hn hpath
      obtain ⟨hreceived, habove⟩ := (pathReceived_iff h.toOnDisk he).1 hpath
      refine (h.ready hash ⟨hreceived, ?_⟩).resolve_right id
      intro p hp
      have hlink := BlockTree.link_of_find he
      have hprev : e.pprev = some p := by rwa [SumIndex.pprev, he, Option.bind_some] at hp
      rw [hprev] at hlink
      obtain ⟨q, hq⟩ := h.path.parent hash p e.nHeight hlink
      have hnonneg := h.height p q _ hq
      obtain ⟨e', he', -, hn'⟩ := BlockTree.link_eq_some hq
      exact ih e'.nHeight.toNat (by omega) p e' he' rfl (habove p hp)
  exact hup _ hash e he rfl

/-! ## A block is received -/

variable (s) in
/-- The entry of a block is written, and its sums are still there. -/
def store (pindexNew : Uint256) (vtx : List CTransaction) (nFile : Int) : SumIndex :=
  { s.receive pindexNew vtx nFile with
    chain := { (s.receive pindexNew vtx nFile).chain with nChainTx := s.chain.nChainTx }
    nChainSproutValue := s.nChainSproutValue
    nChainSaplingValue := s.nChainSaplingValue }

variable {vtx : List CTransaction} {nFile : Int}

theorem link_store : (s.store hash vtx nFile).chain.tree.link = s.chain.tree.link :=
  BlockTree.link_modify fun _ => CBlockIndex.link_received _ _

theorem find_store : (s.store hash vtx nFile).chain.tree.find id =
    if id = hash then (s.chain.tree.find id).map fun e =>
      e.receivedBlockTransactions (vtx.length % 2 ^ 32) nFile
    else s.chain.tree.find id :=
  BlockTree.find_modify _ _ _ _

theorem nTx_store_self (he : s.chain.tree.find hash = some e) :
    (s.store hash vtx nFile).nTx hash = vtx.length % 2 ^ 32 := by
  rw [nTx, find_store, if_pos rfl, he, Option.map_some, Option.elim_some]
  exact CBlockIndex.nTx_raiseValidity

theorem nTx_store_of_ne (hne : id ≠ hash) : (s.store hash vtx nFile).nTx id = s.nTx id := by
  rw [nTx, nTx, find_store, if_neg hne]

theorem pprev_store : (s.store hash vtx nFile).pprev id = s.pprev id := by
  have hlink : (s.store hash vtx nFile).chain.tree.link id = s.chain.tree.link id :=
    congrFun link_store id
  have hprev : ∀ t : BlockTree, (t.find id).bind CBlockIndex.pprev = (t.link id).bind Prod.fst := by
    intro t
    unfold BlockTree.link
    cases t.find id <;> rfl
  rw [pprev, pprev, hprev, hprev, hlink]

/-- A block that was received before has the values it had. -/
theorem store_grows (he : s.chain.tree.find hash = some e) (hlength : vtx.length < 2 ^ 32)
    (hvalues : IsAmount (sproutSum vtx) ∧ IsAmount (saplingSum vtx))
    (hsame : s.nTx hash ≠ 0 → s.nTx hash = vtx.length ∧
      s.nSproutValue hash = some (sproutSum vtx) ∧ s.nSaplingValue hash = saplingSum vtx) :
    s.Grows (s.store hash vtx nFile) where
  link := by
    intro id place hlink
    rw [link_store]
    exact hlink
  values := by
    intro id hreceived
    by_cases hid : id = hash
    · subst hid
      obtain ⟨htx, hsprout, hsapling⟩ := hsame hreceived
      refine ⟨?_, ?_, ?_⟩
      · rw [nTx_store_self he, htx, Nat.mod_eq_of_lt hlength]
      · rw [hsprout, ← toInt64_of_isAmount hvalues.1]
        exact Function.update_self _ _ _
      · rw [hsapling, ← toInt64_of_isAmount hvalues.2]
        exact Function.update_self _ _ _
    · exact ⟨nTx_store_of_ne hid, Function.update_of_ne hid _ _, Function.update_of_ne hid _ _⟩
  nChainTx := rfl
  nChainSproutValue := rfl
  nChainSaplingValue := rfl
  mapBlocksUnlinked := rfl

/-- The sums that are reset are those that `linkBlock` computes. -/
theorem linkBlock_receive (hne : s.pprev hash ≠ some hash) :
    (s.receive hash vtx nFile).linkBlock hash = (s.store hash vtx nFile).linkBlock hash := by
  have hprev : (s.receive hash vtx nFile).pprev hash = s.pprev hash := pprev_store
  have hprev' : (s.store hash vtx nFile).pprev hash = s.pprev hash := pprev_store
  unfold linkBlock
  rw [hprev, hprev']
  cases hp : s.pprev hash with
  | none =>
    simp only [receive, store, Function.update_idem]
    rfl
  | some p =>
    have hself : p ≠ hash := by
      rintro rfl
      exact hne hp
    simp only [receive, store, Function.update_idem, Function.update_of_ne hself,
      Option.elim_some]
    rfl

/-- A block that is not linked has no sums to reset. -/
theorem receive_eq_store (htx : s.chain.nChainTx hash = 0)
    (hsums : s.nChainSproutValue hash = none ∧ s.nChainSaplingValue hash = none) :
    s.receive hash vtx nFile = s.store hash vtx nFile := by
  have hchain : Function.update s.chain.nChainTx hash 0 = s.chain.nChainTx :=
    Function.update_eq_self_iff.2 htx.symm
  have hsprout : Function.update s.nChainSproutValue hash none = s.nChainSproutValue :=
    Function.update_eq_self_iff.2 hsums.1.symm
  have hsapling : Function.update s.nChainSaplingValue hash none = s.nChainSaplingValue :=
    Function.update_eq_self_iff.2 hsums.2.symm
  simp only [store, receive, hchain, hsprout, hsapling]

theorem linkQueue_receive {fuel : Nat} (hne : s.pprev hash ≠ some hash) :
    linkQueue env (fuel + 1) [hash] (s.receive hash vtx nFile) =
      linkQueue env (fuel + 1) [hash] (s.store hash vtx nFile) := by
  rw [linkQueue, linkQueue, linkNext, linkNext, linkBlock_receive hne]
  rfl

/-- One arrival of a block that meets the condition. -/
theorem SumsInv.receivedBlockTransactions (h : s.SumsInv fun _ => False)
    (hok : s.StepOk (.receivedBlockTransactions hash vtx nFile)) :
    (s.receivedBlockTransactions env hash vtx nFile).SumsInv fun _ => False := by
  obtain ⟨⟨hentry, hpos, hlength, hsmall⟩, hvalues, hparent, hsame⟩ := hok
  obtain ⟨e, he⟩ := Option.isSome_iff_exists.1 hentry
  have hne : s.pprev hash ≠ some hash := pprev_ne_self h.toOnDisk
  have hreceived : (s.store hash vtx nFile).nTx hash ≠ 0 := by
    rw [nTx_store_self he, Nat.mod_eq_of_lt hlength]
    omega
  have hstore : (s.store hash vtx nFile).SumsInv (· ∈ [hash]) := by
    apply h.grows (store_grows he hlength hvalues hsame)
    · refine ⟨h.path.congr link_store, ?_, hsmall⟩
      rw [link_store]
      exact h.height
    · intro id hid
      by_cases hself : id = hash
      · exact Or.inr (List.mem_singleton.2 hself)
      · rw [nTx_store_of_ne hself] at hid
        exact Or.inl hid
    · exact fun _ hfalse => hfalse.elim
  have hprev : (s.receive hash vtx nFile).pprev hash = s.pprev hash := pprev_store
  -- a block that can be linked starts the queue
  have hqueue : (∀ p, s.pprev hash = some p → s.chain.nChainTx p ≠ 0) →
      (linkQueue env ((s.receive hash vtx nFile).chain.mapBlocksUnlinked.length + 1) [hash]
        (s.receive hash vtx nFile)).SumsInv fun _ => False := by
    intro habove
    rw [linkQueue_receive hne]
    have hstart : (s.store hash vtx nFile).SumsQueue [hash] := by
      refine ⟨hstore, ?_⟩
      intro id hid
      rw [List.mem_singleton.1 hid]
      refine ⟨hreceived, ?_⟩
      rw [pprev_store]
      exact habove
    have hend : (linkQueue env ((s.receive hash vtx nFile).chain.mapBlocksUnlinked.length + 1)
        [hash] (s.store hash vtx nFile)).SumsQueue [] :=
      hstart.linkQueue (Nat.le_of_eq (Nat.add_comm _ _))
    exact hend.toSumsInv.mono fun id _ hid => List.not_mem_nil hid
  unfold SumIndex.receivedBlockTransactions
  dsimp only
  rw [hprev]
  cases hp : s.pprev hash with
  | none =>
    apply hqueue
    intro p hsome
    rw [hp] at hsome
    cases hsome
  | some p =>
    have hself : p ≠ hash := by
      rintro rfl
      exact hne hp
    have htx : (s.receive hash vtx nFile).chain.nChainTx p = s.chain.nChainTx p :=
      Function.update_of_ne hself _ _
    have hfind : (s.receive hash vtx nFile).chain.tree.find p = s.chain.tree.find p := by
      exact find_store.trans (if_neg hself)
    dsimp only
    rw [htx, hfind]
    split
    · rename_i hlinked
      apply hqueue
      intro q hq
      rw [hp] at hq
      cases hq
      exact hlinked
    · rename_i hlinked
      rw [not_not] at hlinked
      obtain ⟨e', he', hvalid⟩ := (Option.any_eq_true _ _).1 (hparent p hp hlinked)
      have hunlinked : s.chain.nChainTx hash = 0 := by
        by_contra hnot
        exact h.above hash p hp hnot hlinked
      rw [he', Option.elim_some, if_pos hvalid,
        receive_eq_store hunlinked (h.unsummed hash hunlinked)]
      apply hstore.wait hreceived (pprev_store.trans hp) hlinked
      exact fun id hid => Or.inl (List.mem_singleton.1 hid)

/-! ## Headers and marks -/

theorem path_eq_nil (hnone : s.chain.tree.find hash = none) : s.path hash = [] := by
  rw [path, BlockTree.ancestry, hnone]

/-- Only entries have paths. -/
theorem fits_of_find_none (hnone : s.chain.tree.find hash = none) : s.Fits hash := by
  rw [Fits, pathTx, pathSprout, pathSapling, path_eq_nil hnone]
  simp [IsAmount]

/-- Without a new received block no path gets longer. -/
theorem OnDisk.grows (h : s.OnDisk) (hg : s.Grows s') (hpath : CChain.Linked s'.chain.tree [])
    (hheight : ∀ id p n, s'.chain.tree.link id = some (p, n) → 0 ≤ n)
    (hnew : ∀ id, s'.nTx id ≠ 0 → s.nTx id ≠ 0) : s'.OnDisk where
  path := hpath
  height := hheight
  small := by
    intro hash hreceived
    cases he' : s'.chain.tree.find hash with
    | none => exact fits_of_find_none he'
    | some e' =>
      have hhead : hash ∈ s'.path hash := by
        rw [SumIndex.path, BlockTree.ancestry, he']
        exact List.mem_cons_self
      obtain ⟨e, he, -⟩ := find_of_nTx (hnew hash (hreceived hash hhead))
      have hsame := hg.path h he
      rw [PathReceived, hsame] at hreceived
      have hold : s.PathReceived hash := fun id hid => hnew id (hreceived id hid)
      obtain ⟨htx, hsprout, hsapling⟩ := hg.sums h he hold
      rw [Fits, htx, hsprout, hsapling]
      exact h.small hash hold

/-- A change of an entry that leaves its place and its transactions. -/
theorem SumsInv.modify (h : s.SumsInv pending) {f : CBlockIndex → CBlockIndex}
    (hlink : ∀ e, (f e).link = e.link) (hnTx : ∀ e, (f e).nTx = e.nTx) :
    SumsInv { s with chain := s.chain.modify hash f } pending := by
  have hplace : (s.chain.tree.modify hash f).link = s.chain.tree.link :=
    BlockTree.link_modify hlink
  have htx : ∀ id, SumIndex.nTx { s with chain := s.chain.modify hash f } id = s.nTx id := by
    intro id
    have hfind := BlockTree.find_modify s.chain.tree hash id f
    unfold SumIndex.nTx
    simp only [ChainState.modify]
    rw [hfind]
    split
    · cases s.chain.tree.find id with
      | none => rfl
      | some e => exact hnTx e
    · rfl
  have hg : s.Grows { s with chain := s.chain.modify hash f } := by
    refine ⟨?_, fun id _ => ⟨htx id, rfl, rfl⟩, rfl, rfl, rfl, rfl⟩
    intro id place hid
    exact (congrFun hplace id).trans hid
  have hreceived : ∀ id, SumIndex.nTx { s with chain := s.chain.modify hash f } id ≠ 0 →
      s.nTx id ≠ 0 := by
    intro id hid
    rwa [htx] at hid
  apply h.grows hg
  · apply h.toOnDisk.grows hg
    · exact h.path.congr hplace
    · intro id p n hid
      exact h.height id p n ((congrFun hplace id).symm.trans hid)
    · exact hreceived
  · exact fun id hid => Or.inl (hreceived id hid)
  · exact fun _ hid => hid

variable {a : HeaderArgs} {nProof : Nat}

/-- A new entry is not received. -/
theorem SumsInv.addEntry (h : s.SumsInv pending) (hnone : s.chain.tree.find a.hash = none)
    (hnew : s.chain.tree.IsNew a e) (hnTx : e.nTx = 0) {s' : SumIndex}
    (hs' : s' =
      { chain := Watch.withEntry s.chain a nProof e
        nSproutValue := Function.update s.nSproutValue a.hash none
        nChainSproutValue := Function.update s.nChainSproutValue a.hash none
        nSaplingValue := Function.update s.nSaplingValue a.hash 0
        nChainSaplingValue := Function.update s.nChainSaplingValue a.hash none }) :
    s'.SumsInv pending := by
  have hzero : s.nTx a.hash = 0 := by rw [SumIndex.nTx, hnone, Option.elim_none]
  have hunlinked : s.chain.nChainTx a.hash = 0 := by
    by_contra hlinked
    exact (h.summed a.hash hlinked).1 hzero
  obtain ⟨hsprout, hsapling⟩ := h.unsummed a.hash hunlinked
  have htx : ∀ id, ((Watch.withEntry s.chain a nProof e).tree.find id).elim 0 CBlockIndex.nTx =
      s.nTx id := by
    intro id
    rw [Watch.find_withEntry]
    split
    · rename_i hid
      rw [Option.elim_some, CBlockIndex.nTx_raiseValidity, hnTx, hid, hzero]
    · rfl
  have hg : s.Grows s' := by
    rw [hs']
    refine ⟨fun id place => Watch.link_withEntry_of_old hnone, ?_, ?_, ?_, ?_, rfl⟩
    · intro id hreceived
      have hid : id ≠ a.hash := by
        rintro rfl
        exact hreceived hzero
      exact ⟨htx id, Function.update_of_ne hid _ _, Function.update_of_ne hid _ _⟩
    · exact Function.update_eq_self_iff.2 hunlinked.symm
    · exact Function.update_eq_self_iff.2 hsprout.symm
    · exact Function.update_eq_self_iff.2 hsapling.symm
  subst hs'
  have hreceived : ∀ id, ((Watch.withEntry s.chain a nProof e).tree.find id).elim 0
      CBlockIndex.nTx ≠ 0 → s.nTx id ≠ 0 := by
    intro id hid
    rwa [htx] at hid
  apply h.grows hg
  · apply h.toOnDisk.grows hg
    · exact h.path.addEntry hnone hnew
    · intro id p n hlink
      have hplace := Watch.link_withEntry.symm.trans hlink
      split at hplace
      · obtain hroot | ⟨q, hq, hup⟩ := hnew.link
        · rw [hroot] at hplace
          cases hplace
          exact le_rfl
        · rw [hup] at hplace
          cases hplace
          have hnonneg := h.height _ q.pprev q.nHeight (BlockTree.link_of_find hq)
          omega
      · exact h.height id p n hplace
    · exact hreceived
  · exact fun id hid => Or.inl (hreceived id hid)
  · exact fun _ hid => hid

/-- A header changes no sums. -/
theorem SumsInv.acceptBlockHeader (h : s.SumsInv pending) :
    (s.acceptBlockHeader env a nProof).SumsInv pending := by
  unfold SumIndex.acceptBlockHeader
  obtain hsame | ⟨hnone, e, hnew, hnTx, hentry⟩ | ⟨-, ⟨e, he, -⟩, hmodify⟩ :=
    @Watch.acceptBlockHeader_cases env s.chain a nProof
  · rw [hsame]
    have hknown : ((s.chain.tree.find a.hash).isNone && (s.chain.tree.find a.hash).isSome) =
        false := by
      cases s.chain.tree.find a.hash <;> rfl
    simp only [hknown]
    exact h
  · rw [hentry]
    have hself : (Watch.withEntry s.chain a nProof e).tree.find a.hash =
        some (e.raiseValidity validTree) := by
      rw [Watch.find_withEntry, if_pos rfl]
    simp only [hnone, hself]
    exact h.addEntry hnone hnew hnTx rfl
  · rw [hmodify]
    simp only [he]
    exact h.modify (fun _ => CBlockIndex.link_clearStatus) fun _ => rfl

end SumIndex

end IndexChain.Chain
