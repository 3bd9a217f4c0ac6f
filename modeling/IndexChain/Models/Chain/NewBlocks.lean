import IndexChain.Models.Chain.CandidateLaw

/-!
# New blocks and the law of the candidates

A received block is linked, with all that wait for it, or waits for its predecessor. The
queue holds received blocks over linked ones, each once. A new header is not linked, and
its entry is the only one with its hash.
-/

namespace IndexChain.Chain

open BlockStatus

namespace Watch

variable {env : TipEnv} {s : ChainState} {hash best : Uint256} {cleared : Uint256 → Bool}

/-! ## Received blocks -/

/-- What holds of the queue of `ReceivedBlockTransactions`. -/
structure Queued (s : ChainState) (queue : List Uint256) : Prop where
  /-- Its blocks are received and not linked. -/
  waits : ∀ id ∈ queue, s.Waits id
  /-- Their predecessors are linked. -/
  ready : ∀ id ∈ queue, ∀ p n, s.tree.link id = some (some p, n) → s.nChainTx p ≠ 0
  /-- No block is there twice. -/
  once : queue.Nodup
  /-- They do not wait for a block. -/
  apart : ∀ id ∈ queue, id ∉ s.mapBlocksUnlinked.map Prod.snd
  /-- The transactions on their paths, and on those of the blocks that wait, can be counted. -/
  small : ∀ id ∈ queue ++ s.mapBlocksUnlinked.map Prod.snd, s.pathTx id < 2 ^ 32

/-- The state after one block of the queue. -/
def linkNext (env : TipEnv) (s : ChainState) (pindex : Uint256) : ChainState :=
  ((s.linkBlock pindex).offerCandidate env pindex).release pindex

variable {queue : List Uint256} {pindex : Uint256}

theorem nChainTx_linkNext_of_ne (hne : hash ≠ pindex) :
    (linkNext env s pindex).nChainTx hash = s.nChainTx hash :=
  Function.update_of_ne hne _ _

variable (s pindex) in
/-- A block that can be linked: it waits, its predecessor is linked, and the transactions on
its path can be counted. -/
structure Linkable : Prop where
  /-- It waits. -/
  waits : s.Waits pindex
  /-- Its predecessor is linked. -/
  ready : ∀ p n, s.tree.link pindex = some (some p, n) → s.nChainTx p ≠ 0
  /-- They are fewer than `2 ^ 32`. -/
  small : s.pathTx pindex < 2 ^ 32

/-- The block gets the transactions on its path. -/
theorem nChainTx_linkNext_eq (hs : s.Consistent) (h : Linkable s pindex) :
    (linkNext env s pindex).nChainTx pindex = s.pathTx pindex := by
  obtain ⟨e, he, -, -⟩ := h.waits.entry
  have hself : (linkNext env s pindex).nChainTx pindex =
      (((s.tree.find pindex).bind CBlockIndex.pprev).elim 0 s.nChainTx +
        (s.tree.find pindex).elim 0 CBlockIndex.nTx) % 2 ^ 32 :=
    Function.update_self _ _ _
  have hsmall := h.small
  have hpath := ChainState.pathTx_of_unlinked hs.path hs.height h.waits.unlinked he
  have hprev : e.pprev.elim 0 s.pathTx = e.pprev.elim 0 s.nChainTx := by
    cases hp : e.pprev with
    | none => rfl
    | some p =>
      have hlinked := h.ready p e.nHeight (by rw [BlockTree.link_of_find he, hp])
      obtain ⟨e', he', -⟩ := hs.received p hlinked
      exact ChainState.pathTx_of_linked hlinked he'
  rw [hpath, hprev] at hsmall
  rw [hself, he, Option.bind_some, Option.elim_some, hpath, hprev, Nat.add_comm,
    Nat.mod_eq_of_lt hsmall]

/-- A block with transactions is linked now. -/
theorem nChainTx_linkNext_self (hs : s.Consistent) (h : Linkable s pindex) :
    (linkNext env s pindex).nChainTx pindex ≠ 0 := by
  obtain ⟨e, he, -, hnTx⟩ := h.waits.entry
  rw [nChainTx_linkNext_eq hs h,
      ChainState.pathTx_of_unlinked hs.path hs.height h.waits.unlinked he]
  omega

/-- Linked blocks stay linked. -/
theorem nChainTx_linkNext (hs : s.Consistent) (h : Linkable s pindex)
    (hlinked : s.nChainTx hash ≠ 0) : (linkNext env s pindex).nChainTx hash ≠ 0 := by
  by_cases hid : hash = pindex
  · rw [hid]
    exact nChainTx_linkNext_self hs h
  · rw [nChainTx_linkNext_of_ne hid]
    exact hlinked

/-- The count of every path stays. -/
theorem pathTx_linkNext (hs : s.Consistent) (h : Linkable s pindex) :
    (linkNext env s pindex).pathTx hash = s.pathTx hash := by
  -- along the path, down to its root
  generalize hl : s.tree.path hash = l
  induction l generalizing hash with
  | nil =>
    have hl' : (linkNext env s pindex).tree.path hash = [] := hl
    rw [ChainState.pathTx, ChainState.pathTx, hl, hl']
    rfl
  | cons id rest ih =>
    cases he : s.tree.find hash with
    | none =>
      rw [BlockTree.path, BlockTree.ancestry, he] at hl
      cases hl
    | some e =>
      by_cases hid : hash = pindex
      · rw [hid] at he ⊢
        rw [ChainState.pathTx_of_linked (nChainTx_linkNext_self hs h) he,
          nChainTx_linkNext_eq hs h]
      · have hsame : (linkNext env s pindex).nChainTx hash = s.nChainTx hash :=
          nChainTx_linkNext_of_ne hid
        have he' : (linkNext env s pindex).tree.find hash = some e := he
        by_cases hlinked : s.nChainTx hash = 0
        · rw [BlockTree.path_eq_cons hs.path hs.height he] at hl
          rw [ChainState.pathTx_of_unlinked hs.path hs.height hlinked he,
            ChainState.pathTx_of_unlinked (s := linkNext env s pindex) hs.path hs.height
              (hsame.trans hlinked) he']
          cases hp : e.pprev with
          | none => rfl
          | some p =>
            rw [hp] at hl
            exact congrArg (e.nTx + ·) (ih (List.cons.inj hl).2)
        · rw [ChainState.pathTx_of_linked hlinked he, ← hsame]
          exact ChainState.pathTx_of_linked (fun hzero => hlinked (hsame ▸ hzero)) he'

/-- The order of blocks that were linked before is the same. -/
theorem workLess_linkNext {pa pb : Uint256} (h : s.Waits pindex) (ha : s.nChainTx pa ≠ 0)
    (hb : s.nChainTx pb ≠ 0) :
    (linkNext env s pindex).workLess env pa pb = s.workLess env pa pb := by
  have hne : ∀ id, id = pa ∨ id = pb → id ≠ pindex := by
    rintro id (rfl | rfl) rfl
    · exact ha h.unlinked
    · exact hb h.unlinked
  apply ChainState.workLess_congr
  · exact fun _ _ => rfl
  · exact fun id hid => Function.update_of_ne (hne id hid) _ _

theorem mem_unlinked_linkNext {x : Uint256 × Uint256} :
    x ∈ (linkNext env s pindex).mapBlocksUnlinked ↔ x ∈ s.mapBlocksUnlinked ∧ x.1 ≠ pindex := by
  simp [linkNext, ChainState.release, ChainState.offerCandidate, ChainState.linkBlock]

theorem mem_waitingFor {id : Uint256} :
    id ∈ s.waitingFor pindex ↔ (pindex, id) ∈ s.mapBlocksUnlinked := by
  simp [ChainState.waitingFor]

theorem waits_linkNext {id : Uint256} (hne : id ≠ pindex) (h : s.Waits id) :
    (linkNext env s pindex).Waits id where
  unlinked := (nChainTx_linkNext_of_ne hne).trans h.unlinked
  entry := h.entry

/-- Linking a block whose predecessor is linked. -/
theorem linkNext_consistent (h : s.Consistent) (hnext : Linkable s pindex)
    (hapart : pindex ∉ s.mapBlocksUnlinked.map Prod.snd) : (linkNext env s pindex).Consistent where
  path := h.path
  height := h.height
  work := h.work
  parent := by
    intro id p n hlink hlinked
    have hlink' : s.tree.link id = some (some p, n) := hlink
    apply nChainTx_linkNext h hnext
    by_cases hid : id = pindex
    · exact hnext.ready p n (hid ▸ hlink')
    · rw [nChainTx_linkNext_of_ne hid] at hlinked
      exact h.parent id p n hlink' hlinked
  received := by
    intro id hlinked
    by_cases hid : id = pindex
    · obtain ⟨e, he, hreceived, -⟩ := hnext.waits.entry
      exact ⟨e, hid ▸ he, hreceived⟩
    · rw [nChainTx_linkNext_of_ne hid] at hlinked
      exact h.received id hlinked
  waiting := by
    intro p id hmem
    have hold := (mem_unlinked_linkNext.1 hmem).1
    obtain ⟨hwaits', hlink⟩ := h.waiting p id hold
    refine ⟨waits_linkNext ?_ hwaits', hlink⟩
    rintro rfl
    exact hapart (List.mem_map.2 ⟨(p, id), hold, rfl⟩)
  once := (List.filter_sublist.map Prod.snd).nodup h.once
  active := by
    obtain ⟨tip, htip, hlinked⟩ := h.active
    exact ⟨tip, htip, nChainTx_linkNext h hnext hlinked⟩

/-- A block becomes a candidate when it is linked, unless it is worse than the tip. -/
theorem candidates_linkNext : (linkNext env s pindex).setBlockIndexCandidates hash =
    if hash = pindex then
      s.setBlockIndexCandidates pindex || !(linkNext env s pindex).worseThanTip env pindex
    else s.setBlockIndexCandidates hash :=
  Function.update_apply _ _ _ _

/-- Linked blocks compare with the tip as they did before when their order is the same. -/
theorem worseThanTip_of_order {s' : ChainState} (h : s.Consistent) (htip : s'.tip = s.tip)
    (hless : ∀ pa pb, s.nChainTx pa ≠ 0 → s.nChainTx pb ≠ 0 →
      s'.workLess env pa pb = s.workLess env pa pb) (hlinked : s.nChainTx hash ≠ 0) :
    s'.worseThanTip env hash = s.worseThanTip env hash := by
  obtain ⟨tip, htip', hlinkedTip⟩ := h.active
  rw [ChainState.worseThanTip, ChainState.worseThanTip, htip, htip']
  exact hless hash tip hlinked hlinkedTip

/-- A block that is linked becomes a candidate unless it is worse than the tip. -/
theorem Lawful.linkNext (h : Lawful env ⟨s, best, cleared⟩) (hnext : Linkable s pindex)
    (hapart : pindex ∉ s.mapBlocksUnlinked.map Prod.snd) :
    Lawful env ⟨linkNext env s pindex, best, cleared⟩ := by
  obtain ⟨tip, htip, -⟩ := h.consistent.active
  have htip' : (Watch.linkNext env s pindex).tip = some tip := htip
  have hworse : ∀ id, s.nChainTx id ≠ 0 →
      (Watch.linkNext env s pindex).worseThanTip env id = s.worseThanTip env id :=
    fun id => worseThanTip_of_order h.consistent rfl fun _ _ => workLess_linkNext hnext.waits
  have hbest : (Watch.linkNext env s pindex).worseThanTip env best = false :=
    (hworse best h.linked).trans h.notWorse
  refine ⟨linkNext_consistent h.consistent hnext hapart,
    nChainTx_linkNext h.consistent hnext h.linked, hbest, ?_, ?_, ?_⟩
  · intro hash e he hlinked hfailed _ hnot hclear
    rw [candidates_linkNext]
    split
    · rename_i hid
      subst hid
      have hself : (Watch.linkNext env s hash).worseThanTip env hash = false := by
        rw [ChainState.worseThanTip, htip'] at hbest ⊢
        exact ChainState.not_workLess_trans hnot hbest
      simp [hself]
    · rename_i hid
      rw [nChainTx_linkNext_of_ne hid] at hlinked
      rw [workLess_linkNext hnext.waits hlinked h.linked] at hnot
      exact h.present he hlinked hfailed hnot hclear
  · intro hash hcand
    rw [candidates_linkNext] at hcand
    split at hcand
    · rename_i hid
      rw [hid]
      exact nChainTx_linkNext_self h.consistent hnext
    · exact nChainTx_linkNext h.consistent hnext (h.law.linked hash hcand)
  · intro hash hcand
    rw [candidates_linkNext] at hcand
    split at hcand
    · rename_i hid
      subst hid
      rcases Bool.or_eq_true_iff.1 hcand with hold | hself
      · exact absurd hnext.waits.unlinked (h.law.linked hash hold)
      · rwa [Bool.not_eq_true'] at hself
    · rw [hworse hash (h.law.linked hash hcand)]
      exact h.law.notWorse hash hcand

/-- The first block of the queue can be linked. -/
theorem Queued.head (h : Queued s (pindex :: queue)) : Linkable s pindex where
  waits := h.waits pindex List.mem_cons_self
  ready := h.ready pindex List.mem_cons_self
  small := h.small pindex List.mem_cons_self

/-- The blocks that waited for a block are next. -/
theorem Queued.linkNext (h : s.Consistent) (hqueue : Queued s (pindex :: queue)) :
    Queued (linkNext env s pindex) (queue ++ s.waitingFor pindex) := by
  have hnext := hqueue.head
  obtain ⟨hhead, honce⟩ := List.nodup_cons.1 hqueue.once
  have hkept : ∀ id ∈ s.waitingFor pindex, id ∈ s.mapBlocksUnlinked.map Prod.snd :=
    fun id hid => List.mem_map.2 ⟨(pindex, id), mem_waitingFor.1 hid, rfl⟩
  have hnot : pindex ∉ s.waitingFor pindex :=
    fun hid => hqueue.apart pindex List.mem_cons_self (hkept pindex hid)
  constructor
  · intro id hid
    rcases List.mem_append.1 hid with hold | hnew
    · refine waits_linkNext ?_ (hqueue.waits id (List.mem_cons_of_mem _ hold))
      rintro rfl
      exact hhead hold
    · refine waits_linkNext ?_ (h.waiting pindex id (mem_waitingFor.1 hnew)).1
      rintro rfl
      exact hnot hnew
  · intro id hid p n hlink
    have hlink' : s.tree.link id = some (some p, n) := hlink
    rcases List.mem_append.1 hid with hid | hid
    · exact nChainTx_linkNext h hnext (hqueue.ready id (List.mem_cons_of_mem _ hid) p n hlink')
    · obtain ⟨m, hplace⟩ := (h.waiting pindex id (mem_waitingFor.1 hid)).2
      rw [hplace] at hlink'
      cases hlink'
      exact nChainTx_linkNext_self h hnext
  · rw [List.nodup_append]
    refine ⟨honce, (List.filter_sublist.map Prod.snd).nodup h.once, ?_⟩
    intro id hid id' hid' heq
    exact hqueue.apart id (List.mem_cons_of_mem _ hid) (hkept id (heq ▸ hid'))
  · intro id hid hmem
    obtain ⟨⟨p, id'⟩, hx, rfl⟩ := List.mem_map.1 hmem
    obtain ⟨hold, hne⟩ := mem_unlinked_linkNext.1 hx
    rcases List.mem_append.1 hid with hid | hid
    · exact hqueue.apart id' (List.mem_cons_of_mem _ hid) (List.mem_map.2 ⟨(p, id'), hold, rfl⟩)
    · have hsame : (p, id') = (pindex, id') :=
        List.inj_on_of_nodup_map h.once hold (mem_waitingFor.1 hid) rfl
      exact hne (congrArg Prod.fst hsame)
  · intro id hid
    rw [pathTx_linkNext h hnext]
    apply hqueue.small id
    rw [List.append_assoc, List.mem_append, List.mem_append] at hid
    rcases hid with hid | hid | hid
    · exact List.mem_append_left _ (List.mem_cons_of_mem _ hid)
    · exact List.mem_append_right _ (hkept id hid)
    · exact List.mem_append_right _ ((List.filter_sublist.map Prod.snd).subset hid)

/-- Linking a block moves what waits for it to the queue. -/
theorem length_linkNext : (queue ++ s.waitingFor pindex).length +
    (linkNext env s pindex).mapBlocksUnlinked.length =
      queue.length + s.mapBlocksUnlinked.length := by
  have hsplit : s.mapBlocksUnlinked.length =
      (s.waitingFor pindex).length + (linkNext env s pindex).mapBlocksUnlinked.length := by
    rw [ChainState.waitingFor, List.length_map]
    exact List.length_eq_length_filter_add _
  rw [List.length_append, hsplit]
  omega

theorem Lawful.linkQueue {fuel : Nat} (h : Lawful env ⟨s, best, cleared⟩)
    (hqueue : Queued s queue) :
    Lawful env ⟨ChainState.linkQueue env fuel queue s, best, cleared⟩ := by
  induction fuel generalizing s queue with
  | zero => exact h
  | succ fuel ih =>
    cases queue with
    | nil => exact h
    | cons pindex queue =>
      rw [ChainState.linkQueue]
      apply ih
      · exact h.linkNext hqueue.head (hqueue.apart pindex List.mem_cons_self)
      · exact Queued.linkNext h.consistent hqueue

variable {e : CBlockIndex} {nTx : Nat} {nFile : Int}

theorem find_onDisk (he : s.tree.find pindex = some e) :
    (s.onDisk pindex nTx nFile).tree.find pindex =
      some (e.receivedBlockTransactions nTx nFile) := by
  have hfind : (s.onDisk pindex nTx nFile).tree.find pindex = _ :=
    BlockTree.find_modify s.tree pindex pindex _
  rw [hfind, if_pos rfl, he, Option.map_some]

/-- A block without data is not linked and does not wait. -/
theorem onDisk_remarked (h : s.Consistent) (he : s.tree.find pindex = some e)
    (hdata : e.hasData = false) : s.Remarked (s.onDisk pindex nTx nFile) := by
  have hnot : ¬ e.Received := by
    intro hreceived
    rw [hreceived.data] at hdata
    cases hdata
  have hunlinked : s.nChainTx pindex = 0 := by
    by_contra hlinked
    obtain ⟨e', he', hreceived⟩ := h.received pindex hlinked
    rw [he] at he'
    cases he'
    exact hnot hreceived
  have hmarked : s.Remarked (s.modify pindex fun e => e.receivedBlockTransactions nTx nFile) := by
    apply ChainState.Remarked.modify
    · exact fun _ => CBlockIndex.link_received nTx nFile
    · intro e' he'
      rw [he] at he'
      cases he'
      refine ⟨fun hreceived => absurd hreceived hnot, fun hwaits => ?_⟩
      obtain ⟨e', he', hreceived, -⟩ := hwaits.entry
      rw [he] at he'
      cases he'
      exact absurd hreceived hnot
  refine hmarked.trans (.of_tree rfl rfl ?_ rfl rfl rfl)
  exact Function.update_eq_self_iff.2 hunlinked.symm

theorem Lawful.onDisk (h : Lawful env ⟨s, best, cleared⟩) (he : s.tree.find pindex = some e)
    (hdata : e.hasData = false) : Lawful env ⟨s.onDisk pindex nTx nFile, best, cleared⟩ := by
  apply h.kept (onDisk_remarked h.consistent he hdata)
  · intro id e₁ e₂ he₁ he₂
    have hfind : (s.tree.modify pindex fun e => e.receivedBlockTransactions nTx nFile).find id =
        some e₂ := he₂
    rw [BlockTree.find_modify, he₁] at hfind
    split at hfind
    · cases hfind
      exact CBlockIndex.failed_receivedBlockTransactions nTx nFile
    · cases hfind
      rfl
  · rfl

/-- A block that has just been received waits. -/
theorem onDisk_waits (he : s.tree.find pindex = some e) (hfailed : e.failed = false)
    (hnTx : 0 < nTx) : (s.onDisk pindex nTx nFile).Waits pindex where
  unlinked := Function.update_self _ _ _
  entry := by
    refine ⟨_, find_onDisk he, CBlockIndex.received_receivedBlockTransactions nTx nFile hfailed, ?_⟩
    have hsame : (e.receivedBlockTransactions nTx nFile).nTx = nTx :=
      CBlockIndex.nTx_raiseValidity
    rw [hsame]
    omega

/-- A block without data is not in `mapBlocksUnlinked`. -/
theorem not_mem_unlinked (h : s.Consistent) (he : s.tree.find pindex = some e)
    (hdata : e.hasData = false) : pindex ∉ s.mapBlocksUnlinked.map Prod.snd := by
  intro hmem
  obtain ⟨⟨p, id⟩, hx, rfl⟩ := List.mem_map.1 hmem
  obtain ⟨e', he', hreceived, -⟩ := (h.waiting p id hx).1.entry
  rw [he] at he'
  cases he'
  rw [hreceived.data] at hdata
  cases hdata

/-- A block waits for its predecessor. -/
theorem Lawful.wait {p : Uint256} {n : Int} (h : Lawful env ⟨s, best, cleared⟩)
    (hwaits : s.Waits pindex) (hlink : s.tree.link pindex = some (some p, n))
    (hapart : pindex ∉ s.mapBlocksUnlinked.map Prod.snd) :
    Lawful env ⟨{ s with mapBlocksUnlinked := s.mapBlocksUnlinked ++ [(p, pindex)] }, best,
      cleared⟩ where
  consistent :=
    { path := h.consistent.path
      height := h.consistent.height
      work := h.consistent.work
      parent := h.consistent.parent
      received := h.consistent.received
      waiting := by
        intro q id hmem
        rcases List.mem_append.1 hmem with hold | hnew
        · obtain ⟨hwaits', hlink'⟩ := h.consistent.waiting q id hold
          exact ⟨⟨hwaits'.unlinked, hwaits'.entry⟩, hlink'⟩
        · cases List.mem_singleton.1 hnew
          exact ⟨⟨hwaits.unlinked, hwaits.entry⟩, n, hlink⟩
      once := by
        rw [List.map_append, List.nodup_append]
        refine ⟨h.consistent.once, List.nodup_singleton _, ?_⟩
        intro id hid id' hid' heq
        rw [heq, List.mem_singleton.1 hid'] at hid
        exact hapart hid
      active := h.consistent.active }
  linked := h.linked
  notWorse := h.notWorse
  law :=
    { present := fun _ _ he hlinked hfailed _ hbest hclear =>
        h.present he hlinked hfailed hbest hclear
      linked := h.law.linked
      notWorse := h.law.notWorse }

/-- A received block is linked with all that wait for it, or waits. -/
theorem Lawful.receivedBlockTransactions (h : Lawful env ⟨s, best, cleared⟩) (hnTx : 0 < nTx)
    (he : s.tree.find pindex = some e) (hdata : e.hasData = false) (hfailed : e.failed = false)
    (hsmall : ∀ id ∈ pindex :: s.mapBlocksUnlinked.map Prod.snd,
      (s.onDisk pindex nTx nFile).pathTx id < 2 ^ 32) :
    Lawful env ⟨s.receivedBlockTransactions env pindex nTx nFile, best, cleared⟩ := by
  have hremarked : s.Remarked (s.onDisk pindex nTx nFile) :=
    onDisk_remarked h.consistent he hdata
  have hdisk : Lawful env ⟨s.onDisk pindex nTx nFile, best, cleared⟩ := h.onDisk he hdata
  have hwaits : (s.onDisk pindex nTx nFile).Waits pindex := onDisk_waits he hfailed hnTx
  have hapart : pindex ∉ (s.onDisk pindex nTx nFile).mapBlocksUnlinked.map Prod.snd :=
    not_mem_unlinked (s := s) h.consistent he hdata
  have hlink : (s.onDisk pindex nTx nFile).tree.link pindex = some e.link := by
    rw [hremarked.link, BlockTree.link_of_find he]
    rfl
  have hprev : ((s.onDisk pindex nTx nFile).tree.find pindex).bind CBlockIndex.pprev =
      e.pprev := by
    rw [find_onDisk he, Option.bind_some]
    exact congrArg Prod.fst (CBlockIndex.link_received nTx nFile)
  -- the block is linked when its predecessor is
  have hqueue : (∀ p, e.pprev = some p → (s.onDisk pindex nTx nFile).nChainTx p ≠ 0) →
      Queued (s.onDisk pindex nTx nFile) [pindex] := by
    intro hready
    constructor
    · intro id hid
      rwa [List.mem_singleton.1 hid]
    · intro id hid p n hplace
      rw [List.mem_singleton.1 hid, hlink] at hplace
      exact hready p (congrArg Prod.fst (Option.some.inj hplace))
    · exact List.nodup_singleton _
    · intro id hid
      rwa [List.mem_singleton.1 hid]
    · exact hsmall
  unfold ChainState.receivedBlockTransactions
  dsimp only
  split
  · rename_i hnone
    apply hdisk.linkQueue
    apply hqueue
    intro p hsome
    rw [hprev.symm.trans hnone] at hsome
    cases hsome
  · rename_i p hsome
    have hp : e.pprev = some p := hprev.symm.trans hsome
    split
    · rename_i hlinked
      apply hdisk.linkQueue
      apply hqueue
      intro q hq
      rw [hp] at hq
      cases hq
      exact hlinked
    · split
      · apply hdisk.wait hwaits _ hapart
        · exact e.nHeight
        · rw [hlink, ← hp]
          rfl
      · exact hdisk

end Watch

/-! ## Headers -/

namespace BlockTree

variable {env : ChainEnv} {t : BlockTree} {a : HeaderArgs}

variable (t a) in
/-- An entry that `AddToBlockIndex` makes. -/
structure IsNew (e : CBlockIndex) : Prop where
  /-- It has no marks. -/
  nStatus : e.nStatus = 0#32
  /-- It is a root, or above a block of the tree. -/
  link : e.link = (none, 0) ∨
    ∃ p, t.find a.hashPrevBlock = some p ∧ e.link = (some a.hashPrevBlock, p.nHeight + 1)

/-- A block without entry gets one, unless it and its predecessor are null pointers. -/
theorem addToBlockIndex_cases (h : t.find a.hash = none) :
    t.addToBlockIndex a = (t, none) ∨ ∃ e, IsNew t a e ∧ e.nTx = 0 ∧
      t.addToBlockIndex a = (t.set a.hash (e.raiseValidity validTree), some a.hash) := by
  unfold addToBlockIndex
  split
  · rename_i e hself
    rw [find, hself] at h
    cases h
  · exact Or.inl rfl
  · refine Or.inr ⟨_, ⟨?_, ?_⟩, ?_, rfl⟩
    · split <;> rfl
    · split
      · rename_i p hprev
        exact Or.inr ⟨p, hprev, rfl⟩
      · exact Or.inl rfl
    · split <;> rfl

/-- `AcceptBlockHeader` leaves the tree, makes a new entry without transactions, or clears the
marks of a failed block. -/
theorem acceptBlockHeader_cases :
    (t.acceptBlockHeader env a).1 = t ∨
      (t.find a.hash = none ∧ ∃ e, IsNew t a e ∧ e.nTx = 0 ∧
        (t.acceptBlockHeader env a).1 = t.set a.hash (e.raiseValidity validTree)) ∨
      (env.assetchainsCC = true ∧ (∃ e, t.find a.hash = some e ∧ e.failed = true) ∧
        (t.acceptBlockHeader env a).1 = t.modify a.hash fun e => e.clearStatus failedMask) := by
  unfold acceptBlockHeader
  split
  · -- a known block
    rename_i entry hself
    have hfind : t.find a.hash = entry := by rw [find, hself, Option.join_some]
    cases entry with
    | some e =>
      dsimp only
      rw [Option.bind_some, hfind]
      dsimp only
      split
      · rename_i hfailed
        split
        · rename_i hcc
          exact Or.inr (Or.inr ⟨hcc, ⟨e, rfl, hfailed⟩, rfl⟩)
        · exact Or.inl rfl
      · exact Or.inl rfl
    | none =>
      dsimp only
      obtain hadd | ⟨e, hnew, hnTx, hadd⟩ := addToBlockIndex_cases hfind
      · rw [hadd]
        exact Or.inl rfl
      · have hnot : (e.raiseValidity validTree).failed = false := by
          rw [CBlockIndex.failed_raiseValidity CBlockIndex.raisesTo_validTree]
          simp [CBlockIndex.failed, hnew.nStatus]
        rw [hadd]
        dsimp only
        rw [Option.bind_some, find_set, if_pos rfl]
        dsimp only
        rw [hnot]
        exact Or.inr (Or.inl ⟨hfind, e, hnew, hnTx, rfl⟩)
  · rename_i hself
    have hfind : t.find a.hash = none := by rw [find, hself, Option.join_none]
    dsimp only
    split
    · exact Or.inl rfl
    · split
      · exact Or.inl rfl
      · split
        · exact Or.inl rfl
        · obtain hadd | ⟨e, hnew, hnTx, hadd⟩ := addToBlockIndex_cases hfind
          · rw [hadd]
            exact Or.inl rfl
          · rw [hadd]
            exact Or.inr (Or.inl ⟨hfind, e, hnew, hnTx, rfl⟩)

/-- The place of a new entry. -/
theorem link_addEntry {e : CBlockIndex} (id : Uint256) :
    (t.set a.hash (e.raiseValidity validTree)).link id =
      if id = a.hash then some e.link else t.link id := by
  rw [link, find_set]
  split
  · rw [Option.map_some, CBlockIndex.link_raiseValidity]
  · rfl

/-- A block with a place is not the new one. -/
theorem ne_of_link {id : Uint256} {place : Option Uint256 × Int} (hnone : t.find a.hash = none)
    (hlink : t.link id = some place) : id ≠ a.hash := by
  rintro rfl
  rw [link, hnone] at hlink
  cases hlink

/-- A block with a place keeps it. -/
theorem link_addEntry_of_old {e : CBlockIndex} {id : Uint256} {place : Option Uint256 × Int}
    (hnone : t.find a.hash = none) (hlink : t.link id = some place) :
    (t.set a.hash (e.raiseValidity validTree)).link id = some place := by
  rw [link_addEntry, if_neg (ne_of_link hnone hlink), hlink]

end BlockTree

/-- The active chain stays a path of the tree when an entry is new. -/
theorem CChain.Linked.addEntry {t : BlockTree} {a : HeaderArgs} {e : CBlockIndex} {c : CChain}
    (h : c.Linked t) (hnone : t.find a.hash = none) (hnew : t.IsNew a e) :
    c.Linked (t.set a.hash (e.raiseValidity validTree)) where
  root := by
    intro id n hlink
    rw [BlockTree.link_addEntry] at hlink
    split at hlink
    · obtain hroot | ⟨p, -, hplace⟩ := hnew.link
      · rw [hroot] at hlink
        cases hlink
        rfl
      · rw [hplace] at hlink
        cases hlink
    · exact h.root id n hlink
  parent := by
    intro id p n hlink
    rw [BlockTree.link_addEntry] at hlink
    split at hlink
    · obtain hroot | ⟨q, hq, hplace⟩ := hnew.link
      · rw [hroot] at hlink
        cases hlink
      · rw [hplace] at hlink
        cases hlink
        refine ⟨q.pprev, BlockTree.link_addEntry_of_old hnone ?_⟩
        rw [BlockTree.link_of_find hq, Int.add_sub_cancel]
    · obtain ⟨q, hq⟩ := h.parent id p n hlink
      exact ⟨q, BlockTree.link_addEntry_of_old hnone hq⟩
  active := by
    intro i x hx
    obtain ⟨id, hid, hlink⟩ := h.active i x hx
    exact ⟨id, hid, BlockTree.link_addEntry_of_old hnone hlink⟩

namespace Watch

variable {env : TipEnv} {s : ChainState} {best hash id : Uint256} {a : HeaderArgs} {e : CBlockIndex}
  {nProof : Nat} {cleared : Uint256 → Bool}

/-- The state with a new entry. -/
def withEntry (s : ChainState) (a : HeaderArgs) (nProof : Nat) (e : CBlockIndex) : ChainState :=
  { s with tree := s.tree.set a.hash (e.raiseValidity validTree) }.newEntry a.hash nProof

theorem find_withEntry : (withEntry s a nProof e).tree.find id =
    if id = a.hash then some (e.raiseValidity validTree) else s.tree.find id :=
  BlockTree.find_set _ _ _ _

theorem link_withEntry : (withEntry s a nProof e).tree.link id =
    if id = a.hash then some e.link else s.tree.link id :=
  BlockTree.link_addEntry id

theorem link_withEntry_of_old {place : Option Uint256 × Int} (hnone : s.tree.find a.hash = none)
    (hlink : s.tree.link id = some place) :
    (withEntry s a nProof e).tree.link id = some place :=
  BlockTree.link_addEntry_of_old hnone hlink

theorem chainWork_withEntry_of_ne (hne : id ≠ a.hash) :
    (withEntry s a nProof e).chainWork id = s.chainWork id :=
  Function.update_of_ne hne _ _

/-- A new entry has the work of its predecessor and its own. -/
theorem chainWork_withEntry_self : (withEntry s a nProof e).chainWork a.hash =
    e.pprev.elim 0 s.chainWork + nProof := by
  have hself : (withEntry s a nProof e).chainWork a.hash =
      (((withEntry s a nProof e).tree.find a.hash).bind CBlockIndex.pprev).elim 0 s.chainWork +
        nProof :=
    Function.update_self _ _ _
  have hprev : (e.raiseValidity validTree).pprev = e.pprev :=
    congrArg Prod.fst CBlockIndex.link_raiseValidity
  rw [hself, find_withEntry, if_pos rfl, Option.bind_some, hprev]

/-- `AcceptBlockHeader` leaves the state, makes a new entry without transactions, or clears the
marks of a failed block. -/
theorem acceptBlockHeader_cases :
    (s.acceptBlockHeader env a nProof).1 = s ∨
      (s.tree.find a.hash = none ∧ ∃ e, s.tree.IsNew a e ∧ e.nTx = 0 ∧
        (s.acceptBlockHeader env a nProof).1 = withEntry s a nProof e) ∨
      (env.assetchainsCC = true ∧ (∃ e, s.tree.find a.hash = some e ∧ e.failed = true) ∧
        (s.acceptBlockHeader env a nProof).1 =
          s.modify a.hash fun e => e.clearStatus failedMask) := by
  simp only [ChainState.acceptBlockHeader]
  obtain hsame | ⟨hnone, e, hnew, hnTx, hset⟩ | ⟨hcc, ⟨e, he, hfailed⟩, hmodify⟩ :=
    BlockTree.acceptBlockHeader_cases (t := s.tree) (a := a)
  · rw [hsame]
    have hknown : ((s.tree.find a.hash).isNone && (s.tree.find a.hash).isSome) = false := by
      cases s.tree.find a.hash <;> rfl
    rw [hknown]
    exact Or.inl rfl
  · have hisNew : ((s.tree.find a.hash).isNone &&
        ((s.tree.set a.hash (e.raiseValidity validTree)).find a.hash).isSome) = true := by
      rw [hnone, BlockTree.find_set, if_pos rfl]
      rfl
    rw [hset, hisNew]
    exact Or.inr (Or.inl ⟨hnone, e, hnew, hnTx, rfl⟩)
  · have hknown : ((s.tree.find a.hash).isNone &&
        ((s.tree.modify a.hash fun e => e.clearStatus failedMask).find a.hash).isSome) =
          false := by
      rw [he]
      rfl
    rw [hmodify, hknown]
    exact Or.inr (Or.inr ⟨hcc, ⟨e, he, hfailed⟩, rfl⟩)

/-- A linked block is not the new one. -/
theorem ne_of_linked (h : s.Consistent) (hnone : s.tree.find a.hash = none)
    (hlinked : s.nChainTx id ≠ 0) : id ≠ a.hash := by
  rintro rfl
  obtain ⟨e, he, -⟩ := h.received _ hlinked
  rw [hnone] at he
  cases he

theorem nChainTx_withEntry (h : s.Consistent) (hnone : s.tree.find a.hash = none) :
    (withEntry s a nProof e).nChainTx = s.nChainTx := by
  apply Function.update_eq_self_iff.2
  by_contra hlinked
  exact ne_of_linked h hnone (Ne.symm hlinked) rfl

theorem withEntry_path (h : s.Consistent) (hnone : s.tree.find a.hash = none)
    (hnew : s.tree.IsNew a e) : s.chainActive.Linked (withEntry s a nProof e).tree :=
  h.path.addEntry hnone hnew

/-- A new entry is not linked, and has more work than its predecessor. -/
theorem withEntry_consistent (h : s.Consistent) (hnone : s.tree.find a.hash = none)
    (hnew : s.tree.IsNew a e) (hproof : 0 < nProof) : (withEntry s a nProof e).Consistent where
  path := withEntry_path h hnone hnew
  height := by
    intro id p n hlink
    rw [link_withEntry] at hlink
    split at hlink
    · obtain hroot | ⟨q, hq, hplace⟩ := hnew.link
      · rw [hroot] at hlink
        cases hlink
        exact le_rfl
      · rw [hplace] at hlink
        cases hlink
        have hnonneg := h.height a.hashPrevBlock q.pprev q.nHeight (BlockTree.link_of_find hq)
        omega
    · exact h.height id p n hlink
  work := by
    intro id p n hlink
    rw [link_withEntry] at hlink
    split at hlink
    · rename_i hid
      have hplace : e.link = (some p, n) := Option.some.inj hlink
      have hprev : e.pprev = some p := congrArg Prod.fst hplace
      obtain hroot | ⟨q, hq, hplace'⟩ := hnew.link
      · rw [hroot] at hplace
        cases hplace
      · rw [hplace'] at hplace
        cases hplace
        have hne := BlockTree.ne_of_link hnone (BlockTree.link_of_find hq)
        rw [hid, chainWork_withEntry_self, chainWork_withEntry_of_ne hne, hprev, Option.elim_some]
        omega
    · rename_i hid
      obtain ⟨q, hq⟩ := h.path.parent id p n hlink
      rw [chainWork_withEntry_of_ne hid, chainWork_withEntry_of_ne (BlockTree.ne_of_link hnone hq)]
      exact h.work id p n hlink
  parent := by
    intro id p n hlink hlinked
    rw [nChainTx_withEntry h hnone] at hlinked ⊢
    rw [link_withEntry, if_neg (ne_of_linked h hnone hlinked)] at hlink
    exact h.parent id p n hlink hlinked
  received := by
    intro id hlinked
    rw [nChainTx_withEntry h hnone] at hlinked
    rw [find_withEntry, if_neg (ne_of_linked h hnone hlinked)]
    exact h.received id hlinked
  waiting := by
    intro p id hmem
    obtain ⟨hwaits, n, hlink⟩ := h.waiting p id hmem
    refine ⟨⟨?_, ?_⟩, n, link_withEntry_of_old hnone hlink⟩
    · rw [nChainTx_withEntry h hnone]
      exact hwaits.unlinked
    · rw [find_withEntry, if_neg (BlockTree.ne_of_link hnone hlink)]
      exact hwaits.entry
  once := h.once
  active := by
    rw [nChainTx_withEntry h hnone]
    exact h.active

/-- No candidate is the new block. -/
theorem Lawful.withEntry (h : Lawful env ⟨s, best, cleared⟩) (hnone : s.tree.find a.hash = none)
    (hnew : s.tree.IsNew a e) (hproof : 0 < nProof) :
    Lawful env ⟨withEntry s a nProof e, best, cleared⟩ := by
  have hlinked : (Watch.withEntry s a nProof e).nChainTx = s.nChainTx :=
    nChainTx_withEntry h.consistent hnone
  have hless : ∀ pa pb, s.nChainTx pa ≠ 0 → s.nChainTx pb ≠ 0 →
      (Watch.withEntry s a nProof e).workLess env pa pb = s.workLess env pa pb := by
    intro pa pb ha hb
    have hne : ∀ id, id = pa ∨ id = pb → id ≠ a.hash := by
      rintro id (rfl | rfl)
      · exact ne_of_linked h.consistent hnone ha
      · exact ne_of_linked h.consistent hnone hb
    apply ChainState.workLess_congr
    · exact fun id hid => Function.update_of_ne (hne id hid) _ _
    · exact fun id hid => Function.update_of_ne (hne id hid) _ _
  have hworse : ∀ id, s.nChainTx id ≠ 0 →
      (Watch.withEntry s a nProof e).worseThanTip env id = s.worseThanTip env id :=
    fun id => worseThanTip_of_order h.consistent rfl hless
  refine ⟨withEntry_consistent h.consistent hnone hnew hproof, ?_, ?_, ?_, ?_, ?_⟩
  · rw [hlinked]
    exact h.linked
  · exact (hworse best h.linked).trans h.notWorse
  · intro id e' he' hid hfailed _ hnot hclear
    rw [hlinked] at hid
    rw [find_withEntry, if_neg (ne_of_linked h.consistent hnone hid)] at he'
    rw [hless id best hid h.linked] at hnot
    exact h.present he' hid hfailed hnot hclear
  · intro id hcand
    rw [hlinked]
    exact h.law.linked id hcand
  · intro id hcand
    rw [hworse id (h.law.linked id hcand)]
    exact h.law.notWorse id hcand

/-- A block whose marks its header clears is taken out of the law. -/
theorem Lawful.unmarked (h : Lawful env ⟨s, best, cleared⟩) (he : s.tree.find hash = some e)
    (hfailed : e.failed = true) {p : Uint256 → Bool} (hp : p hash = true) :
    Lawful env ⟨s.modify hash fun e => e.clearStatus failedMask, best,
      clear ⟨s, best, cleared⟩ p⟩ := by
  have hmarked : s.Remarked (s.modify hash fun e => e.clearStatus failedMask) := by
    apply ChainState.Remarked.modify
    · exact fun _ => CBlockIndex.link_clearStatus
    · exact fun e _ => ⟨fun hreceived => hreceived.clearStatus (by decide) (by decide),
        fun _ => rfl⟩
  apply h.remarked hmarked
  · intro id e₁ e₂ he₁ he₂ _ hnot _ hclear
    obtain ⟨hold, hblock⟩ := of_clear hclear he₁
    refine ⟨hold, fun hcand => hcand ?_⟩
    have hfind : (s.tree.modify hash fun e => e.clearStatus failedMask).find id = some e₂ := he₂
    rw [BlockTree.find_modify, he₁] at hfind
    split at hfind
    · rename_i hid
      subst hid
      rw [he] at he₁
      cases he₁
      rw [hblock hfailed] at hp
      cases hp
    · cases hfind
      exact hnot
  · exact fun id hcand => Or.inl hcand

/-- Fewer blocks are under the law. -/
theorem Lawful.clear (h : Lawful env ⟨s, best, cleared⟩) (p : Uint256 → Bool) :
    Lawful env ⟨s, best, Watch.clear ⟨s, best, cleared⟩ p⟩ where
  consistent := h.consistent
  linked := h.linked
  notWorse := h.notWorse
  law :=
    { present := fun _ _ he hlinked hfailed _ hbest hclear =>
        h.present he hlinked hfailed hbest (of_clear hclear he).1
      linked := h.law.linked
      notWorse := h.law.notWorse }

theorem Lawful.acceptBlockHeader (h : Lawful env ⟨s, best, cleared⟩) (hproof : 0 < nProof) :
    Lawful env ⟨(s.acceptBlockHeader env a nProof).1, best,
      Watch.clear ⟨s, best, cleared⟩ fun hash => env.assetchainsCC && hash == a.hash⟩ := by
  obtain hsame | ⟨hnone, e, hnew, -, hentry⟩ | ⟨hcc, ⟨e, he, hfailed⟩, hmodify⟩ :=
    @acceptBlockHeader_cases env s a nProof
  · rw [hsame]
    exact h.clear _
  · rw [hentry]
    exact (h.clear _).withEntry hnone hnew hproof
  · rw [hmodify]
    apply h.unmarked he hfailed
    rw [hcc, beq_self_eq_true, Bool.and_self]

end Watch

end IndexChain.Chain
