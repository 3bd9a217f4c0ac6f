import IndexChain.Models.Chain.Candidates
import IndexChain.Models.Chain.Notarized

/-!
# Linked blocks

What holds of the block index between the steps: a linked block and all its ancestors
are received, a block has more work than its predecessor, and the received blocks that
wait for an ancestor are not linked. A change of marks keeps this.
-/

namespace IndexChain.Chain

open BlockStatus

/-! ## Marks -/

namespace CBlockIndex

variable {env : ChainEnv} {a : ConnectArgs} {e e' : CBlockIndex} {flag : BlockStatus}

/-- The block is on disk and its transactions are well formed. -/
structure Received (e : CBlockIndex) : Prop where
  /-- It is on disk. -/
  data : e.hasData = true
  /-- Its level says so. -/
  valid : validTransactions ≤ level e.nStatus

theorem hasData_eq_true : e.hasData = true ↔ e.nStatus &&& haveData ≠ 0#32 :=
  bne_iff_ne

theorem Received.orStatus (h : e.Received) : (e.orStatus flag).Received where
  data := by
    have hdata := hasData_eq_true.1 h.data
    rw [hasData_eq_true]
    simp only [CBlockIndex.orStatus]
    rw [BitVec.and_or_distrib_right]
    intro hzero
    exact hdata (BitVec.or_eq_zero_iff.1 hzero).1
  valid := by
    have hvalid := h.valid
    rw [BitVec.le_def] at hvalid ⊢
    exact hvalid.trans (level_le_level_or e.nStatus flag)

theorem Received.clearStatus (h : e.Received) (hflag : Apart flag)
    (hdata : ~~~flag &&& haveData = haveData) : (e.clearStatus flag).Received where
  data := by
    rw [hasData_eq_true]
    simp only [CBlockIndex.clearStatus]
    rw [BitVec.and_assoc, hdata]
    exact hasData_eq_true.1 h.data
  valid := by
    simp only [CBlockIndex.clearStatus]
    rw [level_and_not hflag]
    exact h.valid

/-- The word that `RaiseValidity` writes. -/
def raised (st nUpTo : BlockStatus) : BlockStatus :=
  (st &&& ~~~validMask) ||| nUpTo

theorem raised_and (st : BlockStatus) {nUpTo mask : BlockStatus}
    (hapart : ~~~validMask &&& mask = mask) (hzero : nUpTo &&& mask = 0#32) :
    raised st nUpTo &&& mask = st &&& mask := by
  simp only [raised]
  rw [BitVec.and_or_distrib_right, hzero, BitVec.or_zero, BitVec.and_assoc, hapart]

theorem level_raised (st : BlockStatus) {nUpTo : BlockStatus}
    (hmask : nUpTo &&& validMask = nUpTo) : level (raised st nUpTo) = nUpTo := by
  have hzero : ~~~validMask &&& validMask = 0#32 := by decide
  simp only [raised, level]
  rw [BitVec.and_or_distrib_right, BitVec.and_assoc, hmask, hzero, BitVec.and_zero,
    BitVec.zero_or]

/-- `RaiseValidity` does nothing, or writes the level over a lower one. -/
theorem raiseValidity_cases (e : CBlockIndex) (nUpTo : BlockStatus) :
    (e.raiseValidity nUpTo = e ∧ (e.failed = true ∨ nUpTo ≤ level e.nStatus)) ∨
      e.raiseValidity nUpTo = { e with nStatus := raised e.nStatus nUpTo } := by
  unfold raiseValidity
  split
  · rename_i hfailed
    exact Or.inl ⟨rfl, Or.inl hfailed⟩
  · split
    · exact Or.inr rfl
    · rename_i hlevel
      exact Or.inl ⟨rfl, Or.inr (BitVec.not_lt.1 hlevel)⟩

/-- A level to raise to, apart from the flags. -/
structure RaisesTo (nUpTo : BlockStatus) : Prop where
  /-- It is a level. -/
  mask : nUpTo &&& validMask = nUpTo
  /-- It does not fail the block. -/
  failed : nUpTo &&& failedMask = 0#32
  /-- It does not say that the block is on disk. -/
  data : nUpTo &&& haveData = 0#32

theorem raisesTo_validTransactions : RaisesTo validTransactions where
  mask := by decide
  failed := by decide
  data := by decide

theorem raisesTo_validScripts : RaisesTo validScripts where
  mask := by decide
  failed := by decide
  data := by decide

theorem raisesTo_validTree : RaisesTo validTree where
  mask := by decide
  failed := by decide
  data := by decide

theorem failed_raiseValidity {nUpTo : BlockStatus} (h : RaisesTo nUpTo) :
    (e.raiseValidity nUpTo).failed = e.failed := by
  obtain ⟨hsame, -⟩ | hraised := raiseValidity_cases e nUpTo
  · rw [hsame]
  · rw [hraised]
    simp only [failed]
    rw [raised_and e.nStatus (by decide) h.failed]

theorem hasData_raiseValidity {nUpTo : BlockStatus} (h : RaisesTo nUpTo) :
    (e.raiseValidity nUpTo).hasData = e.hasData := by
  obtain ⟨hsame, -⟩ | hraised := raiseValidity_cases e nUpTo
  · rw [hsame]
  · rw [hraised]
    simp only [hasData]
    rw [raised_and e.nStatus (by decide) h.data]

theorem Received.raiseValidity {nUpTo : BlockStatus} (h : e.Received) (hto : RaisesTo nUpTo)
    (hle : validTransactions ≤ nUpTo) : (e.raiseValidity nUpTo).Received where
  data := by
    rw [hasData_raiseValidity hto]
    exact h.data
  valid := by
    obtain ⟨hsame, -⟩ | hraised := raiseValidity_cases e nUpTo
    · rw [hsame]
      exact h.valid
    · rw [hraised, level_raised e.nStatus hto.mask]
      exact hle

@[simp] theorem nTx_raiseValidity {nUpTo : BlockStatus} :
    (e.raiseValidity nUpTo).nTx = e.nTx := by
  obtain ⟨hsame, -⟩ | hraised := raiseValidity_cases e nUpTo
  · rw [hsame]
  · rw [hraised]

theorem failed_orStatus (hflag : flag &&& failedMask = 0#32) :
    (e.orStatus flag).failed = e.failed := by
  simp only [failed, orStatus]
  rw [BitVec.and_or_distrib_right, hflag, BitVec.or_zero]

/-- A failure mark fails the block. -/
theorem failed_of_orStatus (hflag : flag &&& failedMask ≠ 0#32) :
    (e.orStatus flag).failed = true := by
  simp only [failed, orStatus]
  rw [bne_iff_ne, BitVec.and_or_distrib_right]
  intro hzero
  exact hflag (BitVec.or_eq_zero_iff.1 hzero).2

theorem failed_clearStatus (hflag : ~~~flag &&& failedMask = failedMask) :
    (e.clearStatus flag).failed = e.failed := by
  simp only [failed, clearStatus]
  rw [BitVec.and_assoc, hflag]

/-- A block that has not failed is received when its transactions come. -/
theorem received_receivedBlockTransactions (nTx : Nat) (nFile : Int) (h : e.failed = false) :
    (e.receivedBlockTransactions nTx nFile).Received := by
  have hnofail : haveData &&& failedMask = 0#32 := by decide
  have hset : ({ e with nTx := nTx, nFile := nFile }.orStatus haveData).hasData = true := by
    rw [hasData_eq_true]
    simp only [orStatus]
    rw [BitVec.and_or_distrib_right]
    intro hzero
    exact absurd (BitVec.or_eq_zero_iff.1 hzero).2 (by decide)
  simp only [receivedBlockTransactions]
  constructor
  · rw [hasData_raiseValidity raisesTo_validTransactions]
    exact hset
  · obtain ⟨hsame, hfailed | hlevel⟩ | hraised := raiseValidity_cases
      ({ e with nTx := nTx, nFile := nFile }.orStatus haveData) validTransactions
    · rw [failed_orStatus hnofail] at hfailed
      exact absurd hfailed (by simpa [failed] using h)
    · rw [hsame]
      exact hlevel
    · rw [hraised, level_raised _ raisesTo_validTransactions.mask]
      exact BitVec.le_refl _

theorem failed_receivedBlockTransactions (nTx : Nat) (nFile : Int) :
    (e.receivedBlockTransactions nTx nFile).failed = e.failed := by
  simp only [receivedBlockTransactions]
  rw [failed_raiseValidity raisesTo_validTransactions, failed_orStatus (by decide)]
  rfl

theorem Received.receivedBlockTransactions (h : e.Received) (nTx : Nat) (nFile : Int) :
    (e.receivedBlockTransactions nTx nFile).Received := by
  have hset : ({ e with nTx := nTx, nFile := nFile }).Received := ⟨h.data, h.valid⟩
  exact hset.orStatus.raiseValidity raisesTo_validTransactions (BitVec.le_refl _)

/-- `ConnectBlock` does not fail its block, and leaves a received one received. -/
theorem connectBlock_marks (env : ChainEnv) (a : ConnectArgs) (e : CBlockIndex) :
    (e.connectBlock env a).1.failed = e.failed ∧
      (e.Received → (e.connectBlock env a).1.Received) := by
  have hkeeps : ConnectKeeps a fun e' => e'.failed = e.failed ∧ (e.Received → e'.Received) := by
    constructor
    · exact fun e' he => ⟨(failed_orStatus (by decide)).trans he.1, fun h => (he.2 h).orStatus⟩
    · intro e' he
      constructor
      · rw [failed_receivedBlockTransactions, failed_clearStatus (by decide), he.1]
      · intro h
        exact ((he.2 h).clearStatus (by decide) (by decide)).receivedBlockTransactions _ _
    · exact fun e' he => ⟨(failed_orStatus (by decide)).trans he.1, fun h => (he.2 h).orStatus⟩
    · exact fun e' he => ⟨(failed_orStatus (by decide)).trans he.1, fun h => (he.2 h).orStatus⟩
    · intro e' he
      constructor
      · rw [failed_raiseValidity raisesTo_validScripts, he.1]
      · exact fun h => (he.2 h).raiseValidity raisesTo_validScripts (by decide)
  exact hkeeps.connectBlock ⟨rfl, id⟩

end CBlockIndex

namespace BlockTree

variable {t t' : BlockTree} {hash id : Uint256} {e e' : CBlockIndex}

theorem find_modify (t : BlockTree) (hash id : Uint256) (f : CBlockIndex → CBlockIndex) :
    (t.modify hash f).find id = if id = hash then (t.find id).map f else t.find id := by
  unfold modify
  split
  · rename_i e he
    rw [find_set]
    split
    · rename_i hid
      rw [hid, he, Option.map_some]
    · rfl
  · rename_i hnone
    split
    · rename_i hid
      rw [hid, hnone, Option.map_none]
    · rfl

/-- Trees with the same places have entries for the same blocks. -/
theorem find_of_link (hlink : t'.link = t.link) (h : t.find hash = some e) :
    ∃ e', t'.find hash = some e' := by
  have hplace : t'.link hash = some e.link := by
    rw [hlink]
    simp [link, h]
  obtain ⟨e', he', -⟩ := Option.map_eq_some_iff.1 hplace
  exact ⟨e', he'⟩

/-- `ConnectBlock` writes the entry of its block only. -/
theorem find_connectBlock (env : ChainEnv) (t : BlockTree) (a : ConnectArgs) (id : Uint256) :
    (t.connectBlock env a).1.find id =
      if id = a.hash then (t.find id).map fun e => (e.connectBlock env a).1 else t.find id := by
  unfold connectBlock
  split
  · rename_i hnone
    split
    · rename_i hid
      rw [hid, hnone, Option.map_none]
    · rfl
  · rename_i e he
    have hset : ∀ connected, ({ t.set a.hash (e.connectBlock env a).1 with
        connected := connected }).find id = (t.set a.hash (e.connectBlock env a).1).find id :=
      fun _ => rfl
    dsimp only
    rw [hset, find_set]
    split
    · rename_i hid
      rw [hid, he, Option.map_some]
    · rfl

/-- The path of a block is the block and the path of its predecessor. -/
theorem path_eq_cons {c : CChain} (hpath : c.Linked t)
    (hheight : ∀ hash p n, t.link hash = some (p, n) → 0 ≤ n) (he : t.find hash = some e) :
    t.path hash = hash :: e.pprev.elim [] t.path := by
  rw [path, he, Option.elim_some, ancestry, he]
  dsimp only
  cases hp : e.pprev with
  | none => rfl
  | some p =>
    have hlink := link_of_find he
    rw [hp] at hlink
    obtain ⟨q, hq⟩ := hpath.parent hash p e.nHeight hlink
    have hnonneg := hheight p q _ hq
    obtain ⟨e', he', -, hn⟩ := link_eq_some hq
    have hstep : e.nHeight.toNat = e'.nHeight.toNat + 1 := by omega
    rw [Option.elim_some, Option.elim_some, hstep, path, he', Option.elim_some]

end BlockTree

/-! ## The order of the candidates -/

namespace ChainState

variable {env : TipEnv} {s s' : ChainState} {pa pb pc hash : Uint256}

theorem workLess_iff : s.workLess env pa pb = true ↔
    s.chainWork pa < s.chainWork pb ∨ s.chainWork pa = s.chainWork pb ∧
      ((s.nSequenceId pb).toNat < (s.nSequenceId pa).toNat ∨
        (s.nSequenceId pa).toNat = (s.nSequenceId pb).toNat ∧ env.addr pb < env.addr pa) := by
  simp only [workLess, BitVec.lt_def, gt_iff_lt]
  split_ifs <;> simp <;> omega

theorem workLess_self : s.workLess env pa pa = false := by
  rw [← Bool.not_eq_true, workLess_iff]
  omega

theorem workLess_asymm (h : s.workLess env pa pb = true) : s.workLess env pb pa = false := by
  rw [← Bool.not_eq_true, workLess_iff]
  rw [workLess_iff] at h
  omega

/-- Not being worse is transitive. -/
theorem not_workLess_trans (hab : s.workLess env pa pb = false)
    (hbc : s.workLess env pb pc = false) : s.workLess env pa pc = false := by
  rw [← Bool.not_eq_true, workLess_iff] at *
  omega

/-- Of two blocks one is worse. -/
theorem workLess_of_ne (hne : pa ≠ pb) (h : s.workLess env pb pa = false) :
    s.workLess env pa pb = true := by
  have haddr : env.addr pa ≠ env.addr pb := fun heq => hne (env.addr_injective heq)
  rw [← Bool.not_eq_true, workLess_iff] at h
  rw [workLess_iff]
  omega

/-- A block with less work is worse. -/
theorem workLess_of_chainWork (h : s.chainWork pa < s.chainWork pb) :
    s.workLess env pa pb = true :=
  workLess_iff.2 (Or.inl h)

theorem workLess_congr (hwork : ∀ id, id = pa ∨ id = pb → s'.chainWork id = s.chainWork id)
    (hseq : ∀ id, id = pa ∨ id = pb → s'.nSequenceId id = s.nSequenceId id) :
    s'.workLess env pa pb = s.workLess env pa pb := by
  unfold workLess
  rw [hwork pa (Or.inl rfl), hwork pb (Or.inr rfl), hseq pa (Or.inl rfl), hseq pb (Or.inr rfl)]

/-! ## Consistency -/

variable (s) in
/-- The block is received but not linked. -/
structure Waits (hash : Uint256) : Prop where
  /-- It is not linked. -/
  unlinked : s.nChainTx hash = 0
  /-- It is received, with transactions. -/
  entry : ∃ e, s.tree.find hash = some e ∧ e.Received ∧ e.nTx ≠ 0

variable (s) in
/-- What holds of the linked blocks between the steps. -/
structure Consistent : Prop where
  /-- The active chain is a path from the root. -/
  path : s.chainActive.Linked s.tree
  /-- Heights are not negative. -/
  height : ∀ hash p n, s.tree.link hash = some (p, n) → 0 ≤ n
  /-- A block has more work than its predecessor. -/
  work : ∀ hash p n, s.tree.link hash = some (some p, n) → s.chainWork p < s.chainWork hash
  /-- The predecessor of a linked block is linked. -/
  parent : ∀ hash p n, s.tree.link hash = some (some p, n) → s.nChainTx hash ≠ 0 →
    s.nChainTx p ≠ 0
  /-- Linked blocks are received. -/
  received : ∀ hash, s.nChainTx hash ≠ 0 → ∃ e, s.tree.find hash = some e ∧ e.Received
  /-- Blocks in `mapBlocksUnlinked` wait, under their predecessor. -/
  waiting : ∀ p hash, (p, hash) ∈ s.mapBlocksUnlinked →
    s.Waits hash ∧ ∃ n, s.tree.link hash = some (some p, n)
  /-- They are there once. -/
  once : (s.mapBlocksUnlinked.map Prod.snd).Nodup
  /-- There is a tip, which is linked. -/
  active : ∃ tip, s.tip = some tip ∧ s.nChainTx tip ≠ 0

/-- The path of a linked block is counted. -/
theorem pathTx_of_linked {e : CBlockIndex} (hlinked : s.nChainTx hash ≠ 0)
    (he : s.tree.find hash = some e) :
    s.pathTx hash = s.nChainTx hash := by
  rw [pathTx, BlockTree.path, BlockTree.ancestry, he]
  exact if_neg hlinked

/-- The path of another block is that of its predecessor, and the block. -/
theorem pathTx_of_unlinked {c : CChain} {e : CBlockIndex} (hpath : c.Linked s.tree)
    (hheight : ∀ hash p n, s.tree.link hash = some (p, n) → 0 ≤ n)
    (hunlinked : s.nChainTx hash = 0) (he : s.tree.find hash = some e) :
    s.pathTx hash = e.nTx + e.pprev.elim 0 s.pathTx := by
  rw [pathTx, BlockTree.path_eq_cons hpath hheight he, List.foldr_cons, if_pos hunlinked, he]
  cases e.pprev with
  | none => rfl
  | some p => rfl

/-- Every linked block has the data of its branch. -/
theorem Consistent.dataToFork (h : s.Consistent) (hash : Uint256) (hlinked : s.nChainTx hash ≠ 0) :
    s.dataToFork hash = true := by
  have hall : ∀ fuel hash, s.nChainTx hash ≠ 0 →
      ∀ id ∈ s.tree.ancestry fuel hash, s.nChainTx id ≠ 0 := by
    intro fuel
    induction fuel with
    | zero =>
      intro hash _ id hid
      cases hid
    | succ fuel ih =>
      intro hash hlinked id hid
      obtain ⟨e, he, -⟩ := h.received hash hlinked
      rw [BlockTree.ancestry, he] at hid
      rcases List.mem_cons.1 hid with rfl | hid
      · exact hlinked
      · cases hp : e.pprev with
        | none =>
          rw [hp] at hid
          cases hid
        | some p =>
          rw [hp] at hid
          refine ih p (h.parent hash p e.nHeight ?_ hlinked) id hid
          rw [BlockTree.link_of_find he, hp]
  rw [ChainState.dataToFork, List.all_eq_true]
  intro id hid
  obtain ⟨e, he, hreceived⟩ := h.received id (hall _ hash hlinked id hid)
  rw [he]
  simp [hreceived.data]

/-! ## Changes of marks -/

variable (s s') in
/-- Only marks of entries and the candidates have changed, and received blocks are still
received. -/
structure Remarked : Prop where
  /-- The places are the same. -/
  link : s'.tree.link = s.tree.link
  /-- So is the active chain. -/
  chainActive : s'.chainActive = s.chainActive
  /-- The same blocks are linked. -/
  nChainTx : s'.nChainTx = s.nChainTx
  /-- The order is the same. -/
  nSequenceId : s'.nSequenceId = s.nSequenceId
  /-- The work is the same. -/
  chainWork : s'.chainWork = s.chainWork
  /-- The same blocks wait. -/
  mapBlocksUnlinked : s'.mapBlocksUnlinked = s.mapBlocksUnlinked
  /-- Received blocks are received, and waiting ones have their transactions. -/
  entry : ∀ hash e e', s.tree.find hash = some e → s'.tree.find hash = some e' →
    (e.Received → e'.Received) ∧ (s.Waits hash → e'.nTx = e.nTx)

theorem Remarked.waits (h : s.Remarked s') (hwaits : s.Waits hash) : s'.Waits hash where
  unlinked := by
    rw [h.nChainTx]
    exact hwaits.unlinked
  entry := by
    obtain ⟨e, he, hreceived, hnTx⟩ := hwaits.entry
    obtain ⟨e', he'⟩ := BlockTree.find_of_link h.link he
    obtain ⟨hkeeps, hsame⟩ := h.entry hash e e' he he'
    exact ⟨e', he', hkeeps hreceived, (hsame hwaits).symm ▸ hnTx⟩

/-- Other marks keep the index consistent. -/
theorem Remarked.consistent (h : s.Remarked s') (hs : s.Consistent) : s'.Consistent where
  path := h.chainActive ▸ hs.path.congr h.link
  height := h.link ▸ hs.height
  work := by
    rw [h.link, h.chainWork]
    exact hs.work
  parent := by
    rw [h.link, h.nChainTx]
    exact hs.parent
  received := by
    intro hash hlinked
    rw [h.nChainTx] at hlinked
    obtain ⟨e, he, hreceived⟩ := hs.received hash hlinked
    obtain ⟨e', he'⟩ := BlockTree.find_of_link h.link he
    exact ⟨e', he', (h.entry hash e e' he he').1 hreceived⟩
  waiting := by
    intro p hash hmem
    rw [h.mapBlocksUnlinked] at hmem
    obtain ⟨hwaits, hlink⟩ := hs.waiting p hash hmem
    exact ⟨h.waits hwaits, h.link ▸ hlink⟩
  once := h.mapBlocksUnlinked ▸ hs.once
  active := by
    rw [tip, h.chainActive, h.nChainTx]
    exact hs.active

theorem Remarked.of_tree (htree : s'.tree = s.tree) (hchain : s'.chainActive = s.chainActive)
    (hnChainTx : s'.nChainTx = s.nChainTx) (hseq : s'.nSequenceId = s.nSequenceId)
    (hwork : s'.chainWork = s.chainWork)
    (hunlinked : s'.mapBlocksUnlinked = s.mapBlocksUnlinked) : s.Remarked s' where
  link := by rw [htree]
  chainActive := hchain
  nChainTx := hnChainTx
  nSequenceId := hseq
  chainWork := hwork
  mapBlocksUnlinked := hunlinked
  entry := by
    intro hash e e' he he'
    rw [htree, he] at he'
    cases he'
    exact ⟨id, fun _ => rfl⟩

theorem Remarked.trans {s'' : ChainState} (h : s.Remarked s') (h' : s'.Remarked s'') :
    s.Remarked s'' where
  link := h'.link.trans h.link
  chainActive := h'.chainActive.trans h.chainActive
  nChainTx := h'.nChainTx.trans h.nChainTx
  nSequenceId := h'.nSequenceId.trans h.nSequenceId
  chainWork := h'.chainWork.trans h.chainWork
  mapBlocksUnlinked := h'.mapBlocksUnlinked.trans h.mapBlocksUnlinked
  entry := by
    intro hash e e'' he he''
    obtain ⟨e', he'⟩ := BlockTree.find_of_link h.link he
    obtain ⟨hreceived, hnTx⟩ := h.entry hash e e' he he'
    obtain ⟨hreceived', hnTx'⟩ := h'.entry hash e' e'' he' he''
    exact ⟨hreceived' ∘ hreceived, fun hwaits =>
      (hnTx' (h.waits hwaits)).trans (hnTx hwaits)⟩

theorem Remarked.workLess (h : s.Remarked s') (pa pb : Uint256) :
    s'.workLess env pa pb = s.workLess env pa pb :=
  workLess_congr (fun id _ => congrFun h.chainWork id) (fun id _ => congrFun h.nSequenceId id)

theorem Remarked.worseThanTip (h : s.Remarked s') (hash : Uint256) :
    s'.worseThanTip env hash = s.worseThanTip env hash := by
  have hless : s'.workLess env hash = s.workLess env hash := funext (h.workLess hash)
  rw [ChainState.worseThanTip, ChainState.worseThanTip, tip, tip, h.chainActive, hless]

/-- A change of one entry's marks. -/
theorem Remarked.modify {f : CBlockIndex → CBlockIndex} (hlink : ∀ e, (f e).link = e.link)
    (hentry : ∀ e, s.tree.find hash = some e →
      (e.Received → (f e).Received) ∧ (s.Waits hash → (f e).nTx = e.nTx)) :
    s.Remarked (s.modify hash f) where
  link := BlockTree.link_modify hlink
  chainActive := rfl
  nChainTx := rfl
  nSequenceId := rfl
  chainWork := rfl
  mapBlocksUnlinked := rfl
  entry := by
    intro id e e' he he'
    have hfind : (s.tree.modify hash f).find id = some e' := he'
    rw [BlockTree.find_modify, he] at hfind
    split at hfind
    · rename_i hid
      subst hid
      cases hfind
      exact hentry e he
    · cases hfind
      exact ⟨fun hreceived => hreceived, fun _ => rfl⟩

theorem Remarked.orStatus (s : ChainState) (hash : Uint256) (flag : BlockStatus) :
    s.Remarked (s.modify hash fun e => e.orStatus flag) := by
  apply Remarked.modify
  · exact fun _ => CBlockIndex.link_orStatus
  · exact fun e _ => ⟨fun hreceived => hreceived.orStatus, fun _ => rfl⟩

theorem Remarked.eraseCandidate (h : s.Remarked s') (hash : Uint256) :
    s.Remarked (s'.eraseCandidate hash) :=
  h.trans (.of_tree rfl rfl rfl rfl rfl rfl)

end ChainState

end IndexChain.Chain
