import IndexChain.Models.Chain.SumsLink

/-!
# Sums at start-up and along runs

`LoadBlockIndexDB` comes to each block after its predecessor, and computes the sums that
a run has. A run keeps them from an index that it has loaded, as long as no block arrives
over a failed one.
-/

namespace IndexChain.Chain

open BlockStatus

namespace SumIndex

variable {s s' : SumIndex} {hash id p : Uint256} {n : Int} {e : CBlockIndex}
  {pending pending' : Uint256 → Prop} {order rest done : List Uint256}

/-! ## Start-up -/

/-- The loop writes no entries. -/
theorem tree_loadBlock : (s.loadBlock hash).chain.tree = s.chain.tree := by
  unfold loadBlock
  split
  · rfl
  · split
    · split
      · split <;> rfl
      · rfl
    · rfl

theorem values_loadBlock : (s.loadBlock hash).nSproutValue = s.nSproutValue ∧
    (s.loadBlock hash).nSaplingValue = s.nSaplingValue := by
  unfold loadBlock
  split
  · exact ⟨rfl, rfl⟩
  · split
    · split
      · split <;> exact ⟨rfl, rfl⟩
      · exact ⟨rfl, rfl⟩
    · exact ⟨rfl, rfl⟩

/-- A block is one above its predecessor. -/
theorem heightOf_of_pprev (h : s.OnDisk) (hp : s.pprev id = some p) :
    s.chain.heightOf id = s.chain.heightOf p + 1 := by
  obtain ⟨e, he, hprev⟩ := Option.bind_eq_some_iff.1 hp
  have hlink := BlockTree.link_of_find he
  rw [hprev] at hlink
  obtain ⟨q, hq⟩ := h.path.parent id p e.nHeight hlink
  obtain ⟨e', he', -, hn⟩ := BlockTree.link_eq_some hq
  rw [ChainState.heightOf, ChainState.heightOf, he, he', Option.elim_some, Option.elim_some, hn]
  omega

/-- The blocks above a block come after it. -/
theorem mem_of_pprev (h : s.OnDisk) (hs : s.SortedByHeight (done ++ hash :: rest))
    (hreceived : s.nTx id ≠ 0) (hp : s.pprev id = some hash) : id ∈ rest := by
  obtain ⟨e, he, -⟩ := find_of_nTx hreceived
  have hup := heightOf_of_pprev h hp
  rcases List.mem_append.1 (hs.all id e he) with hdone | hlater
  · have hle := (List.pairwise_append.1 hs.sorted).2.2 id hdone hash List.mem_cons_self
    omega
  · refine (List.mem_cons.1 hlater).resolve_left ?_
    rintro rfl
    exact pprev_ne_self h hp

/-- The sums that a block gets at start-up are those of `linkBlock`. -/
theorem linkBlock_grows_loadBlock (h : s.SumsInv pending) (hlinkable : s.Linkable hash) :
    (s.linkBlock hash).Grows (s.loadBlock hash) := by
  obtain ⟨e, he, htx⟩ := find_of_nTx hlinkable.received
  have hpos : e.nTx > 0 := by
    rw [htx]
    exact Nat.pos_of_ne_zero hlinkable.received
  have hprev : s.pprev hash = e.pprev := by rw [pprev, he, Option.bind_some]
  have hload : (s.loadBlock hash).chain.nChainTx = (s.linkBlock hash).chain.nChainTx ∧
      (s.loadBlock hash).nChainSproutValue = (s.linkBlock hash).nChainSproutValue ∧
      (s.loadBlock hash).nChainSaplingValue = (s.linkBlock hash).nChainSaplingValue ∧
      (s.loadBlock hash).chain.mapBlocksUnlinked = s.chain.mapBlocksUnlinked := by
    unfold loadBlock linkBlock
    rw [he, hprev]
    dsimp only
    rw [if_pos hpos]
    cases hp : e.pprev with
    | none =>
      have hsmall := (h.small hash (h.received hlinkable)).1
      rw [pathTx_eq h.toOnDisk he, hprev, hp, Option.elim_none, Nat.zero_add] at hsmall
      refine ⟨?_, rfl, rfl, rfl⟩
      rw [Option.elim_none, Nat.zero_add, Nat.mod_eq_of_lt hsmall, htx]
    | some p =>
      dsimp only
      rw [if_pos (hlinkable.above p (hprev.trans hp)), htx]
      exact ⟨rfl, rfl, rfl, rfl⟩
  obtain ⟨hchain, hsprout, hsapling, hmap⟩ := hload
  obtain ⟨hsproutValue, hsaplingValue⟩ : (s.loadBlock hash).nSproutValue = s.nSproutValue ∧
    (s.loadBlock hash).nSaplingValue = s.nSaplingValue := values_loadBlock
  have htree : (s.loadBlock hash).chain.tree = (s.linkBlock hash).chain.tree := tree_loadBlock
  refine ⟨?_, ?_, hchain, hsprout, hsapling, hmap⟩
  · intro id place hlink
    rw [htree]
    exact hlink
  · intro id _
    refine ⟨?_, congrFun hsproutValue id, congrFun hsaplingValue id⟩
    rw [nTx, nTx, htree]

/-- One block in the order of height. -/
theorem SumsInv.loadBlock (h : s.SumsInv (· ∈ hash :: rest))
    (hs : s.SortedByHeight (done ++ hash :: rest)) : (s.loadBlock hash).SumsInv (· ∈ rest) := by
  by_cases hreceived : s.nTx hash = 0
  · have hsame : s.loadBlock hash = s := by
      unfold SumIndex.loadBlock
      unfold nTx at hreceived
      cases he : s.chain.tree.find hash with
      | none => rfl
      | some e =>
        rw [he, Option.elim_some] at hreceived
        dsimp only
        rw [if_neg (by omega)]
    rw [hsame]
    refine h.mono fun id hid hmem => (List.mem_cons.1 hmem).resolve_left ?_
    rintro rfl
    exact hid hreceived
  · by_cases habove : ∀ p, s.pprev hash = some p → s.chain.nChainTx p ≠ 0
    · have hlinkable : s.Linkable hash := ⟨hreceived, habove⟩
      have hblock : (s.linkBlock hash).SumsInv (· ∈ rest) :=
        h.linkBlock hlinkable (fun id hid => List.mem_cons.1 hid) fun id hid hp _ =>
          mem_of_pprev h.toOnDisk hs hid hp
      have hg := linkBlock_grows_loadBlock h hlinkable
      have htree : (s.loadBlock hash).chain.tree = (s.linkBlock hash).chain.tree :=
        tree_loadBlock
      have htx : ∀ id, (s.loadBlock hash).nTx id ≠ 0 → (s.linkBlock hash).nTx id ≠ 0 := by
        intro id hid
        rwa [nTx, htree] at hid
      apply hblock.grows hg
      · apply hblock.toOnDisk.grows hg
        · rw [htree]
          exact h.path
        · rw [htree]
          exact h.height
        · exact htx
      · exact fun id hid => Or.inl (htx id hid)
      · exact fun _ hid => hid
    · -- a block that cannot be linked waits
      simp only [not_forall, not_not] at habove
      obtain ⟨p, hp, hnot⟩ := habove
      have hunlinked : s.chain.nChainTx hash = 0 := by
        by_contra hlinked
        exact h.above hash p hp hlinked hnot
      obtain ⟨hsprout, hsapling⟩ := h.unsummed hash hunlinked
      obtain ⟨e, he, htx⟩ := find_of_nTx hreceived
      have hprev : e.pprev = some p := by rwa [pprev, he, Option.bind_some] at hp
      have hload : s.loadBlock hash = { s with chain := { s.chain with
          mapBlocksUnlinked := s.chain.mapBlocksUnlinked ++ [(p, hash)] } } := by
        unfold SumIndex.loadBlock
        rw [he]
        dsimp only
        rw [if_pos (by omega), hprev]
        dsimp only
        rw [if_neg (by simp [hnot]), Function.update_eq_self_iff.2 hunlinked.symm,
          Function.update_eq_self_iff.2 hsprout.symm, Function.update_eq_self_iff.2 hsapling.symm]
      rw [hload]
      exact h.wait hreceived hp hnot fun id hid => List.mem_cons.1 hid

/-- Blocks keep their places and heights. -/
theorem SortedByHeight.congr (h : s.SortedByHeight order)
    (htree : s'.chain.tree = s.chain.tree) : s'.SortedByHeight order where
  all := by
    rw [htree]
    exact h.all
  sorted := by
    refine h.sorted.imp fun {a b} hle => ?_
    rw [ChainState.heightOf, ChainState.heightOf, htree]
    exact hle

/-- All blocks in the order of height. -/
theorem SumsInv.foldl_loadBlock (h : s.SumsInv (· ∈ rest))
    (hs : s.SortedByHeight (done ++ rest)) :
    (rest.foldl SumIndex.loadBlock s).SumsInv fun _ => False := by
  induction rest generalizing s done with
  | nil => exact h.mono fun id _ hid => List.not_mem_nil hid
  | cons hash rest ih =>
    have hnext : (s.loadBlock hash).SortedByHeight ((done ++ [hash]) ++ rest) := by
      rw [List.append_assoc, List.singleton_append]
      exact hs.congr tree_loadBlock
    rw [List.foldl_cons]
    exact ih (h.loadBlock hs) hnext

/-- An index that has just been loaded has its sums. -/
theorem OnDisk.loadBlockIndexDB (h : s.OnDisk) (hs : s.SortedByHeight order) :
    (s.loadBlockIndexDB order).SumsInv fun _ => False := by
  have hguts : s.loadBlockIndexGuts.SumsInv (· ∈ order) := by
    refine ⟨⟨h.path, h.height, h.small⟩, ?_, ?_, ?_, ?_, ?_, ?_⟩
    · intro id hid
      exact absurd rfl hid
    · intro id p _ hid
      exact absurd rfl hid
    · exact fun _ _ => ⟨rfl, rfl⟩
    · intro id hid
      obtain ⟨e, he, -⟩ := find_of_nTx hid.received
      exact Or.inr (hs.all id e he)
    · intro id p hid _ _
      obtain ⟨e, he, -⟩ := find_of_nTx hid
      exact Or.inr (hs.all id e he)
    · intro x hx
      cases hx
  have hs' : s.loadBlockIndexGuts.SortedByHeight ([] ++ order) := hs.congr rfl
  exact hguts.foldl_loadBlock hs'

theorem tree_foldl_loadBlock : (order.foldl loadBlock s).chain.tree = s.chain.tree := by
  induction order generalizing s with
  | nil => rfl
  | cons hash order ih =>
    rw [List.foldl_cons, ih, tree_loadBlock]

theorem values_foldl_loadBlock : (order.foldl loadBlock s).nSproutValue = s.nSproutValue ∧
    (order.foldl loadBlock s).nSaplingValue = s.nSaplingValue := by
  induction order generalizing s with
  | nil => exact ⟨rfl, rfl⟩
  | cons hash order ih =>
    obtain ⟨hsprout, hsapling⟩ : (s.loadBlock hash).nSproutValue = s.nSproutValue ∧
      (s.loadBlock hash).nSaplingValue = s.nSaplingValue := values_loadBlock
    rw [List.foldl_cons, ih.1, ih.2]
    exact ⟨hsprout, hsapling⟩

/-- The sums are determined by the entries and their values. -/
theorem SumsInv.unique (h : s.SumsInv fun _ => False) (h' : s'.SumsInv fun _ => False)
    (htree : s'.chain.tree = s.chain.tree) (hsprout : s'.nSproutValue = s.nSproutValue)
    (hsapling : s'.nSaplingValue = s.nSaplingValue) (hash : Uint256) :
    s'.chain.nChainTx hash = s.chain.nChainTx hash ∧
      s'.nChainSproutValue hash = s.nChainSproutValue hash ∧
      s'.nChainSaplingValue hash = s.nChainSaplingValue hash := by
  have hpath : s'.path hash = s.path hash := by
    rw [path, path, ChainState.heightOf, ChainState.heightOf, htree]
  have hnTx : s'.nTx = s.nTx := by
    funext id
    rw [nTx, nTx, htree]
  have hreceived : s'.PathReceived hash ↔ s.PathReceived hash := by
    rw [PathReceived, PathReceived, hpath, hnTx]
  have hlinked : s'.chain.nChainTx hash ≠ 0 ↔ s.chain.nChainTx hash ≠ 0 := by
    cases he : s.chain.tree.find hash with
    | none =>
      have hzero : s.nTx hash = 0 := by rw [nTx, he, Option.elim_none]
      constructor
      · intro hnot
        exact absurd ((congrFun hnTx hash).trans hzero) (h'.summed hash hnot).1
      · intro hnot
        exact absurd hzero (h.summed hash hnot).1
    | some e =>
      have he' : s'.chain.tree.find hash = some e := by rw [htree, he]
      rw [h.linked_iff he, h'.linked_iff he', hreceived]
  by_cases hzero : s.chain.nChainTx hash = 0
  · have hzero' : s'.chain.nChainTx hash = 0 := by
      by_contra hnot
      exact hlinked.1 hnot hzero
    obtain ⟨h₁, h₂⟩ := h.unsummed hash hzero
    obtain ⟨h₁', h₂'⟩ := h'.unsummed hash hzero'
    rw [hzero, hzero', h₁, h₁', h₂, h₂']
    exact ⟨rfl, rfl, rfl⟩
  · have hsums := (h.summed hash hzero).2
    have hsums' := (h'.summed hash (hlinked.2 hzero)).2
    rw [hsums.nChainTx, hsums'.nChainTx, hsums.sprout, hsums'.sprout, hsums.sapling,
      hsums'.sapling, pathTx, pathTx, pathSprout, pathSprout, pathSapling, pathSapling, hpath,
      hnTx, hsprout, hsapling]
    exact ⟨rfl, rfl, rfl⟩

/-! ## Runs -/

variable {env : TipEnv} {steps : List Step}

theorem SumsInv.step {step : Step} (h : s.SumsInv fun _ => False) (hok : s.StepOk step) :
    (s.step env step).SumsInv fun _ => False := by
  cases step with
  | acceptBlockHeader a nProof => exact h.acceptBlockHeader
  | receivedBlockTransactions pindexNew vtx nFile => exact h.receivedBlockTransactions hok
  | mark pindex nStatus => exact h.modify (fun _ => rfl) fun _ => rfl
  | loadBlockIndexDB vSortedByHeight => exact h.toOnDisk.loadBlockIndexDB hok

theorem SumsInv.run (h : s.SumsInv fun _ => False) (hok : s.RunOk env steps) :
    (s.run env steps).SumsInv fun _ => False := by
  induction steps generalizing s with
  | nil => exact h
  | cons step steps ih => exact ih (h.step hok.1) hok.2

/-- From an index that has been loaded, and along a run that meets the condition, a block is
linked when it and all its ancestors are received, the sums are those of the block and its
ancestors, and `LoadBlockIndexDB` computes the same. -/
theorem sums_of_run (env : TipEnv) (disk : SumIndex) (vSortedByHeight : List Uint256)
    (steps : List Step) (hdisk : disk.OnDisk) (hsorted : disk.SortedByHeight vSortedByHeight)
    (hok : (disk.loadBlockIndexDB vSortedByHeight).RunOk env steps) :
    let s := (disk.loadBlockIndexDB vSortedByHeight).run env steps
    (∀ hash e, s.chain.tree.find hash = some e →
      (s.chain.nChainTx hash ≠ 0 ↔ s.PathReceived hash) ∧
        (s.PathReceived hash → s.Summed hash)) ∧
    ∀ vSortedByHeight', s.SortedByHeight vSortedByHeight' →
      let s' := s.loadBlockIndexDB vSortedByHeight'
      ∀ hash, s'.chain.nChainTx hash = s.chain.nChainTx hash ∧
        s'.nChainSproutValue hash = s.nChainSproutValue hash ∧
        s'.nChainSaplingValue hash = s.nChainSaplingValue hash := by
  have h := SumsInv.run (hdisk.loadBlockIndexDB hsorted) hok
  refine ⟨?_, ?_⟩
  · intro hash e he
    refine ⟨h.linked_iff he, fun hreceived => ?_⟩
    exact (h.summed hash ((h.linked_iff he).2 hreceived)).2
  · intro vSortedByHeight' hsorted'
    exact h.unique (h.toOnDisk.loadBlockIndexDB hsorted') tree_foldl_loadBlock
      values_foldl_loadBlock.1 values_foldl_loadBlock.2

/-- Sums are looked at for the entries only. -/
theorem fits_of_mem (ids : List Uint256) (hall : ∀ id e, s.chain.tree.find id = some e → id ∈ ids)
    (hids : ∀ id ∈ ids, s.Fits id) (hash : Uint256) : s.Fits hash := by
  cases he : s.chain.tree.find hash with
  | none => exact fits_of_find_none he
  | some e => exact hids hash (hall hash e he)

end SumIndex

/-! ## A block before its predecessor -/

namespace ChildFirst

open SumIndex

/-- Block 2 has been received, block 1 not. -/
def disk : SumIndex where
  chain :=
    { tree :=
        { mapBlockIndex := fun hash =>
            if hash = 1 then some (some { nStatus := validTree })
            else if hash = 2 then some (some
              { pprev := some 1, nHeight := 1, nStatus := validTransactions ||| haveData,
                nTx := 1 })
            else none } }
  nSproutValue := fun hash => if hash = 2 then some 5 else none
  nSaplingValue := fun hash => if hash = 2 then 7 else 0

theorem mem_of_find {hash : Uint256} {e : CBlockIndex} (he : disk.chain.tree.find hash = some e) :
    hash ∈ [(1 : Uint256), 2] := by
  simp only [disk, BlockTree.find] at he
  split at he
  · rename_i hid
    rw [hid]
    decide
  · split at he
    · rename_i hid
      rw [hid]
      decide
    · cases he

theorem link_one : disk.chain.tree.link 1 = some (none, 0) := by decide

theorem link_two : disk.chain.tree.link 2 = some (some 1, 1) := by decide

theorem of_link {hash : Uint256} {place : Option Uint256 × Int}
    (hlink : disk.chain.tree.link hash = some place) :
    hash = 1 ∧ place = (none, 0) ∨ hash = 2 ∧ place = (some 1, 1) := by
  obtain ⟨e, he, -⟩ := Option.map_eq_some_iff.1 hlink
  rcases List.mem_cons.1 (mem_of_find he) with hid | hmem
  · rw [hid, link_one] at hlink
    exact Or.inl ⟨hid, (Option.some.inj hlink).symm⟩
  · have hid := List.mem_singleton.1 hmem
    rw [hid, link_two] at hlink
    exact Or.inr ⟨hid, (Option.some.inj hlink).symm⟩

/-- The sample index is one that a disk may hold. -/
theorem onDisk : disk.OnDisk where
  path :=
    { root := by
        intro hash n hlink
        rcases of_link hlink with ⟨-, hplace⟩ | ⟨-, hplace⟩
        · cases hplace
          rfl
        · cases hplace
      parent := by
        intro hash p n hlink
        rcases of_link hlink with ⟨-, hplace⟩ | ⟨-, hplace⟩
        · cases hplace
        · cases hplace
          exact ⟨none, link_one⟩
      active := by
        intro i x hx
        cases hx }
  height := by
    intro hash p n hlink
    rcases of_link hlink with ⟨-, hplace⟩ | ⟨-, hplace⟩ <;> cases hplace <;> decide
  small := by
    intro hash _
    apply fits_of_mem [1, 2]
    · intro id e he
      exact mem_of_find he
    · rw [List.forall_mem_cons, List.forall_mem_singleton]
      exact ⟨by decide, by decide⟩

theorem sortedByHeight : disk.SortedByHeight [1, 2] where
  all := fun _ _ he => mem_of_find he
  sorted := by decide

/-- The transaction of block 1. -/
def coinbase : CTransaction where
  hash := 9

/-- Block 1 arrives. -/
def steps : List Step :=
  [.receivedBlockTransactions 1 [coinbase] 0]

theorem runOk : (disk.loadBlockIndexDB [1, 2]).RunOk ForkBelow.fixed steps := by
  refine ⟨⟨⟨by decide, by decide, by decide, ?_⟩, by decide, ?_, ?_⟩, trivial⟩
  · intro hash s' _
    apply fits_of_mem [1, 2]
    · intro id e he
      have hfind : ((disk.loadBlockIndexDB [1, 2]).store 1 [coinbase] 0).chain.tree.find id =
          some e := he
      rw [find_store] at hfind
      split at hfind
      · rename_i hid
        rw [hid]
        exact List.mem_cons_self
      · have htree : (disk.loadBlockIndexDB [1, 2]).chain.tree = disk.chain.tree :=
          tree_foldl_loadBlock
        rw [htree] at hfind
        exact mem_of_find hfind
    · rw [List.forall_mem_cons, List.forall_mem_singleton]
      exact ⟨by decide, by decide⟩
  · intro p hp
    cases hp
  · intro hnot
    exact absurd (by decide) hnot

/-- Both are linked then. -/
theorem linked_with_predecessor :
    let s := (disk.loadBlockIndexDB [1, 2]).run ForkBelow.fixed steps
    s.chain.nChainTx 2 = 2 ∧ s.nChainSproutValue 2 = some 5 ∧
      (∀ hash e, s.chain.tree.find hash = some e →
        (s.chain.nChainTx hash ≠ 0 ↔ s.PathReceived hash) ∧
          (s.PathReceived hash → s.Summed hash)) := by
  have h := sums_of_run ForkBelow.fixed disk [1, 2] steps onDisk sortedByHeight runOk
  exact ⟨by decide +kernel, by decide +kernel, h.1⟩

end ChildFirst

/-! ## A block over a failed one -/

namespace OverFailed

open SumIndex ChildFirst

/-- Block 2 is failed when block 3 arrives, its header comes once more, and it arrives. -/
def steps : List Step :=
  [.acceptBlockHeader { hash := 1, hashPrevBlock := 0, nTime := 0 } 1,
    .acceptBlockHeader { hash := 2, hashPrevBlock := 1, nTime := 0 } 1,
    .acceptBlockHeader { hash := 3, hashPrevBlock := 2, nTime := 0 } 1,
    .receivedBlockTransactions 1 [coinbase] 0,
    .mark 2 (validTree ||| failedValid),
    .receivedBlockTransactions 3 [coinbase] 0,
    .acceptBlockHeader { hash := 2, hashPrevBlock := 1, nTime := 0 } 1,
    .receivedBlockTransactions 2 [coinbase] 0]

/-- The index then. -/
def after : SumIndex :=
  (({} : SumIndex).loadBlockIndexDB []).run ForkBelow.fixed steps

/-- All three blocks are received, and the third is not linked until the node starts
again. -/
theorem received_not_linked : (after.chain.tree.find 3).isSome = true ∧ after.PathReceived 3 ∧
    after.chain.nChainTx 3 = 0 ∧ after.nChainSproutValue 3 = none ∧
      (after.loadBlockIndexDB [1, 2, 3]).chain.nChainTx 3 = 3 ∧
      (after.loadBlockIndexDB [1, 2, 3]).nChainSproutValue 3 = some 0 := by
  decide +kernel

end OverFailed

end IndexChain.Chain
