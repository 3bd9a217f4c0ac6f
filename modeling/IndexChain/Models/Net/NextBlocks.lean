import IndexChain.Core.Rewriting
import IndexChain.Models.Net.NodeState

/-!
# The blocks to ask for

What `FindNextBlocksToDownload` finds, in a tree with one root. It reads the branch of the best
block of a node in pieces, from the last block in common on, and the pieces make no difference:
the blocks are the first of the valid part of the branch that are missing, within the window.
-/

namespace IndexChain.Net

open IndexChain.Core Chain

/-! ## The branch of a block -/

/-- Only one block has no predecessor. -/
def OneRoot (t : BlockTree) : Prop :=
  ∀ a b n m, t.link a = some (none, n) → t.link b = some (none, m) → a = b

/-- The highest block that two blocks have above them, a block counting as above itself. -/
structure IsLastCommon (t : BlockTree) (a b g : Uint256) : Prop where
  /-- It is above the first. -/
  left : t.IsAncestor g a
  /-- It is above the second. -/
  right : t.IsAncestor g b
  /-- No other is higher. -/
  highest : ∀ g', t.IsAncestor g' a → t.IsAncestor g' b → t.heightOf g' ≤ t.heightOf g

/-- Some blocks of the branch of a block, upwards from a height. -/
def branch (t : BlockTree) (best : Uint256) (height : Int) (k : Nat) : List Uint256 :=
  (List.range k).filterMap fun i : Nat => t.getAncestor best (height + 1 + i)

section

variable {t : BlockTree} {a b best hash pindex : Uint256} {p q : Option Uint256} {n m height : Int}

theorem getAncestor_eq_up (hlink : t.link hash = some (p, n)) (hlow : 0 ≤ height)
    (hle : height ≤ n) : t.getAncestor hash height = t.ancestorUp (n - height).toNat hash := by
  obtain ⟨e, he, -, hheight⟩ := BlockTree.link_eq_some hlink
  rw [BlockTree.getAncestor, he]
  dsimp only
  rw [hheight, if_neg (by omega)]

/-- There is an ancestor at every height from 0 on. -/
theorem exists_getAncestor (h : t.Rooted) (hlink : t.link hash = some (p, n)) (hlow : 0 ≤ m)
    (hle : m ≤ n) : ∃ anc q, t.getAncestor hash m = some anc ∧ t.link anc = some (q, m) := by
  obtain ⟨anc, q, hanc, hq⟩ := BlockTree.exists_ancestorUp h.linked (k := (n - m).toNat)
    hlink (by omega)
  refine ⟨anc, q, (getAncestor_eq_up hlink hlow hle).trans hanc, hq.trans ?_⟩
  rw [show n - ((n - m).toNat : Int) = m by omega]

/-- The predecessor of the ancestor at a height is the ancestor one lower. -/
theorem pprev_getAncestor (hlink : t.link hash = some (p, n)) (hlow : 0 ≤ height)
    (hle : height + 1 ≤ n) (hanc : t.getAncestor hash (height + 1) = some pindex) :
    (t.find pindex).bind CBlockIndex.pprev = t.getAncestor hash height := by
  rw [getAncestor_eq_up hlink (by omega) hle] at hanc
  rw [getAncestor_eq_up hlink hlow (by omega),
    show (n - height).toNat = (n - (height + 1)).toNat + 1 by omega, BlockTree.ancestorUp_add, hanc,
    Option.bind_some, BlockTree.ancestorUp]
  exact (Option.bind_fun_some _).symm

theorem branch_add (t : BlockTree) (best : Uint256) (height : Int) (k l : Nat) :
    branch t best height (k + l) = branch t best height k ++ branch t best (height + k) l := by
  rw [branch, List.range_add, List.filterMap_append, List.filterMap_map]
  refine congrArg _ (List.filterMap_congr fun i _ => ?_)
  rw [Function.comp_apply]
  congr 1
  push_cast
  omega

theorem branch_one (hanc : t.getAncestor best (height + 1) = some pindex) :
    branch t best height 1 = [pindex] := by
  rw [branch, List.range_one, List.filterMap_cons_some, List.filterMap_nil]
  rw [Nat.cast_zero, Int.add_zero, hanc]

/-- The blocks of a branch are at the heights that follow. -/
theorem link_of_mem_branch (h : t.Rooted) (hlink : t.link best = some (p, n)) (hlow : 0 ≤ height)
    {k : Nat} (hk : height + k ≤ n) (hmem : pindex ∈ branch t best height k) :
    ∃ q m, t.link pindex = some (q, m) ∧ height < m ∧ m ≤ height + k := by
  obtain ⟨i, hi, hanc⟩ := List.mem_filterMap.1 hmem
  rw [List.mem_range] at hi
  obtain ⟨anc, q, hanc', hq⟩ :=
    exists_getAncestor h hlink (m := height + 1 + i) (by omega) (by omega)
  cases hanc.symm.trans hanc'
  exact ⟨q, _, hq, by omega, by omega⟩

/-- A branch goes upwards. -/
theorem pairwise_branch (h : t.Rooted) (hlink : t.link best = some (p, n)) (hlow : 0 ≤ height)
    {k : Nat} (hk : height + k ≤ n) :
    (branch t best height k).Pairwise fun a b => t.heightOf a < t.heightOf b := by
  rw [branch, List.pairwise_filterMap]
  refine List.pairwise_lt_range.imp_of_mem fun {i j} hi hj hlt a ha b hb => ?_
  rw [List.mem_range] at hi hj
  obtain ⟨a', q, ha', hq⟩ :=
    exists_getAncestor h hlink (m := height + 1 + i) (by omega) (by omega)
  obtain ⟨b', r, hb', hr⟩ :=
    exists_getAncestor h hlink (m := height + 1 + j) (by omega) (by omega)
  cases ha.symm.trans ha'
  cases hb.symm.trans hb'
  rw [BlockTree.heightOf_of_link hq, BlockTree.heightOf_of_link hr]
  omega

/-! ## The last block in common -/

/-- Of two blocks at the same height, either both have a predecessor or they are the root. -/
theorem parents_of_ne (h : t.Rooted) (hroot : OneRoot t) (ha : t.link a = some (p, n))
    (hb : t.link b = some (q, n)) (hne : a ≠ b) :
    ∃ pa pb, p = some pa ∧ q = some pb := by
  cases p with
  | none =>
    cases q with
    | none => exact absurd (hroot a b n n ha hb) hne
    | some pb =>
      obtain ⟨r, hr⟩ := h.linked.parent b pb n hb
      have hzero := h.linked.root a n ha
      have hnonneg := h.height pb r _ hr
      omega
  | some pa =>
    cases q with
    | none =>
      obtain ⟨r, hr⟩ := h.linked.parent a pa n ha
      have hzero := h.linked.root b n hb
      have hnonneg := h.height pa r _ hr
      omega
    | some pb => exact ⟨pa, pb, rfl, rfl⟩

/-- No block is above another block of its height. -/
theorem not_isAncestor_of_ne (h : t.Rooted) (ha : t.link a = some (p, n))
    (hb : t.link b = some (q, n)) (hne : a ≠ b) : ¬ t.IsAncestor a b := by
  intro hanc
  obtain rfl | ⟨prev, rfl, hprev⟩ := (BlockTree.isAncestor_iff hb).1 hanc
  · exact hne rfl
  · obtain ⟨r, hr⟩ := h.linked.parent b prev n hb
    have hle := BlockTree.heightOf_le h hr hprev
    rw [BlockTree.heightOf_of_link ha] at hle
    omega

/-- The last block in common of two blocks is that of their predecessors. -/
theorem IsLastCommon.of_parents (h : t.Rooted) {pa pb g : Uint256}
    (ha : t.link a = some (some pa, n)) (hb : t.link b = some (some pb, n)) (hne : a ≠ b)
    (hg : IsLastCommon t pa pb g) : IsLastCommon t a b g where
  left := (BlockTree.isAncestor_iff ha).2 (.inr ⟨pa, rfl, hg.left⟩)
  right := (BlockTree.isAncestor_iff hb).2 (.inr ⟨pb, rfl, hg.right⟩)
  highest := by
    intro g' hleft hright
    obtain rfl | ⟨pa', hpa, hleft⟩ := (BlockTree.isAncestor_iff ha).1 hleft
    · exact absurd hright (not_isAncestor_of_ne h ha hb hne)
    · obtain rfl | ⟨pb', hpb, hright⟩ := (BlockTree.isAncestor_iff hb).1 hright
      · exact absurd ((BlockTree.isAncestor_iff ha).2 (.inr ⟨pa', hpa, hleft⟩))
          (not_isAncestor_of_ne h hb ha hne.symm)
      · cases hpa
        cases hpb
        exact hg.highest g' hleft hright

/-- The walk from two blocks of one height. -/
theorem walkTogether_spec {v : BlockView} (h : v.tree.Rooted) (hroot : OneRoot v.tree)
    {fuel : Nat} (ha : v.tree.link a = some (p, n)) (hb : v.tree.link b = some (q, n))
    (hfuel : n < fuel) :
    ∃ g, v.walkTogether fuel (some a) (some b) = (some g, some g) ∧
      IsLastCommon v.tree a b g := by
  induction fuel generalizing a b p q n with
  | zero =>
    have hnonneg := h.height a p n ha
    omega
  | succ fuel ih =>
    rw [BlockView.walkTogether]
    obtain rfl | hne := eq_or_ne a b
    · refine ⟨a, if_pos rfl, BlockTree.isAncestor_self a, BlockTree.isAncestor_self a, ?_⟩
      intro g' hanc _
      rw [BlockTree.heightOf_of_link ha]
      exact BlockTree.heightOf_le h ha hanc
    · obtain ⟨pa, pb, rfl, rfl⟩ := parents_of_ne h hroot ha hb hne
      obtain ⟨e, he, hpa, -⟩ := BlockTree.link_eq_some ha
      obtain ⟨e', he', hpb, -⟩ := BlockTree.link_eq_some hb
      obtain ⟨r, hr⟩ := h.linked.parent a pa n ha
      obtain ⟨r', hr'⟩ := h.linked.parent b pb n hb
      obtain ⟨g, hwalk, hg⟩ := ih hr hr' (by omega)
      refine ⟨g, ?_, hg.of_parents h ha hb hne⟩
      rw [if_neg hne, he, he', Option.bind_some, Option.bind_some, hpa, hpb, hwalk]

/-- The walk may start at the height of the lower block. -/
theorem IsLastCommon.of_ancestors (h : t.Rooted) {k l : Nat} {anca ancb g : Uint256}
    (ha : t.link a = some (p, n)) (hb : t.link b = some (q, m))
    (hupa : t.ancestorUp k a = some anca) (hupb : t.ancestorUp l b = some ancb)
    (hk : n - k = min n m) (hl : m - l = min n m) (hg : IsLastCommon t anca ancb g) :
    IsLastCommon t a b g where
  left := hg.left.trans ⟨k, hupa⟩
  right := hg.right.trans ⟨l, hupb⟩
  highest := by
    intro g' hleft hright
    have hlea := BlockTree.heightOf_le h ha hleft
    have hleb := BlockTree.heightOf_le h hb hright
    exact hg.highest g' (BlockTree.isAncestor_of_heightOf_le h ha hupa hleft (by omega))
      (BlockTree.isAncestor_of_heightOf_le h hb hupb hright (by omega))

/-- `LastCommonAncestor`. -/
theorem lastCommonAncestor_spec {v : BlockView} (h : v.tree.Rooted) (hroot : OneRoot v.tree)
    (ha : v.tree.link a = some (p, n)) (hb : v.tree.link b = some (q, m)) :
    ∃ g, v.lastCommonAncestor a b = some (some g) ∧ IsLastCommon v.tree a b g := by
  have hn := h.height a p n ha
  have hm := h.height b q m hb
  obtain ⟨anca, r, hanca, hr⟩ := exists_getAncestor h ha (m := min n m) (by omega) (by omega)
  obtain ⟨ancb, r', hancb, hr'⟩ := exists_getAncestor h hb (m := min n m) (by omega) (by omega)
  obtain ⟨g, hwalk, hg⟩ := walkTogether_spec h hroot hr hr'
    (show min n m < ((min n m).toNat + 1 : Nat) by omega)
  have hupa := (getAncestor_eq_up ha (by omega) (by omega)).symm.trans hanca
  have hupb := (getAncestor_eq_up hb (by omega) (by omega)).symm.trans hancb
  refine ⟨g, ?_, hg.of_ancestors h ha hb hupa hupb (by omega) (by omega)⟩
  -- the higher of the blocks goes down, and an ancestor at the own height is the block itself
  have hpa : (if m < n then v.tree.getAncestor a m else some a) = some anca := by
    split_ifs with hlt
    · rw [← hanca, min_eq_right hlt.le]
    · rw [← hupa, show (n - min n m).toNat = 0 by omega]
      rfl
  have hpb : (if m < n then some b else if n < m then v.tree.getAncestor b n else some b) =
      some ancb := by
    split_ifs with hlt hgt
    · rw [← hupb, show (m - min n m).toNat = 0 by omega]
      rfl
    · rw [← hancb, min_eq_left hgt.le]
    · rw [← hupb, show (m - min n m).toNat = 0 by omega]
      rfl
  unfold BlockView.lastCommonAncestor
  rw [BlockTree.heightOf_of_link ha, BlockTree.heightOf_of_link hb]
  dsimp only
  rw [hpa, hpb, hwalk, if_pos rfl]

end

/-! ## The loops -/

namespace BlockView

variable {v : BlockView} {s : DownloadState} {nodeid : NodeId} {count : Nat} {nWindowEnd : Int}
  {best pindex : Uint256} {p : Option Uint256} {n height : Int} {f f₁ f' : Fetch}

/-- The blocks of a piece, read downwards. -/
theorem fetchUpTo_eq (h : v.tree.Rooted) (hlink : v.tree.link best = some (p, n))
    (hlow : 0 ≤ height) {k : Nat} (hk : height + (k + 1 : Nat) ≤ n)
    (hanc : v.tree.getAncestor best (height + (k + 1 : Nat)) = some pindex) :
    v.fetchUpTo (k + 1) pindex = some (branch v.tree best height (k + 1)) := by
  induction k generalizing pindex with
  | zero => rw [fetchUpTo, Nat.zero_add, branch_one hanc]
  | succ k ih =>
    have hsum : height + (k + 1 + 1 : Nat) = height + (k + 1 : Nat) + 1 := by omega
    rw [hsum] at hanc
    obtain ⟨pprev, q, hprev, -⟩ := exists_getAncestor h hlink
      (m := height + (k + 1 : Nat)) (by omega) (by omega)
    have hstep := pprev_getAncestor hlink (by omega) (by omega) hanc
    rw [fetchUpTo, hstep, hprev, Option.bind_eq_bind, Option.bind_some, ih (by omega) hprev,
      branch_add v.tree best height (k + 1) 1, branch_one hanc]
    rfl

/-- Nothing is read after the search has returned. -/
theorem foldlM_returned (hf : f.returned = true) (l : List Uint256) :
    l.foldlM (v.fetchOne s nodeid count nWindowEnd) f = some f := by
  induction l with
  | nil => rfl
  | cons pindex l ih =>
    refine foldlM_cons_eq_some.2 ⟨f, ?_, ih⟩
    rw [fetchOne, if_pos hf]

/-- The pieces make no difference. -/
theorem fetchLoop_eq (h : v.tree.Rooted) (hlink : v.tree.link best = some (p, n))
    (hlow : 0 ≤ height) {nMaxHeight : Int} (hmax : nMaxHeight ≤ n) {fuel : Nat}
    (hfuel : nMaxHeight - height ≤ fuel)
    (hanc : v.tree.getAncestor best height = some pindex) (hle : height ≤ n) :
    v.fetchLoop s nodeid count nWindowEnd best nMaxHeight fuel pindex f =
      (branch v.tree best height (nMaxHeight - height).toNat).foldlM
        (v.fetchOne s nodeid count nWindowEnd) f := by
  induction fuel generalizing height pindex f with
  | zero =>
    rw [fetchLoop, show (nMaxHeight - height).toNat = 0 by omega]
    rfl
  | succ fuel ih =>
    obtain ⟨anc, q, hanc', hq⟩ := exists_getAncestor h hlink hlow hle
    cases hanc.symm.trans hanc'
    rw [fetchLoop, BlockTree.heightOf_of_link hq]
    dsimp only
    by_cases hreturned : f.returned = true
    · rw [if_pos (.inl hreturned), foldlM_returned hreturned]
    · by_cases hend : nMaxHeight ≤ height
      · rw [if_pos (.inr hend), show (nMaxHeight - height).toNat = 0 by omega]
        rfl
      · rw [if_neg (not_or.2 ⟨hreturned, hend⟩)]
        -- at least one block is read
        obtain ⟨k, hk⟩ : ∃ k : Nat, min (nMaxHeight - height)
            (max ((count : Int) - f.vBlocks.length) 128) = (k + 1 : Nat) :=
          ⟨(min (nMaxHeight - height) (max ((count : Int) - f.vBlocks.length) 128)).toNat - 1,
            by omega⟩
        have hkle : height + (k + 1 : Nat) ≤ nMaxHeight := by omega
        obtain ⟨top, r, htop, -⟩ := exists_getAncestor h hlink
          (m := height + (k + 1 : Nat)) (by omega) (by omega)
        rw [hk, htop, Int.toNat_natCast, show (nMaxHeight - height).toNat =
            k + 1 + (nMaxHeight - (height + (k + 1 : Nat))).toNat by omega,
          branch_add, List.foldlM_append, Option.bind_eq_bind, Option.bind_some,
          fetchUpTo_eq h hlink hlow (by omega) htop, Option.bind_eq_bind, Option.bind_some]
        exact congrArg _ (funext fun f' => ih (by omega) (by omega) htop (by omega))

/-! ## What the loops find -/

/-- The header of a block is valid. -/
def treeValid (v : BlockView) (pindex : Uint256) : Bool :=
  (v.tree.find pindex).elim false fun e => e.isValid BlockStatus.validTree

/-- A block is stored or in the active chain. -/
def hasBlock (v : BlockView) (pindex : Uint256) : Bool :=
  (v.tree.find pindex).elim false (fun e => e.nStatus &&& BlockStatus.haveData != 0) ||
    v.chainActive.contains v.tree pindex

/-- A block is neither there nor in flight. -/
def isMissing (v : BlockView) (s : DownloadState) (pindex : Uint256) : Bool :=
  !v.hasBlock pindex && (s.mapBlocksInFlight pindex).isNone

/-- The node that a block is in flight from. -/
def ownerOf (v : BlockView) (s : DownloadState) (pindex : Uint256) : Option NodeId :=
  if v.hasBlock pindex then none else (s.mapBlocksInFlight pindex).map Prod.fst

/-- A block is in the window. -/
def inWindow (v : BlockView) (nWindowEnd : Int) (pindex : Uint256) : Bool :=
  decide (v.tree.heightOf pindex ≤ nWindowEnd)

/-- The blocks that are missing in the window. -/
def missingIn (v : BlockView) (s : DownloadState) (nWindowEnd : Int) (l : List Uint256) :
    List Uint256 :=
  l.filter fun pindex => v.isMissing s pindex && v.inWindow nWindowEnd pindex

/-- A block is missing after the window. -/
def missingAfter (v : BlockView) (s : DownloadState) (nWindowEnd : Int) (l : List Uint256) :
    Bool :=
  l.any fun pindex => v.isMissing s pindex && !v.inWindow nWindowEnd pindex

/-- The first node that a block is in flight from, if there is none already. -/
def waitsFor (v : BlockView) (s : DownloadState) (waitingfor : NodeId) (l : List Uint256) :
    NodeId :=
  if waitingfor = -1 then ((l.filterMap (v.ownerOf s)).find? (· != -1)).getD (-1) else waitingfor

/-- The node that keeps the window where it is. -/
def stallerOf (v : BlockView) (s : DownloadState) (nodeid : NodeId) (nWindowEnd : Int)
    (vBlocks : List Uint256) (waitingfor : NodeId) (l : List Uint256) : NodeId :=
  if vBlocks = [] ∧ v.missingAfter s nWindowEnd l = true ∧ v.waitsFor s waitingfor l ≠ nodeid then
    v.waitsFor s waitingfor l
  else -1

/-- What the loops have found when some valid blocks were read. -/
structure Found (v : BlockView) (s : DownloadState) (nodeid : NodeId) (count : Nat)
    (nWindowEnd : Int) (f : Fetch) (l : List Uint256) (f' : Fetch) : Prop where
  /-- The first missing blocks. -/
  vBlocks : f'.vBlocks = (f.vBlocks ++ v.missingIn s nWindowEnd l).take count
  /-- The staller. -/
  nodeStaller : f'.nodeStaller = v.stallerOf s nodeid nWindowEnd
    (f.vBlocks ++ v.missingIn s nWindowEnd l) f.waitingfor l
  /-- The last common block is one that is there, with all of its transactions. -/
  pindexLastCommonBlock : f'.pindexLastCommonBlock = f.pindexLastCommonBlock ∨
    f'.pindexLastCommonBlock ∈ l ∧ v.hasBlock f'.pindexLastCommonBlock = true ∧
      v.nChainTx f'.pindexLastCommonBlock ≠ 0

theorem waitsFor_cons (v : BlockView) (s : DownloadState) (waitingfor : NodeId) (pindex : Uint256)
    (l : List Uint256) : v.waitsFor s waitingfor (pindex :: l) =
      v.waitsFor s (if waitingfor = -1 then (v.ownerOf s pindex).getD (-1) else waitingfor) l := by
  unfold waitsFor
  cases howner : v.ownerOf s pindex with
  | none =>
    rw [List.filterMap_cons_none howner, Option.getD_none]
    by_cases hwait : waitingfor = -1
    · rw [if_pos hwait, if_pos hwait, if_pos rfl]
    · rw [if_neg hwait, if_neg hwait, if_neg hwait]
  | some owner =>
    rw [List.filterMap_cons_some howner, Option.getD_some, List.find?_cons]
    by_cases hwait : waitingfor = -1
    · rw [if_pos hwait, if_pos hwait]
      by_cases howner : owner = -1
      · rw [if_pos howner, howner]
        rfl
      · rw [if_neg howner, bne_iff_ne.2 howner]
        rfl
    · rw [if_neg hwait, if_neg hwait, if_neg hwait]

theorem missingIn_cons (hmissing : (v.isMissing s pindex && v.inWindow nWindowEnd pindex) = false)
    (l : List Uint256) :
    v.missingIn s nWindowEnd (pindex :: l) = v.missingIn s nWindowEnd l :=
  List.filter_cons_of_neg (by rw [hmissing]; exact Bool.false_ne_true)

/-- A block that is not missing changes only which node is waited for. -/
theorem Found.cons {l : List Uint256} (h : Found v s nodeid count nWindowEnd f₁ l f')
    (hmissing : v.isMissing s pindex = false)
    (hblocks : f.vBlocks = f₁.vBlocks)
    (hwait : f₁.waitingfor = if f.waitingfor = -1 then (v.ownerOf s pindex).getD (-1) else
      f.waitingfor)
    (hcommon : f₁.pindexLastCommonBlock = f.pindexLastCommonBlock ∨
      f₁.pindexLastCommonBlock = pindex ∧ v.hasBlock pindex = true ∧ v.nChainTx pindex ≠ 0) :
    Found v s nodeid count nWindowEnd f (pindex :: l) f' := by
  have hrest : v.missingIn s nWindowEnd (pindex :: l) = v.missingIn s nWindowEnd l :=
    missingIn_cons (by rw [hmissing, Bool.false_and]) l
  have hafter : v.missingAfter s nWindowEnd (pindex :: l) = v.missingAfter s nWindowEnd l := by
    rw [missingAfter, List.any_cons, hmissing, Bool.false_and, Bool.false_or]
    rfl
  refine ⟨?_, ?_, ?_⟩
  · rw [hrest, hblocks, h.vBlocks]
  · rw [h.nodeStaller, stallerOf, stallerOf, hrest, hafter, hblocks, waitsFor_cons, ← hwait]
  · obtain heq | ⟨hmem, hhas⟩ := h.pindexLastCommonBlock
    · rw [heq]
      obtain heq | ⟨heq, hhas⟩ := hcommon
      · exact .inl heq
      · rw [heq]
        exact .inr ⟨List.mem_cons_self, hhas⟩
    · exact .inr ⟨List.mem_cons_of_mem _ hmem, hhas⟩

theorem stallerOf_of_ne_nil {vBlocks l : List Uint256} (h : vBlocks ≠ []) (waitingfor : NodeId) :
    v.stallerOf s nodeid nWindowEnd vBlocks waitingfor l = -1 :=
  if_neg fun hstall => h hstall.1

section

variable {e : Chain.CBlockIndex}

theorem treeValid_eq (he : v.tree.find pindex = some e) :
    v.treeValid pindex = e.isValid BlockStatus.validTree := by
  rw [treeValid, he, Option.elim_some]

theorem hasBlock_iff (he : v.tree.find pindex = some e) : v.hasBlock pindex = true ↔
    e.nStatus &&& BlockStatus.haveData ≠ 0 ∨ v.chainActive.contains v.tree pindex = true := by
  rw [hasBlock, he, Option.elim_some, Bool.or_eq_true, bne_iff_ne]

theorem fetchOne_invalid (hf : f.returned = false) (he : v.tree.find pindex = some e)
    (hvalid : v.treeValid pindex = false) :
    v.fetchOne s nodeid count nWindowEnd f pindex = some { f with returned := true } := by
  rw [treeValid_eq he] at hvalid
  rw [fetchOne, if_neg (Bool.eq_false_iff.1 hf), he, Option.map_some,
    if_pos (Bool.eq_false_iff.1 hvalid)]

theorem fetchOne_has (hf : f.returned = false) (he : v.tree.find pindex = some e)
    (hvalid : v.treeValid pindex = true) (hhas : v.hasBlock pindex = true) :
    v.fetchOne s nodeid count nWindowEnd f pindex = some
      (if v.nChainTx pindex ≠ 0 then { f with pindexLastCommonBlock := pindex } else f) := by
  rw [treeValid_eq he] at hvalid
  rw [fetchOne, if_neg (Bool.eq_false_iff.1 hf), he, Option.map_some,
    if_neg (not_not_intro hvalid), if_pos ((hasBlock_iff he).1 hhas)]

theorem fetchOne_missing (hf : f.returned = false) (he : v.tree.find pindex = some e)
    (hvalid : v.treeValid pindex = true) (hmissing : v.isMissing s pindex = true) :
    v.fetchOne s nodeid count nWindowEnd f pindex = some
      (if v.inWindow nWindowEnd pindex = true then
        { f with vBlocks := f.vBlocks ++ [pindex], returned := f.vBlocks.length + 1 = count }
      else { f with
        nodeStaller :=
          if f.vBlocks = [] ∧ f.waitingfor ≠ nodeid then f.waitingfor else f.nodeStaller
        returned := true }) := by
  obtain ⟨hhas, hnone⟩ := Bool.and_eq_true_iff.1 hmissing
  have hnot : v.hasBlock pindex ≠ true := Bool.eq_false_iff.1 (Bool.not_eq_true' _ ▸ hhas)
  rw [treeValid_eq he] at hvalid
  rw [fetchOne, if_neg (Bool.eq_false_iff.1 hf), he, Option.map_some,
    if_neg (not_not_intro hvalid), if_neg (mt (hasBlock_iff he).2 hnot),
    Option.isNone_iff_eq_none.1 hnone, inWindow, BlockTree.heightOf, he, Option.elim_some]
  dsimp only
  by_cases hend : e.nHeight ≤ nWindowEnd
  · rw [if_neg (not_lt.2 hend), if_pos (decide_eq_true hend)]
  · rw [if_pos (not_le.1 hend), if_neg (Bool.eq_false_iff.1 (decide_eq_false hend))]

theorem fetchOne_inFlight (hf : f.returned = false) (he : v.tree.find pindex = some e)
    (hvalid : v.treeValid pindex = true) (hhas : v.hasBlock pindex = false) {owner : NodeId}
    {it : Nat} (hmap : s.mapBlocksInFlight pindex = some (owner, it)) :
    v.fetchOne s nodeid count nWindowEnd f pindex = some
      (if f.waitingfor = -1 then { f with waitingfor := owner } else f) := by
  rw [treeValid_eq he] at hvalid
  rw [fetchOne, if_neg (Bool.eq_false_iff.1 hf), he, Option.map_some,
    if_neg (not_not_intro hvalid), if_neg (mt (hasBlock_iff he).2 (Bool.eq_false_iff.1 hhas)),
    hmap]

end

theorem Found.nil (hroom : f.vBlocks.length < count) (hblocks : f'.vBlocks = f.vBlocks)
    (hstaller : f'.nodeStaller = -1)
    (hcommon : f'.pindexLastCommonBlock = f.pindexLastCommonBlock) :
    Found v s nodeid count nWindowEnd f [] f' := by
  refine ⟨?_, ?_, .inl hcommon⟩
  · rw [hblocks, missingIn, List.filter_nil, List.append_nil, List.take_of_length_le hroom.le]
  · rw [hstaller, stallerOf, if_neg fun hstall => Bool.false_ne_true hstall.2.1]

/-- A block that is missing in the window is put into the list. -/
theorem Found.push {l : List Uint256} (hmissing : v.isMissing s pindex = true)
    (hwindow : v.inWindow nWindowEnd pindex = true)
    (hblocks : f'.vBlocks = (f.vBlocks ++ [pindex] ++ v.missingIn s nWindowEnd l).take count)
    (hstaller : f'.nodeStaller = -1)
    (hcommon : f'.pindexLastCommonBlock = f.pindexLastCommonBlock ∨
      f'.pindexLastCommonBlock ∈ l ∧ v.hasBlock f'.pindexLastCommonBlock = true ∧
        v.nChainTx f'.pindexLastCommonBlock ≠ 0) :
    Found v s nodeid count nWindowEnd f (pindex :: l) f' := by
  have hrest : f.vBlocks ++ v.missingIn s nWindowEnd (pindex :: l) =
      f.vBlocks ++ [pindex] ++ v.missingIn s nWindowEnd l := by
    rw [missingIn, List.filter_cons_of_pos (by rw [hmissing, hwindow]; rfl), List.append_assoc]
    rfl
  refine ⟨by rw [hrest, hblocks], ?_, ?_⟩
  · rw [hstaller, hrest, List.append_assoc, stallerOf_of_ne_nil (by simp)]
  · exact hcommon.imp_right fun hin => ⟨List.mem_cons_of_mem _ hin.1, hin.2⟩

/-- A block that is missing after the window is the last that is read. -/
theorem Found.after (hroom : f.vBlocks.length < count) (hmissing : v.isMissing s pindex = true)
    (hwindow : v.inWindow nWindowEnd pindex = false) (hblocks : f'.vBlocks = f.vBlocks)
    (hstaller : f'.nodeStaller =
      if f.vBlocks = [] ∧ f.waitingfor ≠ nodeid then f.waitingfor else -1)
    (hcommon : f'.pindexLastCommonBlock = f.pindexLastCommonBlock) :
    Found v s nodeid count nWindowEnd f [pindex] f' := by
  have hnone : v.missingIn s nWindowEnd [pindex] = [] :=
    missingIn_cons (by rw [hwindow, Bool.and_false]) []
  have hafter : v.missingAfter s nWindowEnd [pindex] = true := by
    rw [missingAfter, List.any_cons, hmissing, hwindow]
    rfl
  obtain ⟨hhas, hmap⟩ := Bool.and_eq_true_iff.1 hmissing
  have howner : v.ownerOf s pindex = none := by
    rw [ownerOf, Option.isNone_iff_eq_none.1 hmap, Option.map_none, ite_self]
  have hwait : v.waitsFor s f.waitingfor [pindex] = f.waitingfor := by
    rw [waitsFor, List.filterMap_cons_none howner]
    split_ifs with hnobody
    · exact hnobody.symm
    · rfl
  refine ⟨?_, ?_, .inl hcommon⟩
  · rw [hblocks, hnone, List.append_nil, List.take_of_length_le hroom.le]
  · rw [hstaller, stallerOf, hnone, List.append_nil, hafter, hwait]
    simp only [true_and]

/-- The blocks of a branch are read up to the first that is not valid. -/
theorem foldlM_found {l : List Uint256} (hin : ∀ pindex ∈ l, (v.tree.find pindex).isSome = true)
    (hup : l.Pairwise fun a b => v.tree.heightOf a < v.tree.heightOf b)
    (hlast : ∀ pindex ∈ l, v.tree.heightOf pindex ≤ nWindowEnd + 1) (hf : f.returned = false)
    (hroom : f.vBlocks.length < count) (hstaller : f.nodeStaller = -1) :
    ∃ f', l.foldlM (v.fetchOne s nodeid count nWindowEnd) f = some f' ∧
      Found v s nodeid count nWindowEnd f (l.takeWhile v.treeValid) f' := by
  induction l generalizing f with
  | nil => exact ⟨f, rfl, .nil hroom rfl hstaller rfl⟩
  | cons pindex l ih =>
    obtain ⟨e, he⟩ := Option.isSome_iff_exists.1 (hin pindex List.mem_cons_self)
    obtain ⟨habove, hup⟩ := List.pairwise_cons.1 hup
    have ih := fun {f : Fetch} => @ih f (fun p hp => hin p (List.mem_cons_of_mem _ hp)) hup
      (fun p hp => hlast p (List.mem_cons_of_mem _ hp))
    rw [List.takeWhile_cons]
    cases hvalid : v.treeValid pindex with
    | false =>
      exact ⟨_, foldlM_cons_eq_some.2 ⟨_, fetchOne_invalid hf he hvalid, foldlM_returned rfl l⟩,
        .nil hroom rfl hstaller rfl⟩
    | true =>
      rw [if_pos rfl]
      cases hhas : v.hasBlock pindex with
      | true =>
        have hnot : v.isMissing s pindex = false := by rw [isMissing, hhas]; rfl
        have howner : v.ownerOf s pindex = none := if_pos hhas
        have hwait : f.waitingfor = if f.waitingfor = -1 then (v.ownerOf s pindex).getD (-1) else
            f.waitingfor := by
          rw [howner]
          split_ifs with hnobody
          · exact hnobody
          · rfl
        by_cases htx : v.nChainTx pindex ≠ 0
        · obtain ⟨f', hrest, hfound⟩ := @ih { f with pindexLastCommonBlock := pindex } hf hroom
            hstaller
          refine ⟨f', foldlM_cons_eq_some.2 ⟨_, fetchOne_has hf he hvalid hhas, ?_⟩,
            hfound.cons hnot rfl hwait (.inr ⟨rfl, hhas, htx⟩)⟩
          rw [if_pos htx, hrest]
        · obtain ⟨f', hrest, hfound⟩ := ih hf hroom hstaller
          refine ⟨f', foldlM_cons_eq_some.2 ⟨_, fetchOne_has hf he hvalid hhas, ?_⟩,
            hfound.cons hnot rfl hwait (.inl rfl)⟩
          rw [if_neg htx, hrest]
      | false =>
        cases hmap : s.mapBlocksInFlight pindex with
        | some place =>
          obtain ⟨owner, it⟩ := place
          have hnot : v.isMissing s pindex = false := by rw [isMissing, hmap, hhas]; rfl
          have howner : v.ownerOf s pindex = some owner := by
            rw [ownerOf, hhas, if_neg Bool.false_ne_true, hmap, Option.map_some]
          have hone := @fetchOne_inFlight v s nodeid count nWindowEnd pindex f e hf he hvalid hhas
            owner it hmap
          by_cases hnobody : f.waitingfor = -1
          · rw [if_pos hnobody] at hone
            obtain ⟨f', hrest, hfound⟩ := @ih { f with waitingfor := owner } hf hroom hstaller
            refine ⟨f', foldlM_cons_eq_some.2 ⟨_, hone, hrest⟩, hfound.cons hnot rfl ?_ (.inl rfl)⟩
            rw [if_pos hnobody, howner, Option.getD_some]
          · rw [if_neg hnobody] at hone
            obtain ⟨f', hrest, hfound⟩ := ih hf hroom hstaller
            exact ⟨f', foldlM_cons_eq_some.2 ⟨_, hone, hrest⟩,
              hfound.cons hnot rfl (if_neg hnobody).symm (.inl rfl)⟩
        | none =>
          have hmissing : v.isMissing s pindex = true := by rw [isMissing, hmap, hhas]; rfl
          have hone := @fetchOne_missing v s nodeid count nWindowEnd pindex f e hf he hvalid
            hmissing
          cases hwindow : v.inWindow nWindowEnd pindex with
          | true =>
            rw [hwindow, if_pos rfl] at hone
            by_cases hfull : f.vBlocks.length + 1 = count
            · refine ⟨_, foldlM_cons_eq_some.2 ⟨_, hone, foldlM_returned (decide_eq_true hfull) l⟩,
                .push hmissing hwindow ?_ hstaller (.inl rfl)⟩
              rw [List.take_left' (List.length_append.trans hfull)]
            · obtain ⟨f', hrest, hfound⟩ := @ih
                { f with
                  vBlocks := f.vBlocks ++ [pindex], returned := f.vBlocks.length + 1 = count }
                (decide_eq_false hfull)
                (List.length_append.trans_lt (lt_of_le_of_ne hroom hfull)) hstaller
              refine ⟨f', foldlM_cons_eq_some.2 ⟨_, hone, hrest⟩,
                .push hmissing hwindow hfound.vBlocks ?_ hfound.pindexLastCommonBlock⟩
              rw [hfound.nodeStaller, List.append_assoc, stallerOf_of_ne_nil (by simp)]
          | false =>
            -- nothing is above the first block after the window
            have hnil : l = [] := by
              rw [List.eq_nil_iff_forall_not_mem]
              intro p hp
              have hheight := of_decide_eq_false hwindow
              have hless := habove p hp
              have hmost := hlast p (List.mem_cons_of_mem _ hp)
              omega
            subst hnil
            rw [hwindow, if_neg Bool.false_ne_true] at hone
            refine ⟨_, foldlM_cons_eq_some.2 ⟨_, hone, rfl⟩,
              .after hroom hmissing hwindow rfl ?_ rfl⟩
            rw [hstaller]

/-! ## The search -/

/-- The blocks that are read: those after the last common block on the branch of the best block of
the node, up to the first that is not valid, and not further than one after the window. -/
def readable (v : BlockView) (best common : Uint256) : List Uint256 :=
  (branch v.tree best (v.tree.heightOf common) (min (v.tree.heightOf best)
    (v.tree.heightOf common + v.blockDownloadWindow + 1) - v.tree.heightOf common).toNat).takeWhile
      v.treeValid

/-- The loops, from the last common block on. -/
theorem fetchLoop_found (h : v.tree.Rooted) (hlink : v.tree.link best = some (p, n))
    (hcount : count ≠ 0) {common : Uint256} (hcommon : v.tree.IsAncestor common best)
    (hend : nWindowEnd = v.tree.heightOf common + v.blockDownloadWindow) :
    ∃ f, v.fetchLoop s nodeid count nWindowEnd best (min (v.tree.heightOf best) (nWindowEnd + 1))
        (min (v.tree.heightOf best) (nWindowEnd + 1) - v.tree.heightOf common).toNat common
        ⟨[], common, -1, -1, false⟩ = some f ∧
      Found v s nodeid count nWindowEnd ⟨[], common, -1, -1, false⟩ (v.readable best common) f := by
  obtain ⟨k, hup⟩ := hcommon
  obtain ⟨q, hq⟩ := BlockTree.link_of_ancestorUp h hlink hup
  have hnonneg := h.height common q _ hq
  have hanc : v.tree.getAncestor best (n - k) = some common := by
    rw [getAncestor_eq_up hlink hnonneg (by omega), show (n - (n - k : Int)).toNat = k by omega,
      hup]
  rw [readable, BlockTree.heightOf_of_link hlink, BlockTree.heightOf_of_link hq, ← hend] at *
  rw [fetchLoop_eq h hlink hnonneg (by omega) (by omega) hanc (by omega)]
  refine foldlM_found (fun pindex hpindex => ?_) (pairwise_branch h hlink hnonneg (by omega))
    (fun pindex hpindex => ?_) rfl (Nat.pos_of_ne_zero hcount) rfl
  · obtain ⟨r, m, hr, -⟩ := link_of_mem_branch h hlink hnonneg (by omega) hpindex
    obtain ⟨e, he, -⟩ := BlockTree.link_eq_some hr
    exact Option.isSome_of_mem he
  · obtain ⟨r, m, hr, hlt, hle⟩ := link_of_mem_branch h hlink hnonneg (by omega) hpindex
    rw [BlockTree.heightOf_of_link hr]
    omega

theorem processBlockAvailability_common (v : BlockView) (state : CNodeState) :
    (v.processBlockAvailability state).pindexLastCommonBlock = state.pindexLastCommonBlock := by
  unfold processBlockAvailability
  dsimp only
  split_ifs <;> rfl

/-- The block that the search starts from. -/
theorem exists_guess {state : CNodeState} {tip : Uint256} (h : v.tree.Rooted)
    (hchain : CChain.Linked v.tree v.chainActive) (htip : v.chainActive.tip = some tip)
    (hlink : v.tree.link best = some (p, n))
    (hlast : ∀ last, state.pindexLastCommonBlock = some last →
      (v.tree.link last).isSome = true) :
    ∃ guess, state.pindexLastCommonBlock.or
        (v.chainActive.atHeight (min (v.tree.heightOf best) v.chainActive.height)) =
          some guess ∧ (v.tree.link guess).isSome = true ∧
      (state.pindexLastCommonBlock = some guess ∨ state.pindexLastCommonBlock = none ∧
        v.chainActive.contains v.tree guess = true) := by
  cases hstate : state.pindexLastCommonBlock with
  | some last => exact ⟨last, Option.some_or, hlast last hstate, .inl rfl⟩
  | none =>
    have hnonneg := h.height best p n hlink
    obtain ⟨u, hu⟩ := CChain.eq_append_of_tip htip
    have hlength : 1 ≤ v.chainActive.length := by
      rw [hu, List.length_append, List.length_singleton]
      exact Nat.le_add_left 1 _
    have hheight : v.chainActive.height = (v.chainActive.length : Int) - 1 := rfl
    obtain ⟨i, hi⟩ : ∃ i : Nat, min (v.tree.heightOf best) v.chainActive.height = i := by
      rw [BlockTree.heightOf_of_link hlink]
      exact ⟨(min n v.chainActive.height).toNat, by omega⟩
    have hlt : i < v.chainActive.length := by omega
    obtain ⟨guess, hguess, hplace⟩ :=
      hchain.active i _ (List.getElem?_eq_getElem hlt)
    have hat : v.chainActive.atHeight i = some guess := by
      rw [CChain.atHeight, if_neg (by omega), Int.toNat_natCast, List.getElem?_eq_getElem hlt,
        hguess]
      rfl
    obtain ⟨e, he, -, hei⟩ := BlockTree.link_eq_some hplace
    refine ⟨guess, by rw [hi, hat, Option.none_or], Option.isSome_of_mem hplace, .inr ⟨rfl, ?_⟩⟩
    rw [CChain.contains, he, Option.elim_some, hei, hat, beq_self_eq_true]

/-- The blocks that are asked of a node whose best block is in a tree with one root, and has no
less power than the tip. Nothing is followed that is null. The search starts at the highest block
in common with its best block of the last block in common, or of a block of the active chain. It
finds the first `count` blocks of the valid part of the branch that are missing in the window. If
there is none, but one right after the window, the node that the first block in flight is asked
of keeps the window where it is. -/
theorem findNextBlocksToDownload_eq {state : CNodeState} {tip : Uint256}
    (hchain : CChain.SetTips v.tree v.chainActive (some tip)) (hroot : OneRoot v.tree)
    (hcount : count ≠ 0)
    (hbest : (v.processBlockAvailability state).pindexBestKnownBlock = some best)
    (hknown : (v.tree.link best).isSome = true)
    (hpower : (v.chainPower best).lt (v.chainPower tip) = false)
    (hlast : ∀ last, state.pindexLastCommonBlock = some last →
      (v.tree.link last).isSome = true) :
    ∃ guess common vBlocks last, (state.pindexLastCommonBlock = some guess ∨
        state.pindexLastCommonBlock = none ∧ v.chainActive.contains v.tree guess = true) ∧
      IsLastCommon v.tree guess best common ∧
      v.findNextBlocksToDownload s nodeid count state = some (vBlocks.take count,
        v.stallerOf s nodeid (v.tree.heightOf common + v.blockDownloadWindow) vBlocks (-1)
          (v.readable best common),
        { v.processBlockAvailability state with pindexLastCommonBlock := some last }) ∧
      vBlocks = v.missingIn s (v.tree.heightOf common + v.blockDownloadWindow)
        (v.readable best common) ∧
      (last = common ∨ last ∈ v.readable best common ∧ v.hasBlock last = true ∧
        v.nChainTx last ≠ 0) := by
  obtain ⟨h, hlinked, htip⟩ := hchain.linked
  obtain ⟨⟨p, n⟩, hlink⟩ := Option.isSome_iff_exists.1 hknown
  obtain ⟨guess, hguess, hsome, hfrom⟩ := exists_guess h hlinked htip hlink hlast
  obtain ⟨⟨q, m⟩, hplace⟩ := Option.isSome_iff_exists.1 hsome
  obtain ⟨common, hcommon, hmeet⟩ := lastCommonAncestor_spec h hroot hplace hlink
  obtain ⟨f, hloop, hfound⟩ := @fetchLoop_found v s nodeid count _ best p n h hlink hcount common
    hmeet.right rfl
  have hbefore : v.commonBefore (v.processBlockAvailability state) best = some (some common) := by
    rw [commonBefore, processBlockAvailability_common, hguess, Option.bind_eq_bind,
      Option.bind_some, hcommon]
  refine ⟨guess, common, _, f.pindexLastCommonBlock, hfrom, hmeet, ?_, rfl,
    hfound.pindexLastCommonBlock⟩
  have hblocks := hfound.vBlocks
  have hstaller := hfound.nodeStaller
  rw [List.nil_append] at hblocks hstaller
  rw [← hblocks, ← hstaller, findNextBlocksToDownload, if_neg hcount]
  dsimp only
  rw [hbest]
  dsimp only
  rw [htip, Option.bind_eq_bind, Option.bind_some, hpower, if_neg Bool.false_ne_true, hbefore,
    Option.bind_eq_bind, Option.bind_some]
  by_cases hsame : common = best
  · -- there is nothing above the best block
    have hnil : v.readable best common = [] := by
      rw [readable, hsame, show (min (v.tree.heightOf best)
        (v.tree.heightOf best + v.blockDownloadWindow + 1) - v.tree.heightOf best).toNat = 0 by
          omega]
      rfl
    rw [hnil] at hfound
    have hlast : f.pindexLastCommonBlock = common :=
      hfound.pindexLastCommonBlock.resolve_right fun hmem => List.not_mem_nil hmem.1
    have hnone : f.vBlocks = [] := hfound.vBlocks.trans List.take_nil
    have hnobody : f.nodeStaller = -1 :=
      hfound.nodeStaller.trans (if_neg fun hstall => Bool.false_ne_true hstall.2.1)
    rw [if_pos (congrArg some hsame), hlast, hnone, hnobody]
  · rw [if_neg (fun heq => hsame (Option.some.inj heq)), Option.bind_eq_bind, Option.bind_some,
      hloop, Option.bind_some]
    rfl

/-- A root, which is the tip, and a block above it that is not there yet. -/
def twoBlocks : BlockView where
  tree :=
    { mapBlockIndex := fun hash =>
        if hash = 1 then some (some {})
        else if hash = 2 then some (some { pprev := some 1, nHeight := 1, nStatus := 2 })
        else none }
  chainActive := [some 1]
  chainPower hash := if hash = 2 then { chainWork := 1 } else {}
  nChainTx _ := 0
  blockDownloadWindow := 1024

theorem link_twoBlocks (hash : Uint256) : twoBlocks.tree.link hash =
    if hash = 1 then some (none, 0) else if hash = 2 then some (some 1, 1) else none := by
  simp only [BlockTree.link, BlockTree.find, twoBlocks]
  split_ifs <;> rfl

theorem rooted_twoBlocks : twoBlocks.tree.Rooted where
  linked :=
    { root := by
        intro hash n h
        rw [link_twoBlocks] at h
        split_ifs at h <;> cases h
        rfl
      parent := by
        intro hash p n h
        rw [link_twoBlocks] at h
        split_ifs at h <;> cases h
        exact ⟨none, by decide⟩
      active := by
        intro i x h
        cases h }
  height := by
    intro hash p n h
    rw [link_twoBlocks] at h
    split_ifs at h <;> cases h <;> decide

theorem oneRoot_twoBlocks : OneRoot twoBlocks.tree := by
  intro a b n m ha hb
  rw [link_twoBlocks] at ha hb
  split_ifs at ha hb with h1 h2
  · rw [h1, h2]
  all_goals cases ha <;> cases hb

theorem setTips_twoBlocks : CChain.SetTips twoBlocks.tree twoBlocks.chainActive (some 1) :=
  (CChain.SetTips.start rooted_twoBlocks).setTip (some 1) (by
    rintro hash h
    cases h
    decide)

/-- The block above the root is asked for. -/
theorem findNextBlocksToDownload_eq_two : ∃ guess common vBlocks last,
    ((none : Option Uint256) = some guess ∨ (none : Option Uint256) = none ∧
      twoBlocks.chainActive.contains twoBlocks.tree guess = true) ∧
    IsLastCommon twoBlocks.tree guess 2 common ∧
    twoBlocks.findNextBlocksToDownload {} 7 16 { pindexBestKnownBlock := some 2 } =
      some (vBlocks.take 16, twoBlocks.stallerOf {} 7 (twoBlocks.tree.heightOf common + 1024)
        vBlocks (-1) (twoBlocks.readable 2 common),
        { pindexBestKnownBlock := some 2, pindexLastCommonBlock := some last }) ∧
    vBlocks = twoBlocks.missingIn {} (twoBlocks.tree.heightOf common + 1024)
      (twoBlocks.readable 2 common) ∧
    (last = common ∨ last ∈ twoBlocks.readable 2 common ∧ twoBlocks.hasBlock last = true ∧
      twoBlocks.nChainTx last ≠ 0) := by
  have hbest : (twoBlocks.processBlockAvailability
      { pindexBestKnownBlock := some 2 }).pindexBestKnownBlock = some 2 := rfl
  refine findNextBlocksToDownload_eq setTips_twoBlocks oneRoot_twoBlocks (by decide) hbest
    (by decide) (by decide) fun last hlast => ?_
  cases hlast

example : twoBlocks.findNextBlocksToDownload {} 7 16 { pindexBestKnownBlock := some 2 } =
    some ([2], -1, { pindexBestKnownBlock := some 2, pindexLastCommonBlock := some 1 }) := by
  decide

end BlockView

end IndexChain.Net
