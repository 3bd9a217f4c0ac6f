import IndexChain.Models.Chain.NewBlocks

/-!
# Skip pointers

`GetSkipHeight`, `GetAncestor` and `BuildSkip` of `chain.cpp`. Every entry of the block
index has a second pointer, to an ancestor that lies some way below it, and a walk down
the tree follows it where that does not lead too far. Whatever the lookahead of the walk
decides, it ends at the ancestor that is reached by the previous blocks alone.
-/

namespace IndexChain.Chain

open BlockStatus

/-! ## Heights -/

/-- `InvertLowestOne`: the number without its lowest set bit. -/
def invertLowestOne (n : Nat) : Nat :=
  n &&& (n - 1)

/-- `GetSkipHeight`: the height that the skip pointer of a block goes back to. -/
def getSkipHeight (height : Nat) : Nat :=
  if height < 2 then 0
  else if height &&& 1 != 0 then invertLowestOne (invertLowestOne (height - 1)) + 1
  else invertLowestOne height

theorem invertLowestOne_le (n : Nat) : invertLowestOne n ≤ n - 1 :=
  Nat.and_le_right

/-- A skip pointer goes back. -/
theorem getSkipHeight_lt {height : Nat} (h : 0 < height) : getSkipHeight height < height := by
  unfold getSkipHeight
  split
  · exact h
  · split
    · have hinner := invertLowestOne_le (height - 1)
      have houter := invertLowestOne_le (invertLowestOne (height - 1))
      omega
    · have hlow := invertLowestOne_le height
      omega

/-! ## The walk -/

/-- The block index with the skip pointer of each entry. -/
structure SkipTree where
  /-- The entries. -/
  tree : BlockTree := {}
  /-- `pskip` of each entry, which may be null. -/
  pskip : Uint256 → Option Uint256 := fun _ => none

namespace SkipTree

/-- Whether the walk takes a skip pointer: it must not lead below the height asked for,
and the one of the previous block must not be better. -/
def takesSkip (heightWalk height : Nat) : Bool :=
  let heightSkip := getSkipHeight heightWalk
  let heightSkipPrev := getSkipHeight (heightWalk - 1)
  heightSkip == height ||
    (decide (height < heightSkip) &&
      !(decide ((heightSkipPrev : Int) < heightSkip - 2) && decide (height ≤ heightSkipPrev)))

/-- The loop of `GetAncestor`; `none` is a failed assertion. Its pointer is never null:
a null `pskip` is not followed and a null `pprev` fails the assertion. -/
def walk (t : SkipTree) (height heightWalk : Nat) (pindexWalk : Uint256) : Option Uint256 :=
  if hmore : height < heightWalk then
    match (t.pskip pindexWalk).filter fun _ => takesSkip heightWalk height with
    | some pskip =>
      have := getSkipHeight_lt (Nat.zero_lt_of_lt hmore)
      t.walk height (getSkipHeight heightWalk) pskip
    | none => match (t.tree.find pindexWalk).bind CBlockIndex.pprev with
      | some pprev => t.walk height (heightWalk - 1) pprev
      | none => none
  else some pindexWalk
termination_by heightWalk

/-- `GetAncestor`: null for a height that the block does not have below it. -/
def getAncestor (t : SkipTree) (hash : Uint256) (height : Int) : Option (Option Uint256) :=
  (t.tree.find hash).bind fun e =>
    if e.nHeight < height ∨ height < 0 then some none
    else (t.walk height.toNat e.nHeight.toNat hash).map some

/-- `BuildSkip`. -/
def buildSkip (t : SkipTree) (hash : Uint256) : Option SkipTree :=
  (t.tree.find hash).bind fun e => match e.pprev with
    | none => some t
    | some pprev =>
      (t.getAncestor pprev (getSkipHeight e.nHeight.toNat)).map fun pskip =>
        { t with pskip := Function.update t.pskip hash pskip }

/-- `AddToBlockIndex`: a new entry gets its skip pointer. -/
def addToBlockIndex (t : SkipTree) (a : HeaderArgs) : Option SkipTree :=
  let tree := (t.tree.addToBlockIndex a).1
  if (t.tree.find a.hash).isNone && (tree.find a.hash).isSome then
    buildSkip { tree := tree, pskip := Function.update t.pskip a.hash none } a.hash
  else some { t with tree := tree }

/-- The steps that give entries their skip pointers. -/
inductive SkipStep where
  /-- A block that is announced. -/
  | addToBlockIndex (a : HeaderArgs)
  /-- `LoadBlockIndexDB` comes to an entry that it has read from disk. -/
  | buildSkip (hash : Uint256)

/-- One step; `LoadBlockIndexDB` only comes to entries that there are. -/
def step (t : SkipTree) : SkipStep → Option SkipTree
  | .addToBlockIndex a => t.addToBlockIndex a
  | .buildSkip hash => if (t.tree.find hash).isSome then t.buildSkip hash else some t

/-- Steps in their order. -/
def run (t : SkipTree) (steps : List SkipStep) : Option SkipTree :=
  steps.foldlM step t

end SkipTree

/-! ## Going up one block at a time -/

namespace BlockTree

variable {t : BlockTree} {hash : Uint256}

theorem ancestorUp_add (m k : Nat) (hash : Uint256) :
    t.ancestorUp (m + k) hash = (t.ancestorUp m hash).bind (t.ancestorUp k) := by
  induction m generalizing hash with
  | zero => rw [Nat.zero_add, ancestorUp, Option.bind_some]
  | succ m ih =>
    have hup : t.ancestorUp (m + k) = fun p => (t.ancestorUp m p).bind (t.ancestorUp k) :=
      funext ih
    simp only [Nat.succ_add, ancestorUp, hup, Option.bind_assoc]

theorem ancestorUp_succ {p : Uint256} {n : Int} (h : t.link hash = some (some p, n)) (k : Nat) :
    t.ancestorUp (k + 1) hash = t.ancestorUp k p := by
  obtain ⟨e, he, hprev, -⟩ := link_eq_some h
  rw [ancestorUp, he, Option.bind_some, hprev, Option.bind_some]

/-- In a tree whose heights count the steps from a root, a block has an ancestor at every
height below its own. -/
theorem exists_ancestorUp (h : CChain.Linked t []) {k : Nat} {p : Option Uint256} {n : Int}
    (hlink : t.link hash = some (p, n)) (hk : (k : Int) ≤ n) :
    ∃ anc q, t.ancestorUp k hash = some anc ∧ t.link anc = some (q, n - k) := by
  induction k generalizing hash p n with
  | zero => exact ⟨hash, p, rfl, by simpa using hlink⟩
  | succ k ih =>
    cases p with
    | none =>
      have hroot := h.root hash n hlink
      omega
    | some p =>
      obtain ⟨q, hq⟩ := h.parent hash p n hlink
      obtain ⟨anc, r, hanc, hr⟩ := ih hq (by omega)
      refine ⟨anc, r, by rw [ancestorUp_succ hlink, hanc], ?_⟩
      rw [hr]
      congr 2
      omega

end BlockTree

/-! ## Skip pointers to the right ancestors -/

namespace SkipTree

variable {t t' : SkipTree} {hash : Uint256} {p : Option Uint256} {n : Int}

/-- Heights count the steps from a root, and every skip pointer that is not null is to the
ancestor at its height. -/
structure SkipsRight (t : SkipTree) : Prop where
  /-- The tree grows from roots. -/
  linked : CChain.Linked t.tree []
  /-- Skip pointers lead to ancestors. -/
  pskip : ∀ hash p skip (n : Nat), t.tree.link hash = some (p, (n : Int)) → 0 < n →
    t.pskip hash = some skip → t.tree.ancestorUp (n - getSkipHeight n) hash = some skip

/-- A skip pointer that is taken does not lead below the height asked for. -/
theorem le_of_takesSkip {heightWalk height : Nat} (h : takesSkip heightWalk height = true) :
    height ≤ getSkipHeight heightWalk := by
  unfold takesSkip at h
  obtain heq | hlook := Bool.or_eq_true_iff.1 h
  · exact (beq_iff_eq.1 heq).ge
  · exact (of_decide_eq_true (Bool.and_eq_true_iff.1 hlook).1).le

/-- The walk ends at the ancestor that is reached by the previous blocks alone. -/
theorem walk_eq_ancestorUp (h : t.SkipsRight) {height : Nat} :
    ∀ (n : Nat) hash p, t.tree.link hash = some (p, (n : Int)) → height ≤ n →
      t.walk height n hash = t.tree.ancestorUp (n - height) hash := by
  intro n
  induction n using Nat.strong_induction_on with
  | _ n ih =>
    intro hash p hlink hle
    rw [walk]
    split
    · rename_i hmore
      split
      · rename_i skip hskip
        obtain ⟨hptr, htakes⟩ := Option.filter_eq_some_iff.1 hskip
        have hlow := le_of_takesSkip htakes
        have hlt := getSkipHeight_lt (Nat.zero_lt_of_lt hmore)
        have hup := h.pskip hash p skip n hlink (by omega) hptr
        -- the skip pointer stands for the previous blocks in between
        obtain ⟨anc, q, hanc, hq⟩ := BlockTree.exists_ancestorUp h.linked
          (k := n - getSkipHeight n) hlink (by omega)
        rw [hup] at hanc
        cases hanc
        have hheight : (n : Int) - ((n - getSkipHeight n : Nat) : Int) =
          (getSkipHeight n : Int) := by
          omega
        rw [hheight] at hq
        have hsplit : n - height = (n - getSkipHeight n) + (getSkipHeight n - height) := by omega
        rw [ih _ hlt skip q hq hlow, hsplit, BlockTree.ancestorUp_add, hup, Option.bind_some]
      · cases p with
        | none =>
          have hroot := h.linked.root hash n hlink
          omega
        | some p =>
          obtain ⟨e, he, hprev, -⟩ := BlockTree.link_eq_some hlink
          obtain ⟨q, hq⟩ := h.linked.parent hash p n hlink
          have hpred : ((n : Int) - 1) = ((n - 1 : Nat) : Int) := by omega
          rw [hpred] at hq
          have hstep : n - height = (n - 1 - height) + 1 := by omega
          rw [he, Option.bind_some, hprev, hstep, BlockTree.ancestorUp_succ hlink]
          exact ih _ (by omega) p q hq (by omega)
    · have hsame : n - height = 0 := by omega
      rw [hsame, BlockTree.ancestorUp]

/-- `GetAncestor` of a height that the block has below it. -/
theorem getAncestor_eq (h : t.SkipsRight) (hlink : t.tree.link hash = some (p, n)) {height : Int}
    (hlow : 0 ≤ height) (hhigh : height ≤ n) :
    ∃ anc, t.tree.ancestorUp (n - height).toNat hash = some anc ∧
      t.getAncestor hash height = some (some anc) := by
  obtain ⟨anc, -, hanc, -⟩ := BlockTree.exists_ancestorUp h.linked (k := (n - height).toNat) hlink
    (by omega)
  refine ⟨anc, hanc, ?_⟩
  obtain ⟨e, he, -, hheight⟩ := BlockTree.link_eq_some hlink
  have hnat : ((n.toNat : Nat) : Int) = n := by omega
  have hdiff : (n - height).toNat = n.toNat - height.toNat := by omega
  rw [hdiff] at hanc
  rw [getAncestor, he, Option.bind_some, hheight, if_neg (by omega),
    walk_eq_ancestorUp h n.toNat hash p (by rw [hnat, hlink]) (by omega), hanc, Option.map_some]

/-! ## Skip pointers as they are set -/

/-- Setting one skip pointer, to null or to the right ancestor. -/
theorem SkipsRight.update (h : t.SkipsRight) {pskip : Option Uint256}
    (hright : ∀ p skip (n : Nat), t.tree.link hash = some (p, (n : Int)) → 0 < n →
      pskip = some skip → t.tree.ancestorUp (n - getSkipHeight n) hash = some skip) :
    SkipsRight { t with pskip := Function.update t.pskip hash pskip } where
  linked := h.linked
  pskip := by
    intro id p skip n hlink hpos hskip
    dsimp only at hlink hskip
    rw [Function.update_apply] at hskip
    split at hskip
    · rename_i hid
      subst hid
      exact hright p skip n hlink hpos hskip
    · exact h.pskip id p skip n hlink hpos hskip

/-- `BuildSkip` finds the ancestor it looks for. -/
theorem buildSkip_spec (h : t.SkipsRight) (hlink : t.tree.link hash = some (p, n)) :
    ∃ t', t.buildSkip hash = some t' ∧ t'.SkipsRight := by
  obtain ⟨e, he, hprev, hheight⟩ := BlockTree.link_eq_some hlink
  rw [buildSkip, he, Option.bind_some, hprev, hheight]
  cases p with
  | none => exact ⟨t, rfl, h⟩
  | some p =>
    obtain ⟨q, hq⟩ := h.linked.parent hash p n hlink
    obtain hneg | hpos := le_or_gt n 0
    · -- such an entry is not above a root
      obtain ⟨f, hf, -, hbelow⟩ := BlockTree.link_eq_some hq
      have hnull : t.getAncestor p (getSkipHeight n.toNat) = some none := by
        rw [getAncestor, hf, Option.bind_some, hbelow, if_pos (by omega)]
      dsimp only
      rw [hnull, Option.map_some]
      refine ⟨_, rfl, h.update ?_⟩
      intro _ _ m hm hmpos _
      rw [hlink] at hm
      cases hm
      omega
    · have hlt : getSkipHeight n.toNat < n.toNat := getSkipHeight_lt (by omega)
      have hlow : (0 : Int) ≤ getSkipHeight n.toNat := by omega
      obtain ⟨anc, hup, hanc⟩ := getAncestor_eq h hq hlow (by omega)
      dsimp only
      rw [hanc, Option.map_some]
      refine ⟨_, rfl, h.update ?_⟩
      intro _ skip m hm _ hskip
      rw [hlink] at hm
      cases hm
      cases hskip
      rw [Int.toNat_natCast] at hup hlt
      have hstep : m - getSkipHeight m = ((m : Int) - 1 - getSkipHeight m).toNat + 1 := by omega
      rw [hstep, BlockTree.ancestorUp_succ hlink]
      exact hup

/-- Ancestors stay when blocks keep their places. -/
theorem ancestorUp_of_link {tree tree' : BlockTree}
    (hkeep : ∀ id place, tree.link id = some place → tree'.link id = some place) {k : Nat}
    {anc : Uint256} (h : tree.ancestorUp k hash = some anc) :
    tree'.ancestorUp k hash = some anc := by
  induction k generalizing hash with
  | zero => exact h
  | succ k ih =>
    rw [BlockTree.ancestorUp] at h
    obtain ⟨p, hp, hup⟩ := Option.bind_eq_some_iff.1 h
    obtain ⟨e, he, hprev⟩ := Option.bind_eq_some_iff.1 hp
    have hlink : tree.link hash = some (some p, e.nHeight) := by
      rw [BlockTree.link_of_find he, hprev]
    rw [BlockTree.ancestorUp_succ (hkeep hash _ hlink)]
    exact ih hup

/-- `AddToBlockIndex` goes through and keeps the skip pointers right. -/
theorem addToBlockIndex_spec (h : t.SkipsRight) (a : HeaderArgs) :
    ∃ t', t.addToBlockIndex a = some t' ∧ t'.SkipsRight := by
  cases hold : t.tree.find a.hash with
  | some e =>
    have hsame : (t.tree.addToBlockIndex a).1 = t.tree := by
      have hmap : t.tree.mapBlockIndex a.hash = some (some e) := Option.join_eq_some_iff.1 hold
      unfold BlockTree.addToBlockIndex
      rw [hmap]
    rw [addToBlockIndex, hold, hsame]
    exact ⟨t, rfl, h⟩
  | none =>
    obtain hadd | ⟨e, hnew, -, hadd⟩ := BlockTree.addToBlockIndex_cases hold
    · rw [addToBlockIndex, hold, hadd]
      simp only [hold, Option.isNone_none, Option.isSome_none, Bool.and_false, Bool.false_eq_true,
        if_false]
      exact ⟨t, rfl, h⟩
    · have hself := BlockTree.find_set t.tree a.hash (e.raiseValidity validTree) a.hash
      rw [if_pos rfl] at hself
      rw [addToBlockIndex, hold, hadd]
      simp only [hself, Option.isNone_none, Option.isSome_some, Bool.and_true, if_true]
      refine buildSkip_spec ?_ (BlockTree.link_of_find hself)
      exact
        { linked := h.linked.addEntry hold hnew
          pskip := by
            intro id p skip n hlink hpos hskip
            dsimp only at hlink hskip
            rw [Function.update_apply] at hskip
            split at hskip
            · cases hskip
            · rename_i hne
              rw [BlockTree.link_addEntry, if_neg hne] at hlink
              exact ancestorUp_of_link (fun _ _ => BlockTree.link_addEntry_of_old hold)
                (h.pskip id p skip n hlink hpos hskip) }

/-- No step fails an assertion, and each keeps the skip pointers right. -/
theorem step_spec (h : t.SkipsRight) (x : SkipStep) : ∃ t', t.step x = some t' ∧ t'.SkipsRight := by
  cases x with
  | addToBlockIndex a => exact addToBlockIndex_spec h a
  | buildSkip hash =>
    rw [step]
    split
    · rename_i hsome
      obtain ⟨e, he⟩ := Option.isSome_iff_exists.1 hsome
      exact buildSkip_spec h (BlockTree.link_of_find he)
    · exact ⟨t, rfl, h⟩

theorem run_spec (h : t.SkipsRight) (steps : List SkipStep) :
    ∃ t', t.run steps = some t' ∧ t'.SkipsRight := by
  induction steps generalizing t with
  | nil => exact ⟨t, rfl, h⟩
  | cons x steps ih =>
    obtain ⟨t₁, hstep, hright⟩ := step_spec h x
    obtain ⟨t₂, hrun, hlast⟩ := ih hright
    refine ⟨t₂, ?_, hlast⟩
    rw [run, List.foldlM_cons, hstep]
    exact hrun

/-- A tree whose skip pointers are not set yet. -/
theorem skipsRight_of_linked {tree : BlockTree} (h : CChain.Linked tree []) :
    SkipsRight { tree := tree } where
  linked := h
  pskip := by
    intro _ _ _ _ _ _ hskip
    cases hskip

/-- However blocks are added and skip pointers set, `GetAncestor` of a height from 0 to the
block's own ends without a failed assertion, in the block that is as many previous blocks
away. -/
theorem getAncestor_run {tree : BlockTree} (h : CChain.Linked tree []) (steps : List SkipStep) :
    ∃ t, run { tree := tree } steps = some t ∧
      ∀ hash e, t.tree.find hash = some e → ∀ height, 0 ≤ height → height ≤ e.nHeight →
        ∃ anc, t.tree.ancestorUp (e.nHeight - height).toNat hash = some anc ∧
          t.getAncestor hash height = some (some anc) := by
  obtain ⟨t, hrun, hright⟩ := run_spec (skipsRight_of_linked h) steps
  refine ⟨t, hrun, ?_⟩
  intro hash e he height hlow hhigh
  exact getAncestor_eq hright (BlockTree.link_of_find he) hlow hhigh

theorem linked_empty : CChain.Linked {} [] where
  root := by
    intro _ _ h
    cases h
  parent := by
    intro _ _ _ h
    cases h
  active := by
    intro _ _ h
    cases h

/-- Three blocks that are announced one after the other. -/
theorem getAncestor_run_three :
    ∃ t, run {} [.addToBlockIndex { hash := 1, hashPrevBlock := 0, nTime := 0 },
        .addToBlockIndex { hash := 2, hashPrevBlock := 1, nTime := 0 },
        .addToBlockIndex { hash := 3, hashPrevBlock := 2, nTime := 0 }] = some t ∧
      ∀ hash e, t.tree.find hash = some e → ∀ height, 0 ≤ height → height ≤ e.nHeight →
        ∃ anc, t.tree.ancestorUp (e.nHeight - height).toNat hash = some anc ∧
          t.getAncestor hash height = some (some anc) :=
  getAncestor_run linked_empty _

end SkipTree

end IndexChain.Chain
