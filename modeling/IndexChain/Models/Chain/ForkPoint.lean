import IndexChain.Models.Chain.SkipList

/-!
# The chain after any calls of SetTip

`CChain::SetTip` and `CChain::FindFork` of `chain.cpp`, for calls in any order on a block tree
that grows between them. `SetTip` resizes the vector and walks down from the new tip until an
entry is already right. Below such an entry the vector is the path to it, so nothing stale is
left. A block counts as an ancestor of itself.
-/

namespace IndexChain.Chain

namespace BlockTree

/-- A block tree: every height counts the steps from a root. -/
structure Rooted (t : BlockTree) : Prop where
  /-- A root has height 0, and a predecessor is in the tree, one lower. -/
  linked : CChain.Linked t []
  /-- No height is negative. -/
  height : ∀ hash p n, t.link hash = some (p, n) → 0 ≤ n

/-- The height of a block of the tree. -/
def heightOf (t : BlockTree) (hash : Uint256) : Int :=
  (t.find hash).elim 0 CBlockIndex.nHeight

/-- The block or one of its ancestors. -/
def IsAncestor (t : BlockTree) (anc hash : Uint256) : Prop :=
  ∃ k, t.ancestorUp k hash = some anc

end BlockTree

namespace CChain

/-- `SetTip`, of a block or of null. -/
def setTipTo (t : BlockTree) (c : CChain) : Option Uint256 → CChain
  | none => []
  | some pindex => c.setTip t pindex

/-- A chain and its `lastTip` after calls of `SetTip`, with blocks of the tree or null. Between
two calls the tree may change, as long as no block leaves its place. -/
inductive SetTips : BlockTree → CChain → Option Uint256 → Prop where
  /-- The chain is empty. -/
  | start {t : BlockTree} (htree : t.Rooted) : SetTips t [] none
  /-- The tree grows. -/
  | grow {t t' : BlockTree} {c : CChain} {lastTip : Option Uint256} (h : SetTips t c lastTip)
    (htree : t'.Rooted) (hlink : ∀ id place, t.link id = some place → t'.link id = some place) :
    SetTips t' c lastTip
  /-- One call. -/
  | setTip {t : BlockTree} {c : CChain} {lastTip : Option Uint256} (h : SetTips t c lastTip)
    (pindex : Option Uint256) (htree : ∀ hash, pindex = some hash → (t.link hash).isSome) :
    SetTips t (c.setTipTo t pindex) pindex

/-- The vector holds the ancestors of the tip, each at its height; it is empty without a tip. -/
def HoldsPath (t : BlockTree) (vChain : CChain) : Option Uint256 → Prop
  | none => vChain = []
  | some tip => (vChain.length : Int) = t.heightOf tip + 1 ∧
      ∀ i : Nat, (i : Int) ≤ t.heightOf tip → ∃ anc, vChain[i]? = some (some anc) ∧
        t.ancestorUp (t.heightOf tip - i).toNat tip = some anc

/-- The highest block of the chain among the ancestors of a block; null when there is none. -/
def IsFork (t : BlockTree) (c : CChain) (pindex : Uint256) : Option Uint256 → Prop
  | none => ∀ g, t.IsAncestor g pindex → c.contains t g = false
  | some fork => t.IsAncestor fork pindex ∧ c.contains t fork = true ∧
      ∀ g, t.IsAncestor g pindex → c.contains t g = true → t.heightOf g ≤ t.heightOf fork

end CChain

/-! ## Ancestors -/

namespace BlockTree

variable {t : BlockTree} {hash anc g : Uint256} {p : Option Uint256} {n : Int}

theorem heightOf_of_link (h : t.link hash = some (p, n)) : t.heightOf hash = n := by
  obtain ⟨e, he, -, hn⟩ := link_eq_some h
  rw [heightOf, he, Option.elim_some, hn]

theorem isAncestor_self (hash : Uint256) : t.IsAncestor hash hash :=
  ⟨0, rfl⟩

/-- An ancestor is the block itself or one of its predecessor. -/
theorem isAncestor_iff (h : t.link hash = some (p, n)) :
    t.IsAncestor g hash ↔ g = hash ∨ ∃ prev, p = some prev ∧ t.IsAncestor g prev := by
  constructor
  · rintro ⟨k, hk⟩
    cases k with
    | zero => exact Or.inl (Option.some.inj hk).symm
    | succ k =>
      obtain ⟨e, he, hprev, -⟩ := link_eq_some h
      rw [ancestorUp, he, Option.bind_some, hprev] at hk
      obtain ⟨prev, hp, hup⟩ := Option.bind_eq_some_iff.1 hk
      exact Or.inr ⟨prev, hp, k, hup⟩
  · rintro (rfl | ⟨prev, rfl, k, hk⟩)
    · exact isAncestor_self g
    · exact ⟨k + 1, by rw [ancestorUp_succ h, hk]⟩

/-- The block some steps up is in the tree, as many steps lower. -/
theorem link_of_ancestorUp (h : t.Rooted) {k : Nat} (hlink : t.link hash = some (p, n))
    (hup : t.ancestorUp k hash = some g) : ∃ q, t.link g = some (q, n - k) := by
  induction k generalizing hash p n with
  | zero =>
    cases hup
    exact ⟨p, by rw [hlink, Nat.cast_zero, Int.sub_zero]⟩
  | succ k ih =>
    cases p with
    | none =>
      obtain ⟨e, he, hprev, -⟩ := link_eq_some hlink
      rw [ancestorUp, he, Option.bind_some, hprev] at hup
      cases hup
    | some prev =>
      obtain ⟨q, hq⟩ := h.linked.parent hash prev n hlink
      rw [ancestorUp_succ hlink] at hup
      obtain ⟨r, hr⟩ := ih hq hup
      have hheight : n - 1 - (k : Int) = n - (k + 1 : Nat) := by omega
      exact ⟨r, by rw [hr, hheight]⟩

/-- An ancestor is not higher. -/
theorem heightOf_le (h : t.Rooted) (hlink : t.link hash = some (p, n))
    (hanc : t.IsAncestor g hash) : t.heightOf g ≤ n := by
  obtain ⟨k, hk⟩ := hanc
  obtain ⟨q, hq⟩ := link_of_ancestorUp h hlink hk
  rw [heightOf_of_link hq]
  omega

/-- The ancestors of a block that are not above one of them are ancestors of that one. -/
theorem isAncestor_of_heightOf_le (h : t.Rooted) (hlink : t.link hash = some (p, n)) {k : Nat}
    (hup : t.ancestorUp k hash = some anc) (hg : t.IsAncestor g hash)
    (hle : t.heightOf g ≤ n - k) : t.IsAncestor g anc := by
  obtain ⟨j, hj⟩ := hg
  obtain ⟨q, hq⟩ := link_of_ancestorUp h hlink hj
  rw [heightOf_of_link hq] at hle
  obtain ⟨i, rfl⟩ : ∃ i, j = k + i := ⟨j - k, by omega⟩
  rw [ancestorUp_add, hup, Option.bind_some] at hj
  exact ⟨i, hj⟩

theorem IsAncestor.trans (hg : t.IsAncestor g anc) (hanc : t.IsAncestor anc hash) :
    t.IsAncestor g hash := by
  obtain ⟨i, hi⟩ := hg
  obtain ⟨k, hk⟩ := hanc
  exact ⟨k + i, by rw [ancestorUp_add, hk, Option.bind_some, hi]⟩

end BlockTree

/-! ## SetTip -/

namespace CChain

variable {t : BlockTree} {c v : CChain} {hash : Uint256} {q : Option Uint256}

/-- An entry up to a height that is not null ends the path to it. -/
def PathsBelow (t : BlockTree) (vChain : CChain) (m : Nat) : Prop :=
  ∀ i x, i ≤ m → vChain[i]? = some (some x) → Linked t (vChain.take (i + 1))

/-- The walk leaves the path to the block, and what is above it. -/
theorem walkBack_spec (htree : t.Rooted) {m fuel : Nat} (hfuel : m < fuel)
    (hm : m < v.length) (hlink : t.link hash = some (q, (m : Int))) (hpaths : PathsBelow t v m) :
    ∃ u, walkBack t fuel v hash = u ++ [some hash] ++ v.drop (m + 1) ∧
      Linked t (u ++ [some hash]) := by
  induction fuel generalizing m v hash q with
  | zero => cases hfuel
  | succ fuel ih =>
    obtain ⟨e, he, hprev, hheight⟩ := BlockTree.link_eq_some hlink
    have hnat : e.nHeight.toNat = m := by rw [hheight, Int.toNat_natCast]
    rw [walkBack, he]
    dsimp only
    rw [hnat, hprev]
    split
    · rename_i hthere
      have hentry : v[m]? = some (some hash) := by
        rw [List.getElem?_eq_getElem hm] at hthere ⊢
        exact congrArg some hthere
      have htake : v.take (m + 1) = v.take m ++ [some hash] := by
        rw [List.take_add_one, hentry]
        rfl
      refine ⟨v.take m, ?_, ?_⟩
      · rw [← htake, List.take_append_drop]
      · rw [← htake]
        exact hpaths m hash le_rfl hentry
    · have hset : m < (v.set m (some hash)).length := by rwa [List.length_set]
      have hdrop : (v.set m (some hash)).drop m = some hash :: v.drop (m + 1) := by
        rw [List.drop_eq_getElem_cons hset, List.getElem_set_self,
          List.drop_set_of_lt (Nat.lt_succ_self m)]
      cases q with
      | none =>
        have hzero : m = 0 := by
          have hroot := htree.linked.root hash m hlink
          omega
        subst hzero
        refine ⟨[], ?_, Linked.push htree.linked hlink⟩
        rw [List.drop_zero] at hdrop
        rw [Option.elim_none, hdrop]
        rfl
      | some p =>
        obtain ⟨r, hr⟩ := htree.linked.parent hash p m hlink
        have hpos := htree.height p r _ hr
        obtain ⟨j, rfl⟩ : ∃ j, m = j + 1 := ⟨m - 1, by omega⟩
        have hj : ((j + 1 : Nat) : Int) - 1 = j := by omega
        rw [hj] at hr
        -- the entries below are those of before
        have hpaths' : PathsBelow t (v.set (j + 1) (some hash)) j := by
          intro i x hi hx
          rw [List.getElem?_set_ne (by omega)] at hx
          rw [List.take_set_of_le (by omega)]
          exact hpaths i x (by omega) hx
        obtain ⟨u, hwalk, hpath⟩ := ih (by omega) (by omega) hr hpaths'
        refine ⟨u ++ [some p], ?_, Linked.push hpath (by rw [tip_append, hlink])⟩
        rw [Option.elim_some, hwalk, hdrop]
        simp

/-- `SetTip` leaves the path to the new tip. -/
theorem Linked.setTip (h : Linked t c) (htree : t.Rooted) {n : Int}
    (hlink : t.link hash = some (q, n)) :
    ∃ u, c.setTip t hash = u ++ [some hash] ∧ Linked t (u ++ [some hash]) := by
  obtain ⟨e, he, -, hheight⟩ := BlockTree.link_eq_some hlink
  have hnonneg := htree.height hash q n hlink
  obtain ⟨m, rfl⟩ := Int.eq_ofNat_of_zero_le hnonneg
  have hlen : (c.resize (m + 1)).length = m + 1 := by
    rw [resize, List.length_append, List.length_take, List.length_replicate]
    omega
  have hpaths : PathsBelow t (c.resize (m + 1)) m := by
    intro i x hi hx
    have hc : i < c.length := by
      by_contra hge
      rw [resize, List.getElem?_append_right (by rw [List.length_take]; omega)] at hx
      cases List.eq_of_mem_replicate (List.mem_of_getElem? hx)
    have htake : (c.resize (m + 1)).take (i + 1) = c.take (i + 1) := by
      rw [resize, List.take_append_of_le_length (by rw [List.length_take]; omega),
        List.take_take, Nat.min_eq_left (by omega)]
    rw [htake]
    rw [← List.take_append_drop (i + 1) c] at h
    exact h.of_append
  obtain ⟨u, hwalk, hpath⟩ := walkBack_spec htree (Nat.lt_succ_self m) (by omega) hlink hpaths
  refine ⟨u, ?_, hpath⟩
  have hsucc : (e.nHeight + 1).toNat = m + 1 := by omega
  have hnat : e.nHeight.toNat + 1 = m + 1 := by omega
  have hdrop : (c.resize (m + 1)).drop (m + 1) = [] := List.drop_eq_nil_of_le hlen.le
  rw [CChain.setTip, he]
  dsimp only
  rw [hsucc, hnat, hwalk, hdrop, List.append_nil]

/-- After any calls the vector is the path to the last tip. -/
theorem SetTips.linked {lastTip : Option Uint256} (h : SetTips t c lastTip) :
    t.Rooted ∧ Linked t c ∧ c.tip = lastTip := by
  induction h with
  | start htree => exact ⟨htree, htree.linked, rfl⟩
  | grow h htree hlink ih =>
    obtain ⟨-, hpath, htip⟩ := ih
    refine ⟨htree, ⟨htree.linked.root, htree.linked.parent, fun i x hx => ?_⟩, htip⟩
    obtain ⟨id, hid, hplace⟩ := hpath.active i x hx
    exact ⟨id, hid, hlink id _ hplace⟩
  | setTip h pindex htree ih =>
    obtain ⟨hroot, hpath, -⟩ := ih
    refine ⟨hroot, ?_⟩
    cases pindex with
    | none => exact ⟨hroot.linked, rfl⟩
    | some id =>
      obtain ⟨⟨q, n⟩, hplace⟩ := Option.isSome_iff_exists.1 (htree id rfl)
      obtain ⟨u, hset, hnew⟩ := hpath.setTip hroot hplace
      rw [setTipTo, hset]
      exact ⟨hnew, tip_append u _⟩

/-! ## The entries -/

/-- A path holds the ancestors of its last block. -/
theorem Linked.getElem_ancestorUp {u : CChain} (h : Linked t (u ++ [some hash])) {i : Nat}
    (hi : i ≤ u.length) :
    ∃ anc, (u ++ [some hash])[i]? = some (some anc) ∧
      t.ancestorUp (u.length - i) hash = some anc := by
  induction u using List.reverseRecOn generalizing hash with
  | nil =>
    obtain rfl : i = 0 := Nat.le_zero.1 hi
    exact ⟨hash, rfl, rfl⟩
  | append_singleton u x ih =>
    obtain hlt | rfl := Nat.lt_or_eq_of_le hi
    · obtain ⟨p, rfl, -⟩ := h.of_append.active u.length x (by simp)
      have hlink := h.tip_link
      rw [tip_append] at hlink
      rw [List.length_append, List.length_singleton] at hlt ⊢
      obtain ⟨anc, hentry, hup⟩ := ih h.of_append (by omega)
      refine ⟨anc, ?_, ?_⟩
      · rw [List.getElem?_append_left (by rw [List.length_append, List.length_singleton]; omega)]
        exact hentry
      · rw [Nat.sub_add_comm (by omega), BlockTree.ancestorUp_succ hlink, hup]
    · exact ⟨hash, by simp, by rw [Nat.sub_self]; rfl⟩

/-- The vector of a path holds the ancestors of its tip. -/
theorem Linked.holdsPath (h : Linked t c) : HoldsPath t c c.tip := by
  cases htip : c.tip with
  | none => exact h.eq_nil htip
  | some tip =>
    obtain ⟨u, rfl⟩ := eq_append_of_tip htip
    have hheight := BlockTree.heightOf_of_link h.tip_link
    refine ⟨?_, fun i hi => ?_⟩
    · rw [hheight, List.length_append, List.length_singleton]
      rfl
    · rw [hheight] at hi ⊢
      obtain ⟨anc, hentry, hup⟩ := h.getElem_ancestorUp (i := i) (by omega)
      refine ⟨anc, hentry, ?_⟩
      rw [← hup]
      congr 1
      omega

/-! ## FindFork -/

/-- The first block of the chain on the way down is the highest. -/
theorem isFork_ancestry (htree : t.Rooted) {fuel : Nat} {n : Int}
    (hlink : t.link hash = some (q, n)) (hfuel : n < fuel) :
    IsFork t c hash ((t.ancestry fuel hash).find? (c.contains t)) := by
  induction fuel generalizing hash q n with
  | zero =>
    have hnonneg := htree.height hash q n hlink
    omega
  | succ fuel ih =>
    obtain ⟨e, he, hprev, hheight⟩ := BlockTree.link_eq_some hlink
    rw [BlockTree.ancestry, he]
    dsimp only
    rw [hprev, List.find?_cons]
    split
    · rename_i hcontains
      refine ⟨BlockTree.isAncestor_self hash, hcontains, fun g hg _ => ?_⟩
      rw [BlockTree.heightOf_of_link hlink]
      exact BlockTree.heightOf_le htree hlink hg
    · rename_i hcontains
      have hfalse : c.contains t hash = false := Bool.not_eq_true _ ▸ hcontains
      cases q with
      | none =>
        intro g hg
        obtain rfl | ⟨prev, hprev, -⟩ := (BlockTree.isAncestor_iff hlink).1 hg
        · exact hfalse
        · cases hprev
      | some p =>
        obtain ⟨r, hr⟩ := htree.linked.parent hash p n hlink
        have hbelow := ih hr (by omega)
        rw [Option.elim_some]
        cases hfind : (t.ancestry fuel p).find? (c.contains t) with
        | none =>
          rw [hfind] at hbelow
          intro g hg
          obtain rfl | ⟨prev, hprev, hup⟩ := (BlockTree.isAncestor_iff hlink).1 hg
          · exact hfalse
          · cases hprev
            exact hbelow g hup
        | some fork =>
          rw [hfind] at hbelow
          obtain ⟨hfork, hin, hhighest⟩ := hbelow
          refine ⟨(BlockTree.isAncestor_iff hlink).2 (Or.inr ⟨p, rfl, hfork⟩), hin, ?_⟩
          intro g hg hgin
          obtain rfl | ⟨prev, hprev, hup⟩ := (BlockTree.isAncestor_iff hlink).1 hg
          · rw [hfalse] at hgin
            cases hgin
          · cases hprev
            exact hhighest g hup hgin

/-- A block of the chain is in the tree, not above the height of the chain. -/
theorem link_of_contains {g : Uint256} (h : c.contains t g = true) :
    ∃ q n, t.link g = some (q, n) ∧ n ≤ c.height := by
  cases he : t.find g with
  | none =>
    rw [contains, he] at h
    cases h
  | some e =>
    rw [contains, he, Option.elim_some, beq_iff_eq, atHeight] at h
    split at h
    · cases h
    · rename_i hnonneg
      have hentry := Option.join_eq_some_iff.1 h
      have hlt : e.nHeight.toNat < c.length := (List.getElem?_eq_some_iff.1 hentry).1
      refine ⟨e.pprev, e.nHeight, BlockTree.link_of_find he, ?_⟩
      rw [height]
      omega

/-- The search may start at an ancestor that is as high as the chain. -/
theorem IsFork.of_ancestor (htree : t.Rooted) {n : Int} (hlink : t.link hash = some (q, n))
    {k : Nat} {anc : Uint256} (hup : t.ancestorUp k hash = some anc) (hk : c.height = n - k)
    {fork : Option Uint256} (h : IsFork t c anc fork) : IsFork t c hash fork := by
  have hanc : ∀ g, t.IsAncestor g hash → c.contains t g = true → t.IsAncestor g anc := by
    intro g hg hin
    obtain ⟨r, m, hm, hle⟩ := link_of_contains hin
    refine BlockTree.isAncestor_of_heightOf_le htree hlink hup hg ?_
    rw [BlockTree.heightOf_of_link hm]
    omega
  cases fork with
  | none =>
    intro g hg
    by_contra hin
    have htrue : c.contains t g = true := by simpa using hin
    rw [h g (hanc g hg htrue)] at htrue
    cases htrue
  | some fork =>
    obtain ⟨hfork, hin, hhighest⟩ := h
    exact ⟨hfork.trans ⟨k, hup⟩, hin, fun g hg hgin => hhighest g (hanc g hg hgin) hgin⟩

/-- `FindFork` of a block of the tree. -/
theorem isFork_findFork (htree : t.Rooted) {n : Int} (hlink : t.link hash = some (q, n)) :
    IsFork t c hash (c.findFork t hash) := by
  obtain ⟨e, he, -, hheight⟩ := BlockTree.link_eq_some hlink
  have hnonneg := htree.height hash q n hlink
  rw [findFork, he]
  dsimp only
  rw [hheight]
  split
  · rename_i habove
    by_cases hempty : c.height < 0
    · -- an empty chain has no block in common with any other
      rw [BlockTree.getAncestor, he]
      dsimp only
      rw [if_pos (Or.inr hempty), Option.bind_none]
      intro g _
      by_contra hin
      obtain ⟨r, m, hm, hle⟩ := link_of_contains (Bool.not_eq_false _ ▸ hin)
      have hm0 := htree.height g r m hm
      omega
    · have hk : ((n - c.height).toNat : Int) = n - c.height := by omega
      obtain ⟨anc, r, hup, hr⟩ := BlockTree.exists_ancestorUp htree.linked
        (k := (n - c.height).toNat) hlink (by omega)
      have hstart : t.getAncestor hash c.height = some anc := by
        rw [BlockTree.getAncestor, he]
        dsimp only
        rw [hheight, if_neg (by omega), hup]
      rw [hstart, Option.bind_some]
      exact (isFork_ancestry htree hr (by omega)).of_ancestor htree hlink hup (by omega)
  · rw [Option.bind_some]
    exact isFork_ancestry htree hlink (by omega)

/-- Whatever calls of `SetTip` were made while the tree grew, the vector holds the ancestors of
the last tip, each at its height, and `FindFork` of any block of the tree gives the highest
block of the chain among its ancestors. -/
theorem setTips_exact {lastTip : Option Uint256} (h : SetTips t c lastTip) :
    HoldsPath t c lastTip ∧
      ∀ hash, (t.link hash).isSome → IsFork t c hash (c.findFork t hash) := by
  obtain ⟨htree, hpath, rfl⟩ := h.linked
  refine ⟨hpath.holdsPath, fun hash hsome => ?_⟩
  obtain ⟨⟨q, n⟩, hlink⟩ := Option.isSome_iff_exists.1 hsome
  exact isFork_findFork htree hlink

/-- Two blocks above a root, and one above the second of them. -/
def forkedTree : BlockTree where
  mapBlockIndex hash :=
    if hash = 1 then some (some {})
    else if hash = 2 ∨ hash = 3 then some (some { pprev := some 1, nHeight := 1 })
    else if hash = 4 then some (some { pprev := some 3, nHeight := 2 })
    else none

theorem link_forkedTree (hash : Uint256) :
    forkedTree.link hash =
      if hash = 1 then some (none, 0)
      else if hash = 2 ∨ hash = 3 then some (some 1, 1)
      else if hash = 4 then some (some 3, 2)
      else none := by
  simp only [BlockTree.link, BlockTree.find, forkedTree]
  split_ifs <;> rfl

theorem rooted_forkedTree : forkedTree.Rooted where
  linked :=
    { root := by
        intro hash n h
        rw [link_forkedTree] at h
        split_ifs at h <;> cases h
        rfl
      parent := by
        intro hash p n h
        rw [link_forkedTree] at h
        split_ifs at h <;> cases h
        · exact ⟨none, by decide⟩
        · exact ⟨some 1, by decide⟩
      active := by
        intro i x h
        cases h }
  height := by
    intro hash p n h
    rw [link_forkedTree] at h
    split_ifs at h <;> cases h <;> decide

/-- The tip goes from one branch to the other. -/
theorem setTips_exact_forked :
    HoldsPath forkedTree (setTipTo forkedTree (setTipTo forkedTree [] (some 2)) (some 4)) (some 4) ∧
      ∀ hash, (forkedTree.link hash).isSome →
        IsFork forkedTree (setTipTo forkedTree (setTipTo forkedTree [] (some 2)) (some 4)) hash
          (findFork forkedTree (setTipTo forkedTree (setTipTo forkedTree [] (some 2)) (some 4))
            hash) :=
  setTips_exact (((SetTips.start rooted_forkedTree).setTip (some 2) (by
    rintro hash h
    cases h
    decide)).setTip (some 4) (by
    rintro hash h
    cases h
    decide))

end CChain

end IndexChain.Chain
