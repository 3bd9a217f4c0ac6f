import IndexChain.Models.Chain.ActiveChain
import IndexChain.Models.Chain.Validity

/-!
# The notarized block stays in the active chain

The active chain is a path of the block tree from its root: moving the tip to its
predecessor takes the last block off, and moving it to a block above the tip puts one
on. `DisconnectTip` refuses the notarized block, whatever its height and whatever
`ActivateBestChainStep` has decided before, so no run takes it off.
-/

namespace IndexChain.Chain

/-! ## Links -/

namespace CBlockIndex

/-- The place of an entry in the tree. -/
def link (e : CBlockIndex) : Option Uint256 × Int :=
  (e.pprev, e.nHeight)

variable {env : ChainEnv} {a : ConnectArgs} {e e' : CBlockIndex} {flag : BlockStatus}

@[simp] theorem link_orStatus : (e.orStatus flag).link = e.link := rfl

@[simp] theorem link_clearStatus : (e.clearStatus flag).link = e.link := rfl

@[simp] theorem link_raiseValidity : (e.raiseValidity flag).link = e.link := by
  unfold raiseValidity
  split
  · rfl
  · split <;> rfl

@[simp] theorem link_received (nTx : Nat) (nFile : Int) :
    (e.receivedBlockTransactions nTx nFile).link = e.link :=
  link_raiseValidity

/-- `ConnectBlock` leaves the place. -/
theorem link_connectBlock : (e.connectBlock env a).1.link = e.link := by
  have hkeeps : ConnectKeeps a fun e' => e'.link = e.link := by
    constructor
    · exact fun _ he => he
    · intro e' he
      rw [link_received, link_clearStatus, he]
    · exact fun _ he => he
    · exact fun _ he => he
    · intro e' he
      rw [link_raiseValidity, he]
  exact hkeeps.connectBlock rfl

end CBlockIndex

namespace BlockTree

/-- The place of a block in the tree. -/
def link (t : BlockTree) (hash : Uint256) : Option (Option Uint256 × Int) :=
  (t.find hash).map CBlockIndex.link

variable {t : BlockTree} {hash : Uint256}

theorem link_set {e e' : CBlockIndex} (he : t.find hash = some e) (hlink : e'.link = e.link) :
    (t.set hash e').link = t.link := by
  funext id
  unfold link
  rw [find_set]
  split
  · rename_i hid
    rw [hid, he, Option.map_some, Option.map_some, hlink]
  · rfl

theorem link_modify {f : CBlockIndex → CBlockIndex} (hf : ∀ e, (f e).link = e.link) :
    (t.modify hash f).link = t.link := by
  unfold modify
  split
  · rename_i e he
    exact link_set he (hf e)
  · rfl

theorem link_connectBlock (env : ChainEnv) (a : ConnectArgs) :
    (t.connectBlock env a).1.link = t.link := by
  unfold connectBlock
  split
  · rfl
  · rename_i e he
    exact link_set he CBlockIndex.link_connectBlock

theorem link_eq_some {p : Option Uint256} {n : Int} (h : t.link hash = some (p, n)) :
    ∃ e, t.find hash = some e ∧ e.pprev = p ∧ e.nHeight = n := by
  obtain ⟨e, he, hlink⟩ := Option.map_eq_some_iff.1 h
  cases hlink
  exact ⟨e, he, rfl, rfl⟩

theorem link_of_find {e : CBlockIndex} (h : t.find hash = some e) :
    t.link hash = some (e.pprev, e.nHeight) := by
  unfold link
  rw [h]
  rfl

end BlockTree

/-! ## The chain as a path -/

namespace CChain

variable {t t' : BlockTree} {c u : CChain} {hash p : Uint256} {n : Int}

/-- Heights count the steps from a root, and the chain is a path from a root. -/
structure Linked (t : BlockTree) (vChain : CChain) : Prop where
  /-- A block without predecessor has height 0. -/
  root : ∀ hash n, t.link hash = some (none, n) → n = 0
  /-- A predecessor is in the tree, one lower. -/
  parent : ∀ hash p n, t.link hash = some (some p, n) → ∃ q, t.link p = some (q, n - 1)
  /-- Each block of the chain is at its height, above the one before it. -/
  active : ∀ (i : Nat) x, vChain[i]? = some x →
    ∃ hash, x = some hash ∧ t.link hash = some (tip (vChain.take i), (i : Int))

theorem Linked.congr (h : Linked t c) (hlink : t'.link = t.link) : Linked t' c where
  root := hlink ▸ h.root
  parent := hlink ▸ h.parent
  active := hlink ▸ h.active

@[simp] theorem tip_append (u : CChain) (x : Option Uint256) : tip (u ++ [x]) = x := by
  unfold tip
  rw [List.getLast?_concat, Option.join_some]

/-- A chain with a tip ends in it. -/
theorem eq_append_of_tip (h : c.tip = some hash) : ∃ u, c = u ++ [some hash] := by
  obtain ⟨x, hx, hjoin⟩ : ∃ x, c.getLast? = some x ∧ x = some hash := by
    unfold tip at h
    exact ⟨some hash, Option.join_eq_some_iff.1 h, rfl⟩
  rw [hjoin] at hx
  exact ⟨c.dropLast, (List.dropLast_append_getLast? _ hx).symm⟩

theorem Linked.tip_link (h : Linked t (u ++ [some hash])) :
    t.link hash = some (tip u, (u.length : Int)) := by
  obtain ⟨hash', hx, hlink⟩ := h.active u.length (some hash) (by simp)
  cases hx
  rwa [List.take_left] at hlink

theorem Linked.of_append (h : Linked t (c ++ u)) : Linked t c where
  root := h.root
  parent := h.parent
  active := by
    intro i x hx
    have hi : i < c.length := (List.getElem?_eq_some_iff.1 hx).1
    obtain ⟨hash, hsome, hlink⟩ := h.active i x (by rw [List.getElem?_append_left hi, hx])
    rw [List.take_append_of_le_length hi.le] at hlink
    exact ⟨hash, hsome, hlink⟩

/-- Only the empty chain has no tip. -/
theorem Linked.eq_nil (h : Linked t c) (htip : c.tip = none) : c = [] := by
  rcases List.eq_nil_or_concat c with rfl | ⟨u, x, rfl⟩
  · rfl
  · rw [List.concat_eq_append] at h htip
    obtain ⟨hash, hx, -⟩ := h.active u.length x (by simp)
    rw [tip_append, hx] at htip
    cases htip

/-- A block above the tip has the next height. -/
theorem Linked.height_above (h : Linked t c) (hlink : t.link hash = some (c.tip, n)) :
    n = c.length := by
  cases htip : c.tip with
  | none =>
    rw [htip] at hlink
    rw [h.eq_nil htip]
    exact h.root hash n hlink
  | some p =>
    obtain ⟨u, rfl⟩ := eq_append_of_tip htip
    rw [htip] at hlink
    obtain ⟨q, hq⟩ := h.parent hash p n hlink
    rw [h.tip_link] at hq
    have hprev : (u.length : Int) = n - 1 := congrArg Prod.snd (Option.some.inj hq)
    rw [List.length_append, List.length_singleton]
    omega

/-- The walk stops at a block that is in its place. -/
theorem walkBack_of_mem {vChain : CChain} {q : Option Uint256} {fuel : Nat}
    (hlink : t.link hash = some (q, n)) (hmem : vChain[n.toNat]?.join = some hash) :
    walkBack t fuel vChain hash = vChain := by
  obtain ⟨e, he, -, rfl⟩ := BlockTree.link_eq_some hlink
  cases fuel with
  | zero => rfl
  | succ fuel =>
    unfold walkBack
    rw [he]
    exact if_pos hmem

/-- Moving the tip to its predecessor takes it off. -/
theorem Linked.setTip_pop (h : Linked t (c ++ [some hash])) (hp : c.tip = some p) :
    (c ++ [some hash]).setTip t p = c := by
  obtain ⟨u, rfl⟩ := eq_append_of_tip hp
  have hlink := h.of_append.tip_link
  obtain ⟨e, he, -, hn⟩ := BlockTree.link_eq_some hlink
  have hresize : resize (u ++ [some p] ++ [some hash]) (e.nHeight + 1).toNat = u ++ [some p] := by
    have hlen : (e.nHeight + 1).toNat = (u ++ [some p]).length := by
      rw [hn, List.length_append, List.length_singleton]
      rfl
    have hle : (u ++ [some p]).length ≤ (u ++ [some p] ++ [some hash]).length :=
      (List.sublist_append_left _ _).length_le
    unfold resize
    rw [hlen, List.take_left, Nat.sub_eq_zero_of_le hle, List.replicate_zero, List.append_nil]
  unfold setTip
  rw [he]
  dsimp only
  rw [hresize]
  exact walkBack_of_mem hlink (by simp)

/-- Moving the tip to a block above it puts that block on. -/
theorem Linked.setTip_push (h : Linked t c) (hlink : t.link hash = some (c.tip, n)) :
    c.setTip t hash = c ++ [some hash] := by
  have hn := h.height_above hlink
  obtain ⟨e, he, hprev, hheight⟩ := BlockTree.link_eq_some hlink
  have hlen : e.nHeight.toNat = c.length := by
    rw [hheight, hn]
    rfl
  have hresize : resize c (e.nHeight + 1).toNat = c ++ [none] := by
    have hsucc : (e.nHeight + 1).toNat = c.length + 1 := by omega
    unfold resize
    rw [hsucc, List.take_of_length_le (Nat.le_succ _), Nat.add_sub_cancel_left, List.replicate_one]
  have hset : (c ++ [none]).set c.length (some hash) = c ++ [some hash] := by
    rw [List.set_append_right _ _ le_rfl, Nat.sub_self, List.set_cons_zero]
  unfold setTip
  rw [he]
  dsimp only
  rw [hresize, hlen]
  unfold walkBack
  rw [he]
  dsimp only
  rw [hlen, hset, if_neg (by simp), hprev]
  cases htip : c.tip with
  | none => rfl
  | some p =>
    obtain ⟨u, rfl⟩ := eq_append_of_tip htip
    exact walkBack_of_mem h.tip_link (by simp)

theorem Linked.push (h : Linked t c) (hlink : t.link hash = some (c.tip, n)) :
    Linked t (c ++ [some hash]) where
  root := h.root
  parent := h.parent
  active := by
    intro i x hx
    by_cases hi : i < c.length
    · rw [List.getElem?_append_left hi] at hx
      rw [List.take_append_of_le_length hi.le]
      exact h.active i x hx
    · rw [List.getElem?_append_right (by omega)] at hx
      obtain ⟨hzero, hsome⟩ := List.getElem?_eq_some_iff.1 hx
      have hi : i = c.length := by
        rw [List.length_singleton] at hzero
        omega
      subst hi
      refine ⟨hash, by simpa using hsome.symm, ?_⟩
      rw [List.take_left, hlink, h.height_above hlink]

end CChain

/-! ## What one call does -/

namespace ChainState

variable {env : TipEnv} {s s' : ChainState} {pindexNew : Uint256}

/-- The state after the active chain has moved. -/
def moved (s : ChainState) (c : CChain) : ChainState :=
  { s with chainActive := c, past := s.chainActive :: s.past }

theorem updateTip_some (s : ChainState) (hash : Uint256) :
    s.updateTip (some hash) = some (s.moved (s.chainActive.setTip s.tree hash)) := rfl

/-- `DisconnectTip` fails without a change, or takes off a tip that is not the
notarized block. -/
theorem disconnectTip_cases {b : Bool} (hlinked : s.chainActive.Linked s.tree)
    (h : s.disconnectTip env = some (b, s')) :
    (b = false ∧ s' = s.called) ∨
      (b = true ∧ ∃ u hash p, s.chainActive = u ++ [some hash] ∧ u.tip = some p ∧
        hash ≠ env.notarizedHash ∧ s' = s.called.moved u) := by
  unfold disconnectTip at h
  cases htip : s.tip with
  | none =>
    rw [htip] at h
    cases h
  | some pindexDelete =>
    rw [htip] at h
    dsimp only at h
    split at h
    · cases h
      exact Or.inl ⟨rfl, rfl⟩
    · split at h
      · cases h
        exact Or.inl ⟨rfl, rfl⟩
      · rename_i hne
        split at h
        · cases h
          exact Or.inl ⟨rfl, rfl⟩
        · obtain ⟨u, hu⟩ := CChain.eq_append_of_tip htip
          rw [hu] at hlinked
          obtain ⟨e, he, hprev, -⟩ := BlockTree.link_eq_some hlinked.tip_link
          have hfind : (s.called.tree.find pindexDelete).bind CBlockIndex.pprev = u.tip := by
            have htree : s.called.tree = s.tree := rfl
            rw [htree, he, Option.bind_some, hprev]
          rw [hfind] at h
          cases hp : u.tip with
          | none =>
            rw [hp] at h
            cases h
          | some p =>
            have hset : s.called.chainActive.setTip s.called.tree p = u := by
              have hchain : s.called.chainActive = u ++ [some pindexDelete] := hu
              rw [hchain]
              exact hlinked.setTip_pop hp
            rw [hp, updateTip_some, hset] at h
            cases h
            exact Or.inr ⟨rfl, u, pindexDelete, p, hu, hp, hne, rfl⟩

/-- The state with the entry changed by `ConnectBlock`. -/
def blockConnected (env : TipEnv) (s : ChainState) (pindexNew : Uint256) : ChainState :=
  { s.called with tree := (s.tree.connectBlock env.toChainEnv
      { (env.verdict s.calls).connectBlock with hash := pindexNew }).1 }

@[simp] theorem link_blockConnected :
    (s.blockConnected env pindexNew).tree.link = s.tree.link :=
  BlockTree.link_connectBlock _ _

/-- `ConnectTip` reads nothing, or `ConnectBlock` changes the entry of the block; then
it stops, or finds the block invalid, or puts it on. -/
theorem connectTip_cases {r : TipResult} (hlinked : s.chainActive.Linked s.tree)
    (h : s.connectTip env pindexNew = some (r, s')) :
    (r = .error ∧ s' = s.called) ∨
      (r = .error ∧ s' = s.blockConnected env pindexNew) ∨
      (r = .invalid ∧ ∃ corruptionPossible,
        s' = (s.blockConnected env pindexNew).invalidBlockFound pindexNew corruptionPossible) ∨
      (r = .connected ∧ ∃ n, s.tree.link pindexNew = some (s.chainActive.tip, n) ∧
        s' = (s.blockConnected env pindexNew).moved (s.chainActive ++ [some pindexNew])) := by
  unfold connectTip at h
  cases he : s.tree.find pindexNew with
  | none =>
    rw [he] at h
    cases h
  | some e =>
    rw [he] at h
    dsimp only at h
    split at h
    · cases h
    · rename_i hprev
      rw [Decidable.not_not] at hprev
      split at h
      · cases h
        exact Or.inl ⟨rfl, rfl⟩
      · split at h
        · split at h
          · cases h
            exact Or.inr (Or.inr (Or.inl ⟨rfl, _, rfl⟩))
          · cases h
            exact Or.inr (Or.inl ⟨rfl, rfl⟩)
        · split at h
          · cases h
            exact Or.inr (Or.inl ⟨rfl, rfl⟩)
          · have hlink : s.tree.link pindexNew = some (s.chainActive.tip, e.nHeight) := by
              rw [BlockTree.link_of_find he, hprev]
              rfl
            have hset : s.chainActive.setTip (s.blockConnected env pindexNew).tree pindexNew =
                s.chainActive ++ [some pindexNew] := by
              have hnew : (s.blockConnected env pindexNew).tree.link pindexNew =
                  some (s.chainActive.tip, e.nHeight) := by
                rw [link_blockConnected, hlink]
              exact (hlinked.congr link_blockConnected).setTip_push hnew
            rw [updateTip_some] at h
            cases h
            refine Or.inr (Or.inr (Or.inr ⟨rfl, e.nHeight, hlink, ?_⟩))
            rw [← hset]
            rfl

end ChainState

/-! ## The notarized block -/

variable {env : TipEnv}

variable (env) in
/-- The notarized block is in the chain, at its height. -/
def CChain.HasNotarized (c : CChain) : Prop :=
  c.atHeight env.notarizedHeight = some env.notarizedHash

theorem CChain.HasNotarized.push {c : CChain} (h : c.HasNotarized env) (x : Option Uint256) :
    (c ++ [x]).HasNotarized env := by
  unfold HasNotarized atHeight at h ⊢
  split at h
  · cases h
  · rename_i hnonneg
    have hlt : env.notarizedHeight.toNat < c.length :=
      (List.getElem?_eq_some_iff.1 (Option.join_eq_some_iff.1 h)).1
    rw [if_neg hnonneg, List.getElem?_append_left hlt, h]

/-- Another block than the notarized one can be taken off. -/
theorem CChain.HasNotarized.pop {c : CChain} {hash : Uint256}
    (h : (c ++ [some hash]).HasNotarized env) (hne : hash ≠ env.notarizedHash) :
    c.HasNotarized env := by
  unfold HasNotarized atHeight at h ⊢
  split at h
  · cases h
  · rename_i hnonneg
    rw [if_neg hnonneg]
    by_cases hlt : env.notarizedHeight.toNat < c.length
    · rwa [List.getElem?_append_left hlt] at h
    · rw [List.getElem?_append_right (by omega)] at h
      have hlast := List.mem_of_getElem? (Option.join_eq_some_iff.1 h)
      rw [List.mem_singleton] at hlast
      exact absurd (Option.some.inj hlast).symm hne

namespace ChainState

variable {s s' : ChainState} {hash : Uint256}

variable (env) in
/-- The active chain is a path of the tree, and has always had the notarized block. -/
structure Kept (s : ChainState) : Prop where
  /-- The active chain is a path of the tree. -/
  linked : s.chainActive.Linked s.tree
  /-- It has the notarized block, and so have its earlier values. -/
  notarized : ∀ c ∈ s.chainActive :: s.past, c.HasNotarized env

/-- Only the places in the tree and the chains count. -/
theorem Kept.congr (h : s.Kept env) (hlink : s'.tree.link = s.tree.link)
    (hchain : s'.chainActive = s.chainActive) (hpast : s'.past = s.past) : s'.Kept env where
  linked := hchain ▸ h.linked.congr hlink
  notarized := hchain ▸ hpast ▸ h.notarized

/-- Marking a block and taking it out of the candidates. -/
theorem Kept.marked (h : s.Kept env) (hash : Uint256) (flag : BlockStatus) :
    ((s.modify hash fun e => e.orStatus flag).eraseCandidate hash).Kept env :=
  h.congr (BlockTree.link_modify fun _ => rfl) rfl rfl

theorem Kept.moved (h : s.Kept env) {c : CChain} (hlinked : c.Linked s.tree)
    (hnotarized : c.HasNotarized env) : (s.moved c).Kept env where
  linked := hlinked
  notarized := by
    intro c' hc'
    rcases List.mem_cons.1 hc' with rfl | hc'
    · exact hnotarized
    · exact h.notarized c' hc'

theorem Kept.chain (h : s.Kept env) : s.chainActive.HasNotarized env :=
  h.notarized s.chainActive List.mem_cons_self

/-! ## One step -/

theorem Kept.disconnectTip {b : Bool} (h : s.Kept env)
    (hstep : s.disconnectTip env = some (b, s')) : s'.Kept env := by
  have hcalled : s.called.Kept env := h.congr rfl rfl rfl
  obtain ⟨-, rfl⟩ | ⟨-, u, hash, p, hu, hp, hne, rfl⟩ := disconnectTip_cases h.linked hstep
  · exact hcalled
  · have hlinked := h.linked
    have hnotarized := h.chain
    rw [hu] at hlinked hnotarized
    exact hcalled.moved hlinked.of_append (hnotarized.pop hne)

theorem Kept.blockConnected (h : s.Kept env) (pindexNew : Uint256) :
    (s.blockConnected env pindexNew).Kept env :=
  h.congr link_blockConnected rfl rfl

theorem Kept.connectTip {r : TipResult} (h : s.Kept env)
    (hstep : s.connectTip env hash = some (r, s')) : s'.Kept env := by
  have hblock := h.blockConnected hash
  obtain ⟨-, rfl⟩ | ⟨-, rfl⟩ | ⟨-, corruptionPossible, rfl⟩ | ⟨-, n, hlink, rfl⟩ :=
    connectTip_cases h.linked hstep
  · exact h.congr rfl rfl rfl
  · exact hblock
  · unfold invalidBlockFound
    split
    · exact hblock
    · exact hblock.marked hash _
  · refine hblock.moved (h.linked.push hlink |>.congr link_blockConnected) ?_
    exact h.chain.push _

/-! ## The loops -/

theorem Kept.disconnectThrough {pindex : Uint256} {fuel : Nat} {b : Bool} (h : s.Kept env)
    (hstep : s.disconnectThrough env pindex fuel = some (b, s')) : s'.Kept env := by
  induction fuel generalizing s with
  | zero =>
    cases hstep
    exact h
  | succ fuel ih =>
    unfold ChainState.disconnectThrough at hstep
    split at hstep
    · split at hstep
      · cases hstep
      · rename_i pindexWalk _
        have hmarked := h.marked pindexWalk BlockStatus.failedChild
        dsimp only at hstep
        split at hstep
        · cases hstep
        · rename_i hdisconnect
          cases hstep
          exact hmarked.disconnectTip hdisconnect
        · rename_i hdisconnect
          exact ih (hmarked.disconnectTip hdisconnect) hstep
    · cases hstep
      exact h

theorem Kept.invalidateBlock {b : Bool} (h : s.Kept env)
    (hstep : s.invalidateBlock env hash = some (b, s')) : s'.Kept env := by
  have hmarked := h.marked hash BlockStatus.failedValid
  unfold ChainState.invalidateBlock at hstep
  dsimp only at hstep
  split at hstep
  · cases hstep
  · rename_i hloop
    cases hstep
    exact hmarked.disconnectThrough hloop
  · rename_i hloop
    cases hstep
    exact (hmarked.disconnectThrough hloop).congr rfl rfl rfl

theorem Kept.disconnectToFork {pindexFork : Option Uint256} {fuel : Nat} {b : Bool}
    (h : s.Kept env) (hstep : s.disconnectToFork env pindexFork fuel = some (b, s')) :
    s'.Kept env := by
  induction fuel generalizing s with
  | zero =>
    cases hstep
    exact h
  | succ fuel ih =>
    unfold ChainState.disconnectToFork at hstep
    split at hstep
    · split at hstep
      · cases hstep
      · rename_i hdisconnect
        cases hstep
        exact h.disconnectTip hdisconnect
      · rename_i hdisconnect
        exact ih (h.disconnectTip hdisconnect) hstep
    · cases hstep
      exact h

/-- Rewinding keeps the notarized block. -/
theorem Kept.rewindTips {fuel : Nat} (h : s.Kept env)
    (hstep : s.rewindTips env fuel = some s') : s'.Kept env := by
  induction fuel generalizing s with
  | zero =>
    cases hstep
    exact h
  | succ fuel ih =>
    unfold ChainState.rewindTips at hstep
    split at hstep
    · cases hstep
      exact h
    · split at hstep
      · split at hstep
        · cases hstep
        · rename_i hinvalidate
          have hkept := h.invalidateBlock hinvalidate
          split at hstep
          · cases hstep
          · rename_i hdisconnect
            cases hstep
            exact hkept.disconnectTip hdisconnect
          · rename_i hdisconnect
            exact ih (hkept.disconnectTip hdisconnect) hstep
      · cases hstep
        exact h

theorem Kept.rewindStart (h : s.Kept env) (hstep : s.rewindStart env = some s') :
    s'.Kept env := by
  unfold ChainState.rewindStart at hstep
  split at hstep
  · cases hstep
    exact h
  · split at hstep
    · cases hstep
    · obtain ⟨s₁, hrewind, rfl⟩ := Option.map_eq_some_iff.1 hstep
      exact (h.rewindTips hrewind).congr rfl rfl rfl

theorem Kept.connectNew {pindexOldTip : Option Uint256} {blocks : List Uint256}
    {flow : ConnectFlow} (h : s.Kept env)
    (hstep : s.connectNew env pindexOldTip blocks = some (flow, s')) : s'.Kept env := by
  induction blocks generalizing s with
  | nil =>
    cases hstep
    exact h
  | cons pindexConnect rest ih =>
    unfold ChainState.connectNew at hstep
    split at hstep
    · cases hstep
    · rename_i hconnect
      cases hstep
      exact h.connectTip hconnect
    · rename_i hconnect
      cases hstep
      exact h.connectTip hconnect
    · rename_i s₁ hconnect
      have hpruned : (s₁.pruneBlockIndexCandidates env).Kept env :=
        (h.connectTip hconnect).congr rfl rfl rfl
      dsimp only at hstep
      split at hstep
      · cases hstep
        exact hpruned
      · exact ih hpruned hstep

theorem Kept.connectChunks {pindexOldTip : Option Uint256} {pindexMostWork : Uint256}
    {fuel : Nat} {nHeight : Int} {b : Bool} (h : s.Kept env)
    (hstep : s.connectChunks env pindexOldTip pindexMostWork fuel nHeight = some (b, s')) :
    s'.Kept env := by
  induction fuel generalizing s nHeight with
  | zero =>
    cases hstep
    exact h
  | succ fuel ih =>
    unfold ChainState.connectChunks at hstep
    split at hstep
    · cases hstep
      exact h
    · dsimp only at hstep
      split at hstep
      · cases hstep
      · rename_i hconnect
        exact ih (h.connectNew hconnect) hstep
      · rename_i hconnect
        cases hstep
        exact h.connectNew hconnect
      · rename_i hconnect
        cases hstep
        exact h.connectNew hconnect

/-- The tip goes down to the fork and up again. -/
theorem Kept.activateBestChainStep {fSkipdpow b : Bool} {pindexMostWork : Uint256}
    (h : s.Kept env)
    (hstep : s.activateBestChainStep env fSkipdpow pindexMostWork = some (b, s')) :
    s'.Kept env := by
  unfold ChainState.activateBestChainStep at hstep
  dsimp only at hstep
  split at hstep
  · cases hstep
    exact h
  · split at hstep
    · obtain ⟨-, -, hsame⟩ := Option.map_eq_some_iff.1 hstep
      cases hsame
      exact h
    · split at hstep
      · cases hstep
      · rename_i hfork
        cases hstep
        exact h.disconnectToFork hfork
      · rename_i hfork
        have hkept := h.disconnectToFork hfork
        split at hstep
        · cases hstep
        · rename_i hrewind
          have hkept := hkept.rewindStart hrewind
          split at hstep
          · cases hstep
          · rename_i hchunks
            cases hstep
            exact hkept.connectChunks hchunks
          · rename_i hchunks
            obtain ⟨-, -, hsame⟩ := Option.map_eq_some_iff.1 hstep
            cases hsame
            exact hkept.connectChunks hchunks

end ChainState

/-! ## Runs -/

/-- The steps that move the active chain. -/
inductive ActiveStep where
  | activateBestChainStep (fSkipdpow : Bool) (pindexMostWork : Uint256)
  | invalidateBlock (pindex : Uint256)
  deriving DecidableEq, Repr

namespace ChainState

variable {s s' : ChainState}

/-- The state after one step, whatever it returns. -/
def activeStep (env : TipEnv) (s : ChainState) : ActiveStep → Option ChainState
  | .activateBestChainStep fSkipdpow pindexMostWork =>
    (s.activateBestChainStep env fSkipdpow pindexMostWork).map Prod.snd
  | .invalidateBlock pindex => (s.invalidateBlock env pindex).map Prod.snd

/-- The state after a list of steps. -/
def activeRun (env : TipEnv) : List ActiveStep → ChainState → Option ChainState
  | [], s => some s
  | step :: steps, s => (s.activeStep env step).bind (activeRun env steps)

theorem Kept.activeStep {step : ActiveStep} (h : s.Kept env)
    (hstep : s.activeStep env step = some s') : s'.Kept env := by
  cases step with
  | activateBestChainStep fSkipdpow pindexMostWork =>
    obtain ⟨⟨b, s₁⟩, hresult, rfl⟩ := Option.map_eq_some_iff.1 hstep
    exact h.activateBestChainStep hresult
  | invalidateBlock pindex =>
    obtain ⟨⟨b, s₁⟩, hresult, rfl⟩ := Option.map_eq_some_iff.1 hstep
    exact h.invalidateBlock hresult

theorem Kept.activeRun {steps : List ActiveStep} (h : s.Kept env)
    (hrun : s.activeRun env steps = some s') : s'.Kept env := by
  induction steps generalizing s with
  | nil =>
    cases hrun
    exact h
  | cons step steps ih =>
    obtain ⟨s₁, hstep, hrest⟩ := Option.bind_eq_some_iff.1 hrun
    exact ih (h.activeStep hstep) hrest

/-- No run takes the notarized block off the active chain once it is there: every value
the chain has during the run has it at its height. -/
theorem notarized_stays (env : TipEnv) (s s' : ChainState) (steps : List ActiveStep)
    (hlinked : s.chainActive.Linked s.tree) (hin : s.chainActive.HasNotarized env)
    (hfresh : s.past = []) (hrun : s.activeRun env steps = some s') :
    ∀ c ∈ s'.chainActive :: s'.past, c.HasNotarized env := by
  have hkept : s.Kept env := by
    refine ⟨hlinked, ?_⟩
    rw [hfresh]
    intro c hc
    rwa [List.mem_singleton.1 hc]
  exact (hkept.activeRun hrun).notarized

end ChainState

/-! ## A fork below the notarized block -/

namespace ForkBelow

/-- A chain 1, 2, 3 and a longer one that leaves it above 1. -/
def blocks : List (Uint256 × CBlockIndex) :=
  [(1, {}), (2, { pprev := some 1, nHeight := 1 }), (3, { pprev := some 2, nHeight := 2 }),
    (4, { pprev := some 1, nHeight := 1 }), (5, { pprev := some 4, nHeight := 2 }),
    (6, { pprev := some 5, nHeight := 3 })]

/-- Block 2 is notarized. -/
def fixed : TipEnv where
  hashGenesisBlock := 1
  assetchainsCC := true
  notarizedHeight := 1
  notarizedHash := 2
  maxReorgLength := 99
  addr := BitVec.toNat
  addr_injective := BitVec.toNat_injective
  verdict := fun _ => {}

/-- The first chain is active. -/
def state : ChainState where
  tree := { mapBlockIndex := fun hash => (blocks.lookup hash).map some }
  chainActive := [some 1, some 2, some 3]
  chainWork := BitVec.toNat

theorem link_mem {hash : Uint256} {x : Option Uint256 × Int}
    (h : state.tree.link hash = some x) : (hash, x) ∈ blocks.map fun b => (b.1, b.2.link) := by
  obtain ⟨e, he, rfl⟩ := Option.map_eq_some_iff.1 h
  have hlookup : blocks.lookup hash = some e := by
    have hjoin : (blocks.lookup hash).map some = some (some e) := Option.join_eq_some_iff.1 he
    obtain ⟨e', hlookup, heq⟩ := Option.map_eq_some_iff.1 hjoin
    rwa [Option.some.inj heq] at hlookup
  obtain ⟨before, after, hsplit, -⟩ := List.lookup_eq_some_iff.1 hlookup
  rw [hsplit, List.map_append, List.map_cons]
  exact List.mem_append_right _ List.mem_cons_self

theorem parents : ∀ x ∈ blocks.map fun b => (b.1, b.2.link), (x.2.1.elim (x.2.2 == 0) fun p =>
    (state.tree.link p).map Prod.snd == some (x.2.2 - 1)) = true := by
  decide +kernel

theorem linked : state.chainActive.Linked state.tree where
  root _ _ h := beq_iff_eq.1 (parents _ (link_mem h))
  parent := by
    intro hash p n h
    obtain ⟨⟨q, m⟩, hlink, hheight⟩ := Option.map_eq_some_iff.1
      (beq_iff_eq.1 (parents _ (link_mem h)))
    cases hheight
    exact ⟨q, hlink⟩
  active
    | 0, _, rfl => ⟨1, rfl, by decide +kernel⟩
    | 1, _, rfl => ⟨2, rfl, by decide +kernel⟩
    | 2, _, rfl => ⟨3, rfl, by decide +kernel⟩
    | _ + 3, _, h => by cases h

/-- Activate the longer chain as if nothing was notarized, then invalidate the
notarized block. -/
def steps : List ActiveStep :=
  [.activateBestChainStep false 6, .activateBestChainStep true 6, .invalidateBlock 2]

theorem isSome_run : (state.activeRun fixed steps).isSome = true := by decide +kernel

/-- The tip goes down to the notarized block and no further. -/
theorem stops_at_notarized :
    ((state.activeRun fixed steps).get isSome_run).chainActive = [some 1, some 2] ∧
      ∀ c ∈ ((state.activeRun fixed steps).get isSome_run).chainActive ::
        ((state.activeRun fixed steps).get isSome_run).past, c.HasNotarized fixed :=
  ⟨by decide +kernel, ChainState.notarized_stays fixed state _ steps linked
    (by unfold CChain.HasNotarized; decide +kernel) rfl (Option.some_get isSome_run).symm⟩

end ForkBelow

end IndexChain.Chain
