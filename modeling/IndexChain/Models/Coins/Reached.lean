import IndexChain.Models.Coins.Disconnect

/-!
# Views reached by connecting blocks

A view is reached from the empty database by connecting blocks and by layering
caches, as `ConnectTip` does. `ChainInv` is what every reached view satisfies;
with it, `DisconnectBlock` turns the state after a block back into the state
before it. The Sapling anchor is the delicate part: `DisconnectBlock` does not
read it from the undo data but recomputes it from the previous block's header,
which is right as long as no Sapling output was connected before the upgrade.
-/

namespace IndexChain

open IndexChain.Core

/-- `CCoinsViewDB` before anything is written to it. -/
def emptyDB (P : TreeHashes) : CCoinsView where
  getCoins _ := none
  getNullifier _ _ := false
  getAnchorAt ty rt := if rt = P.emptyRoot ty then some {} else none
  getBestAnchor ty := P.emptyRoot ty
  getBestBlock := 0

/-- The views reached by connecting blocks that `admits` allows at their height. -/
inductive Reached (env : ConnectEnv) (admits : CBlock → Nat → Prop) :
    CCoinsView → CCoinsViewCache → Option CBlockIndex → Prop
  | start : Reached env admits (emptyDB env.trees) {} none
  | layer {base c tip} : Reached env admits base c tip → Reached env admits (c.view base) {} tip
  | connect {base c tip block c' undo} : Reached env admits base c tip →
      env.connectBlock base block tip c = some (c', undo) →
      admits block (CBlockIndex.ofBlock block tip).nHeight →
      Reached env admits base c' (some (CBlockIndex.ofBlock block tip))

/-- A block carries Sapling outputs only once Sapling is active. -/
def SaplingInOrder (env : ConnectEnv) (block : CBlock) (nHeight : Nat) : Prop :=
  networkUpgradeActive nHeight env.params.saplingHeight = false →
    ∀ tx ∈ block.vtx, tx.vShieldedOutput = []

/-- The contextual checks reject early Sapling outputs. -/
theorem saplingInOrder_of_contextualCheckBlock {env : ConnectEnv} {block : CBlock} {nHeight : Nat}
    (h : env.contextualCheckBlock block nHeight = true) : SaplingInOrder env block nHeight := by
  intro hsap tx htx
  have hv := List.all_eq_true.1 h tx htx
  rw [Bool.and_eq_true] at hv
  have hver := hv.1
  rcases tx.saplingFormat with ⟨hov, hgroup, hversion⟩ | hnone
  · -- the Sapling format is not yet valid
    exfalso
    unfold contextualCheckVersion at hver
    rw [hsap] at hver
    cases hact : networkUpgradeActive nHeight env.params.overwinterHeight with
    | false => simp [hact, hov] at hver
    | true =>
      simp only [hact, hov, hgroup, hversion, saplingTxVersion] at hver
      exact absurd hver (by decide)
  · exact hnone.2

/-! ## Anchors -/

namespace CCoinsViewCache

variable {base : CCoinsView} {P : TreeHashes}

variable (base P) in
/-- Every anchor is stored under its root, and the best anchors can be found. -/
structure AnchorsOk (c : CCoinsViewCache) : Prop where
  /-- The base's anchors have the right root. -/
  baseRoot : ∀ ty rt t, base.getAnchorAt ty rt = some t → P.root ty t = rt
  /-- The base's best anchor can be found. -/
  baseBest : ∀ ty, (base.getAnchorAt ty (base.getBestAnchor ty)).isSome = true
  /-- Cached anchors are present, with the right root. -/
  cached : ∀ ty rt e, c.cacheAnchors ty rt = some e → e.entered = true ∧ P.root ty e.tree = rt
  /-- The cache's own best anchor can be found. -/
  best : ∀ ty, c.hashAnchor ty ≠ 0 →
    ((c.view base).getAnchorAt ty (c.hashAnchor ty)).isSome = true

/-- Adding a cached anchor loses none. -/
theorem AnchorsOk.isSome_getAnchorAt {c : CCoinsViewCache} (h : c.AnchorsOk base P)
    {ty : ShieldedType} {rt : Uint256} (hb : (base.getAnchorAt ty rt).isSome = true) :
    ((c.view base).getAnchorAt ty rt).isSome = true := by
  unfold view
  dsimp only
  cases he : c.cacheAnchors ty rt with
  | none => exact hb
  | some e => simp [(h.cached ty rt e he).1]

/-- The best anchor of a view can be found. -/
theorem AnchorsOk.bestAnchor {c : CCoinsViewCache} (h : c.AnchorsOk base P) (ty : ShieldedType) :
    ((c.view base).getAnchorAt ty ((c.view base).getBestAnchor ty)).isSome = true := by
  by_cases hz : c.hashAnchor ty = 0
  · have hbest : (c.view base).getBestAnchor ty = base.getBestAnchor ty := if_pos hz
    rw [hbest]
    exact h.isSome_getAnchorAt (h.baseBest ty)
  · have hbest : (c.view base).getBestAnchor ty = c.hashAnchor ty := if_neg hz
    rw [hbest]
    exact h.best ty hz

/-- Anchors found in a view have the right root. -/
theorem AnchorsOk.root {c : CCoinsViewCache} (h : c.AnchorsOk base P) {ty : ShieldedType}
    {rt : Uint256} {t : MerkleTree} (ht : (c.view base).getAnchorAt ty rt = some t) :
    P.root ty t = rt := by
  unfold view at ht
  dsimp only at ht
  cases he : c.cacheAnchors ty rt with
  | none =>
    rw [he] at ht
    exact h.baseRoot ty rt t ht
  | some e =>
    obtain ⟨hen, hroot⟩ := h.cached ty rt e he
    simp only [he, hen, if_true, Option.some.injEq] at ht
    rw [← ht]
    exact hroot

theorem AnchorsOk.layer {c : CCoinsViewCache} (h : c.AnchorsOk base P) :
    AnchorsOk (c.view base) P {} where
  baseRoot := fun _ _ _ ht => h.root ht
  baseBest := h.bestAnchor
  cached := by intro ty rt e he; cases he
  best := by intro ty hne; exact absurd rfl hne

@[simp] theorem getBestAnchor_setBestBlock (c : CCoinsViewCache) (hash : Uint256)
    (ty : ShieldedType) :
    ((c.setBestBlock hash).view base).getBestAnchor ty = (c.view base).getBestAnchor ty := rfl

@[simp] theorem hashAnchor_setBestBlock (c : CCoinsViewCache) (hash : Uint256) :
    (c.setBestBlock hash).hashAnchor = c.hashAnchor := rfl

@[simp] theorem cacheCoins_setBestBlock (c : CCoinsViewCache) (hash : Uint256) :
    (c.setBestBlock hash).cacheCoins = c.cacheCoins := rfl

theorem AnchorsOk.setBestBlock {c : CCoinsViewCache} (h : c.AnchorsOk base P) (hash : Uint256) :
    (c.setBestBlock hash).AnchorsOk base P :=
  ⟨h.baseRoot, h.baseBest, h.cached, h.best⟩

theorem AnchorsOk.of_same {c d : CCoinsViewCache} (h : c.AnchorsOk base P) (hf : SameAnchors c d) :
    d.AnchorsOk base P := by
  refine ⟨h.baseRoot, h.baseBest, ?_, ?_⟩
  · rw [hf.cacheAnchors]
    exact h.cached
  · intro ty
    simp only [view, hf.hashAnchor, hf.cacheAnchors]
    exact h.best ty

variable (base P) in
/-- What `pushAnchor` does to the best anchors. -/
theorem hashAnchor_pushAnchor (c : CCoinsViewCache) (ty ty' : ShieldedType) (t : MerkleTree) :
    (c.pushAnchor base P ty t).hashAnchor ty' =
      if ty' = ty ∧ (c.view base).getBestAnchor ty ≠ P.root ty t then P.root ty t
      else c.hashAnchor ty' := by
  unfold pushAnchor
  dsimp only
  by_cases hb : (c.view base).getBestAnchor ty = P.root ty t
  · simp [hb]
  · by_cases hty : ty' = ty
    · subst hty
      simp [hb]
    · simp [hb, hty]

@[simp] theorem cacheCoins_pushAnchor (c : CCoinsViewCache) (ty : ShieldedType) (t : MerkleTree) :
    (c.pushAnchor base P ty t).cacheCoins = c.cacheCoins := by
  unfold pushAnchor
  dsimp only
  split <;> rfl

@[simp] theorem cacheNullifiers_pushAnchor (c : CCoinsViewCache) (ty : ShieldedType)
    (t : MerkleTree) : (c.pushAnchor base P ty t).cacheNullifiers = c.cacheNullifiers := by
  unfold pushAnchor
  dsimp only
  split <;> rfl

/-- A pushed tree is found under its root. -/
theorem AnchorsOk.pushAnchor {c : CCoinsViewCache} (h : c.AnchorsOk base P) (ty : ShieldedType)
    (t : MerkleTree) : (c.pushAnchor base P ty t).AnchorsOk base P := by
  unfold CCoinsViewCache.pushAnchor
  dsimp only
  split
  · exact h
  · refine ⟨h.baseRoot, h.baseBest, ?_, ?_⟩
    · intro ty' rt e he
      by_cases hty : ty' = ty
      · subst hty
        simp only [Function.update_self] at he
        by_cases hrt : rt = P.root ty' t
        · subst hrt
          simp only [Function.update_self, Option.some.injEq] at he
          subst he
          exact ⟨rfl, rfl⟩
        · rw [Function.update_of_ne hrt] at he
          exact h.cached ty' rt e he
      · simp only [Function.update_of_ne hty] at he
        exact h.cached ty' rt e he
    · intro ty' hne
      by_cases hty : ty' = ty
      · subst hty
        simp [view]
      · simp only [Function.update_of_ne hty] at hne ⊢
        have := h.best ty' hne
        simpa only [view, Function.update_of_ne hty] using this

/-- Going back to an earlier best anchor: what it takes, and what it leaves. -/
theorem popAnchor_spec {c : CCoinsViewCache} (rt : Uint256) {ty : ShieldedType}
    (h : ((c.view base).getAnchorAt ty ((c.view base).getBestAnchor ty)).isSome = true) :
    ∃ d, c.popAnchor base rt ty = some d ∧ d.cacheCoins = c.cacheCoins ∧
      d.cacheNullifiers = c.cacheNullifiers ∧ d.hashBlock = c.hashBlock ∧
      (∀ ty', ty' ≠ ty → d.hashAnchor ty' = c.hashAnchor ty' ∧
        d.cacheAnchors ty' = c.cacheAnchors ty') ∧
      (d.view base).getBestAnchor ty =
        if (c.view base).getBestAnchor ty = rt then rt
        else if rt = 0 then base.getBestAnchor ty else rt := by
  unfold popAnchor
  dsimp only
  by_cases hb : (c.view base).getBestAnchor ty = rt
  · rw [if_pos hb, if_pos hb]
    exact ⟨c, rfl, rfl, rfl, rfl, fun _ _ => ⟨rfl, rfl⟩, hb⟩
  · rw [if_neg hb, if_neg hb]
    obtain ⟨tree, ht⟩ := Option.isSome_iff_exists.1 h
    rw [ht]
    refine ⟨_, rfl, rfl, rfl, rfl, fun ty' hty => ?_, ?_⟩
    · exact ⟨Function.update_of_ne hty _ _, Function.update_of_ne hty _ _⟩
    · simp only [view, Function.update_self]

end CCoinsViewCache

/-! ## The invariant -/

/-- The Sapling root that `DisconnectBlock` expects before a block over `tip`. -/
def ConnectEnv.expectedSaplingRoot (env : ConnectEnv) : Option CBlockIndex → Uint256
  | none => env.trees.emptyRoot .sapling
  | some p => env.saplingRootAt p

/-- What holds of every reached view. A null root stands for the base's best anchor,
so the last clause allows for that reading of a null expected root. -/
structure ChainInv (env : ConnectEnv) (base : CCoinsView) (c : CCoinsViewCache)
    (tip : Option CBlockIndex) : Prop where
  /-- The coins are sound. -/
  sound : c.Sound base
  /-- The anchors are sound. -/
  anchors : c.AnchorsOk base env.trees
  /-- The best Sapling anchor is the expected one. -/
  sapling : (c.view base).getBestAnchor .sapling = env.expectedSaplingRoot tip ∨
    (env.expectedSaplingRoot tip = 0 ∧ c.hashAnchor .sapling = 0)

theorem ChainInv.start (env : ConnectEnv) : ChainInv env (emptyDB env.trees) {} none where
  sound := ⟨.empty, (by intro _ _ h; cases h), fun _ => CCoinsViewCache.canonical_empty⟩
  anchors := by
    refine ⟨?_, ?_, (by intro _ _ _ h; cases h), fun _ h => absurd rfl h⟩
    · intro ty rt t ht
      unfold emptyDB at ht
      dsimp only at ht
      split at ht
      · rename_i hrt
        cases ht
        rw [hrt]
        exact env.trees.root_empty ty
      · cases ht
    · intro ty
      simp [emptyDB]
  sapling := Or.inl rfl

/-- A new layer over a sound cache is sound. -/
theorem CCoinsViewCache.Sound.layer {base : CCoinsView} {c : CCoinsViewCache}
    (h : c.Sound base) : ({} : CCoinsViewCache).Sound (c.view base) := by
  have hcan : ∀ txid k, (c.view base).getCoins txid = some k → k.Canonical := by
    intro txid k hk
    have := CCoinsViewCache.getCoins_getD base c txid
    rw [hk, Option.getD_some] at this
    rw [this]
    exact h.canonical txid
  refine ⟨.empty, hcan, fun txid => ?_⟩
  rw [← CCoinsViewCache.getCoins_getD]
  change (((c.view base).getCoins txid).getD {}).Canonical
  cases hk : (c.view base).getCoins txid with
  | none => exact CCoinsViewCache.canonical_empty
  | some k => exact hcan txid k hk

theorem ChainInv.layer {env : ConnectEnv} {base : CCoinsView} {c : CCoinsViewCache}
    {tip : Option CBlockIndex} (h : ChainInv env base c tip) :
    ChainInv env (c.view base) {} tip where
  sound := h.sound.layer
  anchors := h.anchors.layer
  sapling := by
    rcases h.sapling with hs | ⟨hs, -⟩
    · exact Or.inl hs
    · exact Or.inr ⟨hs, rfl⟩

/-- The genesis block has none before it and only moves the best block pointer. -/
theorem ConnectEnv.connectBlock_genesis {env : ConnectEnv} {base : CCoinsView} {block : CBlock}
    {pprev : Option CBlockIndex} {c c' : CCoinsViewCache} {undo : CBlockUndo}
    (h : env.connectBlock base block pprev c = some (c', undo))
    (hgen : block.hash = env.params.hashGenesisBlock) :
    pprev = none ∧ c' = c.setBestBlock block.hash := by
  unfold ConnectEnv.connectBlock at h
  dsimp only at h
  rw [ensure_bind_eq_some, ensure_bind_eq_some, ensure_bind_eq_some, if_pos hgen,
    ensure_bind_eq_some] at h
  obtain ⟨-, -, -, hnone, hret⟩ := h
  exact ⟨Option.isNone_iff_eq_none.1 hnone, (Prod.mk.inj (Option.some.inj hret)).1.symm⟩

/-- What connecting a block other than the genesis block does. -/
theorem ConnectEnv.connectBlock_cases {env : ConnectEnv} {base : CCoinsView} {block : CBlock}
    {pprev : Option CBlockIndex} {c c' : CCoinsViewCache} {undo : CBlockUndo}
    (h : env.connectBlock base block pprev c = some (c', undo))
    (hgen : block.hash ≠ env.params.hashGenesisBlock) :
    ∃ p t1 t2 s undos, pprev = some p ∧
      env.checkBlock block (CBlockIndex.ofBlock block pprev) = true ∧
      p.phashBlock = (c.view base).getBestBlock ∧
      ConnectEnv.noOverwrites (c.view base) block = true ∧
      (c.view base).getAnchorAt .sprout ((c.view base).getBestAnchor .sprout) = some t1 ∧
      (c.view base).getAnchorAt .sapling ((c.view base).getBestAnchor .sapling) = some t2 ∧
      env.connectLoop base (CBlockIndex.ofBlock block pprev) block.vtx
        { view := c, sproutTree := t1, saplingTree := t2 } = some (s, undos) ∧
      (networkUpgradeActive (p.nHeight + 1) env.params.saplingHeight = true →
        block.hashFinalSaplingRoot = env.trees.root .sapling s.saplingTree) ∧
      c' = ((s.view.pushAnchor base env.trees .sprout s.sproutTree).pushAnchor base env.trees
        .sapling s.saplingTree).setBestBlock block.hash ∧
      undo = { vtxundo := undos.drop 1,
               oldSproutTreeRoot := (c.view base).getBestAnchor .sprout } := by
  unfold ConnectEnv.connectBlock at h
  dsimp only at h
  rw [ensure_bind_eq_some, ensure_bind_eq_some, ensure_bind_eq_some, if_neg hgen,
    ensure_bind_eq_some, ensure_bind_eq_some] at h
  obtain ⟨hcheck, -, hprev, hsome, hover, h⟩ := h
  obtain ⟨p, rfl⟩ := Option.isSome_iff_exists.1 hsome
  simp only [Option.bind_eq_bind, Option.bind_eq_some_iff] at h
  obtain ⟨t1, ht1, h⟩ := h
  obtain ⟨-, -, t2, ht2, ⟨s, undos⟩, hloop, h⟩ := h
  obtain ⟨_, hroot, _, -, h⟩ := h
  simp only [Option.pure_def, Option.some.injEq, Prod.mk.injEq] at h
  refine ⟨p, t1, t2, s, undos, rfl, hcheck, by simpa using hprev, hover, ht1, ht2, hloop, ?_,
    h.1.symm, h.2.symm⟩
  intro hact
  simp only [ensure, CBlockIndex.ofBlock, hact] at hroot
  simpa using hroot

section Connect

variable {env : ConnectEnv} {base : CCoinsView} {block : CBlock}

theorem checkTransaction_of_checkBlock {pindex : CBlockIndex}
    (h : env.checkBlock block pindex = true) :
    ∀ tx ∈ block.vtx, env.checks.txEnv.checkTransaction tx = .ok () := by
  intro tx htx
  unfold ConnectEnv.checkBlock at h
  rw [Bool.and_eq_true] at h
  have := List.all_eq_true.1 h.2 tx htx
  cases hr : env.checks.txEnv.checkTransaction tx with
  | ok u => rfl
  | error e =>
    rw [hr] at this
    cases this

/-- What a block that passes the checks creates is recorded in canonical form. -/
theorem canonical_of_checkBlock {pindex : CBlockIndex} (h : env.checkBlock block pindex = true)
    (nHeight : Nat) : ∀ tx ∈ block.vtx, (CCoins.fromTx tx (nHeight + 1)).Canonical :=
  fun tx htx => CCoins.canonical_fromTx (Nat.succ_ne_zero _)
    (TxCheckEnv.vout_not_null (checkTransaction_of_checkBlock h tx htx))

/-- Without Sapling outputs the loop leaves the Sapling tree alone. -/
private theorem connectLoop_saplingTree {pindex : CBlockIndex} {txs : List CTransaction}
    {s s' : LoopState} {undos : List CTxUndo} (hno : ∀ tx ∈ txs, tx.vShieldedOutput = [])
    (h : env.connectLoop base pindex txs s = some (s', undos)) :
    s'.saplingTree = s.saplingTree := by
  induction txs generalizing s undos with
  | nil =>
    cases h
    rfl
  | cons tx rest ih =>
    obtain ⟨s1, u, us, h1, h2, -⟩ := ConnectEnv.connectLoop_cons h
    obtain ⟨-, -, -, -, ht⟩ := ConnectEnv.connectTx_cases h1
    rw [hno tx (by simp), List.map_nil, List.foldlM_nil] at ht
    rw [ih (fun tx' htx' => hno tx' (by simp [htx'])) h2]
    exact (Option.some.inj ht).symm

/-- The best anchor after a push is the root pushed, or a null root was stored. -/
private theorem getBestAnchor_pushAnchor (c : CCoinsViewCache) (P : TreeHashes)
    (ty : ShieldedType) (t : MerkleTree) :
    ((c.pushAnchor base P ty t).view base).getBestAnchor ty = P.root ty t ∨
      (P.root ty t = 0 ∧ (c.pushAnchor base P ty t).hashAnchor ty = 0) := by
  have hh := CCoinsViewCache.hashAnchor_pushAnchor base P c ty ty t
  by_cases hb : (c.view base).getBestAnchor ty = P.root ty t
  · left
    simp only [hb, ne_eq, not_true_eq_false, and_false, if_false] at hh
    rw [← hb]
    simp only [CCoinsViewCache.view, hh]
  · simp only [hb, ne_eq, not_false_eq_true, and_self, if_true] at hh
    by_cases hz : P.root ty t = 0
    · exact Or.inr ⟨hz, hh.trans hz⟩
    · left
      simp only [CCoinsViewCache.view, hh, if_neg hz]

/-- The genesis block only moves the best block pointer. -/
private theorem ChainInv.connect_genesis {c c' : CCoinsViewCache} {tip : Option CBlockIndex}
    {undo : CBlockUndo} (h : ChainInv env base c tip)
    (hc : env.connectBlock base block tip c = some (c', undo))
    (hgen : block.hash = env.params.hashGenesisBlock) :
    ChainInv env base c' (some (CBlockIndex.ofBlock block tip)) := by
  obtain ⟨rfl, rfl⟩ := ConnectEnv.connectBlock_genesis hc hgen
  have hact : networkUpgradeActive 0 env.params.saplingHeight = false := by
    simp only [networkUpgradeActive, Bool.and_eq_false_iff, bne_eq_false_iff_eq,
      decide_eq_false_iff_not]
    rcases env.params.saplingHeight_pos with hp | hp
    · exact Or.inl hp
    · exact Or.inr (by omega)
  have hexp : env.expectedSaplingRoot (some (CBlockIndex.ofBlock block none)) =
      env.expectedSaplingRoot none := by
    simp [ConnectEnv.expectedSaplingRoot, ConnectEnv.saplingRootAt, CBlockIndex.ofBlock, hact]
  refine ⟨h.sound.of_cacheCoins rfl, h.anchors.setBestBlock _, ?_⟩
  rw [hexp, CCoinsViewCache.getBestAnchor_setBestBlock, CCoinsViewCache.hashAnchor_setBestBlock]
  exact h.sapling

/-- Before the upgrade, a block does not change the expected root. -/
private theorem expectedSaplingRoot_of_inactive {p : CBlockIndex}
    (hact : networkUpgradeActive (p.nHeight + 1) env.params.saplingHeight = false) :
    env.expectedSaplingRoot (some (CBlockIndex.ofBlock block (some p))) =
      env.expectedSaplingRoot (some p) := by
  have hprev : networkUpgradeActive p.nHeight env.params.saplingHeight = false := by
    rw [← Bool.not_eq_true] at hact ⊢
    exact fun ha => hact (networkUpgradeActive_mono (Nat.le_succ _) ha)
  simp [ConnectEnv.expectedSaplingRoot, ConnectEnv.saplingRootAt, CBlockIndex.ofBlock, hact, hprev]

/-- Connecting a block keeps coins and anchors sound. -/
theorem sound_connectBlock {c c' : CCoinsViewCache} {tip : Option CBlockIndex} {undo : CBlockUndo}
    (h : c.Sound base ∧ c.AnchorsOk base env.trees)
    (hc : env.connectBlock base block tip c = some (c', undo)) :
    c'.Sound base ∧ c'.AnchorsOk base env.trees := by
  by_cases hgen : block.hash = env.params.hashGenesisBlock
  · obtain ⟨-, rfl⟩ := ConnectEnv.connectBlock_genesis hc hgen
    exact ⟨h.1.of_cacheCoins rfl, h.2.setBestBlock _⟩
  · obtain ⟨p, t1, t2, s, undos, rfl, hcheck, -, -, -, -, hloop, -, rfl, -⟩ :=
      ConnectEnv.connectBlock_cases hc hgen
    have hcan := canonical_of_checkBlock hcheck p.nHeight
    obtain ⟨hs, hf⟩ := ConnectEnv.Sound.connectLoop h.1 hcan (Nat.succ_ne_zero _) hloop
    exact ⟨hs.of_cacheCoins (by simp [CCoinsViewCache.setBestBlock]),
      (((h.2.of_same hf).pushAnchor .sprout s.sproutTree).pushAnchor
        .sapling s.saplingTree).setBestBlock _⟩

/-- Every view reached is sound. -/
theorem sound_of_reached {admits : CBlock → Nat → Prop} {c : CCoinsViewCache}
    {tip : Option CBlockIndex} (h : Reached env admits base c tip) :
    c.Sound base ∧ c.AnchorsOk base env.trees := by
  induction h with
  | start => exact ⟨(ChainInv.start env).sound, (ChainInv.start env).anchors⟩
  | layer _ ih => exact ⟨ih.1.layer, ih.2.layer⟩
  | connect _ hc _ ih => exact sound_connectBlock ih hc

/-- A block whose Sapling outputs are in order keeps the invariant. -/
theorem ChainInv.connect {c c' : CCoinsViewCache} {tip : Option CBlockIndex} {undo : CBlockUndo}
    (h : ChainInv env base c tip) (hc : env.connectBlock base block tip c = some (c', undo))
    (hsap : SaplingInOrder env block (CBlockIndex.ofBlock block tip).nHeight) :
    ChainInv env base c' (some (CBlockIndex.ofBlock block tip)) := by
  by_cases hgen : block.hash = env.params.hashGenesisBlock
  · exact h.connect_genesis hc hgen
  · obtain ⟨hsound, hanchors⟩ := sound_connectBlock ⟨h.sound, h.anchors⟩ hc
    obtain ⟨p, t1, t2, s, undos, rfl, hcheck, -, -, -, ht2, hloop, hroot, rfl, -⟩ :=
      ConnectEnv.connectBlock_cases hc hgen
    have hcan := canonical_of_checkBlock hcheck p.nHeight
    obtain ⟨-, hf⟩ := ConnectEnv.Sound.connectLoop h.sound hcan (Nat.succ_ne_zero _) hloop
    refine ⟨hsound, hanchors, ?_⟩
    set c2 := s.view.pushAnchor base env.trees .sprout s.sproutTree with hc2
    cases hact : networkUpgradeActive (p.nHeight + 1) env.params.saplingHeight with
    | true =>
      have hexp : env.expectedSaplingRoot (some (CBlockIndex.ofBlock block (some p))) =
          env.trees.root .sapling s.saplingTree := by
        simp only [ConnectEnv.expectedSaplingRoot, ConnectEnv.saplingRootAt, CBlockIndex.ofBlock,
          hact, if_true]
        exact hroot hact
      rw [hexp, CCoinsViewCache.getBestAnchor_setBestBlock,
        CCoinsViewCache.hashAnchor_setBestBlock]
      exact getBestAnchor_pushAnchor c2 env.trees .sapling s.saplingTree
    | false =>
      -- nothing was appended, so the push changes nothing
      have htree : s.saplingTree = t2 := connectLoop_saplingTree (hsap hact) hloop
      have hh2 : c2.hashAnchor .sapling = c.hashAnchor .sapling := by
        rw [hc2, CCoinsViewCache.hashAnchor_pushAnchor, hf.hashAnchor]
        simp
      have hbest : (c2.view base).getBestAnchor .sapling =
          (c.view base).getBestAnchor .sapling := by
        simp only [CCoinsViewCache.view, hh2]
      have hh3 : (c2.pushAnchor base env.trees .sapling s.saplingTree).hashAnchor .sapling =
          c.hashAnchor .sapling := by
        rw [CCoinsViewCache.hashAnchor_pushAnchor, hbest, htree, h.anchors.root ht2, hh2]
        simp
      rw [expectedSaplingRoot_of_inactive hact]
      have := h.sapling
      simpa only [CCoinsViewCache.view, CCoinsViewCache.setBestBlock, hh3] using this

/-- Every view reached by blocks whose Sapling outputs are in order is sound. -/
theorem chainInv_of_reached {c : CCoinsViewCache} {tip : Option CBlockIndex}
    (h : Reached env (SaplingInOrder env) base c tip) : ChainInv env base c tip := by
  induction h with
  | start => exact .start env
  | layer _ ih => exact ih.layer
  | connect _ hc hadm ih => exact ih.connect hc hadm

/-! ## Connecting and disconnecting -/

private theorem undoable_of_checkBlock {p : CBlockIndex} {tip : Option CBlockIndex}
    (hcheck : env.checkBlock block (CBlockIndex.ofBlock block tip) = true)
    (himp : ∀ tx ∈ block.vtx, tx.isCoinImport = false) :
    ∀ tx ∈ block.vtx, ConnectEnv.Undoable (p.nHeight + 1) tx := by
  intro tx htx
  have hok := checkTransaction_of_checkBlock hcheck tx htx
  refine ⟨himp tx htx, CCoins.canonical_fromTx (Nat.succ_ne_zero _) (TxCheckEnv.vout_not_null hok),
    fun hm ty => ?_⟩
  obtain ⟨hjs, hsp, -⟩ := TxCheckEnv.mint_transparent hok hm
  cases ty with
  | sprout => simp [CTransaction.nullifiers, hjs]
  | sapling => simp [CTransaction.nullifiers, hsp]

/-- The first transaction of a checked block is its coinbase. -/
theorem coinbase_of_checkBlock {pindex : CBlockIndex}
    (h : env.checkBlock block pindex = true) :
    ∃ cb rest, block.vtx = cb :: rest ∧ cb.isCoinBase = true := by
  unfold ConnectEnv.checkBlock at h
  rw [Bool.and_eq_true, Bool.and_eq_true] at h
  cases hv : block.vtx with
  | nil =>
    rw [hv] at h
    cases h.1.2
  | cons cb rest =>
    rw [hv] at h
    exact ⟨cb, rest, rfl, (Bool.and_eq_true_iff.1 h.1.2).1⟩

/-- The whole undo loop of a block, from the undo data its connection produced. -/
private theorem undoLoop {p : CBlockIndex} {s s' : LoopState} {undos : List CTxUndo}
    {d : CCoinsViewCache} (hs : s.view.Sound base)
    (hcheck : env.checkBlock block (CBlockIndex.ofBlock block (some p)) = true)
    (himp : ∀ tx ∈ block.vtx, tx.isCoinImport = false)
    (hloop : env.connectLoop base (CBlockIndex.ofBlock block (some p)) block.vtx s =
      some (s', undos))
    (hover : env.NoOverwriteAlong base (CBlockIndex.ofBlock block (some p)) block.vtx s)
    (hd : d.CacheWf base) (hagree : CCoinsViewCache.Agree base s'.view d) :
    (undos.drop 1).length + 1 = block.vtx.length ∧
    ∃ d', d.disconnectLoop base (p.nHeight + 1)
        (block.vtx.zip (none :: (undos.drop 1).map some)) = some (d', true) ∧
      d'.CacheWf base ∧ CCoinsViewCache.Agree base s.view d' ∧
      CCoinsViewCache.SameAnchors d d' := by
  have hund := undoable_of_checkBlock (p := p) hcheck himp
  obtain ⟨cb, rest, hvtx, hcb⟩ := coinbase_of_checkBlock hcheck
  rw [hvtx] at hloop hover hund ⊢
  obtain ⟨s1, u, us, h1, h2, rfl⟩ := ConnectEnv.connectLoop_cons hloop
  have hcbu := hund cb (by simp)
  have hmint : cb.isMint = true := by simp [CTransaction.isMint, hcb]
  obtain ⟨hs1, -⟩ := ConnectEnv.Sound.connectTx hs hcbu.canonical (Nat.succ_ne_zero _) h1
  obtain ⟨hlen, d1, hd1, hwf1, hagree1, hframe1⟩ :=
    ConnectEnv.disconnectLoop_connectLoop hs1 (Nat.succ_ne_zero _)
      (fun tx htx => hund tx (by simp [htx])) h2 (hover.2 s1 u h1) hd hagree
  -- the coinbase has no undo data and needs none
  obtain ⟨d2, hd2, hwf2, hagree2, hframe2⟩ :=
    ConnectEnv.disconnectTx_connectTx none hs hcbu hover.1 h1 (Or.inl hmint) hwf1 hagree1
  refine ⟨by simp [hlen], d2, ?_, hwf2, hagree2, hframe1.trans hframe2⟩
  have hh : (CBlockIndex.ofBlock block (some p)).nHeight = p.nHeight + 1 := rfl
  rw [hh] at hd1 hd2
  simp only [List.drop_one, List.tail_cons, List.zip_cons_cons, CCoinsViewCache.disconnectLoop,
    hd1, hd2, Option.bind_eq_bind, Option.bind_some, Bool.and_self, Option.pure_def]

/-- A null best anchor comes from the base. -/
private theorem base_best_of_null {c : CCoinsViewCache} {ty : ShieldedType}
    (h : (c.view base).getBestAnchor ty = 0) : base.getBestAnchor ty = 0 := by
  simp only [CCoinsViewCache.view] at h
  split at h
  · exact h
  · rename_i hne
    exact absurd h hne

/-- Popping to the expected root of `c` gives the best anchor of `c` back. -/
private theorem best_restored {c e f : CCoinsViewCache} {ty : ShieldedType} {rt : Uint256}
    (hinv : (c.view base).getBestAnchor ty = rt ∨ (rt = 0 ∧ c.hashAnchor ty = 0))
    (hf : (f.view base).getBestAnchor ty =
      if (e.view base).getBestAnchor ty = rt then rt
      else if rt = 0 then base.getBestAnchor ty else rt) :
    (f.view base).getBestAnchor ty = (c.view base).getBestAnchor ty := by
  rw [hf]
  rcases hinv with hrt | ⟨hz, hh⟩
  · subst hrt
    by_cases hz : (c.view base).getBestAnchor ty = 0
    · rw [if_pos hz, base_best_of_null hz, hz]
      exact ite_self _
    · rw [if_neg hz]
      exact ite_self _
  · have hc : (c.view base).getBestAnchor ty = base.getBestAnchor ty := if_pos hh
    rw [hc, if_pos hz]
    by_cases he : (e.view base).getBestAnchor ty = rt
    · rw [if_pos he, hz]
      exact (base_best_of_null (he.trans hz)).symm
    · rw [if_neg he]

/-- Both anchors go back, one after the other. -/
theorem popBoth {d : CCoinsViewCache} {P : TreeHashes} (h : d.AnchorsOk base P)
    (rt rt' : Uint256) :
    ∃ d2 d3, d.popAnchor base rt .sprout = some d2 ∧ d2.popAnchor base rt' .sapling = some d3 ∧
      d3.cacheCoins = d.cacheCoins ∧ d3.cacheNullifiers = d.cacheNullifiers ∧
      ((d3.view base).getBestAnchor .sprout =
        if (d.view base).getBestAnchor .sprout = rt then rt
        else if rt = 0 then base.getBestAnchor .sprout else rt) ∧
      ((d3.view base).getBestAnchor .sapling =
        if (d2.view base).getBestAnchor .sapling = rt' then rt'
        else if rt' = 0 then base.getBestAnchor .sapling else rt') := by
  obtain ⟨d2, hd2, hcoins2, hnulls2, -, hframe2, hbest2⟩ :=
    CCoinsViewCache.popAnchor_spec rt (h.bestAnchor .sprout)
  obtain ⟨hh2, hca2⟩ := hframe2 .sapling (by decide)
  have havail : ((d2.view base).getAnchorAt .sapling
      ((d2.view base).getBestAnchor .sapling)).isSome = true := by
    have := h.bestAnchor .sapling
    simpa only [CCoinsViewCache.view, hh2, hca2] using this
  obtain ⟨d3, hd3, hcoins3, hnulls3, -, hframe3, hbest3⟩ :=
    CCoinsViewCache.popAnchor_spec rt' havail
  obtain ⟨hh3, -⟩ := hframe3 .sprout (by decide)
  have hsame : (d3.view base).getBestAnchor .sprout = (d2.view base).getBestAnchor .sprout := by
    simp only [CCoinsViewCache.view, hh3]
  exact ⟨d2, d3, hd2, hd3, hcoins3.trans hcoins2, hnulls3.trans hnulls2, hsame.trans hbest2,
    hbest3⟩

/-- Pointing back to the best block of `c`. -/
private theorem bestBlock_restored {c d : CCoinsViewCache} {hash : Uint256}
    (hprev : hash = (c.view base).getBestBlock) :
    (c.view base).getBestBlock = ((d.setBestBlock hash).view base).getBestBlock := by
  have hb : ((d.setBestBlock hash).view base).getBestBlock =
      if hash = 0 then base.getBestBlock else hash := rfl
  rw [hb]
  by_cases hz : hash = 0
  · rw [if_pos hz]
    by_cases hch : c.hashBlock = 0
    · exact if_pos hch
    · -- a null previous hash cannot come from the cache
      have hbest : (c.view base).getBestBlock = c.hashBlock := if_neg hch
      rw [hbest, hz] at hprev
      exact absurd hprev.symm hch
  · rw [if_neg hz]
    exact hprev.symm

variable (env base) in
/-- No transaction of the block is applied over unspent outputs with its own id. -/
def NoOverwrite (block : CBlock) (p : CBlockIndex) (c : CCoinsViewCache) : Prop :=
  ∀ t1 t2, (c.view base).getAnchorAt .sprout ((c.view base).getBestAnchor .sprout) = some t1 →
    (c.view base).getAnchorAt .sapling ((c.view base).getBestAnchor .sapling) = some t2 →
    env.NoOverwriteAlong base (CBlockIndex.ofBlock block (some p)) block.vtx
      { view := c, sproutTree := t1, saplingTree := t2 }

/-- One iteration of the loop writes no id but the transaction's own. -/
private theorem contents_connectTx {pindex : CBlockIndex} {tx : CTransaction} {s s' : LoopState}
    {u : CTxUndo} (hs : s.view.Sound base) (himp : tx.isCoinImport = false)
    (h : env.connectTx base pindex tx s = some (s', u)) {id : Uint256} (hid : id ≠ tx.hash)
    (he : s.view.contents base id = {}) : s'.view.contents base id = {} := by
  obtain ⟨-, -, hu, -, -⟩ := ConnectEnv.connectTx_cases h
  obtain ⟨c1, h1, hc'⟩ := CCoinsViewCache.updateCoins_cases hu
  obtain ⟨hs1, -, -, hempty⟩ := hs.spendCoins h1
  have hs2 : (c1.setNullifiers tx true).Sound base := hs1.of_cacheCoins rfl
  rw [himp, if_neg Bool.false_ne_true] at hc'
  rw [hc', CCoinsViewCache.contents_modifyCoins hs2.wf, Function.update_of_ne hid,
    CCoinsViewCache.contents_of_cacheCoins (CCoinsViewCache.cacheCoins_setNullifiers c1 tx true)]
  exact hempty id he

private theorem noOverwriteAlong_of_nodup {pindex : CBlockIndex} {txs : List CTransaction}
    {s : LoopState} (hs : s.view.Sound base) (hh : pindex.nHeight ≠ 0)
    (hund : ∀ tx ∈ txs, ConnectEnv.Undoable pindex.nHeight tx)
    (hnodup : (txs.map CTransaction.hash).Nodup)
    (hfree : ∀ tx ∈ txs, s.view.contents base tx.hash = {}) :
    env.NoOverwriteAlong base pindex txs s := by
  induction txs generalizing s with
  | nil => trivial
  | cons tx rest ih =>
    rw [List.map_cons, List.nodup_cons] at hnodup
    refine ⟨by rw [hfree tx (by simp)]; rfl, fun s' u h => ?_⟩
    have htx := hund tx (by simp)
    refine ih (ConnectEnv.Sound.connectTx hs htx.canonical hh h).1
      (fun tx' h' => hund tx' (by simp [h'])) hnodup.2 fun tx' h' => ?_
    have hne : tx'.hash ≠ tx.hash := by
      intro heq
      exact hnodup.1 (heq ▸ List.mem_map_of_mem h')
    exact contents_connectTx hs htx.noImport h hne (hfree tx' (by simp [h']))

/-- The BIP30 test before the loop is enough when the ids in the block are distinct. -/
theorem noOverwrite_of_nodup {c : CCoinsViewCache} {p : CBlockIndex} (hs : c.Sound base)
    (hcheck : env.checkBlock block (CBlockIndex.ofBlock block (some p)) = true)
    (himp : ∀ tx ∈ block.vtx, tx.isCoinImport = false)
    (hnodup : (block.vtx.map CTransaction.hash).Nodup)
    (hbip30 : ConnectEnv.noOverwrites (c.view base) block = true) :
    NoOverwrite env base block p c := by
  intro t1 t2 _ _
  refine noOverwriteAlong_of_nodup hs (Nat.succ_ne_zero _) (undoable_of_checkBlock hcheck himp)
    hnodup fun tx htx => ?_
  have htx' := List.all_eq_true.1 hbip30 tx htx
  have hd := CCoinsViewCache.getCoins_getD base c tx.hash
  unfold CCoinsViewCache.contents
  rw [← hd]
  cases hk : (c.view base).getCoins tx.hash with
  | none => rfl
  | some k =>
    rw [hk] at htx'
    exact CCoins.live_of_isPruned htx'

/-- Two views give the same answers about coins, nullifiers, best anchors and best block. -/
structure SameAnswers (v w : CCoinsView) : Prop where
  /-- Lookups of coins agree. -/
  coins : ∀ txid, sameCoins (v.getCoins txid) (w.getCoins txid) = true
  /-- The same nullifiers are spent. -/
  nullifiers : ∀ ty nf, v.getNullifier ty nf = w.getNullifier ty nf
  /-- The best anchors are the same. -/
  bestAnchor : ∀ ty, v.getBestAnchor ty = w.getBestAnchor ty
  /-- The best block is the same. -/
  bestBlock : v.getBestBlock = w.getBestBlock

/-- Disconnecting a block undoes connecting it, cleanly, on every reached view. -/
theorem disconnectBlock_connectBlock {c c' : CCoinsViewCache} {p : CBlockIndex} {undo : CBlockUndo}
    (h : Reached env (SaplingInOrder env) base c (some p))
    (hgen : block.hash ≠ env.params.hashGenesisBlock)
    (himp : ∀ tx ∈ block.vtx, tx.isCoinImport = false)
    (hc : env.connectBlock base block (some p) c = some (c', undo))
    (hover : NoOverwrite env base block p c) :
    ∃ d, env.disconnectBlock base block undo p c' = some (d, true) ∧
      SameAnswers (c.view base) (d.view base) := by
  have hinv := chainInv_of_reached h
  obtain ⟨q, t1, t2, s, undos, hq, hcheck, hprev, -, ht1, ht2, hloop, -, hc', rfl⟩ :=
    ConnectEnv.connectBlock_cases hc hgen
  obtain rfl := Option.some.inj hq
  have hcan := canonical_of_checkBlock hcheck p.nHeight
  obtain ⟨hs, hf⟩ := ConnectEnv.Sound.connectLoop hinv.sound hcan (Nat.succ_ne_zero _) hloop
  -- the state after the block, seen from the loop
  have hcoins : c'.cacheCoins = s.view.cacheCoins := by simp [hc', CCoinsViewCache.setBestBlock]
  have hnulls : c'.cacheNullifiers = s.view.cacheNullifiers := by
    simp [hc', CCoinsViewCache.setBestBlock]
  have hanch : c'.AnchorsOk base env.trees := by
    rw [hc']
    exact (((hinv.anchors.of_same hf).pushAnchor .sprout s.sproutTree).pushAnchor
      .sapling s.saplingTree).setBestBlock _
  have hagree : CCoinsViewCache.Agree base s.view c' :=
    ⟨CCoinsViewCache.contents_of_cacheCoins hcoins, by simp only [CCoinsViewCache.view, hnulls]⟩
  obtain ⟨hlen, d1, hd1, hwf1, hagree1, hframe1⟩ := undoLoop hinv.sound hcheck himp hloop
    (hover t1 t2 ht1 ht2) (hs.of_cacheCoins hcoins).wf hagree
  -- both anchors go back
  obtain ⟨d2, d3, hd2, hd3, hcoins3, hnulls3, hsprout, hsapling⟩ :=
    popBoth (hanch.of_same hframe1) ((c.view base).getBestAnchor .sprout) (env.saplingRootAt p)
  have hnull : block.hash = (c'.view base).getBestBlock := by
    rw [hc']
    exact (if_neg block.hash_ne_null).symm
  refine ⟨d3.setBestBlock p.phashBlock, ?_, ?_, ?_, ?_, bestBlock_restored hprev⟩
  · unfold ConnectEnv.disconnectBlock
    simp only [← hnull, hlen, beq_self_eq_true, ensure, if_true, Option.bind_eq_bind,
      Option.bind_some, hd1, hd2, hd3, Option.pure_def]
  · have hwf3 : (d3.setBestBlock p.phashBlock).CacheWf base := by
      have heq : (d3.setBestBlock p.phashBlock).cacheCoins = d1.cacheCoins := hcoins3
      exact ⟨heq ▸ hwf1.fresh, heq ▸ hwf1.known, heq ▸ hwf1.kept⟩
    intro txid
    apply sameCoins_of_contents hinv.sound.wf hwf3
    rw [CCoinsViewCache.contents_of_cacheCoins (d := d3.setBestBlock p.phashBlock) hcoins3,
      hagree1.contents]
  · intro ty nf
    have := congrFun (congrFun hagree1.nullifiers ty) nf
    rw [← this]
    simp only [CCoinsViewCache.view, CCoinsViewCache.setBestBlock, hnulls3]
  · intro ty
    rw [CCoinsViewCache.getBestAnchor_setBestBlock]
    cases ty with
    | sprout => exact (best_restored (Or.inl rfl) hsprout).symm
    | sapling => exact (best_restored hinv.sapling hsapling).symm

end Connect

/-! ## A chain before the Sapling upgrade -/

namespace SampleChain

/-- A stand-in for the node hashes: a node is named after its first leaf. -/
def trees : TreeHashes where
  hash _ := { combine := fun a _ _ => a, uncommitted := 1 }

/-- A chain on which neither upgrade is scheduled. -/
def env : ConnectEnv where
  params := { hashGenesisBlock := 1, overwinterHeight := -1, saplingHeight := -1,
              saplingHeight_pos := Or.inl rfl }
  trees := trees
  checks := { checkBlock := fun _ _ => true
              contextualCheckTransaction := fun _ _ _ => true
              contextualCheckInputs := fun _ _ _ => true
              checkReward := fun _ _ => true
              txEnv := { acpublic := false, assetchainsPrivate := false, txpow := 0
                         maxMoney := 2100000000000000, tiptime := 1540000000
                         isNotaryVout := fun _ => false, serializeSize := fun _ => 300 } }

/-- The empty database. -/
def db : CCoinsView := emptyDB trees

/-- A Sprout coinbase. -/
def coinbase (hash : Uint256) : CTransaction :=
  { hash := hash, nVersion := 1, fOverwintered := false, nVersionGroupId := 0
    vin := [{ prevout := { hash := 0, n := 4294967295 }, scriptSig := [0x51, 0x51] }]
    vout := [{ nValue := 300000000, scriptPubKey := [0x51] }]
    saplingFormat := Or.inr ⟨rfl, rfl⟩ }

/-- A JoinSplit within the shielded pool. -/
def joinSplit : JSDescription :=
  { vpubOld := 0, vpubNew := 0, anchor := 1, nullifiers := #v[5, 6], commitments := #v[7, 8] }

/-- A Sprout transaction whose JoinSplit pays two outputs out of the shielded pool. -/
def sproutTx : CTransaction :=
  { hash := 0x12, nVersion := 2, fOverwintered := false, nVersionGroupId := 0
    vout := [{ nValue := 400, scriptPubKey := [0x51] }, { nValue := 600, scriptPubKey := [0x51] }]
    vjoinsplit := [{ joinSplit with vpubNew := 1000 }], saplingFormat := Or.inr ⟨rfl, rfl⟩ }

/-- A Sprout transaction that passes one output on, with a JoinSplit that follows. -/
def passOn (hash spent anchor nullifier : Uint256) : CTransaction :=
  { hash := hash, nVersion := 2, fOverwintered := false, nVersionGroupId := 0
    vin := [{ prevout := { hash := spent, n := 0 }, scriptSig := [] }]
    vout := [{ nValue := 400, scriptPubKey := [0x51] }]
    vjoinsplit := [{ joinSplit with anchor := anchor, nullifiers := #v[nullifier, nullifier + 1] }]
    saplingFormat := Or.inr ⟨rfl, rfl⟩ }

/-- A Sapling transaction with the same JoinSplit and a Sapling output. -/
def saplingTx : CTransaction :=
  { hash := 0x12, vjoinsplit := [joinSplit], vShieldedOutput := [⟨9⟩]
    saplingFormat := Or.inl ⟨rfl, rfl, rfl⟩ }

/-- A block timestamped before 2019. -/
def blockOf (hash : Uint256) (h : hash ≠ 0) (vtx : List CTransaction) : CBlock :=
  { hash := hash, hashFinalSaplingRoot := 0, nTime := 1540000000, vtx := vtx, hash_ne_null := h }

theorem one_ne_null : (1 : Uint256) ≠ 0 := by decide

/-- The genesis block. -/
def genesis : CBlock := blockOf 1 one_ne_null [coinbase 0x01]

/-- A block with a Sprout JoinSplit. -/
def sproutBlock : CBlock := blockOf 2 (by decide) [coinbase 0x11, sproutTx]

/-- A block with a Sapling output before the upgrade. -/
def saplingBlock : CBlock := blockOf 2 (by decide) [coinbase 0x11, saplingTx]

/-- A block that spends one of the two outputs, and what is paid on in the block itself. -/
def spendBlock : CBlock :=
  blockOf 3 (by decide) [coinbase 0x21, passOn 0x22 0x12 7 10, passOn 0x23 0x22 7 12]

/-- A block with a coinbase only. -/
def plainBlock : CBlock := blockOf 3 (by decide) [coinbase 0x21]

/-- The state and undo data after a block; an empty state when it is rejected. -/
def after (block : CBlock) (tip : Option CBlockIndex) (c : CCoinsViewCache) :
    CCoinsViewCache × CBlockUndo :=
  (env.connectBlock db block tip c).getD ({}, ⟨[], 0⟩)

theorem connectBlock_after {block : CBlock} {tip : Option CBlockIndex} {c : CCoinsViewCache}
    (h : (env.connectBlock db block tip c).isSome = true) :
    env.connectBlock db block tip c = some ((after block tip c).1, (after block tip c).2) := by
  obtain ⟨r, hr⟩ := Option.isSome_iff_exists.1 h
  simp [after, hr]

/-- The index entry of the genesis block. -/
def genesisIndex : CBlockIndex := CBlockIndex.ofBlock genesis none

/-- The state after the genesis block. -/
def genesisView : CCoinsViewCache := (after genesis none {}).1

theorem reached_genesis (admits : CBlock → Nat → Prop) (h : admits genesis 0) :
    Reached env admits db genesisView (some genesisIndex) :=
  .connect .start (connectBlock_after (by decide +kernel)) h

theorem saplingInOrder_genesis : SaplingInOrder env genesis 0 := by
  intro _ tx htx
  obtain rfl := List.mem_singleton.1 htx
  rfl

end SampleChain

open SampleChain in
/-- A block that leaves a coin partly spent, spends an output of its own and adds nullifiers and
commitments is undone. -/
theorem disconnectBlock_spendBlock :
    let index := CBlockIndex.ofBlock sproutBlock (some genesisIndex)
    let view := (after sproutBlock (some genesisIndex) genesisView).1
    ∃ d, env.disconnectBlock db spendBlock (after spendBlock (some index) view).2 index
        (after spendBlock (some index) view).1 = some (d, true) ∧
      SameAnswers (view.view db) (d.view db) := by
  intro index view
  have hreach : Reached env (SaplingInOrder env) db view (some index) := by
    refine .connect (reached_genesis _ saplingInOrder_genesis)
      (connectBlock_after (by decide +kernel)) fun _ => ?_
    decide
  refine disconnectBlock_connectBlock hreach (by decide) (by decide)
    (connectBlock_after (by decide +kernel)) ?_
  exact noOverwrite_of_nodup (chainInv_of_reached hreach).sound (by decide +kernel) (by decide)
    (by decide) (by decide +kernel)

open SampleChain in
/-- A Sapling output before the upgrade gets past the contextual checks of an old
block, and the next block is then undone to the empty Sapling tree. -/
theorem disconnectBlock_after_early_sapling_output :
    ¬ ∀ (env : ConnectEnv) (base : CCoinsView) (block : CBlock) (c c' : CCoinsViewCache)
      (p : CBlockIndex) (undo : CBlockUndo),
      Reached env (fun _ _ => True) base c (some p) →
      block.hash ≠ env.params.hashGenesisBlock →
      (∀ tx ∈ block.vtx, tx.isCoinImport = false) →
      env.connectBlock base block (some p) c = some (c', undo) →
      NoOverwrite env base block p c →
      ∃ d, env.disconnectBlock base block undo p c' = some (d, true) ∧
        SameAnswers (c.view base) (d.view base) := by
  intro hclaim
  let view1 := (after saplingBlock (some genesisIndex) genesisView).1
  let index1 := CBlockIndex.ofBlock saplingBlock (some genesisIndex)
  have hreach : Reached env (fun _ _ => True) db view1 (some index1) :=
    .connect (reached_genesis _ trivial) (connectBlock_after (by decide +kernel)) trivial
  obtain ⟨d, hd, hsame⟩ := hclaim env db plainBlock view1 _ index1 _ hreach (by decide) (by decide)
    (connectBlock_after (by decide +kernel))
    fun t1 t2 _ _ => ⟨show (view1.contents db 0x21).isPruned = true by decide +kernel,
      fun _ _ _ => trivial⟩
  have hbest := hsame.bestAnchor .sapling
  have hbefore : (view1.view db).getBestAnchor .sapling = 9 := by decide +kernel
  have hafter : ((env.disconnectBlock db plainBlock (after plainBlock (some index1) view1).2 index1
      (after plainBlock (some index1) view1).1).map
      fun r => (r.1.view db).getBestAnchor .sapling) = some 1 := by decide +kernel
  rw [hd, Option.map_some, Option.some.injEq] at hafter
  rw [hbefore, hafter] at hbest
  exact absurd hbest (by decide)

end IndexChain
