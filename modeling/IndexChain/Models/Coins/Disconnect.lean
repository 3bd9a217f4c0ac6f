import IndexChain.Models.Coins.Connect

/-!
# Disconnecting a block

`ApplyTxInUndo` and `DisconnectBlock` of `main.cpp`, and the proof that the
reverse-order undo loop inverts the transaction loop of `ConnectBlock`. Every
elementary change of the coins state is undone in the opposite order, so the
proof follows the recursion of the loops: `restoreInputs_spendInputs` for the
inputs of a transaction, `disconnectTx_connectTx` for a transaction and
`disconnectLoop_connectLoop` for a list of them. States are compared by
contents, because a fully spent record may come back with other metadata.
-/

namespace IndexChain

open IndexChain.Core

namespace CCoinsViewCache

variable (base : CCoinsView)

/-- Put a spent output back. -/
def applyTxInUndo (undo : CTxInUndo) (c : CCoinsViewCache) (out : COutPoint) :
    CCoinsViewCache × Bool :=
  let r := CCoins.applyUndo undo (c.coinsAt base out.hash) out.n.toNat
  (c.modifyCoins base out.hash fun _ => r.1, r.2)

/-- Put the inputs of a transaction back, the last one first. -/
def restoreInputs : List CTxIn → List CTxInUndo → CCoinsViewCache → CCoinsViewCache × Bool
  | txin :: rest, u :: us, c =>
    let r := restoreInputs rest us c
    let r' := applyTxInUndo base u r.1 txin.prevout
    (r'.1, r.2 && r'.2)
  | _, _, c => (c, true)

/-- Undo one transaction; `none` when the undo data does not fit it. -/
def disconnectTx (nHeight : Nat) (tx : CTransaction) (undo : Option CTxUndo)
    (c : CCoinsViewCache) : Option (CCoinsViewCache × Bool) :=
  let outsBlock := CCoins.fromTx tx nHeight
  let fClean := (CCoins.outsOf (c.coinsAt base tx.hash) outsBlock).beq outsBlock
  let c := c.modifyCoins base tx.hash fun _ => {}
  let c := c.setNullifiers tx false
  if tx.isMint then
    some (if tx.isCoinImport then removeImportTombstone base tx c else c, fClean)
  else match undo with
    | none => none
    | some txundo =>
      if txundo.vprevout.length = tx.vin.length then
        let r := c.restoreInputs base tx.vin txundo.vprevout
        some (r.1, fClean && r.2)
      else none

/-- Undo a list of transactions, the last one first. -/
def disconnectLoop (nHeight : Nat) :
    List (CTransaction × Option CTxUndo) → CCoinsViewCache → Option (CCoinsViewCache × Bool)
  | [], c => some (c, true)
  | (tx, undo) :: rest, c => do
    let (c, ok) ← disconnectLoop nHeight rest c
    let (c, ok') ← c.disconnectTx base nHeight tx undo
    return (c, ok && ok')

end CCoinsViewCache

/-- The Sapling root `DisconnectBlock` goes back to. -/
def ConnectEnv.saplingRootAt (env : ConnectEnv) (pprev : CBlockIndex) : Uint256 :=
  if networkUpgradeActive pprev.nHeight env.params.saplingHeight then pprev.hashFinalSaplingRoot
  else env.trees.emptyRoot .sapling

/-- `DisconnectBlock` of a block over `pprev`, with its undo data: the state before
the block and whether everything matched. -/
def ConnectEnv.disconnectBlock (env : ConnectEnv) (base : CCoinsView) (block : CBlock)
    (blockUndo : CBlockUndo) (pprev : CBlockIndex) (c : CCoinsViewCache) :
    Option (CCoinsViewCache × Bool) := do
  ensure (block.hash == (c.view base).getBestBlock)
  ensure (blockUndo.vtxundo.length + 1 == block.vtx.length)
  let (c, fClean) ← c.disconnectLoop base (pprev.nHeight + 1)
    (block.vtx.zip (none :: blockUndo.vtxundo.map some))
  let c ← c.popAnchor base blockUndo.oldSproutTreeRoot .sprout
  let c ← c.popAnchor base (env.saplingRootAt pprev) .sapling
  return (c.setBestBlock pprev.phashBlock, fClean)

namespace CCoinsViewCache

variable {base : CCoinsView}

/-! ## Sound states -/

variable (base) in
/-- A cache whose flags are right and whose records are canonical. -/
structure Sound (c : CCoinsViewCache) : Prop where
  /-- The flags are right. -/
  wf : c.CacheWf base
  /-- The base's records are canonical. -/
  baseCanonical : ∀ txid k, base.getCoins txid = some k → k.Canonical
  /-- The view's records are canonical. -/
  canonical : ∀ txid, (c.coinsAt base txid).Canonical

theorem canonical_empty : ({} : CCoins).Canonical where
  trimmed := Core.Trimmed.nil
  height := fun h => absurd rfl h

/-- After a modification the record is the new one, or the base's if the entry is erased. -/
theorem coinsAt_modifyCoins_self (c : CCoinsViewCache) (txid : Uint256) (f : CCoins → CCoins) :
    (c.modifyCoins base txid f).coinsAt base txid = (f (c.coinsAt base txid)).cleanup ∨
      (c.modifyCoins base txid f).coinsAt base txid = (base.getCoins txid).getD {} := by
  unfold coinsAt
  rw [entryFor, CCoinsViewCache.modifyCoins]
  simp only [Function.update_self]
  cases hm : (c.entryFor base txid).modify f with
  | some e => exact Or.inl (modify_eq_some hm).1
  | none =>
    right
    cases hk : base.getCoins txid <;> rfl

/-- A canonical record that is written leaves a canonical one. -/
theorem canonical_modifyCoins_self {c : CCoinsViewCache} {txid : Uint256} {f : CCoins → CCoins}
    (hb : ∀ txid k, base.getCoins txid = some k → k.Canonical)
    (hf : (f (c.coinsAt base txid)).Canonical) :
    ((c.modifyCoins base txid f).coinsAt base txid).Canonical := by
  obtain hnew | hbase := coinsAt_modifyCoins_self c txid f
  · rw [hnew, hf.cleanup]
    exact hf
  · rw [hbase]
    cases hk : base.getCoins txid with
    | none => exact canonical_empty
    | some k => exact hb txid k hk

/-- Writing a canonical record keeps a state sound. -/
theorem Sound.modifyCoins {c : CCoinsViewCache} (h : c.Sound base) (txid : Uint256)
    {f : CCoins → CCoins} (hf : (f (c.coinsAt base txid)).Canonical) :
    (c.modifyCoins base txid f).Sound base where
  wf := h.wf.modifyCoins txid f
  baseCanonical := h.baseCanonical
  canonical := by
    intro id
    by_cases hid : id = txid
    · subst hid
      exact canonical_modifyCoins_self h.baseCanonical hf
    · unfold coinsAt
      simp only [entryFor, CCoinsViewCache.modifyCoins, Function.update_of_ne hid]
      exact h.canonical id

theorem Sound.of_cacheCoins {c d : CCoinsViewCache} (h : c.Sound base)
    (heq : d.cacheCoins = c.cacheCoins) : d.Sound base := by
  obtain ⟨wf, hb, hc⟩ := h
  refine ⟨⟨?_, ?_, ?_⟩, hb, ?_⟩
  · rw [heq]; exact wf.fresh
  · rw [heq]; exact wf.known
  · rw [heq]; exact wf.kept
  · intro txid
    have := hc txid
    unfold coinsAt entryFor at this ⊢
    rwa [heq]

theorem contents_of_cacheCoins {c d : CCoinsViewCache} (heq : d.cacheCoins = c.cacheCoins) :
    d.contents base = c.contents base := by
  funext txid
  unfold contents coinsAt entryFor
  rw [heq]

@[simp] theorem cacheCoins_setNullifiers (c : CCoinsViewCache) (tx : CTransaction) (b : Bool) :
    (c.setNullifiers tx b).cacheCoins = c.cacheCoins := rfl

theorem getNullifier_setNullifiers (c : CCoinsViewCache) (tx : CTransaction) (b : Bool)
    (ty : ShieldedType) (nf : Uint256) :
    ((c.setNullifiers tx b).view base).getNullifier ty nf =
      if nf ∈ tx.nullifiers ty then b else (c.view base).getNullifier ty nf := by
  unfold setNullifiers markNullifiers view
  cases ty with
  | sprout =>
    by_cases h : nf ∈ tx.nullifiers .sprout
    · simp [h]
    · simp [h]
  | sapling =>
    by_cases h : nf ∈ tx.nullifiers .sapling
    · simp [h]
    · simp [h]

/-- Two states that differ in records and nullifiers only. -/
structure SameAnchors (c d : CCoinsViewCache) : Prop where
  /-- The best block is the same. -/
  hashBlock : d.hashBlock = c.hashBlock
  /-- The best anchors are the same. -/
  hashAnchor : d.hashAnchor = c.hashAnchor
  /-- The cached anchors are the same. -/
  cacheAnchors : d.cacheAnchors = c.cacheAnchors

theorem SameAnchors.refl (c : CCoinsViewCache) : SameAnchors c c := ⟨rfl, rfl, rfl⟩

theorem SameAnchors.trans {c d e : CCoinsViewCache} (h : SameAnchors c d) (h' : SameAnchors d e) :
    SameAnchors c e :=
  ⟨h'.hashBlock.trans h.hashBlock, h'.hashAnchor.trans h.hashAnchor,
    h'.cacheAnchors.trans h.cacheAnchors⟩

/-! ## Inputs -/

/-- One step of `spendInputs`. -/
theorem spendInputs_cons {txin : CTxIn} {rest : List CTxIn} {c c' : CCoinsViewCache}
    {us : List CTxInUndo} (h : c.spendInputs base (txin :: rest) = some (c', us)) :
    ∃ k u us', (c.coinsAt base txin.prevout.hash).spendUndo txin.prevout.n.toNat = some (k, u) ∧
      (c.modifyCoins base txin.prevout.hash fun _ => k).spendInputs base rest = some (c', us') ∧
      us = u :: us' := by
  unfold spendInputs at h
  simp only [Option.bind_eq_bind, Option.bind_eq_some_iff, Prod.exists, Option.pure_def,
    Option.some.injEq, Prod.mk.injEq] at h
  obtain ⟨k, u, hk, c1, us', hrest, rfl, rfl⟩ := h
  exact ⟨k, u, us', hk, hrest, rfl⟩

theorem Sound.spendInputs {vin : List CTxIn} {c c' : CCoinsViewCache} {us : List CTxInUndo}
    (h : c.Sound base) (hs : c.spendInputs base vin = some (c', us)) : c'.Sound base := by
  induction vin generalizing c us with
  | nil =>
    cases hs
    exact h
  | cons txin rest ih =>
    obtain ⟨k, u, us', hk, hrest, -⟩ := spendInputs_cons hs
    exact ih (h.modifyCoins _ ((h.canonical _).spendUndo hk)) hrest

/-- Spending inputs touches the records only. -/
theorem spendInputs_frame {vin : List CTxIn} {c c' : CCoinsViewCache} {us : List CTxInUndo}
    (hs : c.spendInputs base vin = some (c', us)) :
    c'.cacheNullifiers = c.cacheNullifiers ∧ SameAnchors c c' := by
  induction vin generalizing c us with
  | nil =>
    cases hs
    exact ⟨rfl, .refl _⟩
  | cons txin rest ih =>
    obtain ⟨k, u, us', -, hrest, -⟩ := spendInputs_cons hs
    obtain ⟨hn, hb, ha, hca⟩ := ih hrest
    exact ⟨hn, hb, ha, hca⟩

/-- A fully spent record stays so while inputs are spent. -/
theorem spendInputs_contents_empty {vin : List CTxIn} {c c' : CCoinsViewCache}
    {us : List CTxInUndo} (h : c.Sound base) (hs : c.spendInputs base vin = some (c', us))
    {txid : Uint256} (he : c.contents base txid = {}) : c'.contents base txid = {} := by
  induction vin generalizing c us with
  | nil =>
    cases hs
    exact he
  | cons txin rest ih =>
    obtain ⟨k, u, us', hk, hrest, -⟩ := spendInputs_cons hs
    refine ih (h.modifyCoins _ ((h.canonical _).spendUndo hk)) hrest ?_
    rw [contents_modifyCoins h.wf]
    by_cases hid : txid = txin.prevout.hash
    · -- nothing can be spent from a fully spent record
      obtain ⟨o, ho, hnull, -⟩ := CCoins.spendUndo_cases hk
      have hpr : (c.coinsAt base txid).isPruned = true := by
        have hlive : (c.coinsAt base txid).live = {} := he
        rw [← CCoins.isPruned_live, hlive]
        rfl
      unfold CCoins.isPruned at hpr
      rw [List.all_eq_true] at hpr
      rw [← hid] at ho
      rw [hpr o (List.mem_of_getElem? ho)] at hnull
      cases hnull
    · rw [Function.update_of_ne hid]
      exact he

/-- Restoring the inputs of a transaction undoes spending them. -/
theorem restoreInputs_spendInputs {vin : List CTxIn} {c c' d : CCoinsViewCache}
    {us : List CTxInUndo} (h : c.Sound base) (hs : c.spendInputs base vin = some (c', us))
    (hd : d.CacheWf base) (heq : d.contents base = c'.contents base) :
    us.length = vin.length ∧ (d.restoreInputs base vin us).2 = true ∧
      (d.restoreInputs base vin us).1.CacheWf base ∧
      (d.restoreInputs base vin us).1.contents base = c.contents base ∧
      (d.restoreInputs base vin us).1.cacheNullifiers = d.cacheNullifiers ∧
      SameAnchors d (d.restoreInputs base vin us).1 := by
  induction vin generalizing c us with
  | nil =>
    cases hs
    exact ⟨rfl, rfl, hd, heq, rfl, .refl _⟩
  | cons txin rest ih =>
    obtain ⟨k, u, us', hk, hrest, rfl⟩ := spendInputs_cons hs
    have hkc := (h.canonical txin.prevout.hash).spendUndo hk
    obtain ⟨hlen, hok, hwf, hcont, hnull, hb, ha, hca⟩ := ih (h.modifyCoins _ hkc) hrest
    set r := d.restoreInputs base rest us' with hr
    rw [contents_modifyCoins h.wf, hkc.cleanup] at hcont
    -- the record found there has the content the spend left
    have hlive : (r.1.coinsAt base txin.prevout.hash).live = k.live := by
      have := congrFun hcont txin.prevout.hash
      rwa [Function.update_self] at this
    have happ := CCoins.applyUndo_spendUndo (h.canonical _) hk hlive
    have hrun : d.restoreInputs base (txin :: rest) (u :: us') =
        (r.1.modifyCoins base txin.prevout.hash fun _ => c.coinsAt base txin.prevout.hash,
          true) := by
      simp only [restoreInputs, applyTxInUndo, ← hr, happ, hok, Bool.and_self]
    rw [hrun]
    refine ⟨by rw [List.length_cons, List.length_cons, hlen], rfl, hwf.modifyCoins _ _, ?_, hnull,
      hb, ha, hca⟩
    dsimp only
    rw [contents_modifyCoins hwf, hcont, Function.update_idem, (h.canonical _).cleanup]
    exact Function.update_eq_self _ _

/-! ## Transactions -/

variable (base) in
/-- Two states with the same contents and the same spent nullifiers. -/
structure Agree (c d : CCoinsViewCache) : Prop where
  /-- The records have the same contents. -/
  contents : d.contents base = c.contents base
  /-- The same nullifiers are spent. -/
  nullifiers : (d.view base).getNullifier = (c.view base).getNullifier

/-- What `spendCoins` keeps. -/
theorem Sound.spendCoins {tx : CTransaction} {c c' : CCoinsViewCache} {us : List CTxInUndo}
    (h : c.Sound base) (hs : c.spendCoins base tx = some (c', us)) :
    c'.Sound base ∧ c'.cacheNullifiers = c.cacheNullifiers ∧ SameAnchors c c' ∧
      ∀ txid, c.contents base txid = {} → c'.contents base txid = {} := by
  unfold CCoinsViewCache.spendCoins at hs
  split at hs
  · cases hs
    exact ⟨h, rfl, .refl _, fun _ he => he⟩
  · obtain ⟨hn, hframe⟩ := spendInputs_frame hs
    exact ⟨h.spendInputs hs, hn, hframe, fun _ he => spendInputs_contents_empty h hs he⟩

/-- What `updateCoins` does, in three steps. -/
theorem updateCoins_cases {tx : CTransaction} {c c' : CCoinsViewCache} {u : CTxUndo} {h : Nat}
    (hu : c.updateCoins base tx h = some (c', u)) :
    ∃ c1, c.spendCoins base tx = some (c1, u.vprevout) ∧
      c' = if tx.isCoinImport then
          addImportTombstone base tx ((c1.setNullifiers tx true).modifyCoins base tx.hash
            fun _ => CCoins.fromTx tx h) h
        else (c1.setNullifiers tx true).modifyCoins base tx.hash fun _ => CCoins.fromTx tx h := by
  unfold updateCoins at hu
  simp only [Option.bind_eq_bind, Option.bind_eq_some_iff, Prod.exists, Option.pure_def,
    Option.some.injEq, Prod.mk.injEq] at hu
  obtain ⟨c1, us, h1, rfl, rfl⟩ := hu
  exact ⟨c1, h1, rfl⟩

/-- Undoing a transaction whose id was free and whose nullifiers were unspent. -/
theorem disconnectTx_updateCoins {tx : CTransaction} {c c' d : CCoinsViewCache} {u : CTxUndo}
    {h : Nat} {undo : Option CTxUndo} (hc : c.Sound base) (himp : tx.isCoinImport = false)
    (hout : (CCoins.fromTx tx h).Canonical) (hfree : c.contents base tx.hash = {})
    (hnf : ∀ ty, ∀ nf ∈ tx.nullifiers ty, (c.view base).getNullifier ty nf = false)
    (hu : c.updateCoins base tx h = some (c', u)) (hundo : tx.isMint = true ∨ undo = some u)
    (hd : d.CacheWf base) (hagree : Agree base c' d) :
    ∃ d', d.disconnectTx base h tx undo = some (d', true) ∧ d'.CacheWf base ∧ Agree base c d' ∧
      SameAnchors d d' := by
  obtain ⟨c1, h1, hc'⟩ := updateCoins_cases hu
  rw [himp, if_neg Bool.false_ne_true] at hc'
  subst hc'
  obtain ⟨hs1, hn1, -, hempty⟩ := hc.spendCoins h1
  have hfree1 := hempty tx.hash hfree
  have hs2 : (c1.setNullifiers tx true).Sound base := hs1.of_cacheCoins rfl
  have hcont : d.contents base =
      Function.update (c1.contents base) tx.hash (CCoins.fromTx tx h).live := by
    rw [hagree.contents, contents_modifyCoins hs2.wf, hout.cleanup,
      contents_of_cacheCoins (cacheCoins_setNullifiers c1 tx true)]
  -- the outputs match the block and are removed
  have hclean : (CCoins.outsOf (d.coinsAt base tx.hash) (CCoins.fromTx tx h)).beq
      (CCoins.fromTx tx h) = true := by
    apply CCoins.beq_outsOf
    have := congrFun hcont tx.hash
    rwa [Function.update_self] at this
  set d1 := (d.modifyCoins base tx.hash fun _ => {}).setNullifiers tx false with hd1
  have hwf1 : d1.CacheWf base := by
    have := hd.modifyCoins tx.hash fun _ => {}
    exact ⟨this.fresh, this.known, this.kept⟩
  have hcont1 : d1.contents base = c1.contents base := by
    rw [hd1, contents_of_cacheCoins (cacheCoins_setNullifiers _ tx false),
      contents_modifyCoins hd, hcont, Function.update_idem]
    have hnil : (({} : CCoins).cleanup).live = c1.contents base tx.hash := by
      rw [hfree1]
      rfl
    rw [hnil]
    exact Function.update_eq_self _ _
  have hnull1 : (d1.view base).getNullifier = (c.view base).getNullifier := by
    funext ty nf
    have hold : ((d.modifyCoins base tx.hash fun _ => {}).view base).getNullifier ty nf =
        ((c1.setNullifiers tx true).view base).getNullifier ty nf :=
      congrFun (congrFun hagree.nullifiers ty) nf
    rw [hd1, getNullifier_setNullifiers, hold, getNullifier_setNullifiers]
    by_cases hmem : nf ∈ tx.nullifiers ty
    · rw [if_pos hmem, hnf ty nf hmem]
    · rw [if_neg hmem, if_neg hmem]
      simp only [view, hn1]
  have hframe1 : SameAnchors d d1 := ⟨rfl, rfl, rfl⟩
  unfold CCoinsViewCache.spendCoins at h1
  by_cases hm : tx.isMint = true
  · rw [if_pos hm] at h1
    obtain ⟨rfl, -⟩ := Prod.mk.inj (Option.some.inj h1)
    refine ⟨d1, ?_, hwf1, ⟨hcont1, hnull1⟩, hframe1⟩
    simp only [disconnectTx, if_pos hm, himp, hclean, ← hd1, Bool.false_eq_true, if_false]
  · rw [if_neg hm] at h1
    have hundo' : undo = some u := hundo.resolve_left hm
    obtain ⟨hlen, hok, hwf2, hcont2, hn2, hframe2⟩ := restoreInputs_spendInputs hc h1 hwf1 hcont1
    refine ⟨(d1.restoreInputs base tx.vin u.vprevout).1, ?_, hwf2, ⟨hcont2, ?_⟩,
      hframe1.trans hframe2⟩
    · simp only [disconnectTx, if_neg hm, hundo', hlen, if_true, hclean, ← hd1, hok, Bool.and_self]
    · rw [← hnull1]
      simp only [view, hn2]

end CCoinsViewCache

/-! ## Blocks -/

namespace CCoinsView

private theorem joinSplitsOk_unspent {P : TreeHashes} {v : CCoinsView} {jss : List JSDescription}
    {is : List (Uint256 × MerkleTree)} (h : v.joinSplitsOk P is jss = true) :
    ∀ nf ∈ jss.flatMap fun js => js.nullifiers.toList, v.getNullifier .sprout nf = false := by
  induction jss generalizing is with
  | nil => simp
  | cons js rest ih =>
    unfold joinSplitsOk at h
    split at h
    · cases h
    · rename_i hany
      rw [Bool.not_eq_true, List.any_eq_false] at hany
      dsimp only at h
      split at h
      · cases h
      · intro nf hnf
        rw [List.flatMap_cons, List.mem_append] at hnf
        rcases hnf with hnf | hnf
        · exact Bool.eq_false_iff.2 (hany nf hnf)
        · exact ih h nf hnf

/-- A transaction that meets the JoinSplit requirements spends fresh nullifiers. -/
theorem nullifiers_unspent {P : TreeHashes} {v : CCoinsView} {tx : CTransaction}
    (h : v.haveJoinSplitRequirements P tx = true) (ty : ShieldedType) :
    ∀ nf ∈ tx.nullifiers ty, v.getNullifier ty nf = false := by
  unfold haveJoinSplitRequirements at h
  rw [Bool.and_eq_true] at h
  cases ty with
  | sprout => exact joinSplitsOk_unspent h.1
  | sapling =>
    intro nf hnf
    obtain ⟨sp, hsp, rfl⟩ := List.mem_map.1 hnf
    have := List.all_eq_true.1 h.2 sp hsp
    rw [Bool.and_eq_true, Bool.not_eq_true'] at this
    exact this.1

end CCoinsView

namespace ConnectEnv

variable {env : ConnectEnv} {base : CCoinsView}

/-- What one iteration of the loop does. -/
theorem connectTx_cases {pindex : CBlockIndex} {tx : CTransaction} {s s' : LoopState}
    {u : CTxUndo} (h : env.connectTx base pindex tx s = some (s', u)) :
    (tx.isMint = true ∨ ((s.view.view base).haveInputs tx = true ∧
      (s.view.view base).haveJoinSplitRequirements env.trees tx = true)) ∧
    (tx.isCoinBase = true ∨
      env.checks.contextualCheckInputs (s.view.view base) tx pindex = true) ∧
    s.view.updateCoins base tx pindex.nHeight = some (s'.view, u) ∧
    (tx.vjoinsplit.flatMap fun js => js.commitments.toList).foldlM (env.trees.append .sprout)
      s.sproutTree = some s'.sproutTree ∧
    (tx.vShieldedOutput.map OutputDescription.cm).foldlM (env.trees.append .sapling)
      s.saplingTree = some s'.saplingTree := by
  unfold connectTx at h
  dsimp only at h
  rw [ensure_bind_eq_some, ensure_bind_eq_some] at h
  obtain ⟨h1, h2, h3⟩ := h
  simp only [Option.bind_eq_bind, Option.bind_eq_some_iff, Prod.exists, Option.pure_def,
    Option.some.injEq, Prod.mk.injEq] at h3
  obtain ⟨c, u', hu, t1, ht1, t2, ht2, rfl, rfl⟩ := h3
  simp only [Bool.or_eq_true, Bool.and_eq_true] at h1 h2
  exact ⟨h1, h2, hu, ht1, ht2⟩

theorem connectLoop_cons {pindex : CBlockIndex} {tx : CTransaction} {rest : List CTransaction}
    {s s' : LoopState} {undos : List CTxUndo}
    (h : env.connectLoop base pindex (tx :: rest) s = some (s', undos)) :
    ∃ s1 u us, env.connectTx base pindex tx s = some (s1, u) ∧
      env.connectLoop base pindex rest s1 = some (s', us) ∧ undos = u :: us := by
  unfold connectLoop at h
  simp only [Option.bind_eq_bind, Option.bind_eq_some_iff, Prod.exists, Option.pure_def,
    Option.some.injEq, Prod.mk.injEq] at h
  obtain ⟨s1, u, h1, s2, us, h2, rfl, rfl⟩ := h
  exact ⟨s1, u, us, h1, h2, rfl⟩

variable (env base) in
/-- Along the loop, no transaction is applied while outputs under its id are unspent. -/
def NoOverwriteAlong (pindex : CBlockIndex) : List CTransaction → LoopState → Prop
  | [], _ => True
  | tx :: rest, s => (s.view.contents base tx.hash).isPruned = true ∧
      ∀ s' u, env.connectTx base pindex tx s = some (s', u) → NoOverwriteAlong pindex rest s'

/-- What the context-free checks give for a transaction that imports no coins. -/
structure Undoable (nHeight : Nat) (tx : CTransaction) : Prop where
  /-- It imports no coins. -/
  noImport : tx.isCoinImport = false
  /-- Its outputs make a canonical record. -/
  canonical : (CCoins.fromTx tx nHeight).Canonical
  /-- A minting transaction reveals no nullifier. -/
  mint : tx.isMint = true → ∀ ty, tx.nullifiers ty = []

private theorem contents_eq_empty {c : CCoinsViewCache} {txid : Uint256}
    (h : (c.contents base txid).isPruned = true) : c.contents base txid = {} := by
  unfold CCoinsViewCache.contents at h ⊢
  rw [CCoins.isPruned_live] at h
  exact CCoins.live_of_isPruned h

/-- Undoing one iteration of the loop. -/
theorem disconnectTx_connectTx {pindex : CBlockIndex} {tx : CTransaction} {s s' : LoopState}
    {u : CTxUndo} (undo : Option CTxUndo) {d : CCoinsViewCache} (hs : s.view.Sound base)
    (htx : Undoable pindex.nHeight tx)
    (hfree : (s.view.contents base tx.hash).isPruned = true)
    (h : env.connectTx base pindex tx s = some (s', u)) (hundo : tx.isMint = true ∨ undo = some u)
    (hd : d.CacheWf base) (hagree : CCoinsViewCache.Agree base s'.view d) :
    ∃ d', d.disconnectTx base pindex.nHeight tx undo = some (d', true) ∧ d'.CacheWf base ∧
      CCoinsViewCache.Agree base s.view d' ∧ CCoinsViewCache.SameAnchors d d' := by
  obtain ⟨hin, -, hu, -, -⟩ := connectTx_cases h
  refine CCoinsViewCache.disconnectTx_updateCoins hs htx.noImport htx.canonical
    (contents_eq_empty hfree) ?_ hu hundo hd hagree
  intro ty nf hnf
  rcases hin with hm | ⟨-, hjs⟩
  · rw [htx.mint hm ty] at hnf
    cases hnf
  · exact CCoinsView.nullifiers_unspent hjs ty nf hnf

theorem Sound.connectTx {pindex : CBlockIndex} {tx : CTransaction} {s s' : LoopState} {u : CTxUndo}
    (hs : s.view.Sound base) (hout : (CCoins.fromTx tx pindex.nHeight).Canonical)
    (hh : pindex.nHeight ≠ 0) (h : env.connectTx base pindex tx s = some (s', u)) :
    s'.view.Sound base ∧ CCoinsViewCache.SameAnchors s.view s'.view := by
  obtain ⟨-, -, hu, -, -⟩ := connectTx_cases h
  obtain ⟨c1, h1, hc'⟩ := CCoinsViewCache.updateCoins_cases hu
  obtain ⟨hs1, -, hframe, -⟩ := hs.spendCoins h1
  have hs2 : (c1.setNullifiers tx true).Sound base := hs1.of_cacheCoins rfl
  have hs3 : ((c1.setNullifiers tx true).modifyCoins base tx.hash
      fun _ => CCoins.fromTx tx pindex.nHeight).Sound base := hs2.modifyCoins _ hout
  rw [hc']
  split
  · unfold CCoinsViewCache.addImportTombstone
    split
    · exact ⟨hs3, hframe.hashBlock, hframe.hashAnchor, hframe.cacheAnchors⟩
    · refine ⟨hs3.modifyCoins _ ⟨?_, fun _ => hh⟩, hframe.hashBlock, hframe.hashAnchor,
        hframe.cacheAnchors⟩
      exact (hs3.canonical _).trimmed.concat rfl
  · exact ⟨hs3, hframe.hashBlock, hframe.hashAnchor, hframe.cacheAnchors⟩

/-- The loop keeps states sound and leaves the anchors alone. -/
theorem Sound.connectLoop {pindex : CBlockIndex} {txs : List CTransaction} {s s' : LoopState}
    {undos : List CTxUndo} (hs : s.view.Sound base)
    (hout : ∀ tx ∈ txs, (CCoins.fromTx tx pindex.nHeight).Canonical) (hh : pindex.nHeight ≠ 0)
    (h : env.connectLoop base pindex txs s = some (s', undos)) :
    s'.view.Sound base ∧ CCoinsViewCache.SameAnchors s.view s'.view := by
  induction txs generalizing s undos with
  | nil =>
    cases h
    exact ⟨hs, .refl _⟩
  | cons tx rest ih =>
    obtain ⟨s1, u, us, h1, h2, -⟩ := connectLoop_cons h
    obtain ⟨hs1, hf1⟩ := Sound.connectTx hs (hout tx (by simp)) hh h1
    obtain ⟨hs2, hf2⟩ := ih hs1 (fun tx' htx' => hout tx' (by simp [htx'])) h2
    exact ⟨hs2, hf1.trans hf2⟩

/-- The reverse loop undoes the transaction loop. -/
theorem disconnectLoop_connectLoop {pindex : CBlockIndex} {txs : List CTransaction}
    {s s' : LoopState} {undos : List CTxUndo} {d : CCoinsViewCache} (hs : s.view.Sound base)
    (hh : pindex.nHeight ≠ 0) (htxs : ∀ tx ∈ txs, Undoable pindex.nHeight tx)
    (h : env.connectLoop base pindex txs s = some (s', undos))
    (hover : env.NoOverwriteAlong base pindex txs s)
    (hd : d.CacheWf base) (hagree : CCoinsViewCache.Agree base s'.view d) :
    undos.length = txs.length ∧
    ∃ d', d.disconnectLoop base pindex.nHeight (txs.zip (undos.map some)) = some (d', true) ∧
      d'.CacheWf base ∧ CCoinsViewCache.Agree base s.view d' ∧
      CCoinsViewCache.SameAnchors d d' := by
  induction txs generalizing s undos with
  | nil =>
    cases h
    exact ⟨rfl, d, rfl, hd, hagree, .refl _⟩
  | cons tx rest ih =>
    obtain ⟨s1, u, us, h1, h2, rfl⟩ := connectLoop_cons h
    have htx := htxs tx (by simp)
    obtain ⟨hs1, -⟩ := Sound.connectTx hs htx.canonical hh h1
    obtain ⟨hlen, d1, hd1, hwf1, hagree1, hframe1⟩ :=
      ih hs1 (fun tx' htx' => htxs tx' (by simp [htx'])) h2 (hover.2 s1 u h1)
    obtain ⟨d2, hd2, hwf2, hagree2, hframe2⟩ :=
      disconnectTx_connectTx (some u) hs htx hover.1 h1 (Or.inr rfl) hwf1 hagree1
    refine ⟨by rw [List.length_cons, List.length_cons, hlen], d2, ?_, hwf2, hagree2,
      hframe1.trans hframe2⟩
    simp only [List.map_cons, List.zip_cons_cons, CCoinsViewCache.disconnectLoop, hd1, hd2,
      Option.bind_eq_bind, Option.bind_some, Bool.and_self, Option.pure_def]

end ConnectEnv

end IndexChain
