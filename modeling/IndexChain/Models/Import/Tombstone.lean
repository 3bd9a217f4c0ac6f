import IndexChain.Models.Coins.Reached
import IndexChain.Models.Import.ImportCoin

/-!
# Redeeming a burn once

An import leaves a tombstone output under the id of its burn transaction. The
tombstone survives everything a later block does, unless a transaction is
applied over it or spends it; so a chain on which every import finds no
tombstone redeems no burn twice (`redeemedOnce_of_guardedChain`). `ConnectBlock`
itself does not look for the tombstone: only the mempool does.
-/

namespace IndexChain

open IndexChain.Core

/-- The burn transaction an import redeems. -/
def CTransaction.burnHash (tx : CTransaction) : Uint256 :=
  match tx.vin with
  | [] => 0
  | txin :: _ => txin.prevout.hash

namespace CCoinsViewCache

variable {base : CCoinsView}

variable (base) in
/-- A tombstone is recorded under an id. -/
def Redeemed (c : CCoinsViewCache) (burn : Uint256) : Prop :=
  tombstone ∈ (c.coinsAt base burn).vout

/-- A recorded tombstone is what `ExistsImportTombstone` sees. -/
theorem Redeemed.haveCoins {c : CCoinsViewCache} {burn : Uint256} (h : c.Redeemed base burn) :
    c.haveCoins base burn = true := by
  unfold Redeemed at h
  rw [← getCoins_getD] at h
  unfold CCoinsViewCache.haveCoins
  cases hk : (c.view base).getCoins burn with
  | none =>
    rw [hk] at h
    cases h
  | some k =>
    rw [hk, Option.getD_some] at h
    cases hv : k.vout with
    | nil =>
      rw [hv] at h
      cases h
    | cons o os => simp [hv]

theorem coinsAt_modifyCoins_of_ne {c : CCoinsViewCache} {txid id : Uint256} (hid : id ≠ txid)
    (f : CCoins → CCoins) : (c.modifyCoins base txid f).coinsAt base id = c.coinsAt base id := by
  unfold coinsAt
  simp only [entryFor, modifyCoins, Function.update_of_ne hid]

private theorem tombstone_mem_cleanup {c : CCoins} (h : tombstone ∈ c.vout) :
    tombstone ∈ c.cleanup.vout := by
  have hsplit : c.vout.rdropWhile CTxOut.isNull ++ c.vout.rtakeWhile CTxOut.isNull = c.vout :=
    List.rdropWhile_append_rtakeWhile
  rw [← hsplit, List.mem_append] at h
  rcases h with h | h
  · exact h
  · exact absurd (List.mem_rtakeWhile_imp h) (by decide)

/-- Writing a record that holds a tombstone records it. -/
theorem redeemed_modifyCoins {c : CCoinsViewCache} {txid : Uint256} {f : CCoins → CCoins}
    (h : tombstone ∈ (f (c.coinsAt base txid)).vout) :
    (c.modifyCoins base txid f).Redeemed base txid := by
  have hclean := tombstone_mem_cleanup h
  unfold Redeemed coinsAt
  rw [entryFor, CCoinsViewCache.modifyCoins]
  simp only [Function.update_self]
  cases hm : (c.entryFor base txid).modify f with
  | some e =>
    rw [(modify_eq_some hm).1]
    exact hclean
  | none =>
    -- a record with a tombstone is not spent, so it is not erased
    have hpr := (modify_eq_none hm).2
    unfold CCoins.isPruned at hpr
    exact absurd (List.all_eq_true.1 hpr tombstone hclean) (by decide)

/-- A modification elsewhere keeps a tombstone. -/
theorem Redeemed.modifyCoins_of_ne {c : CCoinsViewCache} {txid burn : Uint256}
    (h : c.Redeemed base burn) (hne : burn ≠ txid) (f : CCoins → CCoins) :
    (c.modifyCoins base txid f).Redeemed base burn := by
  unfold Redeemed
  rwa [coinsAt_modifyCoins_of_ne hne]

variable (base) in
/-- Whether an input spends a tombstone output. -/
def spendsTombstone (c : CCoinsViewCache) (txin : CTxIn) : Bool :=
  (c.coinsAt base txin.prevout.hash).vout[txin.prevout.n.toNat]? == some tombstone

/-- Spending an output puts no tombstone in place. -/
private theorem tombstone_of_spend {k k' : CCoins} {u : CTxInUndo} {m n : Nat}
    (hs : k.spendUndo m = some (k', u)) (h : k'.vout[n]? = some tombstone) :
    k.vout[n]? = some tombstone := by
  obtain ⟨o, -, -, rfl, -⟩ := CCoins.spendUndo_cases hs
  obtain ⟨hn, hget⟩ := List.getElem?_eq_some_iff.1 h
  dsimp only at hn hget
  have hpre := List.rdropWhile_prefix CTxOut.isNull (k.vout.set m CTxOut.null)
  rw [hpre.getElem hn] at hget
  have hset : (k.vout.set m CTxOut.null)[n]? = some tombstone :=
    List.getElem?_eq_some_iff.2 ⟨_, hget⟩
  rw [List.getElem?_set] at hset
  split at hset
  · split at hset
    · exact absurd (Option.some.inj hset) (by decide)
    · cases hset
  · exact hset

/-- After an input is spent, the others still spend no tombstone. -/
private theorem spendsTombstone_spend {c : CCoinsViewCache} (hwf : c.CacheWf base) {k : CCoins}
    {u : CTxInUndo} {txin txin' : CTxIn}
    (hs : (c.coinsAt base txin.prevout.hash).spendUndo txin.prevout.n.toNat = some (k, u))
    (hno : c.spendsTombstone base txin' = false) :
    (c.modifyCoins base txin.prevout.hash fun _ => k).spendsTombstone base txin' = false := by
  unfold spendsTombstone at hno ⊢
  rw [beq_eq_false_iff_ne] at hno ⊢
  by_cases hid : txin'.prevout.hash = txin.prevout.hash
  · intro h
    apply hno
    rw [hid] at h ⊢
    unfold coinsAt at h
    rw [entryFor, CCoinsViewCache.modifyCoins] at h
    simp only [Function.update_self] at h
    cases hm : (c.entryFor base txin.prevout.hash).modify fun _ => k with
    | some e =>
      obtain ⟨o, -, -, hk, -⟩ := CCoins.spendUndo_cases hs
      have hclean : k.cleanup = k := by
        rw [hk]
        simp only [CCoins.cleanup, List.rdropWhile_idempotent]
      rw [hm, (modify_eq_some hm).1, hclean] at h
      exact tombstone_of_spend hs h
    | none =>
      -- the record below a fresh entry is spent and holds no tombstone
      rw [hm] at h
      cases hb : base.getCoins txin.prevout.hash with
      | none => simp [hb] at h
      | some kb =>
        have hpr := hwf.entryFor_fresh (modify_eq_none hm).1 hb
        rw [hb] at h
        unfold CCoins.isPruned at hpr
        exact absurd (List.all_eq_true.1 hpr tombstone (List.mem_of_getElem? h)) (by decide)
  · rwa [coinsAt_modifyCoins_of_ne hid]

/-- Spending outputs other than tombstones keeps every tombstone. -/
theorem Redeemed.spendInputs {vin : List CTxIn} {c c' : CCoinsViewCache} {us : List CTxInUndo}
    {burn : Uint256} (h : c.Redeemed base burn) (hwf : c.CacheWf base)
    (hno : ∀ txin ∈ vin, c.spendsTombstone base txin = false)
    (hs : c.spendInputs base vin = some (c', us)) : c'.Redeemed base burn := by
  induction vin generalizing c us with
  | nil =>
    cases hs
    exact h
  | cons txin rest ih =>
    obtain ⟨k, u, us', hk, hrest, -⟩ := spendInputs_cons hs
    refine ih ?_ (hwf.modifyCoins _ _) (fun txin' hmem => ?_) hrest
    · by_cases hid : burn = txin.prevout.hash
      · subst hid
        apply redeemed_modifyCoins
        obtain ⟨i, hi⟩ := List.mem_iff_getElem?.1 h
        have hne : txin.prevout.n.toNat ≠ i := by
          rintro rfl
          have := hno txin (by simp)
          unfold spendsTombstone at this
          rw [beq_eq_false_iff_ne] at this
          exact this hi
        obtain ⟨o, -, -, rfl, -⟩ := CCoins.spendUndo_cases hk
        have hset : tombstone ∈ ((c.coinsAt base txin.prevout.hash).vout.set
            txin.prevout.n.toNat CTxOut.null) := by
          rw [List.mem_iff_getElem?]
          exact ⟨i, by rw [List.getElem?_set_ne hne]; exact hi⟩
        exact tombstone_mem_cleanup (c := { c.coinsAt base txin.prevout.hash with vout := _ }) hset
      · exact h.modifyCoins_of_ne hid _
    · exact spendsTombstone_spend hwf hk (hno txin' (by simp [hmem]))

theorem CacheWf.spendInputs {vin : List CTxIn} {c c' : CCoinsViewCache} {us : List CTxInUndo}
    (h : c.CacheWf base) (hs : c.spendInputs base vin = some (c', us)) : c'.CacheWf base := by
  induction vin generalizing c us with
  | nil =>
    cases hs
    exact h
  | cons txin rest ih =>
    obtain ⟨k, u, us', -, hrest, -⟩ := spendInputs_cons hs
    exact ih (h.modifyCoins _ _) hrest

theorem CacheWf.of_cacheCoins {c d : CCoinsViewCache} (h : c.CacheWf base)
    (heq : d.cacheCoins = c.cacheCoins) : d.CacheWf base :=
  ⟨heq ▸ h.fresh, heq ▸ h.known, heq ▸ h.kept⟩

theorem Redeemed.of_cacheCoins {c d : CCoinsViewCache} {burn : Uint256}
    (h : c.Redeemed base burn) (heq : d.cacheCoins = c.cacheCoins) : d.Redeemed base burn := by
  unfold Redeemed coinsAt entryFor at h ⊢
  rwa [heq]

end CCoinsViewCache

namespace ConnectEnv

variable {env : ConnectEnv} {base : CCoinsView}

variable (base) in
/-- The state in which a transaction may be applied without losing a tombstone or
redeeming a burn again: an import finds no tombstone, no tombstone is spent, and
nothing unspent is overwritten. -/
def guardedTx (c : CCoinsViewCache) (tx : CTransaction) : Bool :=
  (!tx.isCoinImport || !c.existsImportTombstone base tx) &&
  (tx.isMint || tx.vin.all fun txin => !c.spendsTombstone base txin) &&
  (c.contents base tx.hash).isPruned

/-- One transaction: tombstones stay, and an import leaves one. -/
theorem redeemed_connectTx {pindex : CBlockIndex} {tx : CTransaction} {s s' : LoopState}
    {u : CTxUndo} (hwf : s.view.CacheWf base) (hg : guardedTx base s.view tx = true)
    (h : env.connectTx base pindex tx s = some (s', u)) :
    s'.view.CacheWf base ∧
    (∀ burn, s.view.Redeemed base burn → s'.view.Redeemed base burn) ∧
    (tx.isCoinImport = true → s'.view.Redeemed base tx.burnHash) := by
  obtain ⟨-, -, hu, -, -⟩ := connectTx_cases h
  obtain ⟨c1, h1, hc'⟩ := CCoinsViewCache.updateCoins_cases hu
  simp only [guardedTx, Bool.and_eq_true, Bool.or_eq_true, List.all_eq_true,
    Bool.not_eq_true'] at hg
  obtain ⟨⟨-, hspends⟩, hfree⟩ := hg
  -- the inputs
  have hspend : c1.CacheWf base ∧ ∀ burn, s.view.Redeemed base burn → c1.Redeemed base burn := by
    unfold CCoinsViewCache.spendCoins at h1
    split at h1
    · obtain ⟨rfl, -⟩ := Prod.mk.inj (Option.some.inj h1)
      exact ⟨hwf, fun _ hr => hr⟩
    · rename_i hm
      have hno := hspends.resolve_left hm
      exact ⟨hwf.spendInputs h1, fun _ hr => hr.spendInputs hwf hno h1⟩
  obtain ⟨hwf1, hred1⟩ := hspend
  -- the outputs go under an id that holds nothing
  have hne : ∀ burn, s.view.Redeemed base burn → burn ≠ tx.hash := by
    rintro burn hr rfl
    unfold CCoinsViewCache.contents at hfree
    rw [CCoins.isPruned_live] at hfree
    unfold CCoins.isPruned at hfree
    exact absurd (List.all_eq_true.1 hfree CCoinsViewCache.tombstone hr) (by decide)
  have hwfn : (c1.setNullifiers tx true).CacheWf base := hwf1.of_cacheCoins rfl
  have hredn : ∀ burn, s.view.Redeemed base burn →
      (c1.setNullifiers tx true).Redeemed base burn :=
    fun burn hr => (hred1 burn hr).of_cacheCoins rfl
  have hwf2 := hwfn.modifyCoins tx.hash fun _ => CCoins.fromTx tx pindex.nHeight
  have hred2 : ∀ burn, s.view.Redeemed base burn →
      ((c1.setNullifiers tx true).modifyCoins base tx.hash
        fun _ => CCoins.fromTx tx pindex.nHeight).Redeemed base burn :=
    fun burn hr => (hredn burn hr).modifyCoins_of_ne (hne burn hr) _
  rw [hc']
  split
  · -- an import adds its tombstone on top
    unfold CCoinsViewCache.addImportTombstone CTransaction.burnHash
    cases hv : tx.vin with
    | nil =>
      rename_i himp
      simp [CTransaction.isCoinImport, hv] at himp
    | cons txin rest =>
      refine ⟨hwf2.modifyCoins _ _, fun burn hr => ?_, fun _ => ?_⟩
      · by_cases hid : burn = txin.prevout.hash
        · subst hid
          exact CCoinsViewCache.redeemed_modifyCoins (List.mem_append_right _ (by simp))
        · exact (hred2 burn hr).modifyCoins_of_ne hid _
      · exact CCoinsViewCache.redeemed_modifyCoins (List.mem_append_right _ (by simp))
  · rename_i himp
    exact ⟨hwf2, hred2, fun h' => absurd h' himp⟩

/-- An import that is let through redeems a burn without a tombstone. -/
theorem not_redeemed_of_guardedTx {c : CCoinsViewCache} {tx : CTransaction}
    (hg : guardedTx base c tx = true) (himp : tx.isCoinImport = true) :
    ¬ c.Redeemed base tx.burnHash := by
  intro hr
  have hhave := hr.haveCoins
  simp only [guardedTx, himp, Bool.not_true, Bool.false_or, Bool.and_eq_true,
    Bool.not_eq_true'] at hg
  unfold CCoinsViewCache.existsImportTombstone at hg
  unfold CTransaction.burnHash at hhave
  cases hv : tx.vin with
  | nil => simp [CTransaction.isCoinImport, hv] at himp
  | cons txin rest =>
    rw [hv] at hg hhave
    exact absurd (hg.1.1.symm.trans hhave) (by decide)

variable (env base) in
/-- `guardedTx` at every transaction of a list, in the state it is applied to. -/
def guardedLoop (pindex : CBlockIndex) : List CTransaction → LoopState → Bool
  | [], _ => true
  | tx :: rest, s => guardedTx base s.view tx &&
    match env.connectTx base pindex tx s with
    | none => true
    | some (s, _) => guardedLoop pindex rest s

/-- The burns that the imports of a list of transactions redeem. -/
def burnsOf (txs : List CTransaction) : List Uint256 :=
  (txs.filter CTransaction.isCoinImport).map CTransaction.burnHash

theorem burnsOf_append (txs txs' : List CTransaction) :
    burnsOf (txs ++ txs') = burnsOf txs ++ burnsOf txs' := by
  simp [burnsOf]

variable (base) in
/-- A list of burns, redeemed one after another from one state to another. -/
structure RedeemedInTurn (burns : List Uint256) (c c' : CCoinsViewCache) : Prop where
  /-- Tombstones stay. -/
  kept : ∀ burn, c.Redeemed base burn → c'.Redeemed base burn
  /-- Every burn of the list has a tombstone in the end. -/
  added : ∀ burn ∈ burns, c'.Redeemed base burn
  /-- No burn of the list had one in the beginning. -/
  unredeemed : ∀ burn ∈ burns, ¬ c.Redeemed base burn
  /-- No burn is in the list twice. -/
  nodup : burns.Nodup

theorem RedeemedInTurn.refl (c : CCoinsViewCache) : RedeemedInTurn base [] c c where
  kept _ h := h
  added := by simp
  unredeemed := by simp
  nodup := List.nodup_nil

theorem RedeemedInTurn.trans {burns burns' : List Uint256} {c d e : CCoinsViewCache}
    (h : RedeemedInTurn base burns c d) (h' : RedeemedInTurn base burns' d e) :
    RedeemedInTurn base (burns ++ burns') c e where
  kept burn hr := h'.kept burn (h.kept burn hr)
  added burn hmem := by
    rcases List.mem_append.1 hmem with hb | hb
    · exact h'.kept burn (h.added burn hb)
    · exact h'.added burn hb
  unredeemed burn hmem hr := by
    rcases List.mem_append.1 hmem with hb | hb
    · exact h.unredeemed burn hb hr
    · exact h'.unredeemed burn hb (h.kept burn hr)
  nodup := by
    refine List.nodup_append.2 ⟨h.nodup, h'.nodup, ?_⟩
    rintro burn hb _ hb' rfl
    exact h'.unredeemed burn hb' (h.added burn hb)

/-- The transaction loop. -/
theorem redeemed_connectLoop {pindex : CBlockIndex} {txs : List CTransaction} {s s' : LoopState}
    {undos : List CTxUndo} (hwf : s.view.CacheWf base)
    (hg : env.guardedLoop base pindex txs s = true)
    (h : env.connectLoop base pindex txs s = some (s', undos)) :
    s'.view.CacheWf base ∧ RedeemedInTurn base (burnsOf txs) s.view s'.view := by
  induction txs generalizing s undos with
  | nil =>
    cases h
    exact ⟨hwf, .refl _⟩
  | cons tx rest ih =>
    obtain ⟨s1, u, us, h1, hrest, -⟩ := connectLoop_cons h
    simp only [guardedLoop, h1, Bool.and_eq_true] at hg
    obtain ⟨hwf1, hkept, hadded⟩ := redeemed_connectTx hwf hg.1 h1
    obtain ⟨hwf', hturn⟩ := ih hwf1 hg.2 hrest
    refine ⟨hwf', ?_⟩
    -- the first transaction adds its burn when it is an import, and none otherwise
    have hfirst : RedeemedInTurn base (burnsOf [tx]) s.view s1.view := by
      cases himp : tx.isCoinImport with
      | false =>
        rw [show burnsOf [tx] = [] by simp [burnsOf, himp]]
        exact ⟨hkept, by simp, by simp, List.nodup_nil⟩
      | true =>
        rw [show burnsOf [tx] = [tx.burnHash] by simp [burnsOf, himp]]
        refine ⟨hkept, ?_, ?_, List.nodup_singleton _⟩
        · simpa using hadded himp
        · simpa using not_redeemed_of_guardedTx hg.1 himp
    have happ := hfirst.trans hturn
    rwa [← burnsOf_append] at happ

/-! ## Chains of blocks -/

variable (env) in
/-- The transactions `ConnectBlock` applies: none of the genesis block. -/
def appliedTxs (block : CBlock) : List CTransaction :=
  if block.hash = env.params.hashGenesisBlock then [] else block.vtx

variable (env base) in
/-- Connect one block after another. -/
def connectChain : List CBlock → Option CBlockIndex → CCoinsViewCache → Option CCoinsViewCache
  | [], _, c => some c
  | block :: rest, pprev, c => do
    let (c, _) ← env.connectBlock base block pprev c
    connectChain rest (some (CBlockIndex.ofBlock block pprev)) c

variable (env base) in
/-- `guardedTx` at every transaction of a block. -/
def guardedBlock (block : CBlock) (pprev : Option CBlockIndex) (c : CCoinsViewCache) : Bool :=
  let v := c.view base
  match v.getAnchorAt .sprout (v.getBestAnchor .sprout),
    v.getAnchorAt .sapling (v.getBestAnchor .sapling) with
  | some t1, some t2 => env.guardedLoop base (CBlockIndex.ofBlock block pprev)
      (env.appliedTxs block) { view := c, sproutTree := t1, saplingTree := t2 }
  | _, _ => true

variable (env base) in
/-- `guardedTx` at every transaction of a chain. -/
def guardedChain : List CBlock → Option CBlockIndex → CCoinsViewCache → Bool
  | [], _, _ => true
  | block :: rest, pprev, c => env.guardedBlock base block pprev c &&
    match env.connectBlock base block pprev c with
    | none => true
    | some (c, _) => guardedChain rest (some (CBlockIndex.ofBlock block pprev)) c

variable (env) in
/-- Distinct imports of a chain redeem distinct burns. -/
def RedeemedOnce (blocks : List CBlock) : Prop :=
  ∀ block ∈ blocks, ∀ tx ∈ env.appliedTxs block, ∀ block' ∈ blocks, ∀ tx' ∈ env.appliedTxs block',
    tx.isCoinImport = true → tx'.isCoinImport = true → tx ≠ tx' → tx.burnHash ≠ tx'.burnHash

/-- A block. -/
theorem redeemed_connectBlock {block : CBlock} {pprev : Option CBlockIndex}
    {c c' : CCoinsViewCache} {undo : CBlockUndo} (hwf : c.CacheWf base)
    (hg : env.guardedBlock base block pprev c = true)
    (h : env.connectBlock base block pprev c = some (c', undo)) :
    c'.CacheWf base ∧ RedeemedInTurn base (burnsOf (env.appliedTxs block)) c c' := by
  by_cases hgen : block.hash = env.params.hashGenesisBlock
  · obtain ⟨-, rfl⟩ := connectBlock_genesis h hgen
    rw [appliedTxs, if_pos hgen]
    exact ⟨hwf.of_cacheCoins rfl, fun _ hr => hr.of_cacheCoins rfl, by simp [burnsOf],
      by simp [burnsOf], List.nodup_nil⟩
  · obtain ⟨p, t1, t2, s, undos, rfl, -, -, -, ht1, ht2, hloop, -, rfl, -⟩ :=
      connectBlock_cases h hgen
    simp only [guardedBlock, ht1, ht2, appliedTxs, if_neg hgen] at hg ⊢
    obtain ⟨hwf', hturn⟩ := redeemed_connectLoop hwf hg hloop
    have hcoins : (((s.view.pushAnchor base env.trees .sprout s.sproutTree).pushAnchor base
        env.trees .sapling s.saplingTree).setBestBlock block.hash).cacheCoins =
          s.view.cacheCoins := by
      rw [CCoinsViewCache.cacheCoins_setBestBlock, CCoinsViewCache.cacheCoins_pushAnchor,
        CCoinsViewCache.cacheCoins_pushAnchor]
    exact ⟨hwf'.of_cacheCoins hcoins, fun burn hr => (hturn.kept burn hr).of_cacheCoins hcoins,
      fun burn hb => (hturn.added burn hb).of_cacheCoins hcoins, hturn.unredeemed, hturn.nodup⟩

/-- A chain. -/
theorem redeemed_connectChain {blocks : List CBlock} {pprev : Option CBlockIndex}
    {c c' : CCoinsViewCache} (hwf : c.CacheWf base)
    (hg : env.guardedChain base blocks pprev c = true)
    (h : env.connectChain base blocks pprev c = some c') :
    RedeemedInTurn base (burnsOf (blocks.flatMap env.appliedTxs)) c c' := by
  induction blocks generalizing pprev c with
  | nil =>
    cases h
    exact .refl _
  | cons block rest ih =>
    simp only [connectChain, Option.bind_eq_bind, Option.bind_eq_some_iff, Prod.exists] at h
    obtain ⟨c1, undo, h1, hrest⟩ := h
    simp only [guardedChain, h1, Bool.and_eq_true] at hg
    obtain ⟨hwf1, hturn⟩ := redeemed_connectBlock hwf hg.1 h1
    rw [List.flatMap_cons, burnsOf_append]
    exact hturn.trans (ih hwf1 hg.2 hrest)

/-- On a chain on which every import finds no tombstone, no burn is redeemed twice. -/
theorem redeemedOnce_of_guardedChain {blocks : List CBlock} {pprev : Option CBlockIndex}
    {c c' : CCoinsViewCache} (hwf : c.CacheWf base)
    (h : env.connectChain base blocks pprev c = some c')
    (hg : env.guardedChain base blocks pprev c = true) : env.RedeemedOnce blocks := by
  intro block hblock tx htx block' hblock' tx' htx' himp himp' hne heq
  have hnodup := (redeemed_connectChain hwf hg h).nodup
  have hmem : ∀ {b t}, b ∈ blocks → t ∈ env.appliedTxs b → t.isCoinImport = true →
      t ∈ (blocks.flatMap env.appliedTxs).filter CTransaction.isCoinImport := by
    intro b t hb ht hi
    exact List.mem_filter.2 ⟨List.mem_flatMap.2 ⟨b, hb, ht⟩, hi⟩
  exact hne (List.inj_on_of_nodup_map hnodup (hmem hblock htx himp) (hmem hblock' htx' himp') heq)

end ConnectEnv

/-! ## Two imports of one burn -/

namespace SampleImports

/-- A burn of 100000. -/
def burnTx : CTransaction :=
  { hash := 0x77, vout := [{ nValue := 100000, scriptPubKey := [0x6a, 0x01, 0xe2] }] }

/-- What the burn pays out. -/
def payouts : List CTxOut := [{ nValue := 95000, scriptPubKey := [0x51] }]

/-- The canonical import of a burn. The id stands in for the hash: it depends on
the burn and on the expiry height. -/
def makeImport (burnTx : CTransaction) (payouts : List CTxOut) (nExpiryHeight : UInt32) :
    CTransaction :=
  { hash := burnTx.hash + BitVec.ofNat 256 (4096 * (1 + nExpiryHeight.toNat))
    vin := [{ prevout := { hash := burnTx.hash, n := 1000000000 }, scriptSig := [0x01, 0xe2] }]
    vout := payouts ++ [{ nValue := 0, scriptPubKey := [0x6a, 0x01, 0xe2] }]
    nExpiryHeight := nExpiryHeight }

/-- Other burns of as much. -/
def burn (hash : Uint256) : CTransaction := { burnTx with hash := hash }

/-- The import evaluator with the decoders for the sample transactions. -/
def importEnv : ImportEnv where
  assetchainsSymbol := "SAMPLE"
  assetchainsCC := 100
  disabled _ := false
  unmarshalImportTx tx := some ([], burn tx.burnHash, tx.vout.dropLast)
  makeImportCoinTransaction _ := makeImport
  unmarshalBurnTx _ := some { targetSymbol := "SAMPLE", targetCcid := 100, payoutsHash := 0x55,
                              rawproof := [] }
  serializeHash outs := if outs = payouts then 0x55 else 0
  checkMigration _ _ _ _ _ := true
  checkExternalImport _ _ _ _ _ := .error "external"
  checkTxInputs _ _ _ := true

/-- A chain with both upgrades active from the first block. -/
def env : ConnectEnv where
  params := { hashGenesisBlock := 1, overwinterHeight := 1, saplingHeight := 1,
              saplingHeight_pos := Or.inr (by decide) }
  trees := SampleChain.trees
  checks := { SampleChain.env.checks with
              contextualCheckInputs := importEnv.contextualCheckInputs }

/-- A Sapling coinbase. -/
def coinbase (hash : Uint256) : CTransaction :=
  { hash := hash
    vin := [{ prevout := { hash := 0, n := 4294967295 }, scriptSig := [0x51, 0x51] }]
    vout := [{ nValue := 300000000, scriptPubKey := [0x51] }] }

theorem two_ne_null : (2 : Uint256) ≠ 0 := by decide

/-- A block with imports. -/
def importBlock (imports : List CTransaction) : CBlock :=
  { hash := 2, hashFinalSaplingRoot := 1, nTime := 1600000000, vtx := coinbase 0x11 :: imports
    hash_ne_null := two_ne_null }

/-- The genesis block and one block with imports. -/
def chain (imports : List CTransaction) : List CBlock :=
  [SampleChain.genesis, importBlock imports]

theorem three_ne_null : (3 : Uint256) ≠ 0 := by decide

/-- The block after it. -/
def laterBlock (imports : List CTransaction) : CBlock :=
  { importBlock imports with
    hash := 3
    vtx := coinbase 0x12 :: imports
    hash_ne_null := three_ne_null }

/-- The state after a chain. -/
def endOf (blocks : List CBlock) : CCoinsViewCache :=
  (env.connectChain SampleChain.db blocks none {}).getD {}

theorem connectChain_endOf {blocks : List CBlock}
    (h : (env.connectChain SampleChain.db blocks none {}).isSome = true) :
    env.connectChain SampleChain.db blocks none {} = some (endOf blocks) := by
  obtain ⟨r, hr⟩ := Option.isSome_iff_exists.1 h
  rw [endOf, hr, Option.getD_some]

/-- Imports of three burns. -/
def imports : List CTransaction :=
  [makeImport (burn 0x77) payouts 100, makeImport (burn 0x78) payouts 100,
    makeImport (burn 0x79) payouts 101]

/-- Two of them are in one block, the third is in the next. -/
def threeImports : List CBlock :=
  chain (imports.take 2) ++ [laterBlock (imports.drop 2)]

end SampleImports

open SampleImports in
/-- Three burns are redeemed in two blocks, each of them once. -/
theorem redeemedOnce_three :
    (threeImports.flatMap env.appliedTxs).filter CTransaction.isCoinImport = imports ∧
      env.RedeemedOnce threeImports :=
  ⟨by decide +kernel, ConnectEnv.redeemedOnce_of_guardedChain .empty
    (connectChain_endOf (by decide +kernel)) (by decide +kernel)⟩

open SampleImports in
/-- Two imports of one burn that differ in the expiry height only are both canonical,
and both are connected. -/
theorem connectChain_redeems_twice :
    ¬ ∀ (e : ImportEnv) (env : ConnectEnv) (base : CCoinsView) (blocks : List CBlock)
      (pprev : Option CBlockIndex) (c c' : CCoinsViewCache),
      env.checks.contextualCheckInputs = e.contextualCheckInputs → c.CacheWf base →
      env.connectChain base blocks pprev c = some c' → env.RedeemedOnce blocks := by
  intro hclaim
  let tx := makeImport burnTx payouts 100
  let tx' := makeImport burnTx payouts 101
  have honce := hclaim importEnv env SampleChain.db (chain [tx, tx']) none {} _ rfl .empty
    (connectChain_endOf (by decide +kernel))
  have hmem : ∀ t ∈ [tx, tx'], t ∈ env.appliedTxs (importBlock [tx, tx']) := by decide
  exact honce (importBlock [tx, tx']) (by simp [chain]) tx (hmem tx (by simp))
    (importBlock [tx, tx']) (by simp [chain]) tx' (hmem tx' (by simp)) (by decide) (by decide)
    (by decide) rfl

end IndexChain
