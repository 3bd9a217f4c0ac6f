import IndexChain.Core.Clamped
import IndexChain.Core.StoreTotal
import IndexChain.Models.Coins.AddressIndex
import Mathlib.Data.List.Dedup

/-!
# The unspent index along a chain

Block after block, the address-unspent index of `txdb.cpp` has an entry for every address of
every unspent output, and no other. So what is unspent on some of the addresses changes with a
block by what the block creates there less what it spends.
-/

namespace IndexChain

open IndexChain.Core CCoinsViewCache

namespace AddressEnv

variable (ae : AddressEnv) (p : Nat → BitVec 160 → Bool)

/-- The keys of output `k` of a transaction in the unspent index. -/
def outputKeys (out : CTxOut) (txhash : Uint256) (k : Nat) : List CAddressUnspentKey :=
  (ae.addrHashes out.scriptPubKey).map fun addr => ⟨ae.keyType out.scriptPubKey, addr, txhash, k⟩

/-- The amount of an output, once for each of its addresses that count. -/
def counted (out : CTxOut) : Int :=
  ((ae.addrHashes out.scriptPubKey).dedup.map fun addr =>
    if p (ae.keyType out.scriptPubKey) addr then out.nValue else 0).sum

/-- The amount of an entry of the unspent index, if its address counts. -/
def weigh (key : CAddressUnspentKey) (value : CAddressUnspentValue) : Int :=
  if p key.type key.hashBytes then value.satoshis else 0

variable {ae p} {out : CTxOut} {txhash : Uint256} {k : Nat} {key : CAddressUnspentKey}

theorem mem_outputKeys : key ∈ ae.outputKeys out txhash k ↔
    (ae.keyType out.scriptPubKey = key.type ∧ key.hashBytes ∈ ae.addrHashes out.scriptPubKey) ∧
      key.txhash = txhash ∧ key.index = k := by
  unfold outputKeys
  rw [List.mem_map]
  constructor
  · rintro ⟨addr, haddr, rfl⟩
    exact ⟨⟨rfl, haddr⟩, rfl, rfl⟩
  · rintro ⟨⟨htype, haddr⟩, rfl, rfl⟩
    refine ⟨key.hashBytes, haddr, ?_⟩
    rw [htype]

theorem counted_nonneg (h : 0 ≤ out.nValue) : 0 ≤ ae.counted p out := by
  refine List.sum_nonneg fun x hx => ?_
  obtain ⟨addr, -, rfl⟩ := List.mem_map.1 hx
  split
  · exact h
  · exact le_refl _

/-- The entries of an output amount to what is counted of it. -/
theorem sum_outputKeys {f : CAddressUnspentKey → Int}
    (hf : ∀ key ∈ ae.outputKeys out txhash k,
      f key = if p key.type key.hashBytes then out.nValue else 0) :
    ∑ key ∈ (ae.outputKeys out txhash k).toFinset, f key = ae.counted p out := by
  have hinj : Function.Injective fun addr =>
      (⟨ae.keyType out.scriptPubKey, addr, txhash, k⟩ : CAddressUnspentKey) := fun addr addr' heq =>
    congrArg CAddressUnspentKey.hashBytes heq
  have hset : (ae.outputKeys out txhash k).toFinset = (ae.outputKeys out txhash k).dedup.toFinset :=
    Finset.ext fun key => by rw [List.mem_toFinset, List.mem_toFinset, List.mem_dedup]
  rw [hset, List.sum_toFinset _ (List.nodup_dedup _)]
  unfold outputKeys counted
  rw [List.dedup_map_of_injective hinj, List.map_map]
  refine congrArg List.sum (List.map_congr_left fun addr haddr => ?_)
  exact hf _ (List.mem_map_of_mem (List.mem_dedup.1 haddr))

/-! ## The batches -/

/-- The writes and erasures of `UpdateAddressUnspentIndex`. -/
def unspentBatch (u : IndexUpdates) : Batch CAddressUnspentKey CAddressUnspentValue :=
  u.addressUnspentIndex.map fun e => (e.1, if e.2.isNull then none else some e.2)

theorem addressUnspentIndex_connected (db : IndexDB) (u : IndexUpdates) :
    (db.connected u).addressUnspentIndex = db.addressUnspentIndex.writeBatch (unspentBatch u) := rfl

theorem unspentBatch_concat (l : List IndexUpdates) :
    unspentBatch (.concat l) = l.flatMap unspentBatch :=
  List.map_flatMap

/-- A spend erases the keys of the output. -/
theorem unspentBatch_spend (nHeight i j : Nat) (hash : Uint256) (input : CTxIn) (prevout : CTxOut) :
    unspentBatch (ae.spendUpdates nHeight i hash j input prevout) =
      (ae.outputKeys prevout input.prevout.hash input.prevout.n.toNat).map
        fun key => (key, none) := by
  unfold unspentBatch outputKeys
  rw [List.map_map]
  exact List.map_map

/-- An output is recorded under its keys. -/
theorem unspentBatch_output (nHeight i : Nat) (h : 0 ≤ out.nValue) :
    unspentBatch (ae.outputUpdates nHeight i txhash k out) =
      (ae.outputKeys out txhash k).map fun key => (key,
        some { satoshis := out.nValue, script := out.scriptPubKey, blockHeight := nHeight }) := by
  have hnull : out.nValue ≠ -1 := by omega
  unfold unspentBatch outputKeys outputUpdates CAddressUnspentValue.isNull
  simp [hnull]

variable (ae) in
/-- The writes for outputs of a transaction. -/
def createBatch (nHeight : Nat) (txhash : Uint256) (outs : List (CTxOut × Nat)) :
    Batch CAddressUnspentKey CAddressUnspentValue :=
  outs.flatMap fun o => (ae.outputKeys o.1 txhash o.2).map fun key => (key,
    some { satoshis := o.1.nValue, script := o.1.scriptPubKey, blockHeight := nHeight })

theorem mem_createBatch {nHeight : Nat} {outs : List CTxOut} {v : Option CAddressUnspentValue} :
    (key, v) ∈ ae.createBatch nHeight txhash outs.zipIdx ↔
      ∃ o, outs[key.index]? = some o ∧ key ∈ ae.outputKeys o txhash key.index ∧
        v = some { satoshis := o.nValue, script := o.scriptPubKey, blockHeight := nHeight } := by
  unfold createBatch
  rw [List.mem_flatMap]
  constructor
  · rintro ⟨⟨o, k⟩, ho, hmem⟩
    obtain ⟨key', hkey, heq⟩ := List.mem_map.1 hmem
    obtain ⟨rfl, rfl⟩ := Prod.mk.inj heq
    obtain ⟨-, -, rfl⟩ := mem_outputKeys.1 hkey
    exact ⟨o, List.mem_zipIdx_iff_getElem?.1 ho, hkey, rfl⟩
  · rintro ⟨o, ho, hkey, rfl⟩
    exact ⟨(o, key.index), List.mem_zipIdx_iff_getElem?.2 ho, List.mem_map_of_mem hkey⟩

variable (ae) in
/-- The erasures for inputs with the outputs they spend. -/
def eraseBatch (spends : List (CTxIn × CTxInUndo)) :
    Batch CAddressUnspentKey CAddressUnspentValue :=
  spends.flatMap fun x =>
    (ae.outputKeys x.2.txout x.1.prevout.hash x.1.prevout.n.toNat).map fun key => (key, none)

/-- What a transaction does to the unspent index: first its inputs, then its outputs. -/
theorem unspentBatch_doneBy (nHeight i : Nat) {tx : CTransaction} (us : List CTxInUndo)
    (hpos : ∀ o ∈ tx.vout, 0 ≤ o.nValue) :
    unspentBatch (ae.doneBy nHeight ((tx, us), i)) =
      ae.eraseBatch (tx.vin.zip us) ++ ae.createBatch nHeight tx.hash tx.vout.zipIdx := by
  rw [doneBy_eq, unspentBatch_concat, doneParts, List.flatMap_append, List.flatMap_map,
    List.flatMap_map]
  congr 1
  · -- the position of an input does not matter
    conv_rhs => rw [eraseBatch, ← List.zipIdx_map_fst 0 (tx.vin.zip us), List.flatMap_map]
    exact List.flatMap_congr fun x _ => unspentBatch_spend ..
  · refine List.flatMap_congr fun o ho => ?_
    have hmem := List.mem_of_getElem? (List.mem_zipIdx_iff_getElem?.1 ho)
    exact unspentBatch_output nHeight i (hpos o.1 hmem)

/-- New outputs add what is counted of them. -/
theorem storeTotal_createBatch {index : Store CAddressUnspentKey CAddressUnspentValue}
    {F : Finset CAddressUnspentKey} (nHeight : Nat) {outs : List CTxOut} {n : Nat}
    (hfree : ∀ key, key.txhash = txhash → n ≤ key.index → index key = none)
    (hF : ∀ o ∈ outs.zipIdx n, ∀ key ∈ ae.outputKeys o.1 txhash o.2, key ∈ F) :
    storeTotal (weigh p) F (index.writeBatch (ae.createBatch nHeight txhash (outs.zipIdx n))) =
      storeTotal (weigh p) F index + (outs.map (ae.counted p)).sum := by
  induction outs generalizing index n with
  | nil => exact (Int.add_zero _).symm
  | cons o outs ih =>
    have hhead := storeTotal_writeBatch index (hF (o, n) List.mem_cons_self)
      (some { satoshis := o.nValue, script := o.scriptPubKey, blockHeight := nHeight })
      (g := weigh p)
    have hold : ∑ key ∈ (ae.outputKeys o txhash n).toFinset,
        (index key).elim 0 (weigh p key) = 0 := by
      refine Finset.sum_eq_zero fun key hkey => ?_
      obtain ⟨-, hhash, hindex⟩ := mem_outputKeys.1 (List.mem_toFinset.1 hkey)
      rw [hfree key hhash hindex.ge]
      rfl
    have hnew : ∑ key ∈ (ae.outputKeys o txhash n).toFinset, weigh p key
        { satoshis := o.nValue, script := o.scriptPubKey, blockHeight := nHeight } =
          ae.counted p o :=
      sum_outputKeys fun _ _ => rfl
    rw [hold, Int.add_zero] at hhead
    rw [List.zipIdx_cons, createBatch, List.flatMap_cons, Store.writeBatch_append]
    refine (ih (fun key hhash hindex => ?_) fun o' ho' =>
      hF o' (List.mem_cons_of_mem _ ho')).trans ?_
    · rw [Store.writeBatch_const, if_neg, hfree key hhash (Nat.le_of_succ_le hindex)]
      intro hkey
      obtain ⟨-, -, hindex'⟩ := mem_outputKeys.1 hkey
      omega
    rw [hhead, List.map_cons, List.sum_cons, Int.add_assoc]
    simp only [Option.elim_some, hnew]

end AddressEnv

/-! ## Changes along a chain -/

/-- The output that an input names, when the transactions are looked up. -/
def CTxIn.spentOutput (look : Uint256 → Option CTransaction) (input : CTxIn) : Option CTxOut :=
  (look input.prevout.hash).bind fun tx => tx.vout[input.prevout.n.toNat]?

/-- What a transaction changes, for a measure of outputs: it spends in the order of its inputs, and
then creates in the order of its outputs. -/
def CTransaction.changes (look : Uint256 → Option CTransaction) (measure : CTxOut → Int)
    (tx : CTransaction) : List Int :=
  (if tx.isMint then [] else tx.vin.map fun input => -(input.spentOutput look).elim 0 measure) ++
    tx.vout.map measure

/-- The inputs of a transaction that mints no coins name outputs of earlier transactions. -/
def CTransaction.SpendsKnown (look : Uint256 → Option CTransaction) (txs : List CTransaction)
    (tx : CTransaction) : Prop :=
  tx.isMint = false → ∀ input ∈ tx.vin, ∃ tx' ∈ txs, ∃ o ∈ tx'.vout, input.spentOutput look = some o

theorem CTransaction.SpendsKnown.mono {look : Uint256 → Option CTransaction}
    {txs txs' : List CTransaction} {tx : CTransaction} (h : tx.SpendsKnown look txs)
    (hsub : txs ⊆ txs') : tx.SpendsKnown look txs' := by
  intro hmint input hinput
  obtain ⟨tx', htx', hfound⟩ := h hmint input hinput
  exact ⟨tx', hsub htx', hfound⟩

/-! ## What the index records -/

open AddressEnv

/-- The lookup finds some transactions, and a set of keys has all that they can have. -/
structure Covers (ae : AddressEnv) (look : Uint256 → Option CTransaction)
    (F : Finset CAddressUnspentKey) (txs : List CTransaction) : Prop where
  /-- They are found. -/
  find : ∀ tx ∈ txs, look tx.hash = some tx
  /-- The keys of their outputs are in the set. -/
  keys : ∀ tx ∈ txs, ∀ (n : Nat) o, tx.vout[n]? = some o →
    ∀ key ∈ ae.outputKeys o tx.hash n, key ∈ F

theorem Covers.mono {ae : AddressEnv} {look : Uint256 → Option CTransaction}
    {F : Finset CAddressUnspentKey} {txs txs' : List CTransaction} (h : Covers ae look F txs)
    (hsub : txs' ⊆ txs) : Covers ae look F txs' :=
  ⟨fun tx htx => h.find tx (hsub htx), fun tx htx => h.keys tx (hsub htx)⟩

/-- Further transactions spend what came before them, and what is unspent on some of the addresses
goes along with their changes. -/
structure Along (ae : AddressEnv) (look : Uint256 → Option CTransaction)
    (F : Finset CAddressUnspentKey) (txs more : List CTransaction)
    (index index' : Store CAddressUnspentKey CAddressUnspentValue) : Prop where
  /-- Their outputs are not negative. -/
  nonneg : ∀ tx ∈ more, ∀ o ∈ tx.vout, 0 ≤ o.nValue
  /-- Their inputs are found. -/
  spends : ∀ tx ∈ more, tx.SpendsKnown look (txs ++ more)
  /-- The totals go along with their changes. -/
  follows : ∀ p, Follows (storeTotal (weigh p) F index)
    (more.flatMap (CTransaction.changes look (ae.counted p))) (storeTotal (weigh p) F index')

theorem Along.trans {ae : AddressEnv} {look : Uint256 → Option CTransaction}
    {F : Finset CAddressUnspentKey} {txs more more' : List CTransaction}
    {index index' index'' : Store CAddressUnspentKey CAddressUnspentValue}
    (h : Along ae look F txs more index index')
    (h' : Along ae look F (txs ++ more) more' index' index'') :
    Along ae look F txs (more ++ more') index index'' where
  nonneg := List.forall_mem_append.2 ⟨h.nonneg, h'.nonneg⟩
  spends := by
    intro tx htx
    rw [← List.append_assoc]
    rcases List.mem_append.1 htx with htx | htx
    · exact (h.spends tx htx).mono (List.subset_append_left _ _)
    · exact h'.spends tx htx
  follows := by
    intro p
    rw [List.flatMap_append]
    exact (h.follows p).trans (h'.follows p)

/-- The index has the unspent outputs of the transactions that came before, and no other entry. The
tombstone of an import is not an output of a transaction. -/
structure Recorded (ae : AddressEnv) (coins : Uint256 → CCoins)
    (index : Store CAddressUnspentKey CAddressUnspentValue) (txs : List CTransaction) : Prop where
  /-- An unspent output is that of a transaction, and is recorded under each of its keys. -/
  output : ∀ txid n o, (coins txid).vout[n]? = some o → o.isNull = false → o ≠ tombstone →
    (∃ tx ∈ txs, tx.hash = txid ∧ tx.vout[n]? = some o) ∧
      ∀ key ∈ ae.outputKeys o txid n, ∃ value, index key = some value ∧ value.satoshis = o.nValue
  /-- An entry is that of an output of a transaction. -/
  entry : ∀ key value, index key = some value → 0 ≤ value.satoshis ∧
    ∃ tx ∈ txs, ∃ o, tx.vout[key.index]? = some o ∧ key ∈ ae.outputKeys o tx.hash key.index

namespace Recorded

variable {ae : AddressEnv} {base : CCoinsView} {c : CCoinsViewCache}
  {coins : Uint256 → CCoins} {index : Store CAddressUnspentKey CAddressUnspentValue}
  {txs : List CTransaction}

/-- What is unspent on some of the addresses is not negative. -/
theorem storeTotal_nonneg (h : Recorded ae coins index txs) (p : Nat → BitVec 160 → Bool)
    (F : Finset CAddressUnspentKey) : 0 ≤ storeTotal (weigh p) F index := by
  refine Core.storeTotal_nonneg fun key value hvalue => ?_
  unfold weigh
  split
  · exact (h.entry key value hvalue).1
  · exact le_refl _

theorem along_nil (h : Recorded ae coins index txs) (look : Uint256 → Option CTransaction)
    (F : Finset CAddressUnspentKey) : Along ae look F txs [] index index where
  nonneg := fun _ htx => absurd htx List.not_mem_nil
  spends := fun _ htx => absurd htx List.not_mem_nil
  follows := fun p => .refl (h.storeTotal_nonneg p F)

/-- Spending an output erases its entries. -/
theorem spend (h : Recorded ae (c.contents base) index txs) (hwf : c.CacheWf base)
    {txid : Uint256} {n : Nat} {k : CCoins} {u : CTxInUndo}
    (hs : (c.coinsAt base txid).spendUndo n = some (k, u)) :
    Recorded ae ((c.modifyCoins base txid fun _ => k).contents base)
      (index.writeBatch ((ae.outputKeys u.txout txid n).map fun key => (key, none))) txs where
  output := by
    intro txid' m o ho hnull hne
    rw [contents_modifyCoins hwf] at ho
    -- it was unspent before, and is not the one that is spent
    have hother : (c.contents base txid').vout[m]? = some o ∧ ¬ (txid' = txid ∧ m = n) := by
      by_cases hid : txid' = txid
      · subst hid
        rw [Function.update_self, CCoins.getElem?_live hnull, CCoins.getElem?_cleanup hnull] at ho
        refine ⟨(CCoins.getElem?_live hnull).2 (CCoins.getElem?_of_spendUndo hs hnull ho), ?_⟩
        rintro ⟨-, rfl⟩
        exact CCoins.not_getElem?_of_spendUndo hs hnull ho
      · rw [Function.update_of_ne hid] at ho
        exact ⟨ho, fun heq => hid heq.1⟩
    obtain ⟨hfound, hkeys⟩ := h.output txid' m o hother.1 hnull hne
    refine ⟨hfound, fun key hkey => ?_⟩
    obtain ⟨value, hvalue, hsat⟩ := hkeys key hkey
    refine ⟨value, ?_, hsat⟩
    rw [Store.writeBatch_const, if_neg, hvalue]
    intro herased
    obtain ⟨-, hhash, hindex⟩ := mem_outputKeys.1 hkey
    obtain ⟨-, hhash', hindex'⟩ := mem_outputKeys.1 herased
    exact hother.2 ⟨hhash.symm.trans hhash', hindex.symm.trans hindex'⟩
  entry := by
    intro key value hvalue
    rw [Store.writeBatch_const] at hvalue
    split at hvalue
    · cases hvalue
    · exact h.entry key value hvalue

/-- A spent output takes away what is counted of it. -/
theorem storeTotal_spend (h : Recorded ae coins index txs) {p : Nat → BitVec 160 → Bool}
    {F : Finset CAddressUnspentKey} {txid : Uint256} {n : Nat} {o : CTxOut}
    (ho : (coins txid).vout[n]? = some o) (hnull : o.isNull = false) (hne : o ≠ tombstone)
    (hF : ∀ key ∈ ae.outputKeys o txid n, key ∈ F) :
    storeTotal (weigh p) F (index.writeBatch ((ae.outputKeys o txid n).map fun key =>
      (key, none))) = storeTotal (weigh p) F index + -ae.counted p o := by
  have hwrite := storeTotal_writeBatch index hF none (g := weigh p)
  have hold : ∑ key ∈ (ae.outputKeys o txid n).toFinset, (index key).elim 0 (weigh p key) =
      ae.counted p o := by
    refine sum_outputKeys fun key hkey => ?_
    obtain ⟨value, hvalue, hsat⟩ := (h.output txid n o ho hnull hne).2 key hkey
    rw [hvalue, Option.elim_some, weigh, hsat]
  have hnew : ∑ key ∈ (ae.outputKeys o txid n).toFinset,
      (none : Option CAddressUnspentValue).elim 0 (weigh p key) = 0 :=
    Finset.sum_eq_zero fun _ _ => rfl
  rw [hold, hnew] at hwrite
  omega

/-- The inputs of a transaction, one after the other. -/
theorem spendInputs {look : Uint256 → Option CTransaction} {F : Finset CAddressUnspentKey}
    {vin : List CTxIn} {c' : CCoinsViewCache} {us : List CTxInUndo}
    (h : Recorded ae (c.contents base) index txs) (hc : c.Sound base)
    (hcov : Covers ae look F txs) (hs : c.spendInputs base vin = some (c', us))
    (hne : ∀ u ∈ us, u.txout ≠ tombstone) :
    Recorded ae (c'.contents base) (index.writeBatch (ae.eraseBatch (vin.zip us))) txs ∧
      (∀ input ∈ vin, ∃ tx ∈ txs, ∃ o ∈ tx.vout, input.spentOutput look = some o) ∧
      ∀ p, Follows (storeTotal (weigh p) F index)
        (vin.map fun input => -(input.spentOutput look).elim 0 (ae.counted p))
        (storeTotal (weigh p) F (index.writeBatch (ae.eraseBatch (vin.zip us)))) := by
  induction vin generalizing c us index with
  | nil =>
    cases hs
    exact ⟨h, fun _ hinput => absurd hinput List.not_mem_nil, fun p =>
      .refl (h.storeTotal_nonneg p F)⟩
  | cons input rest ih =>
    obtain ⟨k, u, us', hk, hrest, rfl⟩ := spendInputs_cons hs
    obtain ⟨o, ho, hnull, -, hu⟩ := CCoins.spendUndo_cases hk
    have htxout : u.txout = o := by
      rw [hu]
      split <;> rfl
    have hunspent : (c.contents base input.prevout.hash).vout[input.prevout.n.toNat]? =
        some u.txout := by
      rw [htxout]
      exact (CCoins.getElem?_live hnull).2 ho
    have hu' := hne u List.mem_cons_self
    rw [← htxout] at hnull
    obtain ⟨⟨tx, htx, hhash, hget⟩, -⟩ := h.output _ _ _ hunspent hnull hu'
    have hspent : input.spentOutput look = some u.txout := by
      rw [CTxIn.spentOutput, ← hhash, hcov.find tx htx]
      exact hget
    have hkeys := hcov.keys tx htx _ _ hget
    rw [hhash] at hkeys
    obtain ⟨hrecorded, hfound, hfollows⟩ := ih (h.spend hc.wf hk)
      (hc.modifyCoins _ ((hc.canonical _).spendUndo hk)) hrest
      fun u hu => hne u (List.mem_cons_of_mem _ hu)
    rw [List.zip_cons_cons, eraseBatch, List.flatMap_cons, Store.writeBatch_append]
    refine ⟨hrecorded, ?_, fun p => ?_⟩
    · rw [List.forall_mem_cons]
      exact ⟨⟨tx, htx, u.txout, List.mem_of_getElem? hget, hspent⟩, hfound⟩
    rw [List.map_cons, hspent, Option.elim_some]
    have hfirst := (h.spend hc.wf hk).storeTotal_nonneg p F
    have htotal := h.storeTotal_spend (p := p) hunspent hnull hu' hkeys
    have hone : Follows (storeTotal (weigh p) F index) [-ae.counted p u.txout]
        (storeTotal (weigh p) F (index.writeBatch ((ae.outputKeys u.txout input.prevout.hash
          input.prevout.n.toNat).map fun key => (key, none)))) := by
      refine ⟨⟨h.storeTotal_nonneg p F, ?_⟩, ?_⟩
      · rwa [htotal] at hfirst
      · rwa [List.sum_singleton]
    exact hone.trans (hfollows p)

/-- A tombstone does not matter. -/
theorem of_coins (h : Recorded ae coins index txs) {coins' : Uint256 → CCoins}
    (hcoins : ∀ txid (n : Nat) o, (coins' txid).vout[n]? = some o → o.isNull = false →
      o ≠ tombstone → (coins txid).vout[n]? = some o) : Recorded ae coins' index txs where
  output := fun txid n o ho hnull hne => h.output txid n o (hcoins txid n o ho hnull hne) hnull hne
  entry := h.entry

theorem addImportTombstone (h : Recorded ae (c.contents base) index txs) (hwf : c.CacheWf base)
    (tx : CTransaction) (nHeight : Nat) :
    Recorded ae ((addImportTombstone base tx c nHeight).contents base) index txs := by
  unfold CCoinsViewCache.addImportTombstone
  split
  · exact h
  · rename_i txin rest hvin
    refine h.of_coins fun txid n o ho hnull hne => ?_
    rw [contents_modifyCoins hwf] at ho
    by_cases hid : txid = txin.prevout.hash
    · subst hid
      rw [Function.update_self, CCoins.getElem?_live hnull, CCoins.getElem?_cleanup hnull] at ho
      refine (CCoins.getElem?_live hnull).2 ?_
      rw [List.getElem?_append] at ho
      split at ho
      · exact ho
      · exact absurd (List.mem_singleton.1 (List.mem_of_getElem? ho)) hne
    · rwa [Function.update_of_ne hid] at ho

/-- The outputs of a new transaction are recorded. -/
theorem create (h : Recorded ae (c.contents base) index txs) (hwf : c.CacheWf base)
    {tx : CTransaction} (nHeight : Nat) (hpos : ∀ o ∈ tx.vout, 0 ≤ o.nValue) :
    Recorded ae ((c.modifyCoins base tx.hash fun _ => CCoins.fromTx tx nHeight).contents base)
      (index.writeBatch (ae.createBatch nHeight tx.hash tx.vout.zipIdx)) (txs ++ [tx]) where
  output := by
    intro txid n o ho hnull hne
    rw [contents_modifyCoins hwf] at ho
    by_cases hid : txid = tx.hash
    · subst hid
      rw [Function.update_self, CCoins.getElem?_live hnull, CCoins.getElem?_cleanup hnull] at ho
      have hout := CCoins.getElem?_of_fromTx hnull ho
      refine ⟨⟨tx, List.mem_append_right _ List.mem_cons_self, rfl, hout⟩, fun key hkey => ?_⟩
      obtain ⟨-, -, hindex⟩ := mem_outputKeys.1 hkey
      rw [← hindex] at hkey hout
      have hnamed : key ∈ (ae.createBatch nHeight tx.hash tx.vout.zipIdx).map Prod.fst :=
        List.mem_map_of_mem (mem_createBatch.2 ⟨o, hout, hkey, rfl⟩)
      obtain ⟨o', ho', -, hvalue⟩ := mem_createBatch.1 (Store.writeBatch_mem index hnamed)
      rw [hout] at ho'
      cases ho'
      exact ⟨_, hvalue, rfl⟩
    · rw [Function.update_of_ne hid] at ho
      obtain ⟨⟨tx', htx', hfound⟩, hkeys⟩ := h.output txid n o ho hnull hne
      refine ⟨⟨tx', List.mem_append_left _ htx', hfound⟩, fun key hkey => ?_⟩
      obtain ⟨value, hvalue, hsat⟩ := hkeys key hkey
      refine ⟨value, ?_, hsat⟩
      rw [Store.writeBatch_of_notMem, hvalue]
      intro hnamed
      obtain ⟨⟨key', v⟩, hmem, rfl⟩ := List.mem_map.1 hnamed
      obtain ⟨o', -, hkey', -⟩ := mem_createBatch.1 hmem
      exact hid ((mem_outputKeys.1 hkey).2.1.symm.trans (mem_outputKeys.1 hkey').2.1)
  entry := by
    intro key value hvalue
    by_cases hnamed : key ∈ (ae.createBatch nHeight tx.hash tx.vout.zipIdx).map Prod.fst
    · obtain ⟨o, ho, hkey, hv⟩ := mem_createBatch.1 (Store.writeBatch_mem index hnamed)
      rw [hvalue] at hv
      cases hv
      exact ⟨hpos o (List.mem_of_getElem? ho), tx, List.mem_append_right _ List.mem_cons_self, o,
        ho, hkey⟩
    · rw [Store.writeBatch_of_notMem hnamed] at hvalue
      obtain ⟨hsat, tx', htx', hfound⟩ := h.entry key value hvalue
      exact ⟨hsat, tx', List.mem_append_left _ htx', hfound⟩

end Recorded

/-! ## Connecting blocks -/

/-- No script gets past the script of a tombstone, which leaves false on the stack. -/
def BlockChecks.KeepsTombstones (checks : BlockChecks) : Prop :=
  ∀ v tx pindex, checks.contextualCheckInputs v tx pindex = true →
    ∀ input ∈ tx.vin, v.getOutputFor input ≠ some tombstone

section Connect

variable {env : ConnectEnv} {ae : AddressEnv} {base : CCoinsView}
  {index : Store CAddressUnspentKey CAddressUnspentValue} {txs : List CTransaction}
  {look : Uint256 → Option CTransaction} {F : Finset CAddressUnspentKey}

/-- One transaction: the index keeps its meaning, and the totals go along with the changes. -/
theorem Recorded.connectTx {pindex : CBlockIndex} {tx : CTransaction} {s s' : LoopState}
    {u : CTxUndo} (i : Nat) (h : Recorded ae (s.view.contents base) index txs)
    (hs : s.view.Sound base) (hcov : Covers ae look F (txs ++ [tx]))
    (hkeeps : env.checks.KeepsTombstones) (hfresh : ∀ tx' ∈ txs, tx'.hash ≠ tx.hash)
    (hpos : ∀ o ∈ tx.vout, 0 ≤ o.nValue)
    (hstep : env.connectTx base pindex tx s = some (s', u)) :
    Recorded ae (s'.view.contents base) (index.writeBatch
        (unspentBatch (ae.doneBy pindex.nHeight ((tx, u.vprevout), i)))) (txs ++ [tx]) ∧
      Along ae look F txs [tx] index (index.writeBatch
        (unspentBatch (ae.doneBy pindex.nHeight ((tx, u.vprevout), i)))) := by
  obtain ⟨-, hcheck, hu, -, -⟩ := ConnectEnv.connectTx_cases hstep
  obtain ⟨c1, h1, hc'⟩ := updateCoins_cases hu
  have hcov' := hcov.mono (List.subset_append_left txs [tx])
  obtain ⟨hs1, -, -, -⟩ := hs.spendCoins h1
  -- the inputs
  have hspends : Recorded ae (c1.contents base)
        (index.writeBatch (ae.eraseBatch (tx.vin.zip u.vprevout))) txs ∧
      tx.SpendsKnown look txs ∧
      ∀ p, Follows (storeTotal (weigh p) F index)
        (if tx.isMint then []
          else tx.vin.map fun input => -(input.spentOutput look).elim 0 (ae.counted p))
        (storeTotal (weigh p) F
          (index.writeBatch (ae.eraseBatch (tx.vin.zip u.vprevout)))) := by
    unfold CCoinsViewCache.spendCoins at h1
    cases hmint : tx.isMint with
    | true =>
      rw [hmint, if_pos rfl] at h1
      obtain ⟨rfl, hnil⟩ := Prod.mk.inj (Option.some.inj h1)
      rw [← hnil, List.zip_nil_right]
      refine ⟨h, fun hmint' => ?_, fun p => .refl (h.storeTotal_nonneg p F)⟩
      rw [hmint] at hmint'
      cases hmint'
    | false =>
      rw [hmint, if_neg Bool.false_ne_true] at h1
      suffices hne : ∀ x ∈ u.vprevout, x.txout ≠ tombstone by
        obtain ⟨hrecorded, hfound, hfollows⟩ := h.spendInputs hs hcov' h1 hne
        exact ⟨hrecorded, fun _ => hfound, hfollows⟩
      intro x hx heq
      have hnot : tx.isCoinBase ≠ true := by
        intro hcb
        rw [CTransaction.isMint, hcb, Bool.or_true] at hmint
        cases hmint
      have hinputs := hkeeps _ _ _ (hcheck.resolve_left hnot)
      have hfound := forall₂_getOutputFor hs h1
      obtain ⟨n, hn, rfl⟩ := List.getElem_of_mem hx
      have hn' : n < tx.vin.length := by rw [hfound.length_eq]; exact hn
      refine hinputs _ (List.getElem_mem hn') ?_
      rw [← heq]
      exact hfound.get hn' hn
  -- the outputs
  have hs2 : (c1.setNullifiers tx true).Sound base := hs1.of_cacheCoins rfl
  obtain ⟨hrecorded, hfound, hfollows⟩ := hspends
  have hsame : (c1.setNullifiers tx true).contents base = c1.contents base :=
    contents_of_cacheCoins rfl
  rw [← hsame] at hrecorded
  have hcreated := hrecorded.create hs2.wf pindex.nHeight hpos
  have hfree : ∀ key : CAddressUnspentKey, key.txhash = tx.hash → 0 ≤ key.index →
      index.writeBatch (ae.eraseBatch (tx.vin.zip u.vprevout)) key = none := by
    intro key hhash _
    by_contra hsome
    obtain ⟨value, hvalue⟩ := Option.ne_none_iff_exists'.1 hsome
    obtain ⟨-, tx', htx', o, -, hkey⟩ := hrecorded.entry key value hvalue
    exact hfresh tx' htx' ((mem_outputKeys.1 hkey).2.1.symm.trans hhash)
  rw [unspentBatch_doneBy _ _ _ hpos, Store.writeBatch_append]
  refine ⟨?_, List.forall_mem_singleton.2 hpos,
    List.forall_mem_singleton.2 (hfound.mono (List.subset_append_left _ _)), fun p => ?_⟩
  · rw [hc']
    split
    · exact hcreated.addImportTombstone (hs2.wf.modifyCoins _ _) tx pindex.nHeight
    · exact hcreated
  · rw [List.flatMap_singleton]
    refine (hfollows p).trans ⟨?_, ?_⟩
    · refine steady_of_nonneg (hrecorded.storeTotal_nonneg p F) fun d hd => ?_
      obtain ⟨o, ho, rfl⟩ := List.mem_map.1 hd
      exact counted_nonneg (hpos o ho)
    · refine storeTotal_createBatch pindex.nHeight hfree fun o ho => ?_
      exact hcov.keys tx (List.mem_append_right _ List.mem_cons_self) _ _
        (List.mem_zipIdx_iff_getElem?.1 ho)

/-- The transactions of a block, one after the other. -/
theorem Recorded.connectLoop {pindex : CBlockIndex} {rest : List CTransaction} {s s' : LoopState}
    {undos : List CTxUndo} (i : Nat) (h : Recorded ae (s.view.contents base) index txs)
    (hs : s.view.Sound base) (hh : pindex.nHeight ≠ 0)
    (hcov : Covers ae look F (txs ++ rest)) (hkeeps : env.checks.KeepsTombstones)
    (hnodup : ((txs ++ rest).map CTransaction.hash).Nodup)
    (hchecked : ∀ tx ∈ rest, env.checks.txEnv.checkTransaction tx = .ok ())
    (hloop : env.connectLoop base pindex rest s = some (s', undos)) :
    Recorded ae (s'.view.contents base) (index.writeBatch ((spendsFrom i rest undos).flatMap
        fun x => unspentBatch (ae.doneBy pindex.nHeight x))) (txs ++ rest) ∧
      Along ae look F txs rest index (index.writeBatch ((spendsFrom i rest undos).flatMap
        fun x => unspentBatch (ae.doneBy pindex.nHeight x))) := by
  induction rest generalizing s undos i index txs with
  | nil =>
    cases hloop
    rw [List.append_nil]
    exact ⟨h, h.along_nil look F⟩
  | cons tx rest ih =>
    obtain ⟨s1, u, us, h1, h2, rfl⟩ := ConnectEnv.connectLoop_cons hloop
    have hok := hchecked tx List.mem_cons_self
    have hcanonical : (CCoins.fromTx tx pindex.nHeight).Canonical :=
      CCoins.canonical_fromTx hh (TxCheckEnv.vout_not_null hok)
    obtain ⟨hs1, -⟩ := ConnectEnv.Sound.connectTx hs hcanonical hh h1
    rw [List.append_cons] at hcov hnodup ⊢
    have hfresh : ∀ tx' ∈ txs, tx'.hash ≠ tx.hash := by
      intro tx' htx' heq
      rw [List.map_append, List.map_append, List.nodup_append] at hnodup
      have hdisjoint := (List.nodup_append.1 hnodup.1).2.2
      exact hdisjoint _ (List.mem_map_of_mem htx') _ List.mem_cons_self heq
    obtain ⟨hrecorded, halong⟩ := h.connectTx i hs (hcov.mono (List.subset_append_left _ _))
      hkeeps hfresh (TxCheckEnv.vout_nonneg hok) h1
    obtain ⟨hrecorded', halong'⟩ := ih (i + 1) hrecorded hs1 hcov hnodup
      (fun tx' htx' => hchecked tx' (List.mem_cons_of_mem _ htx')) h2
    rw [spendsFrom_cons, List.flatMap_cons, Store.writeBatch_append]
    exact ⟨hrecorded', halong.trans halong'⟩

/-- What connecting a block does to the coins and to the unspent index. -/
theorem connectBlockIndexed_cases {p : CBlockIndex} {block : CBlock} {c c' : CCoinsViewCache}
    {undo : CBlockUndo} {db db' : IndexDB} (hs : c.Sound base)
    (hc : env.connectBlockIndexed ae base block p c db = some (c', undo, db')) :
    env.connectBlock base block (some p) c = some (c', undo) ∧
      (∀ tx ∈ block.vtx, env.checks.txEnv.checkTransaction tx = .ok ()) ∧
      ∃ s s' undos, s.view = c ∧ env.connectLoop base (CBlockIndex.ofBlock block (some p))
          block.vtx s = some (s', undos) ∧ c'.cacheCoins = s'.view.cacheCoins ∧
        db'.addressUnspentIndex = db.addressUnspentIndex.writeBatch
          ((spendsFrom 0 block.vtx undos).flatMap
            fun x => unspentBatch (ae.doneBy (p.nHeight + 1) x)) := by
  unfold ConnectEnv.connectBlockIndexed at hc
  simp only [Option.bind_eq_bind, Option.bind_eq_some_iff, Prod.exists, Option.pure_def,
    Option.some.injEq, Prod.mk.injEq] at hc
  obtain ⟨c1, undo1, hconnect, us, hus, rfl, rfl, rfl⟩ := hc
  obtain ⟨q, t1, t2, s, undos, hq, hcheck, -, -, -, -, hloop, -, hc', -⟩ :=
    ConnectEnv.connectBlock_cases hconnect (ConnectEnv.hash_ne_genesis hconnect)
  obtain rfl := Option.some.inj hq
  have hchecked := checkTransaction_of_checkBlock hcheck
  have hcanonical := canonical_of_checkBlock hcheck p.nHeight
  have hupdates := (ae.connectUpdates_eq 0 hs hcanonical (Nat.succ_ne_zero _) hloop).1
  obtain rfl := Option.some.inj (hus.symm.trans hupdates)
  refine ⟨hconnect, hchecked, _, s, undos, rfl, hloop, ?_, ?_⟩
  · simp [hc', CCoinsViewCache.setBestBlock]
  · refine (addressUnspentIndex_connected ..).trans ?_
    rw [unspentBatch_concat, List.flatMap_map]
    rfl

/-- A block. -/
theorem Recorded.connectBlock {p : CBlockIndex} {block : CBlock} {c c' : CCoinsViewCache}
    {undo : CBlockUndo} {db db' : IndexDB}
    (h : Recorded ae (c.contents base) db.addressUnspentIndex txs) (hs : c.Sound base)
    (hcov : Covers ae look F (txs ++ block.vtx)) (hkeeps : env.checks.KeepsTombstones)
    (hnodup : ((txs ++ block.vtx).map CTransaction.hash).Nodup)
    (hc : env.connectBlockIndexed ae base block p c db = some (c', undo, db')) :
    Recorded ae (c'.contents base) db'.addressUnspentIndex (txs ++ block.vtx) ∧
      Along ae look F txs block.vtx db.addressUnspentIndex db'.addressUnspentIndex := by
  obtain ⟨-, hchecked, s, s', undos, rfl, hloop, hcoins, hindex⟩ := connectBlockIndexed_cases hs hc
  have hh : (CBlockIndex.ofBlock block (some p)).nHeight ≠ 0 := Nat.succ_ne_zero _
  have hrun := h.connectLoop 0 hs hh hcov hkeeps hnodup hchecked hloop
  rw [hindex, contents_of_cacheCoins hcoins]
  exact hrun

end Connect

/-- A node that connects blocks. -/
structure IndexedState where
  /-- The view under the cache. -/
  base : CCoinsView
  /-- The cache. -/
  cache : CCoinsViewCache
  /-- The last block. -/
  tip : CBlockIndex
  /-- The indexes. -/
  db : IndexDB

/-- Blocks connected one after the other, with a new cache now and then. -/
inductive Connects (env : ConnectEnv) (ae : AddressEnv) :
    IndexedState → List CBlock → IndexedState → Prop
  | refl (s : IndexedState) : Connects env ae s [] s
  | layer {s s' : IndexedState} {blocks : List CBlock} : Connects env ae s blocks s' →
      Connects env ae s blocks { s' with base := s'.cache.view s'.base, cache := {} }
  | connect {s s' : IndexedState} {blocks : List CBlock} {block : CBlock} {c : CCoinsViewCache}
      {undo : CBlockUndo} {db : IndexDB} : Connects env ae s blocks s' →
      env.connectBlockIndexed ae s'.base block s'.tip s'.cache s'.db = some (c, undo, db) →
      Connects env ae s (blocks ++ [block])
        ⟨s'.base, c, CBlockIndex.ofBlock block (some s'.tip), db⟩

/-- The transactions of blocks. -/
def transactions (blocks : List CBlock) : List CTransaction :=
  blocks.flatMap CBlock.vtx

theorem transactions_append (blocks blocks' : List CBlock) :
    transactions (blocks ++ blocks') = transactions blocks ++ transactions blocks' :=
  List.flatMap_append

/-- The state after the genesis block, whose transactions are not connected. -/
structure AfterGenesis (env : ConnectEnv) (genesis : CBlock) (s : IndexedState) : Prop where
  /-- It is connected to the empty database. -/
  connected : ∃ undo, env.connectBlock s.base genesis none {} = some (s.cache, undo)
  /-- The database is empty. -/
  base : s.base = emptyDB env.trees
  /-- The genesis block is the tip. -/
  tip : s.tip = CBlockIndex.ofBlock genesis none
  /-- The index is empty. -/
  index : s.db.addressUnspentIndex = fun _ => none

section Run

variable {env : ConnectEnv} {ae : AddressEnv} {s s' : IndexedState} {blocks : List CBlock}
  {txs : List CTransaction} {look : Uint256 → Option CTransaction}
  {F : Finset CAddressUnspentKey}

/-- The genesis block leaves the coins alone. -/
theorem cacheCoins_connectBlock_genesis {base : CCoinsView} {genesis : CBlock}
    {c c' : CCoinsViewCache} {undo : CBlockUndo}
    (hc : env.connectBlock base genesis none c = some (c', undo)) :
    c'.cacheCoins = c.cacheCoins := by
  by_cases hgen : genesis.hash = env.params.hashGenesisBlock
  · rw [(ConnectEnv.connectBlock_genesis hc hgen).2]
    rfl
  · obtain ⟨p, _, _, _, _, hp, -⟩ := ConnectEnv.connectBlock_cases hc hgen
    cases hp

/-- A new cache shows what the one below it has. -/
theorem contents_layer (base : CCoinsView) (c : CCoinsViewCache) :
    ({} : CCoinsViewCache).contents (c.view base) = c.contents base := by
  funext txid
  unfold contents
  rw [← getCoins_getD (c.view base), ← getCoins_getD base]
  rfl

variable (ae) in
/-- Nothing is recorded after the genesis block. -/
theorem AfterGenesis.recorded {genesis : CBlock} (h : AfterGenesis env genesis s) :
    Reached env (fun _ _ => True) s.base s.cache (some s.tip) ∧
      Recorded ae (s.cache.contents s.base) s.db.addressUnspentIndex [] := by
  obtain ⟨undo, hc⟩ := h.connected
  have hreach : Reached env (fun _ _ => True) s.base s.cache (some s.tip) := by
    rw [h.base] at hc ⊢
    rw [h.tip]
    exact .connect .start hc trivial
  refine ⟨hreach, ?_, ?_⟩
  · intro txid n o ho
    have hcoins : s.cache.cacheCoins = ({} : CCoinsViewCache).cacheCoins :=
      cacheCoins_connectBlock_genesis hc
    rw [contents_of_cacheCoins hcoins, h.base] at ho
    cases ho
  · intro key value hvalue
    rw [h.index] at hvalue
    cases hvalue

theorem Connects.nHeight_eq (h : Connects env ae s blocks s') :
    s'.tip.nHeight = s.tip.nHeight + blocks.length := by
  induction h with
  | refl => rfl
  | layer _ ih => exact ih
  | connect _ _ ih =>
    rw [List.length_append, ← Nat.add_assoc, ← ih]
    rfl

/-- Along the blocks, the index keeps its meaning and the totals go along with the changes. -/
theorem Connects.recorded (h : Connects env ae s blocks s')
    (hreach : Reached env (fun _ _ => True) s.base s.cache (some s.tip))
    (hrecorded : Recorded ae (s.cache.contents s.base) s.db.addressUnspentIndex txs)
    (hcov : Covers ae look F (txs ++ transactions blocks)) (hkeeps : env.checks.KeepsTombstones)
    (hnodup : ((txs ++ transactions blocks).map CTransaction.hash).Nodup) :
    Reached env (fun _ _ => True) s'.base s'.cache (some s'.tip) ∧
      Recorded ae (s'.cache.contents s'.base) s'.db.addressUnspentIndex
        (txs ++ transactions blocks) ∧
      Along ae look F txs (transactions blocks) s.db.addressUnspentIndex
        s'.db.addressUnspentIndex := by
  induction h with
  | refl =>
    rw [transactions, List.flatMap_nil, List.append_nil]
    exact ⟨hreach, hrecorded, hrecorded.along_nil look F⟩
  | layer _ ih =>
    obtain ⟨hreach', hrecorded', halong⟩ := ih hcov hnodup
    refine ⟨hreach'.layer, ?_, halong⟩
    rwa [contents_layer]
  | @connect s' blocks block c undo db _ hc ih =>
    rw [transactions_append, ← List.append_assoc] at hcov hnodup
    obtain ⟨hreach', hrecorded', halong⟩ := ih
      (hcov.mono (List.subset_append_left _ _))
      (hnodup.sublist ((List.sublist_append_left _ _).map _))
    have hblock : transactions [block] = block.vtx := List.flatMap_singleton _ _
    rw [hblock] at hcov hnodup
    have hsound := (sound_of_reached hreach').1
    obtain ⟨hrecorded'', halong'⟩ := hrecorded'.connectBlock hsound hcov hkeeps hnodup hc
    have hconnect := (connectBlockIndexed_cases hsound hc).1
    rw [transactions_append, hblock]
    refine ⟨hreach'.connect hconnect trivial, ?_, halong.trans halong'⟩
    rwa [← List.append_assoc]

end Run

end IndexChain
