import IndexChain.Core.Batch
import IndexChain.Models.Coins.Reached

/-!
# The address and spent indexes

What `ConnectBlock` and `DisconnectBlock` write to the three optional indexes of
`txdb.cpp`, with `-addressindex` and `-spentindex` on. `ConnectBlock` records for every
spent output who spends it; `DisconnectBlock` collects the same outputs to delete the
records, and writes only the two address indexes. So disconnecting restores the indexes
exactly for the blocks that spend no output with an address.
-/

namespace IndexChain

open IndexChain.Core

/-! ## Keys and values -/

/-- `CAddressIndexKey`: an output paid to an address, or an input that spends one. -/
structure CAddressIndexKey where
  /-- The kind of address. -/
  type : Nat
  /-- The address. -/
  hashBytes : BitVec 160
  /-- The height of the block. -/
  blockHeight : Nat
  /-- The position of the transaction in it. -/
  txindex : Nat
  /-- The transaction. -/
  txhash : Uint256
  /-- The output or input. -/
  index : Nat
  /-- Whether it is an input. -/
  spending : Bool
  deriving DecidableEq, Repr

/-- `CAddressUnspentKey`: an output of an address. -/
structure CAddressUnspentKey where
  /-- The kind of address. -/
  type : Nat
  /-- The address. -/
  hashBytes : BitVec 160
  /-- The transaction. -/
  txhash : Uint256
  /-- The output. -/
  index : Nat
  deriving DecidableEq, Repr

/-- `CAddressUnspentValue`; the default is null. -/
structure CAddressUnspentValue where
  /-- The amount. -/
  satoshis : Int := -1
  /-- The script. -/
  script : CScript := []
  /-- The height of the block. -/
  blockHeight : Nat := 0
  deriving DecidableEq, Repr

/-- `IsNull`. -/
def CAddressUnspentValue.isNull (v : CAddressUnspentValue) : Bool :=
  v.satoshis == -1

/-- `CSpentIndexKey`: a spent output. -/
structure CSpentIndexKey where
  /-- The transaction. -/
  txid : Uint256
  /-- The output. -/
  outputIndex : Nat
  deriving DecidableEq, Repr

/-- `CSpentIndexValue`: the input that spends it; the default is null. -/
structure CSpentIndexValue where
  /-- The spending transaction. -/
  txid : Uint256 := 0
  /-- Its input. -/
  inputIndex : Nat := 0
  /-- The height of its block. -/
  blockHeight : Nat := 0
  /-- The amount. -/
  satoshis : Int := 0
  /-- The kind of address. -/
  addressType : Nat := 0
  /-- The address. -/
  addressHash : BitVec 160 := 0
  deriving DecidableEq, Repr

/-- `IsNull`. -/
def CSpentIndexValue.isNull (v : CSpentIndexValue) : Bool :=
  v.txid == 0

/-- The three indexes of `CBlockTreeDB`. -/
@[ext] structure IndexDB where
  /-- The address index. -/
  addressIndex : Store CAddressIndexKey Int
  /-- The address-unspent index. -/
  addressUnspentIndex : Store CAddressUnspentKey CAddressUnspentValue
  /-- The spent index. -/
  spentIndex : Store CSpentIndexKey CSpentIndexValue

/-- The vectors of updates that both functions collect. -/
structure IndexUpdates where
  /-- For the address index. -/
  addressIndex : List (CAddressIndexKey × Int) := []
  /-- For the address-unspent index. -/
  addressUnspentIndex : List (CAddressUnspentKey × CAddressUnspentValue) := []
  /-- For the spent index. -/
  spentIndex : List (CSpentIndexKey × CSpentIndexValue) := []
  deriving DecidableEq, Repr

namespace IndexUpdates

/-- Updates in order. -/
def concat (l : List IndexUpdates) : IndexUpdates where
  addressIndex := l.flatMap addressIndex
  addressUnspentIndex := l.flatMap addressUnspentIndex
  spentIndex := l.flatMap spentIndex

end IndexUpdates

namespace IndexDB

variable (db : IndexDB) (u : IndexUpdates)

/-- `UpdateAddressUnspentIndex`. -/
def updateAddressUnspentIndex (l : List (CAddressUnspentKey × CAddressUnspentValue)) : IndexDB :=
  { db with
    addressUnspentIndex := db.addressUnspentIndex.writeBatch
      (l.map fun e => (e.1, if e.2.isNull then none else some e.2)) }

/-- `UpdateSpentIndex`. -/
def updateSpentIndex (l : List (CSpentIndexKey × CSpentIndexValue)) : IndexDB :=
  { db with
    spentIndex := db.spentIndex.writeBatch
      (l.map fun e => (e.1, if e.2.isNull then none else some e.2)) }

/-- `WriteAddressIndex`. -/
def writeAddressIndex (l : List (CAddressIndexKey × Int)) : IndexDB :=
  { db with addressIndex := db.addressIndex.writeBatch (l.map fun e => (e.1, some e.2)) }

/-- `EraseAddressIndex`. -/
def eraseAddressIndex (l : List (CAddressIndexKey × Int)) : IndexDB :=
  { db with addressIndex := db.addressIndex.writeBatch (l.map fun e => (e.1, none)) }

/-- The writes at the end of `ConnectBlock`. -/
def connected : IndexDB :=
  ((db.writeAddressIndex u.addressIndex).updateAddressUnspentIndex
    u.addressUnspentIndex).updateSpentIndex u.spentIndex

/-- The writes at the end of `DisconnectBlock`. -/
def disconnected : IndexDB :=
  (db.eraseAddressIndex u.addressIndex).updateAddressUnspentIndex u.addressUnspentIndex

end IndexDB

/-! ## Collecting the updates -/

/-- `GetOutputFor`; none when its assertion fails. -/
def CCoinsView.getOutputFor (v : CCoinsView) (input : CTxIn) : Option CTxOut :=
  (v.getCoins input.prevout.hash).bind fun coins =>
    if coins.isAvailable input.prevout.n.toNat then coins.vout[input.prevout.n.toNat]? else none

/-- The solver, and the hash of a solution that is not an address already. -/
structure AddressEnv where
  /-- `GetAddressType`: the kind of address, and the solutions. -/
  getAddressType : CScript → Nat × List (List UInt8)
  /-- `Hash160`. -/
  hash160 : List UInt8 → BitVec 160

namespace AddressEnv

variable (ae : AddressEnv) (nHeight : Nat)

/-- The kind of address of a script, 0 without one. -/
def keyType (script : CScript) : Nat :=
  (ae.getAddressType script).1

/-- `addr.size() == 20 ? uint160(addr) : Hash160(addr)`. -/
def addrHash (addr : List UInt8) : BitVec 160 :=
  if addr.length = 20 then BitVec.ofNat 160 (leNat addr) else ae.hash160 addr

/-- The addresses that are recorded for a script. -/
def addrHashes (script : CScript) : List (BitVec 160) :=
  if ae.keyType script ≠ 0 then (ae.getAddressType script).2.map ae.addrHash else []

/-- `ConnectBlock`: input `j` of a transaction spends `prevout`. -/
def spendUpdates (i : Nat) (txhash : Uint256) (j : Nat) (input : CTxIn) (prevout : CTxOut) :
    IndexUpdates where
  addressIndex := (ae.addrHashes prevout.scriptPubKey).map fun addr =>
    (⟨ae.keyType prevout.scriptPubKey, addr, nHeight, i, txhash, j, true⟩, prevout.nValue * -1)
  addressUnspentIndex := (ae.addrHashes prevout.scriptPubKey).map fun addr =>
    (⟨ae.keyType prevout.scriptPubKey, addr, input.prevout.hash, input.prevout.n.toNat⟩, {})
  spentIndex := if ae.keyType prevout.scriptPubKey ≠ 0 then
      [(⟨input.prevout.hash, input.prevout.n.toNat⟩,
        { txid := txhash, inputIndex := j, blockHeight := nHeight, satoshis := prevout.nValue
          addressType := ae.keyType prevout.scriptPubKey
          addressHash := (ae.addrHashes prevout.scriptPubKey).getLast?.getD 0 })]
    else []

/-- `ConnectBlock`: output `k` of a transaction. -/
def outputUpdates (i : Nat) (txhash : Uint256) (k : Nat) (out : CTxOut) : IndexUpdates where
  addressIndex := (ae.addrHashes out.scriptPubKey).map fun addr =>
    (⟨ae.keyType out.scriptPubKey, addr, nHeight, i, txhash, k, false⟩, out.nValue)
  addressUnspentIndex := (ae.addrHashes out.scriptPubKey).map fun addr =>
    (⟨ae.keyType out.scriptPubKey, addr, txhash, k⟩,
      { satoshis := out.nValue, script := out.scriptPubKey, blockHeight := nHeight })

/-- `DisconnectBlock`: output `k` of a transaction. -/
def undoOutputUpdates (i : Nat) (txhash : Uint256) (k : Nat) (out : CTxOut) : IndexUpdates where
  addressIndex := (ae.addrHashes out.scriptPubKey).map fun addr =>
    (⟨ae.keyType out.scriptPubKey, addr, nHeight, i, txhash, k, false⟩, out.nValue)
  addressUnspentIndex := (ae.addrHashes out.scriptPubKey).map fun addr =>
    (⟨ae.keyType out.scriptPubKey, addr, txhash, k⟩, {})

/-- `DisconnectBlock`: input `j` of a transaction gets `prevout` back. The height of the
unspent entry is that of the undo data. -/
def undoSpendUpdates (i : Nat) (txhash : Uint256) (j : Nat) (input : CTxIn) (prevout : CTxOut)
    (undoHeight : Nat) : IndexUpdates where
  addressIndex := (ae.addrHashes prevout.scriptPubKey).map fun addr =>
    (⟨ae.keyType prevout.scriptPubKey, addr, nHeight, i, txhash, j, true⟩, prevout.nValue * -1)
  addressUnspentIndex := (ae.addrHashes prevout.scriptPubKey).map fun addr =>
    (⟨ae.keyType prevout.scriptPubKey, addr, input.prevout.hash, input.prevout.n.toNat⟩,
      { satoshis := prevout.nValue, script := prevout.scriptPubKey, blockHeight := undoHeight })
  spentIndex := [(⟨input.prevout.hash, input.prevout.n.toNat⟩, {})]

/-- The updates of `ConnectBlock` for a transaction that spends `prevouts`. -/
def txUpdates (i : Nat) (tx : CTransaction) (prevouts : List CTxOut) : IndexUpdates :=
  .concat (((tx.vin.zip prevouts).zipIdx.map fun p =>
      ae.spendUpdates nHeight i tx.hash p.2 p.1.1 p.1.2) ++
    tx.vout.zipIdx.map fun p => ae.outputUpdates nHeight i tx.hash p.2 p.1)

/-- The outputs that a transaction spends in a view. -/
def prevouts (v : CCoinsView) (tx : CTransaction) : Option (List CTxOut) :=
  if tx.isMint then some [] else tx.vin.mapM v.getOutputFor

variable (base : CCoinsView)

/-- The updates that `ConnectBlock` collects from transaction `i` on. -/
def connectUpdates : Nat → List CTransaction → CCoinsViewCache → Option (List IndexUpdates)
  | _, [], _ => some []
  | i, tx :: rest, c => do
    let outs ← prevouts (c.view base) tx
    let (c, _) ← c.updateCoins base tx nHeight
    let us ← connectUpdates (i + 1) rest c
    return ae.txUpdates nHeight i tx outs :: us

/-- The updates for the inputs of a transaction from input `j` on, the last one first,
with the view that has them back. -/
def restoreUpdates (i : Nat) (txhash : Uint256) : Nat → List CTxIn → List CTxInUndo →
    CCoinsViewCache → Option (CCoinsViewCache × List IndexUpdates)
  | j, input :: rest, undo :: undos, c => do
    let (c, us) ← restoreUpdates i txhash (j + 1) rest undos c
    let c := (c.applyTxInUndo base undo input.prevout).1
    let prevout ← (c.view base).getOutputFor input
    return (c, us ++ [ae.undoSpendUpdates nHeight i txhash j input prevout undo.nHeight])
  | _, _, _, c => some (c, [])

/-- The updates of `DisconnectBlock` for a transaction. -/
def undoTxUpdates (i : Nat) (tx : CTransaction) (undo : Option CTxUndo) (c : CCoinsViewCache) :
    Option (List IndexUpdates) :=
  let outs := (tx.vout.zipIdx.map fun p =>
    ae.undoOutputUpdates nHeight i tx.hash p.2 p.1).reverse
  let c := (c.modifyCoins base tx.hash fun _ => {}).setNullifiers tx false
  if tx.isMint then some outs
  else match undo with
    | none => none
    | some txundo =>
      (ae.restoreUpdates nHeight base i tx.hash 0 tx.vin txundo.vprevout c).map fun r => outs ++ r.2

/-- The updates that `DisconnectBlock` collects, down to transaction `i`. -/
def disconnectUpdates : Nat → List (CTransaction × Option CTxUndo) → CCoinsViewCache →
    Option (List IndexUpdates)
  | _, [], _ => some []
  | i, (tx, undo) :: rest, c => do
    let us ← disconnectUpdates (i + 1) rest c
    let (c, _) ← c.disconnectLoop base nHeight rest
    let us' ← ae.undoTxUpdates nHeight base i tx undo c
    return us ++ us'

end AddressEnv

namespace ConnectEnv

variable (env : ConnectEnv) (ae : AddressEnv) (base : CCoinsView)

/-- `ConnectBlock` with the indexes, for a block over `p`. -/
def connectBlockIndexed (block : CBlock) (p : CBlockIndex) (c : CCoinsViewCache) (db : IndexDB) :
    Option (CCoinsViewCache × CBlockUndo × IndexDB) := do
  let (c', undo) ← env.connectBlock base block (some p) c
  let us ← ae.connectUpdates (p.nHeight + 1) base 0 block.vtx c
  return (c', undo, db.connected (.concat us))

/-- `DisconnectBlock` with the indexes. -/
def disconnectBlockIndexed (block : CBlock) (undo : CBlockUndo) (p : CBlockIndex)
    (c : CCoinsViewCache) (db : IndexDB) : Option (CCoinsViewCache × Bool × IndexDB) := do
  let (d, fClean) ← env.disconnectBlock base block undo p c
  let us ← ae.disconnectUpdates (p.nHeight + 1) base 0
    (block.vtx.zip (none :: undo.vtxundo.map some)) c
  return (d, fClean, db.disconnected (.concat us))

end ConnectEnv

/-! ## Outputs in a view -/

namespace CCoins

theorem getElem?_live {k : CCoins} {n : Nat} {o : CTxOut} (ho : o.isNull = false) :
    k.live.vout[n]? = some o ↔ k.vout[n]? = some o := by
  cases hpruned : k.isPruned with
  | false => rw [live_of_not_isPruned hpruned]
  | true =>
    rw [live_of_isPruned hpruned]
    constructor
    · intro h
      cases h
    · intro h
      have hnull := List.all_eq_true.1 hpruned o (List.mem_of_getElem? h)
      rw [ho] at hnull
      cases hnull

theorem getElem?_cleanup {k : CCoins} {n : Nat} {o : CTxOut} (ho : o.isNull = false) :
    k.cleanup.vout[n]? = some o ↔ k.vout[n]? = some o :=
  getElem?_rdropWhile (by rw [ho]; exact Bool.false_ne_true)

/-- What is unspent after a spend was unspent before. -/
theorem getElem?_of_spendUndo {k k' : CCoins} {u : CTxInUndo} {n m : Nat} {o : CTxOut}
    (hs : k.spendUndo n = some (k', u)) (ho : o.isNull = false) (h : k'.vout[m]? = some o) :
    k.vout[m]? = some o := by
  obtain ⟨-, -, -, rfl, -⟩ := spendUndo_cases hs
  have hset := (getElem?_rdropWhile (by rw [ho]; exact Bool.false_ne_true)).1 h
  rw [List.getElem?_set] at hset
  split at hset
  · split at hset
    · cases hset
      cases ho
    · cases hset
  · exact hset

/-- An unspent output of a new record is an output of the transaction. -/
theorem getElem?_of_fromTx {tx : CTransaction} {nHeight n : Nat} {o : CTxOut}
    (ho : o.isNull = false) (h : (fromTx tx nHeight).vout[n]? = some o) : tx.vout[n]? = some o := by
  have hmap := (getElem?_rdropWhile (by rw [ho]; exact Bool.false_ne_true)).1 h
  rw [List.getElem?_map] at hmap
  obtain ⟨o', ho', heq⟩ := Option.map_eq_some_iff.1 hmap
  split at heq
  · rw [← heq] at ho
    cases ho
  · rwa [← heq]

/-- A spent output is gone. -/
theorem not_getElem?_of_spendUndo {k k' : CCoins} {u : CTxInUndo} {n : Nat} {o : CTxOut}
    (hs : k.spendUndo n = some (k', u)) (ho : o.isNull = false) : k'.vout[n]? ≠ some o := by
  intro h
  obtain ⟨-, -, -, rfl, -⟩ := spendUndo_cases hs
  have hset := (getElem?_rdropWhile (by rw [ho]; exact Bool.false_ne_true)).1 h
  rw [List.getElem?_set_self'] at hset
  obtain ⟨o', -, rfl⟩ := Option.map_eq_some_iff.1 hset
  cases ho

end CCoins

namespace CCoinsViewCache

variable {base : CCoinsView} {c : CCoinsViewCache} {input : CTxIn} {o : CTxOut}

/-- An output is found exactly if it is unspent in the contents. -/
theorem getOutputFor_iff : (c.view base).getOutputFor input = some o ↔
    (c.contents base input.prevout.hash).vout[input.prevout.n.toNat]? = some o ∧
      o.isNull = false := by
  have hread : (c.view base).getOutputFor input = some o ↔
      (c.coinsAt base input.prevout.hash).vout[input.prevout.n.toNat]? = some o ∧
        o.isNull = false := by
    rw [← getCoins_getD]
    unfold CCoinsView.getOutputFor
    cases (c.view base).getCoins input.prevout.hash with
    | none => simp
    | some k =>
      rw [Option.bind_some, Option.getD_some]
      unfold CCoins.isAvailable
      cases hk : k.vout[input.prevout.n.toNat]? with
      | none => simp
      | some o' =>
        simp only [Bool.not_eq_true', Option.ite_none_right_eq_some, Option.some.injEq]
        constructor
        · rintro ⟨h, rfl⟩
          exact ⟨rfl, h⟩
        · rintro ⟨rfl, h⟩
          exact ⟨h, rfl⟩
  rw [hread]
  unfold contents
  constructor
  · rintro ⟨h, ho⟩
    exact ⟨(CCoins.getElem?_live ho).2 h, ho⟩
  · rintro ⟨h, ho⟩
    exact ⟨(CCoins.getElem?_live ho).1 h, ho⟩

/-- What is found after an output is spent was found before. -/
theorem getOutputFor_of_spend (hc : c.Sound base) {txid : Uint256} {n : Nat} {k : CCoins}
    {u : CTxInUndo} (hs : (c.coinsAt base txid).spendUndo n = some (k, u))
    (h : ((c.modifyCoins base txid fun _ => k).view base).getOutputFor input = some o) :
    (c.view base).getOutputFor input = some o := by
  rw [getOutputFor_iff, contents_modifyCoins hc.wf] at h
  rw [getOutputFor_iff]
  obtain ⟨hget, ho⟩ := h
  refine ⟨?_, ho⟩
  by_cases hid : input.prevout.hash = txid
  · rw [hid, Function.update_self, CCoins.getElem?_live ho, CCoins.getElem?_cleanup ho] at hget
    unfold contents
    rw [CCoins.getElem?_live ho, hid]
    exact CCoins.getElem?_of_spendUndo hs ho hget
  · rwa [Function.update_of_ne hid] at hget

/-- The outputs that are spent are those that the view has. -/
theorem forall₂_getOutputFor {vin : List CTxIn} {c' : CCoinsViewCache} {us : List CTxInUndo}
    (hc : c.Sound base) (hs : c.spendInputs base vin = some (c', us)) :
    List.Forall₂ (fun input u => (c.view base).getOutputFor input = some u.txout) vin us := by
  induction vin generalizing c us with
  | nil =>
    cases hs
    exact .nil
  | cons input rest ih =>
    obtain ⟨k, u, us', hk, hrest, rfl⟩ := spendInputs_cons hs
    refine .cons ?_ ?_
    · obtain ⟨o, ho, hnull, -, hu⟩ := CCoins.spendUndo_cases hk
      have htxout : u.txout = o := by
        rw [hu]
        split <;> rfl
      rw [getOutputFor_iff, htxout]
      unfold contents
      exact ⟨(CCoins.getElem?_live hnull).2 ho, hnull⟩
    · exact (ih (hc.modifyCoins _ ((hc.canonical _).spendUndo hk)) hrest).imp fun input u h =>
        getOutputFor_of_spend hc hk h

/-- A restored output is found. -/
theorem getOutputFor_applyTxInUndo (hc : c.CacheWf base) (input : CTxIn) (undo : CTxInUndo)
    (hnull : undo.txout.isNull = false) :
    ((c.applyTxInUndo base undo input.prevout).1.view base).getOutputFor input =
      some undo.txout := by
  unfold applyTxInUndo
  rw [getOutputFor_iff, contents_modifyCoins hc, Function.update_self]
  refine ⟨?_, hnull⟩
  rw [CCoins.getElem?_live hnull, CCoins.getElem?_cleanup hnull]
  exact getElem?_putAt _ _ _ _

end CCoinsViewCache

/-! ## The updates as functions of the block and its undo data -/

/-- The undo data of a transaction fits it; a transaction that spends no coin needs none. -/
def CTransaction.Fits (tx : CTransaction) (undo : Option CTxUndo) (u : CTxUndo) : Prop :=
  (tx.isMint = true ∧ u.vprevout = []) ∨
    (tx.isMint = false ∧ undo = some u ∧ u.vprevout.length = tx.vin.length ∧
      ∀ x ∈ u.vprevout, x.txout.isNull = false)

/-- The undo data fits the transactions one by one. -/
def FitsAll : List CTransaction → List (Option CTxUndo) → List CTxUndo → Prop
  | [], [], [] => True
  | tx :: txs, undo :: undos, u :: us => tx.Fits undo u ∧ FitsAll txs undos us
  | _, _, _ => False

theorem FitsAll.length_eq {txs : List CTransaction} {undos : List (Option CTxUndo)}
    {us : List CTxUndo} (h : FitsAll txs undos us) : us.length = txs.length := by
  induction txs generalizing undos us with
  | nil =>
    cases undos <;> cases us <;> first | rfl | cases h
  | cons tx txs ih =>
    cases undos with
    | nil => cases h
    | cons undo undos =>
      cases us with
      | nil => cases h
      | cons u us => rw [List.length_cons, List.length_cons, ih h.2]

/-- The transactions with the undo data of their inputs and their positions from `i` on. -/
def spendsFrom (i : Nat) (txs : List CTransaction) (us : List CTxUndo) :
    List ((CTransaction × List CTxInUndo) × Nat) :=
  (txs.zip (us.map CTxUndo.vprevout)).zipIdx i

theorem spendsFrom_cons (i : Nat) (tx : CTransaction) (txs : List CTransaction) (u : CTxUndo)
    (us : List CTxUndo) :
    spendsFrom i (tx :: txs) (u :: us) = ((tx, u.vprevout), i) :: spendsFrom (i + 1) txs us := rfl

namespace AddressEnv

variable (ae : AddressEnv) (nHeight : Nat)

/-- The updates of `DisconnectBlock` for a transaction, from the undo data. -/
def undoneBy (p : (CTransaction × List CTxInUndo) × Nat) : List IndexUpdates :=
  (p.1.1.vout.zipIdx.map fun o =>
      ae.undoOutputUpdates nHeight p.2 p.1.1.hash o.2 o.1).reverse ++
    ((p.1.1.vin.zip p.1.2).zipIdx.map fun x =>
      ae.undoSpendUpdates nHeight p.2 p.1.1.hash x.2 x.1.1 x.1.2.txout x.1.2.nHeight).reverse

/-- The updates of `ConnectBlock` for a transaction, from the undo data. -/
def doneBy (p : (CTransaction × List CTxInUndo) × Nat) : IndexUpdates :=
  ae.txUpdates nHeight p.2 p.1.1 (p.1.2.map CTxInUndo.txout)

variable {ae nHeight} {base : CCoinsView}

open CCoinsViewCache

theorem mapM_getOutputFor {v : CCoinsView} {vin : List CTxIn} {us : List CTxInUndo}
    (h : List.Forall₂ (fun input u => v.getOutputFor input = some u.txout) vin us) :
    vin.mapM v.getOutputFor = some (us.map CTxInUndo.txout) := by
  induction h with
  | nil => rfl
  | cons hu _ ih =>
    rw [List.mapM_cons, hu, ih]
    rfl

/-- The outputs that `ConnectBlock` reads are those that it spends. -/
theorem prevouts_eq {tx : CTransaction} {c c' : CCoinsViewCache} {u : CTxUndo}
    (hc : c.Sound base) (hu : c.updateCoins base tx nHeight = some (c', u)) :
    prevouts (c.view base) tx = some (u.vprevout.map CTxInUndo.txout) ∧ tx.Fits (some u) u := by
  obtain ⟨c1, h1, -⟩ := updateCoins_cases hu
  unfold CCoinsViewCache.spendCoins at h1
  unfold prevouts
  cases hmint : tx.isMint with
  | true =>
    rw [hmint, if_pos rfl] at h1
    obtain ⟨-, hnil⟩ := Prod.mk.inj (Option.some.inj h1)
    rw [if_pos rfl, ← hnil]
    exact ⟨rfl, Or.inl ⟨hmint, hnil.symm⟩⟩
  | false =>
    rw [hmint, if_neg Bool.false_ne_true] at h1
    rw [if_neg Bool.false_ne_true]
    have hfound := forall₂_getOutputFor hc h1
    refine ⟨mapM_getOutputFor hfound, Or.inr ⟨hmint, rfl, hfound.length_eq.symm, ?_⟩⟩
    intro x hx
    obtain ⟨n, hn, hget⟩ := List.getElem_of_mem hx
    have hinput := hfound.get (by rw [hfound.length_eq]; exact hn) hn
    rw [← hget]
    exact (getOutputFor_iff.1 hinput).2

variable (ae) in
/-- The updates that `ConnectBlock` collects. -/
theorem connectUpdates_eq {env : ConnectEnv} {pindex : CBlockIndex} {txs : List CTransaction}
    {s s' : LoopState} {undos : List CTxUndo} (i : Nat) (hs : s.view.Sound base)
    (hout : ∀ tx ∈ txs, (CCoins.fromTx tx pindex.nHeight).Canonical) (hh : pindex.nHeight ≠ 0)
    (h : env.connectLoop base pindex txs s = some (s', undos)) :
    ae.connectUpdates pindex.nHeight base i txs s.view =
        some ((spendsFrom i txs undos).map (ae.doneBy pindex.nHeight)) ∧
      FitsAll txs (undos.map some) undos := by
  induction txs generalizing s undos i with
  | nil =>
    cases h
    exact ⟨rfl, trivial⟩
  | cons tx rest ih =>
    obtain ⟨s1, u, us, h1, h2, rfl⟩ := ConnectEnv.connectLoop_cons h
    obtain ⟨-, -, hu, -, -⟩ := ConnectEnv.connectTx_cases h1
    obtain ⟨hs1, -⟩ := ConnectEnv.Sound.connectTx hs (hout tx List.mem_cons_self) hh h1
    obtain ⟨hprev, hfits⟩ := prevouts_eq hs hu
    obtain ⟨hrest, hfitsRest⟩ :=
      ih (i + 1) hs1 (fun tx' htx' => hout tx' (List.mem_cons_of_mem _ htx')) h2
    refine ⟨?_, hfits, hfitsRest⟩
    rw [connectUpdates, hprev, hu]
    simp only [Option.bind_eq_bind, Option.bind_some, hrest]
    rfl

theorem CacheWf.restoreInputs {c : CCoinsViewCache} (hc : c.CacheWf base) (vin : List CTxIn)
    (us : List CTxInUndo) : (c.restoreInputs base vin us).1.CacheWf base ∧
      SameAnchors c (c.restoreInputs base vin us).1 := by
  induction vin generalizing us with
  | nil => exact ⟨hc, .refl _⟩
  | cons input rest ih =>
    cases us with
    | nil => exact ⟨hc, .refl _⟩
    | cons u us =>
      obtain ⟨hwf, hsame⟩ := ih us
      exact ⟨hwf.modifyCoins _ _, hsame.trans ⟨rfl, rfl, rfl⟩⟩

/-- The updates for the inputs that `DisconnectBlock` restores. -/
theorem restoreUpdates_eq {i j : Nat} {txhash : Uint256} {vin : List CTxIn}
    {us : List CTxInUndo} {c : CCoinsViewCache} (hc : c.CacheWf base)
    (hlen : us.length = vin.length) (hnull : ∀ x ∈ us, x.txout.isNull = false) :
    ae.restoreUpdates nHeight base i txhash j vin us c =
      some ((c.restoreInputs base vin us).1, (((vin.zip us).zipIdx j).map fun x =>
        ae.undoSpendUpdates nHeight i txhash x.2 x.1.1 x.1.2.txout x.1.2.nHeight).reverse) := by
  induction vin generalizing us j with
  | nil =>
    rw [List.length_nil] at hlen
    rw [List.eq_nil_of_length_eq_zero hlen]
    rfl
  | cons input rest ih =>
    cases us with
    | nil => cases hlen
    | cons u us =>
      have hrest := ih (j := j + 1) (Nat.succ.inj hlen)
        (fun x hx => hnull x (List.mem_cons_of_mem _ hx))
      have hfound := getOutputFor_applyTxInUndo (CacheWf.restoreInputs hc rest us).1 input u
        (hnull u List.mem_cons_self)
      rw [restoreUpdates, hrest]
      simp only [Option.bind_eq_bind, Option.bind_some, hfound, Option.pure_def,
        List.zip_cons_cons, List.zipIdx_cons, List.map_cons, List.reverse_cons]
      rfl

/-- The updates for a transaction that `DisconnectBlock` undoes. -/
theorem undoTxUpdates_eq {i : Nat} {tx : CTransaction} {undo : Option CTxUndo} {u : CTxUndo}
    {c : CCoinsViewCache} (hc : c.CacheWf base) (hfits : tx.Fits undo u) :
    ae.undoTxUpdates nHeight base i tx undo c =
      some (ae.undoneBy nHeight ((tx, u.vprevout), i)) := by
  unfold undoTxUpdates undoneBy
  dsimp only
  obtain ⟨hmint, hnil⟩ | ⟨hmint, rfl, hlen, hnull⟩ := hfits
  · rw [hmint, if_pos rfl, hnil, List.zip_nil_right, List.zipIdx_nil, List.map_nil,
      List.reverse_nil, List.append_nil]
  · have hwf : ((c.modifyCoins base tx.hash fun _ => {}).setNullifiers tx false).CacheWf base := by
      have hmodified := hc.modifyCoins tx.hash fun _ => {}
      exact ⟨hmodified.fresh, hmodified.known, hmodified.kept⟩
    rw [hmint, if_neg Bool.false_ne_true]
    dsimp only
    rw [restoreUpdates_eq hwf hlen hnull]
    rfl

variable (nHeight) in
/-- A transaction with fitting undo data can be undone. -/
theorem disconnectTx_of_fits {tx : CTransaction} {undo : Option CTxUndo} {u : CTxUndo}
    {c : CCoinsViewCache} (hc : c.CacheWf base) (hfits : tx.Fits undo u) :
    ∃ r, c.disconnectTx base nHeight tx undo = some r ∧ r.1.CacheWf base ∧ SameAnchors c r.1 := by
  have hwf : ((c.modifyCoins base tx.hash fun _ => {}).setNullifiers tx false).CacheWf base := by
    have hmodified := hc.modifyCoins tx.hash fun _ => {}
    exact ⟨hmodified.fresh, hmodified.known, hmodified.kept⟩
  unfold disconnectTx
  dsimp only
  obtain ⟨hmint, -⟩ | ⟨hmint, rfl, hlen, -⟩ := hfits
  · rw [if_pos hmint]
    refine ⟨_, rfl, ?_, ?_⟩
    · dsimp only
      split
      · unfold removeImportTombstone
        split
        · exact hwf
        · exact hwf.modifyCoins _ _
      · exact hwf
    · dsimp only
      split
      · unfold removeImportTombstone
        split <;> exact ⟨rfl, rfl, rfl⟩
      · exact ⟨rfl, rfl, rfl⟩
  · rw [hmint, if_neg Bool.false_ne_true]
    dsimp only
    rw [if_pos hlen]
    obtain ⟨hwf', hsame⟩ := CacheWf.restoreInputs hwf tx.vin u.vprevout
    have hframe : SameAnchors c ((c.modifyCoins base tx.hash fun _ => {}).setNullifiers tx false) :=
      ⟨rfl, rfl, rfl⟩
    exact ⟨_, rfl, hwf', hframe.trans hsame⟩

variable (ae nHeight) in
/-- The undo loop runs through, with the updates for each transaction. -/
theorem disconnectUpdates_eq {txs : List CTransaction} {undos : List (Option CTxUndo)}
    {us : List CTxUndo} {c : CCoinsViewCache} (i : Nat) (hc : c.CacheWf base)
    (hfits : FitsAll txs undos us) :
    (∃ r, c.disconnectLoop base nHeight (txs.zip undos) = some r ∧ r.1.CacheWf base ∧
      SameAnchors c r.1) ∧
    ∃ l, ae.disconnectUpdates nHeight base i (txs.zip undos) c = some l ∧
      ∀ x, x ∈ l ↔ ∃ p ∈ spendsFrom i txs us, x ∈ ae.undoneBy nHeight p := by
  induction txs generalizing undos us i with
  | nil =>
    cases undos with
    | nil =>
      refine ⟨⟨(c, true), rfl, hc, .refl _⟩, [], rfl, fun x => ?_⟩
      constructor
      · exact fun h => absurd h List.not_mem_nil
      · rintro ⟨p, hp, -⟩
        exact absurd hp List.not_mem_nil
    | cons undo undos => cases hfits
  | cons tx txs ih =>
    cases undos with
    | nil => cases hfits
    | cons undo undos =>
      cases us with
      | nil => cases hfits
      | cons u us =>
        obtain ⟨⟨r, hloop, hwf, hsame⟩, l, hl, hmem⟩ := ih (i + 1) hfits.2
        obtain ⟨r', htx, hwf', hsame'⟩ := disconnectTx_of_fits nHeight hwf hfits.1
        refine ⟨⟨(r'.1, r.2 && r'.2), ?_, hwf', hsame.trans hsame'⟩,
          l ++ ae.undoneBy nHeight ((tx, u.vprevout), i), ?_, fun x => ?_⟩
        · rw [List.zip_cons_cons, disconnectLoop, hloop]
          simp only [Option.bind_eq_bind, Option.bind_some, htx, Option.pure_def]
        · rw [List.zip_cons_cons, disconnectUpdates, hl, hloop]
          simp only [Option.bind_eq_bind, Option.bind_some, undoTxUpdates_eq hwf hfits.1,
            Option.pure_def]
        · rw [List.mem_append, hmem, spendsFrom_cons]
          simp only [List.mem_cons, exists_eq_or_imp]
          exact or_comm

/-! ## The condition -/

variable (ae nHeight base) in
/-- No transaction spends an output with an address, in the view at its turn. -/
def SpendsNoAddress : List CTransaction → CCoinsViewCache → Prop
  | [], _ => True
  | tx :: rest, c =>
    (∀ outs, prevouts (c.view base) tx = some outs →
      ∀ out ∈ outs, ae.keyType out.scriptPubKey = 0) ∧
    ∀ c' u, c.updateCoins base tx nHeight = some (c', u) → SpendsNoAddress rest c'

variable (ae) in
/-- The condition in terms of the undo data. -/
theorem spendsNoAddress_iff {env : ConnectEnv} {pindex : CBlockIndex} {txs : List CTransaction}
    {s s' : LoopState} {undos : List CTxUndo} (i : Nat) (hs : s.view.Sound base)
    (hout : ∀ tx ∈ txs, (CCoins.fromTx tx pindex.nHeight).Canonical) (hh : pindex.nHeight ≠ 0)
    (h : env.connectLoop base pindex txs s = some (s', undos)) :
    SpendsNoAddress ae pindex.nHeight base txs s.view ↔
      ∀ p ∈ spendsFrom i txs undos, ∀ x ∈ p.1.2, ae.keyType x.txout.scriptPubKey = 0 := by
  induction txs generalizing s undos i with
  | nil =>
    cases h
    exact ⟨fun _ p hp => absurd hp List.not_mem_nil, fun _ => trivial⟩
  | cons tx rest ih =>
    obtain ⟨s1, u, us, h1, h2, rfl⟩ := ConnectEnv.connectLoop_cons h
    obtain ⟨-, -, hu, -, -⟩ := ConnectEnv.connectTx_cases h1
    obtain ⟨hs1, -⟩ := ConnectEnv.Sound.connectTx hs (hout tx List.mem_cons_self) hh h1
    obtain ⟨hprev, -⟩ := prevouts_eq hs hu
    have hrest := ih (i + 1) hs1 (fun tx' htx' => hout tx' (List.mem_cons_of_mem _ htx')) h2
    unfold SpendsNoAddress
    rw [spendsFrom_cons, List.forall_mem_cons]
    refine and_congr ?_ ?_
    · rw [hprev]
      constructor
      · intro hcond x hx
        exact hcond _ rfl x.txout (List.mem_map_of_mem hx)
      · rintro hcond outs houts out hout
        cases houts
        obtain ⟨x, hx, rfl⟩ := List.mem_map.1 hout
        exact hcond x hx
    · rw [← hrest]
      constructor
      · exact fun hcond => hcond s1.view u hu
      · intro hcond c' u' hu'
        rw [hu] at hu'
        cases hu'
        exact hcond

/-! ## What the two batches name -/

variable {p : (CTransaction × List CTxInUndo) × Nat} {x : IndexUpdates}

variable (ae nHeight p) in
/-- The updates of `ConnectBlock` for a transaction, input by input and output by output. -/
def doneParts : List IndexUpdates :=
  ((p.1.1.vin.zip p.1.2).zipIdx.map fun x =>
      ae.spendUpdates nHeight p.2 p.1.1.hash x.2 x.1.1 x.1.2.txout) ++
    p.1.1.vout.zipIdx.map fun o => ae.outputUpdates nHeight p.2 p.1.1.hash o.2 o.1

theorem doneBy_eq : ae.doneBy nHeight p = .concat (ae.doneParts nHeight p) := by
  unfold doneBy txUpdates doneParts
  rw [List.zip_map_right, List.zipIdx_map, List.map_map]
  rfl

/-- Both functions name the same keys, if they do so for each input and output. -/
theorem mem_doneParts_iff {κ : Type} {f : IndexUpdates → List κ}
    (hspend : ∀ i txhash j input prevout h, f (ae.spendUpdates nHeight i txhash j input prevout) =
      f (ae.undoSpendUpdates nHeight i txhash j input prevout h))
    (hout : ∀ i txhash k out, f (ae.outputUpdates nHeight i txhash k out) =
      f (ae.undoOutputUpdates nHeight i txhash k out)) (key : κ) :
    (∃ x ∈ ae.doneParts nHeight p, key ∈ f x) ↔ ∃ x ∈ ae.undoneBy nHeight p, key ∈ f x := by
  unfold doneParts undoneBy
  simp only [List.mem_append, List.mem_reverse, List.mem_map, or_and_right, exists_or,
    exists_exists_and_eq_and]
  rw [or_comm]
  refine or_congr ?_ ?_
  · simp only [hout]
  · refine exists_congr fun x => and_congr_right fun _ => ?_
    rw [hspend _ _ _ _ _ x.1.2.nHeight]

/-- An input or output is recorded at the height of the block. -/
theorem blockHeight_of_mem_doneParts (hx : x ∈ ae.doneParts nHeight p) {key : CAddressIndexKey}
    (hkey : key ∈ x.addressIndex.map Prod.fst) : key.blockHeight = nHeight := by
  rcases List.mem_append.1 hx with hx | hx
  · obtain ⟨y, -, rfl⟩ := List.mem_map.1 hx
    obtain ⟨e, he, rfl⟩ := List.mem_map.1 hkey
    obtain ⟨addr, -, rfl⟩ := List.mem_map.1 he
    rfl
  · obtain ⟨y, -, rfl⟩ := List.mem_map.1 hx
    obtain ⟨e, he, rfl⟩ := List.mem_map.1 hkey
    obtain ⟨addr, -, rfl⟩ := List.mem_map.1 he
    rfl

/-- So is who spends an output. -/
theorem spentIndex_of_mem_doneParts (hx : x ∈ ae.doneParts nHeight p)
    {e : CSpentIndexKey × CSpentIndexValue} (he : e ∈ x.spentIndex) :
    e.2.blockHeight = nHeight ∧ e.2.txid = p.1.1.hash := by
  rcases List.mem_append.1 hx with hx | hx
  · obtain ⟨y, -, rfl⟩ := List.mem_map.1 hx
    unfold spendUpdates at he
    dsimp only at he
    split at he
    · rw [List.mem_singleton.1 he]
      exact ⟨rfl, rfl⟩
    · exact absurd he List.not_mem_nil
  · obtain ⟨y, -, rfl⟩ := List.mem_map.1 hx
    exact absurd he List.not_mem_nil

section NoAddress

variable (hcond : ∀ u ∈ p.1.2, ae.keyType u.txout.scriptPubKey = 0)

include hcond

/-- Without a spent address, the spent index gets nothing. -/
theorem spentIndex_eq_nil (hx : x ∈ ae.doneParts nHeight p) : x.spentIndex = [] := by
  rcases List.mem_append.1 hx with hx | hx
  · obtain ⟨y, hy, rfl⟩ := List.mem_map.1 hx
    have hmem := (List.of_mem_zip (List.fst_mem_of_mem_zipIdx hy)).2
    exact if_neg (by rw [hcond _ hmem]; exact fun h => h rfl)
  · obtain ⟨y, -, rfl⟩ := List.mem_map.1 hx
    rfl

/-- The unspent entries are those of the outputs of the transaction. -/
theorem txhash_of_mem_doneParts (hx : x ∈ ae.doneParts nHeight p) {key : CAddressUnspentKey}
    (hkey : key ∈ x.addressUnspentIndex.map Prod.fst) : key.txhash = p.1.1.hash := by
  rcases List.mem_append.1 hx with hx | hx
  · obtain ⟨y, hy, rfl⟩ := List.mem_map.1 hx
    have hmem := (List.of_mem_zip (List.fst_mem_of_mem_zipIdx hy)).2
    have hnone : ae.addrHashes y.1.2.txout.scriptPubKey = [] :=
      if_neg (by rw [hcond _ hmem]; exact fun h => h rfl)
    obtain ⟨e, he, rfl⟩ := List.mem_map.1 hkey
    unfold spendUpdates at he
    dsimp only at he
    rw [hnone] at he
    exact absurd he List.not_mem_nil
  · obtain ⟨y, -, rfl⟩ := List.mem_map.1 hx
    obtain ⟨e, he, rfl⟩ := List.mem_map.1 hkey
    obtain ⟨addr, -, rfl⟩ := List.mem_map.1 he
    rfl

/-- Disconnecting erases them. -/
theorem isNull_of_mem_undoneBy (hx : x ∈ ae.undoneBy nHeight p)
    {e : CAddressUnspentKey × CAddressUnspentValue} (he : e ∈ x.addressUnspentIndex) :
    e.2.isNull = true := by
  rcases List.mem_append.1 hx with hx | hx
  · obtain ⟨y, -, rfl⟩ := List.mem_map.1 (List.mem_reverse.1 hx)
    obtain ⟨addr, -, rfl⟩ := List.mem_map.1 he
    rfl
  · obtain ⟨y, hy, rfl⟩ := List.mem_map.1 (List.mem_reverse.1 hx)
    have hmem := (List.of_mem_zip (List.fst_mem_of_mem_zipIdx hy)).2
    have hnone : ae.addrHashes y.1.2.txout.scriptPubKey = [] :=
      if_neg (by rw [hcond _ hmem]; exact fun h => h rfl)
    unfold undoSpendUpdates at he
    dsimp only at he
    rw [hnone] at he
    exact absurd he List.not_mem_nil

end NoAddress

/-- A spent address is recorded. -/
theorem exists_spentIndex {u : CTxInUndo} (hlen : p.1.2.length = p.1.1.vin.length)
    (hu : u ∈ p.1.2) (htype : ae.keyType u.txout.scriptPubKey ≠ 0) :
    ∃ x ∈ ae.doneParts nHeight p, ∃ e, e ∈ x.spentIndex := by
  obtain ⟨j, hj, rfl⟩ := List.getElem_of_mem hu
  have hj' : j < p.1.1.vin.length := hlen ▸ hj
  have hmem : ((p.1.1.vin[j], p.1.2[j]), j) ∈ (p.1.1.vin.zip p.1.2).zipIdx := by
    rw [List.mem_zipIdx_iff_getElem?, List.getElem?_zip_eq_some]
    exact ⟨List.getElem?_eq_getElem hj', List.getElem?_eq_getElem hj⟩
  refine ⟨_, List.mem_append_left _ (List.mem_map_of_mem hmem), ?_⟩
  unfold spendUpdates
  dsimp only
  rw [if_pos htype]
  exact ⟨_, List.mem_singleton.2 rfl⟩

/-- The undo data fits every transaction. -/
theorem fits_of_mem_spendsFrom {txs : List CTransaction} {undos : List (Option CTxUndo)}
    {us : List CTxUndo} {i : Nat} (hfits : FitsAll txs undos us) (hp : p ∈ spendsFrom i txs us) :
    p.1.1 ∈ txs ∧ (p.1.2 = [] ∨ p.1.2.length = p.1.1.vin.length) := by
  induction txs generalizing undos us i with
  | nil => exact absurd hp List.not_mem_nil
  | cons tx txs ih =>
    cases undos with
    | nil => cases hfits
    | cons undo undos =>
      cases us with
      | nil => cases hfits
      | cons u us =>
        rw [spendsFrom_cons] at hp
        rcases List.mem_cons.1 hp with rfl | hp
        · refine ⟨List.mem_cons_self, ?_⟩
          rcases hfits.1 with ⟨-, hnil⟩ | ⟨-, -, hlen, -⟩
          · exact Or.inl hnil
          · exact Or.inr hlen
        · obtain ⟨hmem, hshape⟩ := ih hfits.2 hp
          exact ⟨List.mem_cons_of_mem _ hmem, hshape⟩

end AddressEnv

/-! ## Connecting and disconnecting -/

/-- The indexes belong to a chain whose next block is at `nHeight`: what they record is
below, and what they have as unspent is unspent in the view. -/
structure IndexDB.Consistent (db : IndexDB) (v : CCoinsView) (nHeight : Nat) : Prop where
  /-- The address index is below. -/
  address : ∀ key value, db.addressIndex key = some value → key.blockHeight < nHeight
  /-- The unspent entries are outputs of the view. -/
  unspent : ∀ key value, db.addressUnspentIndex key = some value →
    ∃ coins, v.getCoins key.txhash = some coins ∧ coins.isAvailable key.index = true
  /-- The spent index is below. -/
  spent : ∀ key value, db.spentIndex key = some value → value.blockHeight < nHeight

namespace AddressEnv

variable {ae : AddressEnv} {nHeight : Nat} {db : IndexDB}
  {spends : List ((CTransaction × List CTxInUndo) × Nat)} {l : List IndexUpdates}

/-- The entries that a block adds to an index. -/
theorem mem_flatMap_doneBy {κ : Type} {f : IndexUpdates → List κ}
    (hf : ∀ l, f (.concat l) = l.flatMap f) (key : κ) :
    key ∈ f (.concat (spends.map (ae.doneBy nHeight))) ↔
      ∃ p ∈ spends, ∃ x ∈ ae.doneParts nHeight p, key ∈ f x := by
  simp only [hf, List.mem_flatMap, List.mem_map, exists_exists_and_eq_and, doneBy_eq]

/-- Disconnecting names the keys of an index that connecting named. -/
theorem mem_done_iff_mem_undone {κ : Type} {f : IndexUpdates → List κ}
    (hl : ∀ x, x ∈ l ↔ ∃ p ∈ spends, x ∈ ae.undoneBy nHeight p)
    (hf : ∀ l, f (.concat l) = l.flatMap f)
    (hspend : ∀ i txhash j input prevout h, f (ae.spendUpdates nHeight i txhash j input prevout) =
      f (ae.undoSpendUpdates nHeight i txhash j input prevout h))
    (hout : ∀ i txhash k out, f (ae.outputUpdates nHeight i txhash k out) =
      f (ae.undoOutputUpdates nHeight i txhash k out)) (key : κ) :
    key ∈ f (.concat (spends.map (ae.doneBy nHeight))) ↔ key ∈ f (.concat l) := by
  rw [mem_flatMap_doneBy hf, hf, List.mem_flatMap]
  constructor
  · rintro ⟨p, hp, hkey⟩
    obtain ⟨x, hx, hmem⟩ := (mem_doneParts_iff hspend hout key).1 hkey
    exact ⟨x, (hl x).2 ⟨p, hp, hx⟩, hmem⟩
  · rintro ⟨x, hx, hmem⟩
    obtain ⟨p, hp, hx'⟩ := (hl x).1 hx
    exact ⟨p, hp, (mem_doneParts_iff hspend hout key).2 ⟨x, hx', hmem⟩⟩

/-- The address index is always restored. -/
theorem addressIndex_restored (hl : ∀ x, x ∈ l ↔ ∃ p ∈ spends, x ∈ ae.undoneBy nHeight p)
    (hbelow : ∀ key value, db.addressIndex key = some value → key.blockHeight < nHeight) :
    ((db.connected (.concat (spends.map (ae.doneBy nHeight)))).disconnected
      (.concat l)).addressIndex = db.addressIndex := by
  refine Store.writeBatch_undo (fun key => ?_) (fun op hop => ?_) (fun key hkey => ?_)
  · rw [List.map_map, List.map_map]
    exact mem_done_iff_mem_undone (f := fun u => u.addressIndex.map Prod.fst) hl
      (fun l => List.map_flatMap ..) (fun _ _ _ _ _ _ => rfl) (fun _ _ _ _ => rfl) key
  · obtain ⟨e, -, rfl⟩ := List.mem_map.1 hop
    rfl
  · rw [List.map_map] at hkey
    obtain ⟨p, -, x, hx, hmem⟩ := (mem_flatMap_doneBy
      (f := fun u => u.addressIndex.map Prod.fst) (fun l => List.map_flatMap ..) key).1 hkey
    rw [Option.eq_none_iff_forall_ne_some]
    intro value hvalue
    exact absurd (blockHeight_of_mem_doneParts hx hmem) (Nat.ne_of_lt (hbelow key value hvalue))

/-- The unspent index is restored when no address is spent. -/
theorem addressUnspentIndex_restored
    (hl : ∀ x, x ∈ l ↔ ∃ p ∈ spends, x ∈ ae.undoneBy nHeight p)
    (hfree : ∀ key : CAddressUnspentKey, (∃ p ∈ spends, key.txhash = p.1.1.hash) →
      db.addressUnspentIndex key = none)
    (hcond : ∀ p ∈ spends, ∀ u ∈ p.1.2, ae.keyType u.txout.scriptPubKey = 0) :
    ((db.connected (.concat (spends.map (ae.doneBy nHeight)))).disconnected
      (.concat l)).addressUnspentIndex = db.addressUnspentIndex := by
  refine Store.writeBatch_undo (fun key => ?_) (fun op hop => ?_) (fun key hkey => ?_)
  · rw [List.map_map, List.map_map]
    refine mem_done_iff_mem_undone (f := fun u => u.addressUnspentIndex.map Prod.fst) hl
      (fun l => List.map_flatMap ..) (fun _ _ _ _ _ _ => ?_) (fun _ _ _ _ => ?_) key
    · unfold spendUpdates undoSpendUpdates
      rw [List.map_map, List.map_map]
      rfl
    · unfold outputUpdates undoOutputUpdates
      rw [List.map_map, List.map_map]
      rfl
  · obtain ⟨e, he, rfl⟩ := List.mem_map.1 hop
    obtain ⟨x, hx, hmem⟩ := List.mem_flatMap.1 he
    obtain ⟨p, hp, hx'⟩ := (hl x).1 hx
    exact if_pos (isNull_of_mem_undoneBy (hcond p hp) hx' hmem)
  · rw [List.map_map] at hkey
    obtain ⟨p, hp, x, hx, hmem⟩ := (mem_flatMap_doneBy
      (f := fun u => u.addressUnspentIndex.map Prod.fst) (fun l => List.map_flatMap ..) key).1 hkey
    exact hfree key ⟨p, hp, txhash_of_mem_doneParts (hcond p hp) hx hmem⟩

variable (ae) in
/-- The spent index is as before exactly if no address is spent. -/
theorem spentIndex_restored_iff
    (hbelow : ∀ key value, db.spentIndex key = some value → value.blockHeight < nHeight)
    (hid : ∀ p ∈ spends, p.1.1.hash ≠ 0)
    (hshape : ∀ p ∈ spends, p.1.2 = [] ∨ p.1.2.length = p.1.1.vin.length) :
    (db.connected (.concat (spends.map (ae.doneBy nHeight)))).spentIndex = db.spentIndex ↔
      ∀ p ∈ spends, ∀ u ∈ p.1.2, ae.keyType u.txout.scriptPubKey = 0 := by
  constructor
  · intro heq p hp u hu
    by_contra htype
    have hlen : p.1.2.length = p.1.1.vin.length :=
      (hshape p hp).resolve_left (List.ne_nil_of_mem hu)
    obtain ⟨x, hx, e, he⟩ : ∃ x ∈ ae.doneParts nHeight p, ∃ e, e ∈ x.spentIndex :=
      exists_spentIndex hlen hu htype
    have hmem : e ∈ (IndexUpdates.concat (spends.map (ae.doneBy nHeight))).spentIndex :=
      (mem_flatMap_doneBy (f := IndexUpdates.spentIndex) (fun _ => rfl) e).2 ⟨p, hp, x, hx, he⟩
    -- what the batch leaves at this key is at the height of the block
    have hread := Store.writeBatch_mem db.spentIndex
      (List.mem_map_of_mem (f := Prod.fst) (List.mem_map_of_mem
        (f := fun e : CSpentIndexKey × CSpentIndexValue =>
          (e.1, if e.2.isNull then none else some e.2)) hmem))
    obtain ⟨e', he', hwritten⟩ := List.mem_map.1 hread
    obtain ⟨p', hp', x', hx', hmem'⟩ :=
      (mem_flatMap_doneBy (f := IndexUpdates.spentIndex) (fun _ => rfl) e').1 he'
    obtain ⟨hheight, htxid⟩ := spentIndex_of_mem_doneParts hx' hmem'
    have hnotnull : e'.2.isNull = false := by
      unfold CSpentIndexValue.isNull
      rw [htxid]
      exact beq_eq_false_iff_ne.2 (hid p' hp')
    have hstored := congrArg Prod.snd hwritten
    dsimp only at hstored
    rw [hnotnull, if_neg Bool.false_ne_true] at hstored
    have hbefore : db.spentIndex e.1 = some e'.2 := (congrFun heq e.1).symm.trans hstored.symm
    exact absurd hheight (Nat.ne_of_lt (hbelow _ _ hbefore))
  · intro hcond
    have hnil : (IndexUpdates.concat (spends.map (ae.doneBy nHeight))).spentIndex = [] := by
      rw [List.eq_nil_iff_forall_not_mem]
      intro e he
      obtain ⟨p, hp, x, hx, hmem⟩ :=
        (mem_flatMap_doneBy (f := IndexUpdates.spentIndex) (fun _ => rfl) e).1 he
      rw [spentIndex_eq_nil (hcond p hp) hx] at hmem
      exact absurd hmem List.not_mem_nil
    unfold IndexDB.connected IndexDB.updateSpentIndex
    dsimp only
    rw [hnil]
    rfl

end AddressEnv

namespace ConnectEnv

open CCoinsViewCache

variable {env : ConnectEnv} {ae : AddressEnv} {base : CCoinsView} {block : CBlock}
  {c c' : CCoinsViewCache} {p : CBlockIndex} {undo : CBlockUndo}

/-- What `ConnectBlock` stores fits the transactions of the block; the coinbase has no
undo data. -/
theorem fitsAll_coinbase {pindex : CBlockIndex} {undos : List CTxUndo}
    (hcheck : env.checkBlock block pindex = true)
    (hfits : FitsAll block.vtx (undos.map some) undos) :
    (undos.drop 1).length + 1 = block.vtx.length ∧
      FitsAll block.vtx (none :: (undos.drop 1).map some) undos := by
  obtain ⟨cb, rest, hvtx, hcb⟩ := coinbase_of_checkBlock hcheck
  have hmint : cb.isMint = true := by
    unfold CTransaction.isMint
    rw [hcb, Bool.or_true]
  rw [hvtx] at hfits ⊢
  cases undos with
  | nil => cases hfits
  | cons u us =>
    refine ⟨?_, ?_, hfits.2⟩
    · rw [List.drop_one, List.tail_cons, List.length_cons, hfits.2.length_eq]
    · obtain ⟨-, hnil⟩ | ⟨hmint', -⟩ := hfits.1
      · exact Or.inl ⟨hmint, hnil⟩
      · rw [hmint] at hmint'
        cases hmint'

/-- The genesis block has no block before it. -/
theorem hash_ne_genesis (h : env.connectBlock base block (some p) c = some (c', undo)) :
    block.hash ≠ env.params.hashGenesisBlock := by
  intro hgen
  cases (ConnectEnv.connectBlock_genesis h hgen).1

/-- A block that is connected has no unspent entries. -/
theorem addressUnspentIndex_eq_none {db : IndexDB} {nHeight : Nat}
    (hdb : db.Consistent (c.view base) nHeight)
    (hover : ConnectEnv.noOverwrites (c.view base) block = true) {tx : CTransaction}
    (htx : tx ∈ block.vtx) {key : CAddressUnspentKey} (hkey : key.txhash = tx.hash) :
    db.addressUnspentIndex key = none := by
  rw [Option.eq_none_iff_forall_ne_some]
  intro value hvalue
  obtain ⟨coins, hcoins, havail⟩ := hdb.unspent key value hvalue
  have hpruned := List.all_eq_true.1 hover tx htx
  rw [← hkey, hcoins] at hpruned
  unfold CCoins.isAvailable at havail
  split at havail
  · rename_i o ho
    have hnull := List.all_eq_true.1 hpruned o (List.mem_of_getElem? ho)
    rw [hnull] at havail
    cases havail
  · cases havail

variable (ae) in
/-- `DisconnectBlock` of the block just connected runs through, with the updates of the
undo data of its connection. -/
theorem disconnectBlockIndexed_runs {pindex : CBlockIndex} {s s' : LoopState}
    {undos : List CTxUndo} (hpindex : pindex = CBlockIndex.ofBlock block (some p))
    (hs : s.view.Sound base) (hanchors : s.view.AnchorsOk base env.trees)
    (hcheck : env.checkBlock block pindex = true)
    (hcan : ∀ tx ∈ block.vtx, (CCoins.fromTx tx pindex.nHeight).Canonical)
    (hloop : env.connectLoop base pindex block.vtx s = some (s', undos))
    (hc' : c' = ((s'.view.pushAnchor base env.trees .sprout s'.sproutTree).pushAnchor base
      env.trees .sapling s'.saplingTree).setBestBlock block.hash)
    (hfits : FitsAll block.vtx (undos.map some) undos) (rt : Uint256) (db : IndexDB) :
    ∃ d fClean l, env.disconnectBlockIndexed ae base block ⟨undos.drop 1, rt⟩ p c' db =
        some (d, fClean, db.disconnected (.concat l)) ∧
      ∀ x, x ∈ l ↔ ∃ q ∈ spendsFrom 0 block.vtx undos, x ∈ ae.undoneBy pindex.nHeight q := by
  subst hpindex
  obtain ⟨hsound', hf⟩ := ConnectEnv.Sound.connectLoop hs hcan (Nat.succ_ne_zero _) hloop
  have hcoins : c'.cacheCoins = s'.view.cacheCoins := by simp [hc', CCoinsViewCache.setBestBlock]
  have hanch : c'.AnchorsOk base env.trees := by
    rw [hc']
    exact (((hanchors.of_same hf).pushAnchor .sprout s'.sproutTree).pushAnchor
      .sapling s'.saplingTree).setBestBlock _
  obtain ⟨hlen, hfits'⟩ := fitsAll_coinbase hcheck hfits
  obtain ⟨⟨⟨d1, fClean⟩, hd1, -, hframe⟩, l, hl, hmem⟩ :=
    AddressEnv.disconnectUpdates_eq ae (p.nHeight + 1) 0
      (hsound'.of_cacheCoins hcoins).wf hfits'
  obtain ⟨d2, d3, hd2, hd3, -⟩ := popBoth (hanch.of_same hframe) rt (env.saplingRootAt p)
  have hbest : block.hash = (c'.view base).getBestBlock := by
    rw [hc']
    exact (if_neg block.hash_ne_null).symm
  refine ⟨d3.setBestBlock p.phashBlock, fClean, l, ?_, hmem⟩
  unfold disconnectBlockIndexed disconnectBlock
  simp only [← hbest, hlen, beq_self_eq_true, ensure, if_true, Option.bind_eq_bind,
    Option.bind_some, hd1, hd2, hd3, hl, Option.pure_def]

/-- Disconnecting the block that was just connected runs through, and restores the three
indexes exactly if the block spends no output with an address. -/
theorem disconnectBlockIndexed_restores_iff {admits : CBlock → Nat → Prop} {db db' : IndexDB}
    (hreach : Reached env admits base c (some p))
    (hdb : db.Consistent (c.view base) (p.nHeight + 1)) (hid : ∀ tx ∈ block.vtx, tx.hash ≠ 0)
    (hc : env.connectBlockIndexed ae base block p c db = some (c', undo, db')) :
    ∃ d fClean db'',
      env.disconnectBlockIndexed ae base block undo p c' db' = some (d, fClean, db'') ∧
      (db'' = db ↔ ae.SpendsNoAddress (p.nHeight + 1) base block.vtx c) := by
  obtain ⟨hsound, hanchors⟩ := sound_of_reached hreach
  unfold connectBlockIndexed at hc
  simp only [Option.bind_eq_bind, Option.bind_eq_some_iff] at hc
  obtain ⟨⟨c1, undo1⟩, hconnect, us, hus, hret⟩ := hc
  obtain ⟨rfl, rfl, rfl⟩ : c1 = c' ∧ undo1 = undo ∧ db.connected (.concat us) = db' := by
    simpa using hret
  obtain ⟨q, t1, t2, s, undos, hq, hcheck, -, hover, -, -, hloop, -, hc1, rfl⟩ :=
    ConnectEnv.connectBlock_cases hconnect (hash_ne_genesis hconnect)
  obtain rfl := Option.some.inj hq
  have hcan := canonical_of_checkBlock hcheck p.nHeight
  obtain ⟨hupdates, hfits⟩ :=
    AddressEnv.connectUpdates_eq ae 0 hsound hcan (Nat.succ_ne_zero _) hloop
  obtain rfl := Option.some.inj (hus.symm.trans hupdates)
  have hcond := AddressEnv.spendsNoAddress_iff ae 0 hsound hcan (Nat.succ_ne_zero _) hloop
  obtain ⟨d, fClean, l, hrun, hl⟩ := disconnectBlockIndexed_runs ae rfl hsound hanchors
    hcheck hcan hloop hc1 hfits ((c.view base).getBestAnchor .sprout)
    (db.connected (.concat ((spendsFrom 0 block.vtx undos).map (ae.doneBy (p.nHeight + 1)))))
  have hin : ∀ q ∈ spendsFrom 0 block.vtx undos, q.1.1 ∈ block.vtx := fun q hq =>
    (AddressEnv.fits_of_mem_spendsFrom hfits hq).1
  have hspent := AddressEnv.spentIndex_restored_iff ae hdb.spent (fun q hq => hid _ (hin q hq))
    fun q hq => (AddressEnv.fits_of_mem_spendsFrom hfits hq).2
  refine ⟨d, fClean, _, hrun, ?_⟩
  refine Iff.trans ⟨fun heq => ?_, fun hnone => ?_⟩ hcond.symm
  · -- the spent index is not written again
    have hkept := congrArg IndexDB.spentIndex heq
    exact hspent.1 hkept
  · have haddress := AddressEnv.addressIndex_restored hl hdb.address
    have hunspent := AddressEnv.addressUnspentIndex_restored hl
      (fun key ⟨q, hq, hkey⟩ => addressUnspentIndex_eq_none hdb hover (hin q hq) hkey) hnone
    exact IndexDB.ext haddress hunspent (hspent.2 hnone)

end ConnectEnv

/-! ## A payment -/

namespace Payment

open SampleChain

/-- `OP_DUP OP_HASH160 <address> OP_EQUALVERIFY OP_CHECKSIG`. -/
def payTo (address : List UInt8) : CScript :=
  [0x76, 0xa9, 0x14] ++ address ++ [0x88, 0xac]

/-- Payments to a key hash have an address, no other script has. -/
def addresses : AddressEnv where
  getAddressType script :=
    if script = payTo ((script.drop 3).take 20) ∧ script.length = 25 then
      (1, [(script.drop 3).take 20])
    else (0, [])
  hash160 _ := 0

/-- A coinbase that pays to an address. -/
def reward : CTransaction :=
  { coinbase 0x11 with
    vout := [{ nValue := 300000000, scriptPubKey := payTo (List.replicate 20 7) }] }

theorem seven_ne_null : (7 : Uint256) ≠ 0 := by decide

/-- The block with this coinbase. -/
def rewardBlock : CBlock := blockOf 7 seven_ne_null [reward]

/-- Its index entry. -/
def rewardIndex : CBlockIndex := CBlockIndex.ofBlock rewardBlock (some genesisIndex)

/-- The state after it. -/
def rewardView : CCoinsViewCache := (after rewardBlock (some genesisIndex) genesisView).1

/-- A transaction that spends the reward. -/
def spend : CTransaction :=
  { hash := 0x32
    vin := [{ prevout := { hash := 0x11, n := 0 }, scriptSig := [] }]
    vout := [{ nValue := 200000000, scriptPubKey := [0x51] }] }

theorem eight_ne_null : (8 : Uint256) ≠ 0 := by decide

/-- The block with this transaction. -/
def spendBlock : CBlock := blockOf 8 eight_ne_null [coinbase 0x31, spend]

/-- Empty indexes. -/
def emptyIndexes : IndexDB := ⟨fun _ => none, fun _ => none, fun _ => none⟩

/-- The indexes after the block with the reward. -/
def rewardIndexes : IndexDB :=
  ((env.connectBlockIndexed addresses db rewardBlock genesisIndex genesisView
    emptyIndexes).map fun r => r.2.2).getD emptyIndexes

theorem connectBlockIndexed_reward : ∃ c' undo, env.connectBlockIndexed addresses db rewardBlock
    genesisIndex genesisView emptyIndexes = some (c', undo, rewardIndexes) := by
  obtain ⟨⟨c', undo, db'⟩, hc⟩ := Option.isSome_iff_exists.1
    (show (env.connectBlockIndexed addresses db rewardBlock genesisIndex genesisView
      emptyIndexes).isSome = true by decide +kernel)
  refine ⟨c', undo, hc.trans ?_⟩
  unfold rewardIndexes
  rw [hc]
  rfl

theorem consistent_emptyIndexes (v : CCoinsView) (nHeight : Nat) :
    emptyIndexes.Consistent v nHeight where
  address _ _ h := by cases h
  unspent _ _ h := by cases h
  spent _ _ h := by cases h

/-- A block that spends nothing is undone. -/
theorem reward_undone : ∃ c' undo d fClean,
    env.connectBlockIndexed addresses db rewardBlock genesisIndex genesisView emptyIndexes =
      some (c', undo, rewardIndexes) ∧
    env.disconnectBlockIndexed addresses db rewardBlock undo genesisIndex c' rewardIndexes =
      some (d, fClean, emptyIndexes) := by
  obtain ⟨c', undo, hc⟩ := connectBlockIndexed_reward
  obtain ⟨d, fClean, db'', hd, hiff⟩ := ConnectEnv.disconnectBlockIndexed_restores_iff
    (reached_genesis (fun _ _ => True) trivial) (consistent_emptyIndexes _ _) (by decide) hc
  have hnone : addresses.SpendsNoAddress 1 db rewardBlock.vtx genesisView := by
    refine ⟨fun outs houts out hout => ?_, fun _ _ _ => trivial⟩
    obtain rfl : [] = outs := Option.some.inj houts
    exact absurd hout List.not_mem_nil
  obtain rfl := hiff.2 hnone
  exact ⟨c', undo, d, fClean, hc, hd⟩

/-- The records of the reward: who got it, and that it is unspent. -/
theorem rewardIndexes_eq : rewardIndexes =
    { addressIndex := Function.update (fun _ => none)
        ⟨1, BitVec.ofNat 160 (leNat (List.replicate 20 7)), 1, 0, 0x11, 0, false⟩ (some 300000000)
      addressUnspentIndex := Function.update (fun _ => none)
        ⟨1, BitVec.ofNat 160 (leNat (List.replicate 20 7)), 0x11, 0⟩
        (some ⟨300000000, payTo (List.replicate 20 7), 1⟩)
      spentIndex := fun _ => none } := by
  rfl

theorem consistent_rewardIndexes : rewardIndexes.Consistent (rewardView.view db) 2 := by
  rw [rewardIndexes_eq]
  refine ⟨fun key value h => ?_, fun key value h => ?_, fun _ _ h => by cases h⟩
  · dsimp only at h
    rw [Function.update_apply] at h
    split at h
    · rename_i heq
      rw [heq]
      exact Nat.one_lt_two
    · cases h
  · dsimp only at h
    rw [Function.update_apply] at h
    split at h
    · rename_i heq
      rw [heq]
      have hunspent : ((rewardView.view db).getCoins 0x11).any (·.isAvailable 0) = true := by
        decide +kernel
      exact (Option.any_eq_true _ _).1 hunspent
    · cases h

/-- A block that spends the reward leaves its record in the spent index. -/
theorem spend_stays_in_spentIndex :
    ¬ ∀ (env : ConnectEnv) (ae : AddressEnv) (base : CCoinsView) (block : CBlock)
      (c c' : CCoinsViewCache) (p : CBlockIndex) (undo : CBlockUndo) (db db' : IndexDB),
      Reached env (fun _ _ => True) base c (some p) →
      db.Consistent (c.view base) (p.nHeight + 1) → (∀ tx ∈ block.vtx, tx.hash ≠ 0) →
      env.connectBlockIndexed ae base block p c db = some (c', undo, db') →
      ∃ d fClean,
        env.disconnectBlockIndexed ae base block undo p c' db' = some (d, fClean, db) := by
  intro hclaim
  have hreach : Reached env (fun _ _ => True) db rewardView (some rewardIndex) :=
    .connect (reached_genesis _ trivial) (connectBlock_after (by decide +kernel)) trivial
  obtain ⟨⟨c', undo, db'⟩, hc⟩ := Option.isSome_iff_exists.1
    (show (env.connectBlockIndexed addresses db spendBlock rewardIndex rewardView
      rewardIndexes).isSome = true by decide +kernel)
  obtain ⟨d, fClean, hd⟩ := hclaim env addresses db spendBlock rewardView c' rewardIndex undo
    rewardIndexes db' hreach consistent_rewardIndexes (by decide) hc
  have hstays : ((env.connectBlockIndexed addresses db spendBlock rewardIndex rewardView
      rewardIndexes).bind fun r => env.disconnectBlockIndexed addresses db spendBlock r.2.1
        rewardIndex r.1 r.2.2).map (fun r => (r.2.2.spentIndex ⟨0x11, 0⟩).isSome) = some true := by
    decide +kernel
  rw [hc, Option.bind_some, hd, Option.map_some, rewardIndexes_eq] at hstays
  cases hstays

end Payment

end IndexChain
