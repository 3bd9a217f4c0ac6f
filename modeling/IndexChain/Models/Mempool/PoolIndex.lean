import IndexChain.Core.OwnedIndex
import IndexChain.Models.Coins.AddressIndex
import IndexChain.Models.Mempool.Removal
import IndexChain.Models.Primitives.Standard

/-!
# The side maps of the memory pool

`CTxMemPool` of `txmempool.cpp` with its address and spent indexes, which
`AcceptToMemoryPool` of `main.cpp` fills and every removal purges, and with `clear`, which
empties `mapTx` and `mapNextTx` only. What the side maps name is in the pool along every
run in which `clear` finds them empty.
-/

namespace IndexChain

open IndexChain.Core

/-- The recognisers of `script/standard.cpp` and the hash of `hash.h`. -/
structure Standard where
  /-- `Solver`: its verdict, the type and the solutions. -/
  solver : CScript → Bool × TxnOutType × List (List UInt8)
  /-- `ExtractDestination`, if it succeeds. -/
  extractDestination : CScript → Option CTxDestination
  /-- `Hash160`. -/
  hash160 : List UInt8 → BitVec 160

/-- `CMempoolAddressDelta`. -/
structure CMempoolAddressDelta where
  time : Int
  amount : Int
  prevhash : Uint256 := 0
  prevout : UInt32 := 0
  deriving DecidableEq, Repr

/-- `CMempoolAddressDeltaKey`. -/
structure CMempoolAddressDeltaKey where
  type : Int
  addressBytes : BitVec 160
  txhash : Uint256
  index : Nat
  spending : Int
  deriving DecidableEq, Repr

/-- `CSpentIndexValue` for a transaction of the pool; its height is -1. -/
structure CTxMemPool.CSpentIndexValue where
  txid : Uint256
  inputIndex : Nat
  blockHeight : Int
  satoshis : Int
  addressType : Int
  addressHash : BitVec 160
  deriving DecidableEq, Repr

namespace Standard

variable (std : Standard)

/-- `CBitcoinAddress(dest).GetIndexKey`: the hash and the type of the key. -/
def getIndexKey (ccflag : Bool) : CTxDestination → Option (BitVec 160 × Int)
  | .noDestination => none
  | .pubKey key => some (std.hash160 key, if ccflag then 3 else 1)
  | .keyID hash => some (hash, if ccflag then 3 else 1)
  | .scriptID hash => some (hash, 2)

/-- `CBitcoinAddress(dest).GetKeyID`. -/
def getKeyID : CTxDestination → Option (BitVec 160)
  | .noDestination => none
  | .pubKey key => some (std.hash160 key)
  | .keyID hash => some hash
  | .scriptID _ => none

/-- `Solver(script) || ExtractDestination(script)`: the type, the solutions and the
destination, which is looked for only where the solver fails. -/
def solve (script : CScript) : Option (TxnOutType × List (List UInt8) × CTxDestination) :=
  match std.solver script with
  | (true, txType, vSols) => some (txType, vSols, .noDestination)
  | (false, txType, vSols) => (std.extractDestination script).map
      fun vDest => (txType, vSols, vDest)

/-- `addr.size() == 20 ? uint160(addr) : Hash160(addr)`. -/
def addressHash (addr : List UInt8) : BitVec 160 :=
  if addr.length = 20 then BitVec.ofNat 160 (leNat addr) else std.hash160 addr

/-- `vector(hashBytes.begin(), hashBytes.end())` of a hash that is found. -/
def hashBytes (found : Option (BitVec 160)) : List (List UInt8) :=
  (found.map fun hash => leBytes 20 hash.toNat).toList

/-- The addresses of an output that is spent, with the type of their keys. -/
def spentAddresses (prevout : CTxOut) : Int × List (List UInt8) :=
  match std.solve prevout.scriptPubKey with
  | none => (1, [])
  | some (txType, vSols, vDest) =>
    let found := std.getIndexKey prevout.scriptPubKey.isPayToCryptoCondition vDest
    let keyType := (found.map Prod.snd).getD 1
    (if txType = .scripthash then 2 else keyType, vSols ++ hashBytes (found.map Prod.fst))

/-- The addresses of an output that is created, with the type of their keys. -/
def createdAddresses (out : CTxOut) : Int × List (List UInt8) :=
  match std.solve out.scriptPubKey with
  | none => (1, [])
  | some (txType, vSols, vDest) =>
    if txType = .multisig then (1, [])
    else if vDest ≠ .noDestination then
      let found := std.getIndexKey out.scriptPubKey.isPayToCryptoCondition vDest
      ((found.map Prod.snd).getD 1, vSols ++ hashBytes (found.map Prod.fst))
    else (if txType = .scripthash then 2 else 1, vSols)

/-- The entries of the address index for input `j`. -/
def inputDeltas (getOutputFor : CTxIn → CTxOut) (time : Int) (txhash : Uint256) (input : CTxIn)
    (j : Nat) : List (CMempoolAddressDeltaKey × CMempoolAddressDelta) :=
  let prevout := getOutputFor input
  let (keyType, vSols) := std.spentAddresses prevout
  vSols.map fun addr =>
    ({ type := keyType, addressBytes := std.addressHash addr, txhash := txhash, index := j,
       spending := 1 },
      { time := time, amount := prevout.nValue * -1, prevhash := input.prevout.hash,
        prevout := input.prevout.n })

/-- The entries of the address index for output `k`. -/
def outputDeltas (time : Int) (txhash : Uint256) (out : CTxOut) (k : Nat) :
    List (CMempoolAddressDeltaKey × CMempoolAddressDelta) :=
  let (keyType, vSols) := std.createdAddresses out
  vSols.map fun addr =>
    ({ type := keyType, addressBytes := std.addressHash addr, txhash := txhash, index := k,
       spending := 0 },
      { time := time, amount := out.nValue })

/-- The entries of the spent index for input `j`. An output that no address is known for
is entered as well. -/
def spentEntries (getOutputFor : CTxIn → CTxOut) (txhash : Uint256) (input : CTxIn) (j : Nat) :
    List (CSpentIndexKey × CTxMemPool.CSpentIndexValue) :=
  let prevout := getOutputFor input
  let key : CSpentIndexKey := { txid := input.prevout.hash, outputIndex := input.prevout.n.toNat }
  let value (type : Int) (hash : BitVec 160) : CTxMemPool.CSpentIndexValue :=
    { txid := txhash, inputIndex := j, blockHeight := -1, satoshis := prevout.nValue,
      addressType := type, addressHash := hash }
  match std.solve prevout.scriptPubKey with
  | none => [(key, value 0 0)]
  | some (txType, vSols, vDest) =>
    if txType = .multisig then [(key, value 0 0)]
    else
      let (keyType, vSols) : Int × List (List UInt8) :=
        if vDest ≠ .noDestination then (1, vSols ++ hashBytes (std.getKeyID vDest))
        else (if txType = .scripthash then 2 else 1, vSols)
      vSols.map fun addr => (key, value keyType (std.addressHash addr))

end Standard

/-- The memory pool with its indexes. -/
structure IndexedPool extends CTxMemPool where
  /-- `mapAddress` and `mapAddressInserted`. -/
  address : OwnedIndex Uint256 CMempoolAddressDeltaKey CMempoolAddressDelta := {}
  /-- `mapSpent` and `mapSpentInserted`. -/
  spent : OwnedIndex Uint256 CSpentIndexKey CTxMemPool.CSpentIndexValue := {}

namespace IndexedPool

/-! ## The functions -/

/-- `addUnchecked`. -/
def addUnchecked (pool : IndexedPool) (entry : CTxMemPoolEntry) : IndexedPool :=
  { pool with toCTxMemPool := pool.toCTxMemPool.addUnchecked entry }

/-- `addAddressIndex`. -/
def addAddressIndex (std : Standard) (pool : IndexedPool) (tx : CTransaction) (time : Int)
    (getOutputFor : CTxIn → CTxOut) : IndexedPool :=
  { pool with
    address := pool.address.add tx.hash
      ((tx.vin.zipIdx.flatMap fun (input, j) =>
          std.inputDeltas getOutputFor time tx.hash input j) ++
        tx.vout.zipIdx.flatMap fun (out, k) => std.outputDeltas time tx.hash out k) }

/-- `addSpentIndex`. -/
def addSpentIndex (std : Standard) (pool : IndexedPool) (tx : CTransaction)
    (getOutputFor : CTxIn → CTxOut) : IndexedPool :=
  { pool with
    spent := pool.spent.add tx.hash
      (tx.vin.zipIdx.flatMap fun (input, j) => std.spentEntries getOutputFor tx.hash input j) }

/-- The end of `AcceptToMemoryPool`, which has returned at its start if the pool has the
transaction. -/
def accept (std : Standard) (fAddressIndex fSpentIndex : Bool) (pool : IndexedPool)
    (entry : CTxMemPoolEntry) (time : Int) (getOutputFor : CTxIn → CTxOut) : IndexedPool :=
  if pool.contains entry.txid then pool
  else
    let pool := pool.addUnchecked entry
    if entry.tx.isCoinImport then pool
    else
      let pool := if fAddressIndex then pool.addAddressIndex std entry.tx time getOutputFor
        else pool
      if fSpentIndex then pool.addSpentIndex std entry.tx getOutputFor else pool

/-- The body of the loop of `remove`, with `removeAddressIndex` and `removeSpentIndex`. -/
def remove (pool : IndexedPool) (origTx : CTransaction) : IndexedPool :=
  if pool.contains origTx.hash then
    { toCTxMemPool := pool.toCTxMemPool.remove origTx
      address := pool.address.remove origTx.hash
      spent := pool.spent.remove origTx.hash }
  else pool

/-- The loop of `remove` over the ids in `txToRemove`. -/
def removeLoop (fRecursive : Bool) : Nat → List Uint256 → IndexedPool → IndexedPool
  | 0, _, pool => pool
  | _ + 1, [], pool => pool
  | fuel + 1, hash :: txToRemove, pool => match pool.lookup hash with
    | none => removeLoop fRecursive fuel txToRemove pool
    | some tx =>
      let children := if fRecursive then pool.spenders hash tx.vout.length else []
      removeLoop fRecursive fuel (txToRemove ++ children) (pool.remove tx)

/-- `remove`. -/
def removeTx (pool : IndexedPool) (origTx : CTransaction) (fRecursive : Bool) : IndexedPool :=
  let txToRemove := pool.toRemove origTx fRecursive
  removeLoop fRecursive (pool.rounds txToRemove) txToRemove pool

/-- Remove the transaction behind a pointer, unless it is `tx`. -/
def removeConflict (tx : CTransaction) (pool : IndexedPool) (ptx : Option Uint256) : IndexedPool :=
  match ptx.bind pool.lookup with
  | none => pool
  | some txConflict => if txConflict.hash ≠ tx.hash then pool.removeTx txConflict true else pool

/-- The conflicts in the nullifiers of one pool. -/
def removeNullifierConflicts (tx : CTransaction) (ty : ShieldedType) (pool : IndexedPool) :
    IndexedPool :=
  (tx.nullifiers ty).foldl (fun pool nf => removeConflict tx pool (pool.mapNullifiers ty nf)) pool

/-- `removeConflicts`. -/
def removeConflicts (pool : IndexedPool) (tx : CTransaction) : IndexedPool :=
  let pool := tx.inputOutpoints.foldl
    (fun pool o => removeConflict tx pool ((pool.mapNextTx o).map CInPoint.ptx)) pool
  removeNullifierConflicts tx .sapling (removeNullifierConflicts tx .sprout pool)

/-- Remove a list of transactions with what depends on them: the second loop of
`removeForReorg`, `removeWithAnchor`, `removeExpired` and `removeWithoutBranchId`. -/
def removeRecursively (pool : IndexedPool) (transactionsToRemove : List CTransaction) :
    IndexedPool :=
  transactionsToRemove.foldl (fun pool tx => pool.removeTx tx true) pool

/-- `removeForBlock`. -/
def removeForBlock (pool : IndexedPool) (vtx : List CTransaction) : IndexedPool :=
  vtx.foldl (fun pool tx => (pool.removeTx tx false).removeConflicts tx) pool

/-- `clear`; the nullifiers and the indexes stay. -/
def clear (pool : IndexedPool) : IndexedPool :=
  { pool with toCTxMemPool := pool.toCTxMemPool.clear }

end IndexedPool

end IndexChain
