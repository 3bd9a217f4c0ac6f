import IndexChain.Models.Mempool.TxMemPool

/-!
# Removing from the memory pool

The functions of `txmempool.cpp` that take transactions out of the pool: `remove` with
its work list, and the functions that choose what to remove. A pointer into the pool is
an id, so reading through it looks the id up. The lists of removed transactions are
returned as the source fills them; the fee estimator, the priorities and the address
indexes are left out.
-/

namespace IndexChain

namespace CTxMemPool

/-! ## The functions -/

/-- The ids of the transactions that spend one of the first `n` outputs of an id. -/
def spenders (pool : CTxMemPool) (hash : Uint256) (n : Nat) : List Uint256 :=
  (List.range n).filterMap fun i =>
    (pool.mapNextTx { hash := hash, n := UInt32.ofNat i }).map CInPoint.ptx

/-- The loop of `remove` over the ids in `txToRemove`. -/
def removeLoop (fRecursive : Bool) : Nat → List Uint256 → CTxMemPool × List CTransaction →
    CTxMemPool × List CTransaction
  | 0, _, r => r
  | _ + 1, [], r => r
  | fuel + 1, hash :: txToRemove, (pool, removed) => match pool.lookup hash with
    | none => removeLoop fRecursive fuel txToRemove (pool, removed)
    | some tx =>
      let children := if fRecursive then pool.spenders hash tx.vout.length else []
      removeLoop fRecursive fuel (txToRemove ++ children) (pool.remove tx, removed ++ [tx])

/-- The ids that `remove` starts with: the transaction, and its spenders if it is to be
removed recursively but is not in the pool. -/
def toRemove (pool : CTxMemPool) (origTx : CTransaction) (fRecursive : Bool) : List Uint256 :=
  origTx.hash :: if fRecursive && !pool.contains origTx.hash then
    pool.spenders origTx.hash origTx.vout.length else []

/-- A bound on the rounds of the loop: each id in the list, and each output of the pool. -/
def rounds (pool : CTxMemPool) (txToRemove : List Uint256) : Nat :=
  txToRemove.length + (pool.txs.map fun tx => tx.vout.length).sum

/-- `remove`. -/
def removeTx (pool : CTxMemPool) (origTx : CTransaction) (removed : List CTransaction)
    (fRecursive : Bool) : CTxMemPool × List CTransaction :=
  let txToRemove := pool.toRemove origTx fRecursive
  removeLoop fRecursive (pool.rounds txToRemove) txToRemove (pool, removed)

/-- Remove the transaction behind a pointer, unless it is `tx`. -/
def removeConflict (tx : CTransaction) (r : CTxMemPool × List CTransaction)
    (ptx : Option Uint256) : CTxMemPool × List CTransaction :=
  match ptx.bind r.1.lookup with
  | none => r
  | some txConflict =>
    if txConflict.hash ≠ tx.hash then r.1.removeTx txConflict r.2 true else r

/-- The conflicts in the nullifiers of one pool. -/
def removeNullifierConflicts (tx : CTransaction) (ty : ShieldedType)
    (r : CTxMemPool × List CTransaction) : CTxMemPool × List CTransaction :=
  (tx.nullifiers ty).foldl (fun r nf => removeConflict tx r (r.1.mapNullifiers ty nf)) r

/-- `removeConflicts`. -/
def removeConflicts (pool : CTxMemPool) (tx : CTransaction) (removed : List CTransaction) :
    CTxMemPool × List CTransaction :=
  let r := tx.inputOutpoints.foldl
    (fun r o => removeConflict tx r ((r.1.mapNextTx o).map CInPoint.ptx)) (pool, removed)
  removeNullifierConflicts tx .sapling (removeNullifierConflicts tx .sprout r)

/-- Remove a list of transactions with what depends on them. -/
def removeRecursively (pool : CTxMemPool) (transactionsToRemove : List CTransaction) : CTxMemPool :=
  transactionsToRemove.foldl (fun pool tx => (pool.removeTx tx [] true).1) pool

/-- The transaction spends a note under a root. -/
def hasAnchor (invalidRoot : Uint256) (tx : CTransaction) : ShieldedType → Bool
  | .sprout => tx.vjoinsplit.any fun joinsplit => joinsplit.anchor == invalidRoot
  | .sapling => tx.vShieldedSpend.any fun spend => spend.anchor == invalidRoot

/-- `removeWithAnchor`. -/
def removeWithAnchor (pool : CTxMemPool) (invalidRoot : Uint256) (type : ShieldedType) :
    CTxMemPool :=
  pool.removeRecursively (pool.txs.filter fun tx => hasAnchor invalidRoot tx type)

/-- `IsExpiredTx`. -/
def isExpiredTx (tx : CTransaction) (nBlockHeight : UInt32) : Bool :=
  if tx.nExpiryHeight == 0 || tx.isCoinBase then false else decide (tx.nExpiryHeight < nBlockHeight)

/-- `removeExpired`. The locktime condition of the source compares a truth value with
zero, so it never holds. -/
def removeExpired (pool : CTxMemPool) (nBlockHeight : UInt32) : CTxMemPool :=
  pool.removeRecursively (pool.txs.filter fun tx => isExpiredTx tx nBlockHeight)

/-- One transaction of a connected block. -/
def removeForTx (r : CTxMemPool × List CTransaction) (tx : CTransaction) :
    CTxMemPool × List CTransaction :=
  (r.1.removeTx tx [] false).1.removeConflicts tx r.2

/-- `removeForBlock`. -/
def removeForBlock (pool : CTxMemPool) (vtx conflicts : List CTransaction) :
    CTxMemPool × List CTransaction :=
  vtx.foldl removeForTx (pool, conflicts)

/-! ## What every removal keeps -/

variable {pool : CTxMemPool} {tx c : CTransaction} {hash : Uint256} {o : COutPoint}
  {removed : List CTransaction} {P : CTxMemPool → Prop}

/-- A fold of removals keeps what each of them keeps. -/
theorem foldl_keeps {α : Type} {f : CTxMemPool × List CTransaction → α →
    CTxMemPool × List CTransaction} (hf : ∀ r a, P r.1 → P (f r a).1) (l : List α)
    {r : CTxMemPool × List CTransaction} (h : P r.1) : P (l.foldl f r).1 := by
  induction l generalizing r with
  | nil => exact h
  | cons a l ih => exact ih (hf r a h)

section Keeps

variable (hP : ∀ pool tx, P pool → P (pool.remove tx))

include hP

theorem removeLoop_keeps {fRecursive : Bool} {fuel : Nat} {txToRemove : List Uint256}
    (h : P pool) : P (removeLoop fRecursive fuel txToRemove (pool, removed)).1 := by
  induction fuel generalizing txToRemove pool removed with
  | zero => exact h
  | succ fuel ih =>
    cases txToRemove with
    | nil => exact h
    | cons hash txToRemove =>
      unfold removeLoop
      split
      · exact ih h
      · exact ih (hP _ _ h)

theorem removeTx_keeps {fRecursive : Bool} (h : P pool) :
    P (pool.removeTx tx removed fRecursive).1 :=
  removeLoop_keeps hP h

theorem removeConflict_keeps {r : CTxMemPool × List CTransaction} {ptx : Option Uint256}
    (h : P r.1) : P (removeConflict tx r ptx).1 := by
  unfold removeConflict
  split
  · exact h
  · split
    · exact removeTx_keeps hP h
    · exact h

theorem removeNullifierConflicts_keeps {ty : ShieldedType} {r : CTxMemPool × List CTransaction}
    (h : P r.1) : P (removeNullifierConflicts tx ty r).1 :=
  foldl_keeps (fun _ _ => removeConflict_keeps hP) _ h

theorem removeConflicts_keeps (h : P pool) : P (pool.removeConflicts tx removed).1 := by
  have hspent : P (tx.inputOutpoints.foldl (fun r o =>
      removeConflict tx r ((r.1.mapNextTx o).map CInPoint.ptx)) (pool, removed)).1 :=
    foldl_keeps (fun _ _ => removeConflict_keeps hP) _ h
  exact removeNullifierConflicts_keeps hP (removeNullifierConflicts_keeps hP hspent)

theorem removeRecursively_keeps (l : List CTransaction) (h : P pool) :
    P (pool.removeRecursively l) := by
  induction l generalizing pool with
  | nil => exact h
  | cons tx l ih => exact ih (removeTx_keeps hP h)

theorem removeForTx_keeps {r : CTxMemPool × List CTransaction} (h : P r.1) :
    P (removeForTx r tx).1 :=
  removeConflicts_keeps hP (removeTx_keeps hP h)

theorem removeForBlock_keeps (vtx : List CTransaction) (h : P pool) :
    P (pool.removeForBlock vtx removed).1 :=
  foldl_keeps (fun _ _ => removeForTx_keeps hP) vtx h

end Keeps

end CTxMemPool

end IndexChain
