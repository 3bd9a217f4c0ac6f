import IndexChain.Models.Mempool.PoolIndex

/-!
# What the side maps name

Every nullifier that the pool records is one of a transaction of the pool, and every entry
of its indexes is of such a transaction. Each addition and each removal keeps this, with
the owners that the indexes note all in the pool. `clear` keeps it where the side maps are
empty.
-/

namespace IndexChain

open IndexChain.Core

namespace CTxMemPool

variable {pool : CTxMemPool} {entry : CTxMemPoolEntry} {tx origTx : CTransaction} {hash : Uint256}

/-- Every nullifier that is recorded is one of the transaction of the pool that it names. -/
def NullifiersInPool (pool : CTxMemPool) : Prop :=
  ∀ ty nf hash, pool.mapNullifiers ty nf = some hash →
    ∃ tx ∈ pool.txs, tx.hash = hash ∧ nf ∈ tx.nullifiers ty

/-- What an addition leaves in the pool. -/
theorem mem_txs_addUnchecked_of_mem (htx : tx ∈ pool.txs) : tx ∈ (pool.addUnchecked entry).txs := by
  obtain ⟨e, he, rfl⟩ := mem_txs.1 htx
  exact mem_txs.2 ⟨e, Keyed.mem_insert.2 (Or.inl he), rfl⟩

/-- The transaction that the addition reads back is in the pool. -/
theorem added_mem_txs : pool.added entry ∈ (pool.addUnchecked entry).txs := by
  rw [added]
  cases hlookup : pool.lookup entry.txid with
  | some tx => exact mem_txs_addUnchecked_of_mem (lookup_eq_some_iff.1 hlookup).1
  | none =>
    have hnew : pool.contains entry.txid = false := lookup_eq_none_iff.1 hlookup
    exact mem_txs.2 ⟨entry, Keyed.mem_insert.2 (Or.inr ⟨rfl, hnew⟩), rfl⟩

theorem NullifiersInPool.addUnchecked (h : pool.NullifiersInPool) (entry : CTxMemPoolEntry) :
    (pool.addUnchecked entry).NullifiersInPool := by
  intro ty nf hash hnf
  change (if nf ∈ (pool.added entry).nullifiers ty then some (pool.added entry).hash
    else pool.mapNullifiers ty nf) = some hash at hnf
  split at hnf
  · next hmem => exact ⟨pool.added entry, added_mem_txs, Option.some.inj hnf, hmem⟩
  · obtain ⟨tx, htx, hhash, hmem⟩ := h ty nf hash hnf
    exact ⟨tx, mem_txs_addUnchecked_of_mem htx, hhash, hmem⟩

/-- The transactions of other ids stay. -/
theorem mem_txs_remove_of_ne (htx : tx ∈ pool.txs) (hne : tx.hash ≠ origTx.hash) :
    tx ∈ (pool.remove origTx).txs := by
  rw [remove]
  split
  · exact htx
  · obtain ⟨e, he, rfl⟩ := mem_txs.1 htx
    exact mem_txs.2 ⟨e, Keyed.mem_erase.2 ⟨he, hne⟩, rfl⟩

/-- The nullifiers of the transaction are erased, so what stays names one that stays. -/
theorem NullifiersInPool.remove (h : pool.NullifiersInPool) (origTx : CTransaction) :
    (pool.remove origTx).NullifiersInPool := by
  intro ty nf hash hnf
  cases hfind : pool.mapTx.find? origTx.hash with
  | none =>
    rw [CTxMemPool.remove, hfind] at hnf ⊢
    exact h ty nf hash hnf
  | some e =>
    obtain ⟨he, hhash⟩ := Keyed.find?_eq_some_iff.1 hfind
    have hnf' : (if nf ∈ e.tx.nullifiers ty then none else pool.mapNullifiers ty nf) =
      some hash := by
      rw [CTxMemPool.remove, hfind] at hnf
      exact hnf
    obtain ⟨hnot, hnf'⟩ := Option.ite_none_left_eq_some.1 hnf'
    obtain ⟨tx, htx, rfl, hmem⟩ := h ty nf hash hnf'
    have hne : tx.hash ≠ origTx.hash := by
      intro heq
      have hsame : tx = e.tx := eq_of_hash htx (mem_txs.2 ⟨e, he, rfl⟩) (heq.trans hhash.symm)
      exact hnot (hsame ▸ hmem)
    exact ⟨tx, mem_txs_remove_of_ne htx hne, rfl, hmem⟩

theorem contains_addUnchecked_of_contains (h : pool.contains hash = true) :
    (pool.addUnchecked entry).contains hash = true := by
  obtain ⟨tx, htx, hhash⟩ := contains_iff.1 h
  exact contains_iff.2 ⟨tx, mem_txs_addUnchecked_of_mem htx, hhash⟩

theorem contains_addUnchecked_self : (pool.addUnchecked entry).contains entry.txid = true := by
  cases hold : pool.contains entry.txid with
  | true => exact contains_addUnchecked_of_contains hold
  | false => exact Keyed.contains_iff.2 ⟨entry, Keyed.mem_insert.2 (Or.inr ⟨rfl, hold⟩), rfl⟩

theorem contains_remove_of_ne (h : pool.contains hash = true) (hne : hash ≠ origTx.hash) :
    (pool.remove origTx).contains hash = true := by
  obtain ⟨tx, htx, rfl⟩ := contains_iff.1 h
  exact contains_iff.2 ⟨tx, mem_txs_remove_of_ne htx hne, rfl⟩

end CTxMemPool

namespace IndexedPool

variable {std : Standard} {fAddressIndex fSpentIndex : Bool} {pool : IndexedPool}
  {entry : CTxMemPoolEntry} {tx origTx : CTransaction} {time : Int} {getOutputFor : CTxIn → CTxOut}

/-- What the side maps name is in the pool. -/
structure InPool (pool : IndexedPool) : Prop where
  nullifiers : pool.NullifiersInPool
  address : ∀ key delta, pool.address.entries key = some delta → pool.contains key.txhash = true
  spent : ∀ key value, pool.spent.entries key = some value → pool.contains value.txid = true

/-- The entries of the indexes are noted with their owners, and the owners are in the pool. -/
structure Kept (pool : IndexedPool) : Prop where
  nullifiers : pool.NullifiersInPool
  address : pool.address.Owned fun key _ => key.txhash
  addressNoted : ∀ hash keys, pool.address.inserted hash = some keys → pool.contains hash = true
  spent : pool.spent.Owned fun _ value => value.txid
  spentNoted : ∀ hash keys, pool.spent.inserted hash = some keys → pool.contains hash = true

/-- The side maps are empty. -/
structure SideMapsEmpty (pool : IndexedPool) : Prop where
  nullifiers : ∀ ty nf, pool.mapNullifiers ty nf = none
  address : pool.address.IsEmpty
  spent : pool.spent.IsEmpty

theorem Kept.inPool (h : pool.Kept) : pool.InPool where
  nullifiers := h.nullifiers
  address := by
    intro key delta hkey
    obtain ⟨keys, hkeys, -⟩ := h.address key delta hkey
    exact h.addressNoted key.txhash keys hkeys
  spent := by
    intro key value hkey
    obtain ⟨keys, hkeys, -⟩ := h.spent key value hkey
    exact h.spentNoted value.txid keys hkeys

/-- Where the side maps are empty there is nothing to keep. -/
theorem SideMapsEmpty.kept (h : pool.SideMapsEmpty) : pool.Kept where
  nullifiers := by
    intro ty nf hash hnf
    rw [h.nullifiers] at hnf
    cases hnf
  address := by
    intro key delta hkey
    rw [h.address.entries] at hkey
    cases hkey
  addressNoted := by
    intro hash keys hkeys
    rw [h.address.inserted] at hkeys
    cases hkeys
  spent := by
    intro key value hkey
    rw [h.spent.entries] at hkey
    cases hkey
  spentNoted := by
    intro hash keys hkeys
    rw [h.spent.inserted] at hkeys
    cases hkeys

theorem sideMapsEmpty_empty : ({} : IndexedPool).SideMapsEmpty :=
  ⟨fun _ _ => rfl, ⟨fun _ => rfl, fun _ => rfl⟩, ⟨fun _ => rfl, fun _ => rfl⟩⟩

/-! ## Additions -/

theorem Kept.addUnchecked (h : pool.Kept) (entry : CTxMemPoolEntry) :
    (pool.addUnchecked entry).Kept where
  nullifiers := h.nullifiers.addUnchecked entry
  address := h.address
  addressNoted := fun hash keys hkeys =>
    CTxMemPool.contains_addUnchecked_of_contains (h.addressNoted hash keys hkeys)
  spent := h.spent
  spentNoted := fun hash keys hkeys =>
    CTxMemPool.contains_addUnchecked_of_contains (h.spentNoted hash keys hkeys)

/-- The address index is filled for a transaction of the pool that is not noted yet. -/
theorem Kept.addAddressIndex (h : pool.Kept) (hin : pool.contains tx.hash = true)
    (hnew : pool.address.inserted tx.hash = none) :
    (pool.addAddressIndex std tx time getOutputFor).Kept where
  nullifiers := h.nullifiers
  address := by
    apply h.address.add hnew
    intro kv hkv
    rw [List.mem_append, List.mem_flatMap, List.mem_flatMap] at hkv
    rcases hkv with ⟨⟨input, j⟩, -, hkv⟩ | ⟨⟨out, k⟩, -, hkv⟩
    · obtain ⟨addr, -, rfl⟩ := List.mem_map.1 hkv
      rfl
    · obtain ⟨addr, -, rfl⟩ := List.mem_map.1 hkv
      rfl
  addressNoted := by
    intro hash keys hkeys
    by_cases heq : hash = tx.hash
    · rw [heq]
      exact hin
    · rw [IndexedPool.addAddressIndex, OwnedIndex.inserted_add_of_ne heq] at hkeys
      exact h.addressNoted hash keys hkeys
  spent := h.spent
  spentNoted := h.spentNoted

theorem spentEntries_txid {txhash : Uint256} {input : CTxIn} {j : Nat}
    {kv : CSpentIndexKey × CTxMemPool.CSpentIndexValue}
    (h : kv ∈ std.spentEntries getOutputFor txhash input j) : kv.2.txid = txhash := by
  rw [Standard.spentEntries] at h
  split at h
  · rw [List.mem_singleton.1 h]
  · split at h
    · rw [List.mem_singleton.1 h]
    · obtain ⟨addr, -, rfl⟩ := List.mem_map.1 h
      rfl

/-- The spent index is filled for a transaction of the pool that is not noted yet. -/
theorem Kept.addSpentIndex (h : pool.Kept) (hin : pool.contains tx.hash = true)
    (hnew : pool.spent.inserted tx.hash = none) :
    (pool.addSpentIndex std tx getOutputFor).Kept where
  nullifiers := h.nullifiers
  address := h.address
  addressNoted := h.addressNoted
  spent := by
    apply h.spent.add hnew
    intro kv hkv
    obtain ⟨⟨input, j⟩, -, hkv⟩ := List.mem_flatMap.1 hkv
    exact spentEntries_txid hkv
  spentNoted := by
    intro hash keys hkeys
    by_cases heq : hash = tx.hash
    · rw [heq]
      exact hin
    · rw [IndexedPool.addSpentIndex, OwnedIndex.inserted_add_of_ne heq] at hkeys
      exact h.spentNoted hash keys hkeys

/-- A transaction that is not in the pool is not noted, so accepting it keeps the owners. -/
theorem Kept.accept (h : pool.Kept) (entry : CTxMemPoolEntry) (time : Int)
    (getOutputFor : CTxIn → CTxOut) :
    (pool.accept std fAddressIndex fSpentIndex entry time getOutputFor).Kept := by
  rw [IndexedPool.accept]
  split
  · exact h
  · next hnot =>
    have hadded := h.addUnchecked entry
    have hin : (pool.addUnchecked entry).contains entry.tx.hash = true :=
      CTxMemPool.contains_addUnchecked_self
    have haddress : pool.address.inserted entry.tx.hash = none := by
      rw [Option.eq_none_iff_forall_not_mem]
      exact fun keys hkeys => hnot (h.addressNoted _ keys hkeys)
    have hspent : pool.spent.inserted entry.tx.hash = none := by
      rw [Option.eq_none_iff_forall_not_mem]
      exact fun keys hkeys => hnot (h.spentNoted _ keys hkeys)
    extract_lets pool₁ pool₂
    split
    · exact hadded
    · have hkept : pool₂.Kept := by
        unfold pool₂
        split
        · exact hadded.addAddressIndex hin haddress
        · exact hadded
      split
      · apply hkept.addSpentIndex
        · unfold pool₂
          split <;> exact hin
        · unfold pool₂
          split <;> exact hspent
      · exact hkept

/-! ## Removals -/

/-- The notes of one transaction go with it. -/
theorem Kept.remove (h : pool.Kept) (origTx : CTransaction) : (pool.remove origTx).Kept := by
  rw [IndexedPool.remove]
  split
  · exact
      { nullifiers := h.nullifiers.remove origTx
        address := h.address.remove origTx.hash
        addressNoted := by
          intro hash keys hkeys
          rw [OwnedIndex.inserted_remove, Option.ite_none_left_eq_some] at hkeys
          exact CTxMemPool.contains_remove_of_ne (h.addressNoted hash keys hkeys.2) hkeys.1
        spent := h.spent.remove origTx.hash
        spentNoted := by
          intro hash keys hkeys
          rw [OwnedIndex.inserted_remove, Option.ite_none_left_eq_some] at hkeys
          exact CTxMemPool.contains_remove_of_ne (h.spentNoted hash keys hkeys.2) hkeys.1 }
  · exact h

theorem Kept.removeTx (h : pool.Kept) (origTx : CTransaction) (fRecursive : Bool) :
    (pool.removeTx origTx fRecursive).Kept := by
  have hloop : ∀ fuel txToRemove (pool : IndexedPool), pool.Kept →
      (removeLoop fRecursive fuel txToRemove pool).Kept := by
    intro fuel
    induction fuel with
    | zero => exact fun _ _ h => h
    | succ fuel ih =>
      intro txToRemove pool h
      cases txToRemove with
      | nil => exact h
      | cons hash txToRemove =>
        rw [removeLoop]
        split
        · exact ih _ _ h
        · exact ih _ _ (h.remove _)
  exact hloop _ _ _ h

theorem Kept.removeConflict (h : pool.Kept) (tx : CTransaction) (ptx : Option Uint256) :
    (removeConflict tx pool ptx).Kept := by
  rw [IndexedPool.removeConflict]
  split
  · exact h
  · split
    · exact h.removeTx _ true
    · exact h

/-- What one round keeps, the loop keeps. -/
theorem kept_foldl {α : Type} {f : IndexedPool → α → IndexedPool}
    (hf : ∀ pool a, pool.Kept → (f pool a).Kept) (l : List α) (h : pool.Kept) :
    (l.foldl f pool).Kept := by
  induction l generalizing pool with
  | nil => exact h
  | cons a l ih => exact ih (hf pool a h)

theorem Kept.removeConflicts (h : pool.Kept) (tx : CTransaction) : (pool.removeConflicts tx).Kept :=
  kept_foldl (fun _ _ h => h.removeConflict tx _) _
    (kept_foldl (fun _ _ h => h.removeConflict tx _) _
      (kept_foldl (fun _ _ h => h.removeConflict tx _) _ h))

theorem Kept.removeRecursively (h : pool.Kept) (l : List CTransaction) :
    (pool.removeRecursively l).Kept :=
  kept_foldl (fun _ tx h => h.removeTx tx true) l h

theorem Kept.removeForBlock (h : pool.Kept) (vtx : List CTransaction) :
    (pool.removeForBlock vtx).Kept :=
  kept_foldl (fun _ tx h => (h.removeTx tx false).removeConflicts tx) vtx h

/-- A pool without transactions has nothing in its side maps. -/
theorem Kept.sideMapsEmpty (h : pool.Kept) (hempty : pool.txs = []) : pool.SideMapsEmpty := by
  have hnone : ∀ hash, pool.contains hash ≠ true := by
    intro hash hin
    obtain ⟨tx, htx, -⟩ := CTxMemPool.contains_iff.1 hin
    exact List.not_mem_nil (hempty ▸ htx)
  refine ⟨fun ty nf => ?_, ⟨fun key => ?_, fun hash => ?_⟩, ⟨fun key => ?_, fun hash => ?_⟩⟩
  · rw [Option.eq_none_iff_forall_not_mem]
    intro hash hnf
    obtain ⟨tx, htx, -⟩ := h.nullifiers ty nf hash hnf
    exact List.not_mem_nil (hempty ▸ htx)
  · rw [Option.eq_none_iff_forall_not_mem]
    exact fun delta hkey => hnone _ (h.inPool.address key delta hkey)
  · rw [Option.eq_none_iff_forall_not_mem]
    exact fun keys hkeys => hnone hash (h.addressNoted hash keys hkeys)
  · rw [Option.eq_none_iff_forall_not_mem]
    exact fun value hkey => hnone _ (h.inPool.spent key value hkey)
  · rw [Option.eq_none_iff_forall_not_mem]
    exact fun keys hkeys => hnone hash (h.spentNoted hash keys hkeys)

/-- Clearing loses nothing where the side maps are empty. -/
theorem SideMapsEmpty.clear (h : pool.SideMapsEmpty) : pool.clear.SideMapsEmpty :=
  ⟨h.nullifiers, h.address, h.spent⟩

/-- A nullifier or an entry that `clear` leaves behind names nothing in the pool. -/
theorem clear_inPool_iff : pool.clear.InPool ↔ (∀ ty nf, pool.mapNullifiers ty nf = none) ∧
    (∀ key, pool.address.entries key = none) ∧ ∀ key, pool.spent.entries key = none := by
  have hempty : ∀ hash, pool.clear.contains hash ≠ true := fun hash => Bool.false_ne_true
  constructor
  · intro h
    refine ⟨fun ty nf => ?_, fun key => ?_, fun key => ?_⟩
    · rw [Option.eq_none_iff_forall_not_mem]
      intro hash hnf
      obtain ⟨tx, htx, -⟩ := h.nullifiers ty nf hash hnf
      exact List.not_mem_nil htx
    · rw [Option.eq_none_iff_forall_not_mem]
      exact fun delta hkey => hempty _ (h.address key delta hkey)
    · rw [Option.eq_none_iff_forall_not_mem]
      exact fun value hkey => hempty _ (h.spent key value hkey)
  · rintro ⟨hnullifiers, haddress, hspent⟩
    refine ⟨fun ty nf hash hnf => ?_, fun key delta hkey => ?_, fun key value hkey => ?_⟩
    · exact absurd ((hnullifiers ty nf).symm.trans hnf) (Option.some_ne_none hash).symm
    · exact absurd ((haddress key).symm.trans hkey) (Option.some_ne_none delta).symm
    · exact absurd ((hspent key).symm.trans hkey) (Option.some_ne_none value).symm

/-! ## The pool below -/

/-- Without its indexes the pool goes through the same states. -/
theorem remove_toCTxMemPool : (pool.remove origTx).toCTxMemPool =
    pool.toCTxMemPool.remove origTx := by
  rw [remove]
  split
  · rfl
  · next hnot =>
    have hnone := Keyed.find?_eq_none_iff.2 (Bool.eq_false_iff.2 hnot)
    rw [CTxMemPool.remove, hnone]

theorem removeTx_toCTxMemPool (removed : List CTransaction) (fRecursive : Bool) :
    (pool.removeTx origTx fRecursive).toCTxMemPool =
      (pool.toCTxMemPool.removeTx origTx removed fRecursive).1 := by
  have hloop : ∀ fuel txToRemove (pool : IndexedPool) removed,
      (removeLoop fRecursive fuel txToRemove pool).toCTxMemPool =
        (CTxMemPool.removeLoop fRecursive fuel txToRemove (pool.toCTxMemPool, removed)).1 := by
    intro fuel
    induction fuel with
    | zero => exact fun _ _ _ => rfl
    | succ fuel ih =>
      intro txToRemove pool removed
      cases txToRemove with
      | nil => rfl
      | cons hash txToRemove =>
        rw [removeLoop, CTxMemPool.removeLoop]
        cases pool.lookup hash with
        | none => exact ih _ _ _
        | some tx =>
          rw [ih _ _ (removed ++ [tx]), remove_toCTxMemPool]
  exact hloop _ _ _ _

/-- What the rounds of a loop do to the pool below, whatever they note as removed. -/
theorem foldl_toCTxMemPool {α : Type} {f : IndexedPool → α → IndexedPool}
    {g : CTxMemPool × List CTransaction → α → CTxMemPool × List CTransaction}
    (hf : ∀ pool removed a, (f pool a).toCTxMemPool = (g (pool.toCTxMemPool, removed) a).1)
    (l : List α) {pool : IndexedPool} {r : CTxMemPool × List CTransaction}
    (hr : pool.toCTxMemPool = r.1) : (l.foldl f pool).toCTxMemPool = (l.foldl g r).1 := by
  induction l generalizing pool r with
  | nil => exact hr
  | cons a l ih =>
    apply ih
    rw [hf pool r.2 a, hr]

theorem removeConflict_toCTxMemPool (tx : CTransaction) (removed : List CTransaction)
    (ptx : Option Uint256) : (removeConflict tx pool ptx).toCTxMemPool =
      (CTxMemPool.removeConflict tx (pool.toCTxMemPool, removed) ptx).1 := by
  rw [removeConflict, CTxMemPool.removeConflict]
  cases ptx.bind pool.lookup with
  | none => rfl
  | some txConflict =>
    by_cases hne : txConflict.hash ≠ tx.hash
    · simp only [if_pos hne]
      exact removeTx_toCTxMemPool removed true
    · simp only [if_neg hne]

theorem removeConflicts_toCTxMemPool (tx : CTransaction) (removed : List CTransaction) :
    (pool.removeConflicts tx).toCTxMemPool =
      (pool.toCTxMemPool.removeConflicts tx removed).1 := by
  have hnullifiers : ∀ ty (pool : IndexedPool) (r : CTxMemPool × List CTransaction),
      pool.toCTxMemPool = r.1 → (removeNullifierConflicts tx ty pool).toCTxMemPool =
        (CTxMemPool.removeNullifierConflicts tx ty r).1 := by
    intro ty pool r hr
    apply foldl_toCTxMemPool _ _ hr
    exact fun _ removed _ => removeConflict_toCTxMemPool tx removed _
  apply hnullifiers
  apply hnullifiers
  apply foldl_toCTxMemPool _ _ rfl
  exact fun _ removed _ => removeConflict_toCTxMemPool tx removed _

theorem removeForBlock_toCTxMemPool (vtx conflicts : List CTransaction) :
    (pool.removeForBlock vtx).toCTxMemPool =
      (pool.toCTxMemPool.removeForBlock vtx conflicts).1 := by
  apply foldl_toCTxMemPool _ vtx rfl
  intro pool removed tx
  rw [removeConflicts_toCTxMemPool tx removed, removeTx_toCTxMemPool [] false]
  rfl

end IndexedPool

/-! ## Runs -/

/-- An operation of the pool. `removeForReorg`, `removeWithAnchor`, `removeExpired` and
`removeWithoutBranchId` choose a list of transactions to remove. -/
inductive PoolOp where
  | addUnchecked (entry : CTxMemPoolEntry)
  | accept (entry : CTxMemPoolEntry) (time : Int) (getOutputFor : CTxIn → CTxOut)
  | remove (tx : CTransaction) (fRecursive : Bool)
  | removeConflicts (tx : CTransaction)
  | removeRecursively (transactionsToRemove : List CTransaction)
  | removeForBlock (vtx : List CTransaction)
  | clear

namespace PoolOp

variable (std : Standard) (fAddressIndex fSpentIndex : Bool)

/-- The operation on a pool. -/
def apply (pool : IndexedPool) : PoolOp → IndexedPool
  | addUnchecked entry => pool.addUnchecked entry
  | accept entry time getOutputFor =>
    pool.accept std fAddressIndex fSpentIndex entry time getOutputFor
  | remove tx fRecursive => pool.removeTx tx fRecursive
  | removeConflicts tx => pool.removeConflicts tx
  | removeRecursively transactionsToRemove => pool.removeRecursively transactionsToRemove
  | removeForBlock vtx => pool.removeForBlock vtx
  | clear => pool.clear

/-- The operations one after another. -/
def run (ops : List PoolOp) (pool : IndexedPool) : IndexedPool :=
  ops.foldl (apply std fAddressIndex fSpentIndex) pool

/-- Every `clear` of the run finds the side maps empty. -/
def ClearsEmpty : List PoolOp → IndexedPool → Prop
  | [], _ => True
  | op :: ops, pool =>
    (op = clear → pool.SideMapsEmpty) ∧ ClearsEmpty ops
      (op.apply std fAddressIndex fSpentIndex pool)

variable {std fAddressIndex fSpentIndex} {pool : IndexedPool}

/-- Every operation keeps the owners in the pool, `clear` where it has nothing to lose. -/
theorem apply_kept (h : pool.Kept) (op : PoolOp) (hclear : op = clear → pool.SideMapsEmpty) :
    (op.apply std fAddressIndex fSpentIndex pool).Kept := by
  cases op with
  | addUnchecked entry => exact h.addUnchecked entry
  | accept entry time getOutputFor => exact h.accept entry time getOutputFor
  | remove tx fRecursive => exact h.removeTx tx fRecursive
  | removeConflicts tx => exact h.removeConflicts tx
  | removeRecursively l => exact h.removeRecursively l
  | removeForBlock vtx => exact h.removeForBlock vtx
  | clear => exact (hclear rfl).clear.kept

theorem run_kept {ops : List PoolOp} (h : pool.Kept)
    (hclears : ClearsEmpty std fAddressIndex fSpentIndex ops pool) :
    (run std fAddressIndex fSpentIndex ops pool).Kept := by
  induction ops generalizing pool with
  | nil => exact h
  | cons op ops ih => exact ih (apply_kept h op hclears.1) hclears.2

/-- What the side maps name is in the pool after every run from the empty pool in which
`clear` finds the side maps empty. -/
theorem run_inPool (std : Standard) (fAddressIndex fSpentIndex : Bool) (ops : List PoolOp)
    (hclears : ClearsEmpty std fAddressIndex fSpentIndex ops {}) :
    (run std fAddressIndex fSpentIndex ops {}).InPool :=
  (run_kept IndexedPool.sideMapsEmpty_empty.kept hclears).inPool

/-- A transaction with a nullifier. -/
def nullifierTx : CTransaction where
  hash := 1
  vShieldedSpend := [{ anchor := 0, nullifier := 7 }]
  saplingFormat := Or.inl ⟨rfl, rfl, rfl⟩

/-- Its entry. -/
def nullifierEntry : CTxMemPoolEntry where
  tx := nullifierTx
  nFee := 0
  nTxSize := 500
  hadNoDependencies := true
  spendsCoinbase := false

/-- It is accepted where no script is recognised. -/
def acceptNullifier : PoolOp := accept nullifierEntry 0 fun _ => { nValue := 0, scriptPubKey := [] }

/-- No script is recognised. -/
def noStandard : Standard where
  solver := fun _ => (false, .nonstandard, [])
  extractDestination := fun _ => none
  hash160 := fun _ => 0

/-- Payments to a key are recognised. -/
def payStandard : Standard where
  solver := fun script => (true, .pubkeyhash, [(script.drop 3).take 20])
  extractDestination := fun _ => none
  hash160 := fun _ => 0

/-- A payment to a key. -/
def payment : CTxOut where
  nValue := 1000
  scriptPubKey := [0x76, 0xa9, 0x14] ++ List.replicate 20 0x11 ++ [0x88, 0xac]

/-- A transaction that passes it on. -/
def payTx : CTransaction where
  hash := 2
  vin := [{ prevout := { hash := 3, n := 0 }, scriptSig := [] }]
  vout := [payment]

/-- It is accepted. -/
def acceptPay : PoolOp :=
  accept { nullifierEntry with tx := payTx } 0 fun _ => payment

/-- A payment is accepted and goes into the indexes, it is removed with its entries, the pool is
cleared, and a transaction with a nullifier is accepted. -/
theorem run_inPool_accept :
    ((run payStandard true true [acceptPay] {}).address.inserted 2).map List.length = some 2 ∧
    ((run payStandard true true [acceptPay] {}).spent.inserted 2).isSome = true ∧
    (run payStandard true true [acceptPay, remove payTx true, clear, acceptNullifier]
      {}).InPool := by
  refine ⟨by decide +kernel, by decide +kernel, ?_⟩
  apply run_inPool payStandard true true
  refine ⟨nofun, nofun, fun _ => ?_, nofun, trivial⟩
  have hkept : (run payStandard true true [acceptPay, remove payTx true] {}).Kept :=
    run_kept IndexedPool.sideMapsEmpty_empty.kept ⟨nofun, nofun, trivial⟩
  exact hkept.sideMapsEmpty (by decide +kernel)

/-- The nullifier of an accepted transaction is still recorded when the pool is cleared. -/
theorem cleared_dangles : ¬∀ (std : Standard) (fAddressIndex fSpentIndex : Bool)
    (ops : List PoolOp), (run std fAddressIndex fSpentIndex ops {}).InPool := by
  intro h
  have hin := h noStandard true true [acceptNullifier, clear]
  obtain ⟨tx, htx, -⟩ := hin.nullifiers .sapling 7 1 rfl
  exact List.not_mem_nil htx

end PoolOp

end IndexChain
