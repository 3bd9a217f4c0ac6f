import IndexChain.Core.Bytes
import IndexChain.Core.Keyed
import IndexChain.Models.Coins.View

/-!
# The memory pool

`CTxMemPool` of `txmempool.cpp`: the transactions by id, and for every output they
spend the input that spends it. The pointers that the source keeps into the container
are the ids of the transactions they point to.
-/

namespace IndexChain

open IndexChain.Core

/-- `operator<` of `uint256` compares the memory. -/
def memLt (a b : Uint256) : Bool :=
  decide (leBytes 32 a.toNat < leBytes 32 b.toNat)

/-- `MEMPOOL_HEIGHT`, the height of coins that are in the pool only. -/
def mempoolHeight : Nat := 0x7FFFFFFF

namespace CTransaction

/-- Whether the transaction spends no shielded note. -/
def isTransparent (tx : CTransaction) : Bool :=
  tx.vjoinsplit.isEmpty && tx.vShieldedSpend.isEmpty

/-- The outputs that the inputs name. -/
def inputOutpoints (tx : CTransaction) : List COutPoint :=
  tx.vin.map CTxIn.prevout

/-- Input `i` spends output `o`. An import names its burn and spends no output. -/
structure Spends (tx : CTransaction) (i : Nat) (o : COutPoint) : Prop where
  notImport : tx.isCoinImport = false
  names : tx.inputOutpoints[i]? = some o

end CTransaction

/-- A transaction in the pool, with what is cached about it. -/
structure CTxMemPoolEntry where
  /-- The transaction. -/
  tx : CTransaction
  /-- Its fee. -/
  nFee : Int
  /-- Its size. -/
  nTxSize : Nat
  /-- Whether it depended on no transaction of the pool when it entered. -/
  hadNoDependencies : Bool
  /-- Whether it spends a coinbase. -/
  spendsCoinbase : Bool
  deriving DecidableEq, Repr

/-- The key of the pool. -/
def CTxMemPoolEntry.txid (e : CTxMemPoolEntry) : Uint256 :=
  e.tx.hash

/-- An input of a transaction of the pool. -/
structure CInPoint where
  /-- The transaction. -/
  ptx : Uint256
  /-- The index of the input. -/
  n : Nat
  deriving DecidableEq, Repr

/-- The memory pool. -/
structure CTxMemPool where
  /-- The transactions, in the order of their ids. -/
  mapTx : Keyed CTxMemPoolEntry.txid := {}
  /-- The input that spends an output. -/
  mapNextTx : COutPoint → Option CInPoint := fun _ => none
  /-- The transaction that reveals a nullifier. -/
  mapNullifiers : ShieldedType → Uint256 → Option Uint256 := fun _ _ => none
  /-- The sum of the sizes, in 64 bits. -/
  totalTxSize : BitVec 64 := 0

namespace CTxMemPool

/-- The transactions of the pool. -/
def txs (pool : CTxMemPool) : List CTransaction :=
  pool.mapTx.toList.map CTxMemPoolEntry.tx

/-- `lookup`. -/
def lookup (pool : CTxMemPool) (hash : Uint256) : Option CTransaction :=
  (pool.mapTx.find? hash).map CTxMemPoolEntry.tx

/-- `exists`. -/
def contains (pool : CTxMemPool) (hash : Uint256) : Bool :=
  pool.mapTx.contains hash

/-- `HasNoInputsOf`. -/
def hasNoInputsOf (pool : CTxMemPool) (tx : CTransaction) : Bool :=
  tx.inputOutpoints.all fun o => !pool.contains o.hash

/-- Record the inputs from index `i` on as the spenders of their outputs. -/
def markSpent (txid : Uint256) : Nat → List COutPoint → (COutPoint → Option CInPoint) →
    COutPoint → Option CInPoint
  | _, [], next => next
  | i, o :: rest, next =>
    markSpent txid (i + 1) rest (Function.update next o (some { ptx := txid, n := i }))

/-- `addUnchecked`. The container keeps the entry it has when the id is taken. -/
def addUnchecked (pool : CTxMemPool) (entry : CTxMemPoolEntry) : CTxMemPool :=
  let tx := (pool.lookup entry.txid).getD entry.tx
  { mapTx := pool.mapTx.insert memLt entry
    mapNextTx := if tx.isCoinImport then pool.mapNextTx
      else markSpent tx.hash 0 tx.inputOutpoints pool.mapNextTx
    mapNullifiers := fun ty nf =>
      if nf ∈ tx.nullifiers ty then some tx.hash else pool.mapNullifiers ty nf
    totalTxSize := pool.totalTxSize + BitVec.ofNat 64 entry.nTxSize }

/-- `remove`, not recursive. The outputs that an import names are erased as well. -/
def remove (pool : CTxMemPool) (origTx : CTransaction) : CTxMemPool :=
  match pool.mapTx.find? origTx.hash with
  | none => pool
  | some e =>
    { mapTx := pool.mapTx.erase origTx.hash
      mapNextTx := fun o => if o ∈ e.tx.inputOutpoints then none else pool.mapNextTx o
      mapNullifiers := fun ty nf =>
        if nf ∈ e.tx.nullifiers ty then none else pool.mapNullifiers ty nf
      totalTxSize := pool.totalTxSize - BitVec.ofNat 64 e.nTxSize }

/-- `clear`; the nullifiers stay. -/
def clear (pool : CTxMemPool) : CTxMemPool :=
  { pool with mapTx := {}, mapNextTx := fun _ => none, totalTxSize := 0 }

/-- `CCoinsViewMemPool`: the coins of the pool's transactions over a view. The outputs
that they spend are not taken out. -/
def viewMemPool (base : CCoinsView) (pool : CTxMemPool) : CCoinsView :=
  { base with
    getCoins := fun txid =>
      match pool.lookup txid with
      | some tx => some (CCoins.fromTx tx mempoolHeight)
      | none => (base.getCoins txid).filter fun coins => !coins.isPruned
    getNullifier := fun ty nf => (pool.mapNullifiers ty nf).isSome || base.getNullifier ty nf }

/-- No two transactions of the pool spend the same output, and each spent output is
recorded with the input that spends it. -/
structure Lawful (pool : CTxMemPool) : Prop where
  noConflict : ∀ tx ∈ pool.txs, ∀ tx' ∈ pool.txs, ∀ i j o, tx.Spends i o → tx'.Spends j o → tx = tx'
  spent : ∀ tx ∈ pool.txs, ∀ i o, tx.Spends i o → pool.mapNextTx o = some { ptx := tx.hash, n := i }

/-! ## Transactions of the pool -/

variable {pool : CTxMemPool} {entry : CTxMemPoolEntry} {tx tx' : CTransaction} {hash : Uint256}
  {i j : Nat} {o : COutPoint}

theorem mem_txs : tx ∈ pool.txs ↔ ∃ e ∈ pool.mapTx.toList, e.tx = tx :=
  List.mem_map

/-- An id determines the transaction of the pool. -/
theorem eq_of_hash (htx : tx ∈ pool.txs) (htx' : tx' ∈ pool.txs) (h : tx.hash = tx'.hash) :
    tx = tx' := by
  obtain ⟨e, he, rfl⟩ := mem_txs.1 htx
  obtain ⟨e', he', rfl⟩ := mem_txs.1 htx'
  rw [Keyed.eq_of_key he he' h]

theorem contains_iff : pool.contains hash = true ↔ ∃ tx ∈ pool.txs, tx.hash = hash := by
  rw [contains, Keyed.contains_iff]
  constructor
  · rintro ⟨e, he, hk⟩
    exact ⟨e.tx, mem_txs.2 ⟨e, he, rfl⟩, hk⟩
  · rintro ⟨tx, htx, hk⟩
    obtain ⟨e, he, rfl⟩ := mem_txs.1 htx
    exact ⟨e, he, hk⟩

theorem lookup_eq_some_iff : pool.lookup hash = some tx ↔ tx ∈ pool.txs ∧ tx.hash = hash := by
  rw [lookup, Option.map_eq_some_iff, mem_txs]
  constructor
  · rintro ⟨e, he, rfl⟩
    obtain ⟨hmem, hk⟩ := Keyed.find?_eq_some_iff.1 he
    exact ⟨⟨e, hmem, rfl⟩, hk⟩
  · rintro ⟨⟨e, hmem, rfl⟩, hk⟩
    exact ⟨e, Keyed.find?_eq_some_iff.2 ⟨hmem, hk⟩, rfl⟩

theorem lookup_eq_none_iff : pool.lookup hash = none ↔ pool.contains hash = false := by
  rw [lookup, Option.map_eq_none_iff, Keyed.find?_eq_none_iff]
  rfl

/-- What the pool records decides its laws: a spent output has one entry. -/
theorem Lawful.of_spent (h : ∀ tx ∈ pool.txs, ∀ i o, tx.Spends i o →
    pool.mapNextTx o = some { ptx := tx.hash, n := i }) : pool.Lawful := by
  refine ⟨?_, h⟩
  intro tx htx tx' htx' i j o hs hs'
  have heq := (h tx htx i o hs).symm.trans (h tx' htx' j o hs')
  have hhash : tx.hash = tx'.hash := congrArg CInPoint.ptx (Option.some.inj heq)
  exact eq_of_hash htx htx' hhash

/-- A transaction of a lawful pool spends an output once. -/
theorem Lawful.index (hpool : pool.Lawful) (htx : tx ∈ pool.txs) (hi : tx.Spends i o)
    (hj : tx.Spends j o) : i = j := by
  have heq := (hpool.spent tx htx i o hi).symm.trans (hpool.spent tx htx j o hj)
  exact congrArg CInPoint.n (Option.some.inj heq)

/-! ## Adding -/

/-- The outputs that are not among the inputs keep their spender. -/
theorem markSpent_of_notMem {txid : Uint256} {os : List COutPoint}
    {next : COutPoint → Option CInPoint} (ho : o ∉ os) : markSpent txid i os next o = next o := by
  induction os generalizing i next with
  | nil => rfl
  | cons o' os ih =>
    rw [List.mem_cons, not_or] at ho
    rw [markSpent, ih ho.2, Function.update_of_ne ho.1]

/-- Each output gets the last of the inputs that name it. -/
theorem markSpent_of_mem {txid : Uint256} {os : List COutPoint} {next : COutPoint → Option CInPoint}
    (ho : o ∈ os) : ∃ j, os[j]? = some o ∧
      markSpent txid i os next o = some { ptx := txid, n := i + j } := by
  induction os generalizing i next with
  | nil => cases ho
  | cons o' os ih =>
    rw [markSpent]
    by_cases hrest : o ∈ os
    · obtain ⟨j, hj, heq⟩ := ih (i := i + 1) hrest
      refine ⟨j + 1, hj, ?_⟩
      rw [heq, Nat.add_assoc, Nat.add_comm 1 j]
    · obtain rfl : o = o' := (List.mem_cons.1 ho).resolve_right hrest
      refine ⟨0, rfl, ?_⟩
      rw [markSpent_of_notMem hrest, Function.update_self, Nat.add_zero]

/-- The transaction that is in the pool under the id of an added entry. -/
def added (pool : CTxMemPool) (entry : CTxMemPoolEntry) : CTransaction :=
  (pool.lookup entry.txid).getD entry.tx

/-- The entry is the one in the pool when the ids of the pool agree with it. -/
theorem added_eq (hids : ∀ tx ∈ pool.txs, tx.hash = entry.tx.hash → tx = entry.tx) :
    pool.added entry = entry.tx := by
  unfold added
  cases h : pool.lookup entry.txid with
  | none => rfl
  | some tx =>
    obtain ⟨htx, hk⟩ := lookup_eq_some_iff.1 h
    exact hids tx htx hk

/-- The outputs that the added transaction does not spend keep their spender. -/
theorem mapNextTx_addUnchecked_of_not (h : ∀ i, ¬ (pool.added entry).Spends i o) :
    (pool.addUnchecked entry).mapNextTx o = pool.mapNextTx o := by
  change (if (pool.added entry).isCoinImport = true then pool.mapNextTx
    else markSpent (pool.added entry).hash 0 (pool.added entry).inputOutpoints pool.mapNextTx) o = _
  split
  · rfl
  · rename_i himport
    apply markSpent_of_notMem
    intro hmem
    obtain ⟨i, hi⟩ := List.mem_iff_getElem?.1 hmem
    exact h i ⟨Bool.eq_false_iff.2 himport, hi⟩

/-- The outputs that it spends get one of its inputs. -/
theorem mapNextTx_addUnchecked_of_spends (h : (pool.added entry).Spends i o) :
    ∃ j, (pool.added entry).Spends j o ∧
      (pool.addUnchecked entry).mapNextTx o = some { ptx := (pool.added entry).hash, n := j } := by
  have himport : ¬ (pool.added entry).isCoinImport = true := by
    rw [h.notImport]
    exact Bool.false_ne_true
  obtain ⟨j, hj, heq⟩ : ∃ j, (pool.added entry).inputOutpoints[j]? = some o ∧
      markSpent (pool.added entry).hash 0 (pool.added entry).inputOutpoints pool.mapNextTx o =
        some { ptx := (pool.added entry).hash, n := 0 + j } :=
    markSpent_of_mem (List.mem_iff_getElem?.2 ⟨i, h.names⟩)
  refine ⟨j, ⟨h.notImport, hj⟩, ?_⟩
  rw [Nat.zero_add] at heq
  change (if (pool.added entry).isCoinImport = true then pool.mapNextTx
    else markSpent (pool.added entry).hash 0 (pool.added entry).inputOutpoints pool.mapNextTx) o = _
  rw [if_neg himport, heq]

/-- Nothing else changes who spends an output. -/
theorem mapNextTx_addUnchecked_cases
    (hids : ∀ t ∈ pool.txs, t.hash = entry.tx.hash → t = entry.tx) :
    (pool.addUnchecked entry).mapNextTx o = pool.mapNextTx o ∨
      ∃ i, (pool.addUnchecked entry).mapNextTx o = some { ptx := entry.tx.hash, n := i } := by
  by_cases hspends : ∃ i, (pool.added entry).Spends i o
  · obtain ⟨i, hi⟩ := hspends
    obtain ⟨j, -, hj⟩ := mapNextTx_addUnchecked_of_spends hi
    rw [added_eq hids] at hj
    exact Or.inr ⟨j, hj⟩
  · exact Or.inl (mapNextTx_addUnchecked_of_not fun i hi => hspends ⟨i, hi⟩)

theorem mem_txs_addUnchecked (hids : ∀ t ∈ pool.txs, t.hash = entry.tx.hash → t = entry.tx) :
    tx ∈ (pool.addUnchecked entry).txs ↔ tx ∈ pool.txs ∨ tx = entry.tx := by
  have hmem : tx ∈ (pool.addUnchecked entry).txs ↔
      ∃ e ∈ (pool.mapTx.insert memLt entry).toList, e.tx = tx := mem_txs
  rw [hmem, mem_txs]
  simp only [Keyed.mem_insert]
  constructor
  · rintro ⟨e, he | ⟨rfl, -⟩, rfl⟩
    · exact Or.inl ⟨e, he, rfl⟩
    · exact Or.inr rfl
  · rintro (⟨e, he, rfl⟩ | rfl)
    · exact ⟨e, Or.inl he, rfl⟩
    · cases hc : pool.contains entry.tx.hash with
      | false => exact ⟨entry, Or.inr ⟨rfl, hc⟩, rfl⟩
      | true =>
        obtain ⟨t, ht, hhash⟩ := contains_iff.1 hc
        obtain ⟨e, he, heq⟩ := mem_txs.1 ht
        exact ⟨e, Or.inl he, heq.trans (hids t ht hhash)⟩

/-- No two transactions spend the same output, and none spends an output twice. -/
def Compatible (txs : List CTransaction) : Prop :=
  ∀ tx ∈ txs, ∀ tx' ∈ txs, ∀ i j o, tx.Spends i o → tx'.Spends j o → tx = tx' ∧ i = j

theorem Compatible.mono {txs txs' : List CTransaction} (h : Compatible txs')
    (hsub : ∀ tx ∈ txs, tx ∈ txs') : Compatible txs :=
  fun tx htx tx' htx' => h tx (hsub tx htx) tx' (hsub tx' htx')

theorem Lawful.compatible (hpool : pool.Lawful) : Compatible pool.txs := by
  intro tx htx tx' htx' i j o hi hj
  obtain rfl := hpool.noConflict tx htx tx' htx' i j o hi hj
  exact ⟨rfl, hpool.index htx hi hj⟩

/-- A transaction that conflicts with none of a lawful pool is added lawfully. -/
theorem Lawful.addUnchecked (hpool : pool.Lawful)
    (hids : ∀ t ∈ pool.txs, t.hash = entry.tx.hash → t = entry.tx)
    (hcompat : Compatible (entry.tx :: pool.txs)) : (pool.addUnchecked entry).Lawful := by
  have hadded := added_eq hids
  apply Lawful.of_spent
  intro tx htx i o hi
  have hnext : ∀ {k : Nat}, entry.tx.Spends k o →
      (pool.addUnchecked entry).mapNextTx o = some { ptx := entry.tx.hash, n := k } := by
    intro k hk
    rw [← hadded] at hk
    obtain ⟨j, hj, heq⟩ := mapNextTx_addUnchecked_of_spends hk
    rw [hadded] at hj hk heq
    have hself : entry.tx ∈ entry.tx :: pool.txs := List.mem_cons_self
    obtain ⟨-, rfl⟩ := hcompat _ hself _ hself k j o hk hj
    exact heq
  rcases (mem_txs_addUnchecked hids).1 htx with hmem | rfl
  · by_cases hspends : ∃ k, entry.tx.Spends k o
    · obtain ⟨k, hk⟩ := hspends
      obtain ⟨rfl, rfl⟩ := hcompat tx (List.mem_cons_of_mem _ hmem) entry.tx List.mem_cons_self
        i k o hi hk
      exact hnext hk
    · rw [mapNextTx_addUnchecked_of_not]
      · exact hpool.spent tx hmem i o hi
      · rw [hadded]
        exact fun k hk => hspends ⟨k, hk⟩
  · exact hnext hi

/-! ## Removing -/

/-- Exactly the transactions with this id go. -/
theorem mem_txs_remove : tx ∈ (pool.remove tx').txs ↔ tx ∈ pool.txs ∧ tx.hash ≠ tx'.hash := by
  unfold remove
  cases hfind : pool.mapTx.find? tx'.hash with
  | none =>
    have hnone := Keyed.find?_eq_none_iff.1 hfind
    dsimp only
    constructor
    · intro htx
      refine ⟨htx, fun heq => ?_⟩
      have htrue := contains_iff.2 ⟨tx, htx, heq⟩
      rw [contains, hnone] at htrue
      cases htrue
    · exact And.left
  | some e =>
    have hmem : ∀ (m : CTxMemPool), tx ∈ m.txs ↔ ∃ e ∈ m.mapTx.toList, e.tx = tx := fun _ => mem_txs
    rw [hmem, hmem]
    dsimp only
    simp only [Keyed.mem_erase]
    constructor
    · rintro ⟨e, ⟨he, hne⟩, rfl⟩
      exact ⟨⟨e, he, rfl⟩, hne⟩
    · rintro ⟨⟨e, he, rfl⟩, hne⟩
      exact ⟨e, ⟨he, hne⟩, rfl⟩

/-- An output that the removed transaction does not name keeps its spender. -/
theorem mapNextTx_remove_of_not (h : ∀ t ∈ pool.txs, t.hash = tx.hash → o ∉ t.inputOutpoints) :
    (pool.remove tx).mapNextTx o = pool.mapNextTx o := by
  unfold remove
  cases hfind : pool.mapTx.find? tx.hash with
  | none => rfl
  | some e =>
    obtain ⟨he, hk⟩ := Keyed.find?_eq_some_iff.1 hfind
    exact if_neg (h e.tx (mem_txs.2 ⟨e, he, rfl⟩) hk)

/-- An output that it names has no spender afterwards. -/
theorem mapNextTx_remove_of_mem (htx : tx ∈ pool.txs) (hhash : tx.hash = tx'.hash)
    (ho : o ∈ tx.inputOutpoints) : (pool.remove tx').mapNextTx o = none := by
  obtain ⟨e, he, rfl⟩ := mem_txs.1 htx
  have hfind : pool.mapTx.find? tx'.hash = some e := Keyed.find?_eq_some_iff.2 ⟨he, hhash⟩
  unfold remove
  rw [hfind]
  exact if_pos ho

/-! ## Adding and removing many -/

/-- Add entries in order. -/
def addAll (pool : CTxMemPool) (entries : List CTxMemPoolEntry) : CTxMemPool :=
  entries.foldl addUnchecked pool

/-- Remove transactions in order. -/
def removeAll (pool : CTxMemPool) (txs : List CTransaction) : CTxMemPool :=
  txs.foldl remove pool

/-- An id determines its transaction. -/
def TxidsAgree (txs : List CTransaction) : Prop :=
  ∀ tx ∈ txs, ∀ tx' ∈ txs, tx.hash = tx'.hash → tx = tx'

variable {entries : List CTxMemPoolEntry} {all txs : List CTransaction}

/-- The transaction of an id is found in a part of the list. -/
theorem TxidsAgree.find?_eq (hids : TxidsAgree all) (hsub : ∀ t ∈ txs, t ∈ all)
    (htx : tx ∈ txs) : (txs.find? fun t => t.hash == tx.hash) = some tx := by
  cases hfind : txs.find? fun t => t.hash == tx.hash with
  | none => exact absurd (beq_self_eq_true tx.hash) (List.find?_eq_none.1 hfind tx htx)
  | some t =>
    have hhash : t.hash = tx.hash := by simpa using List.find?_some hfind
    rw [hids t (hsub t (List.mem_of_find?_eq_some hfind)) tx (hsub tx htx) hhash]

theorem TxidsAgree.eq_entry (hids : TxidsAgree all) (hpool : ∀ t ∈ pool.txs, t ∈ all)
    (hentry : entry.tx ∈ all) : ∀ t ∈ pool.txs, t.hash = entry.tx.hash → t = entry.tx :=
  fun t ht => hids t (hpool t ht) entry.tx hentry

theorem TxidsAgree.addUnchecked (hids : TxidsAgree all) (hpool : ∀ t ∈ pool.txs, t ∈ all)
    (hentry : entry.tx ∈ all) : ∀ t ∈ (pool.addUnchecked entry).txs, t ∈ all := by
  intro t ht
  rcases (mem_txs_addUnchecked (hids.eq_entry hpool hentry)).1 ht with hmem | rfl
  · exact hpool t hmem
  · exact hentry

theorem mem_txs_addAll (hids : TxidsAgree all) (hpool : ∀ t ∈ pool.txs, t ∈ all)
    (hentries : ∀ e ∈ entries, e.tx ∈ all) :
    tx ∈ (pool.addAll entries).txs ↔ tx ∈ pool.txs ∨ ∃ e ∈ entries, e.tx = tx := by
  induction entries generalizing pool with
  | nil => simp [addAll]
  | cons e entries ih =>
    have he := hentries e List.mem_cons_self
    have hagree := hids.eq_entry hpool he
    have hstep := hids.addUnchecked hpool he
    have hrest := ih hstep fun e' he' => hentries e' (List.mem_cons_of_mem e he')
    rw [show pool.addAll (e :: entries) = (pool.addUnchecked e).addAll entries from rfl, hrest,
      mem_txs_addUnchecked hagree]
    simp only [List.exists_mem_cons_iff, or_assoc, eq_comm]

/-- Transactions that conflict neither among themselves nor with those of a lawful pool
are added lawfully. -/
theorem Lawful.addAll (hlawful : pool.Lawful) (hids : TxidsAgree all)
    (hpool : ∀ t ∈ pool.txs, t ∈ all) (hentries : ∀ e ∈ entries, e.tx ∈ all)
    (hcompat : Compatible (entries.map CTxMemPoolEntry.tx ++ pool.txs)) :
    (pool.addAll entries).Lawful := by
  induction entries generalizing pool with
  | nil => exact hlawful
  | cons e entries ih =>
    have he := hentries e List.mem_cons_self
    have hagree := hids.eq_entry hpool he
    rw [List.map_cons, List.cons_append] at hcompat
    have hfirst : Compatible (e.tx :: pool.txs) := by
      apply hcompat.mono
      intro t ht
      rw [List.mem_cons] at ht
      rw [List.mem_cons, List.mem_append]
      tauto
    apply ih (hlawful.addUnchecked hagree hfirst) (hids.addUnchecked hpool he)
    · exact fun e' he' => hentries e' (List.mem_cons_of_mem e he')
    · apply hcompat.mono
      intro t ht
      rw [List.mem_append, mem_txs_addUnchecked hagree] at ht
      rw [List.mem_cons, List.mem_append]
      tauto

/-- Only spenders among the added transactions change who spends an output. -/
theorem mapNextTx_addAll (hids : TxidsAgree all) (hpool : ∀ t ∈ pool.txs, t ∈ all)
    (hentries : ∀ e ∈ entries, e.tx ∈ all) :
    (pool.addAll entries).mapNextTx o = pool.mapNextTx o ∨
      ∃ e ∈ entries, ∃ i,
        (pool.addAll entries).mapNextTx o = some { ptx := e.tx.hash, n := i } := by
  induction entries generalizing pool with
  | nil => exact Or.inl rfl
  | cons e entries ih =>
    have he := hentries e List.mem_cons_self
    have hagree := hids.eq_entry hpool he
    have hstep := hids.addUnchecked hpool he
    rcases ih hstep fun e' he' => hentries e' (List.mem_cons_of_mem e he') with
      heq | ⟨e', he', i, heq⟩
    · rcases mapNextTx_addUnchecked_cases hagree with hsame | ⟨i, hi⟩
      · exact Or.inl (heq.trans hsame)
      · exact Or.inr ⟨e, List.mem_cons_self, i, heq.trans hi⟩
    · exact Or.inr ⟨e', List.mem_cons_of_mem e he', i, heq⟩

theorem mem_txs_removeAll :
    tx ∈ (pool.removeAll txs).txs ↔ tx ∈ pool.txs ∧ ∀ t ∈ txs, tx.hash ≠ t.hash := by
  induction txs generalizing pool with
  | nil => simp [removeAll]
  | cons t txs ih =>
    rw [show pool.removeAll (t :: txs) = (pool.remove t).removeAll txs from rfl, ih, mem_txs_remove]
    simp only [List.forall_mem_cons, and_assoc]

/-- An output that no removed transaction names keeps its spender. -/
theorem mapNextTx_removeAll_of_not
    (h : ∀ t ∈ pool.txs, ∀ t' ∈ txs, t.hash = t'.hash → o ∉ t.inputOutpoints) :
    (pool.removeAll txs).mapNextTx o = pool.mapNextTx o := by
  induction txs generalizing pool with
  | nil => rfl
  | cons t txs ih =>
    have hfirst := mapNextTx_remove_of_not fun t' ht' => h t' ht' t List.mem_cons_self
    refine (ih fun t' ht' t'' ht'' => ?_).trans hfirst
    exact h t' (mem_txs_remove.1 ht').1 t'' (List.mem_cons_of_mem t ht'')

/-- An output without a spender stays without one. -/
theorem mapNextTx_removeAll_none (h : pool.mapNextTx o = none) :
    (pool.removeAll txs).mapNextTx o = none := by
  induction txs generalizing pool with
  | nil => exact h
  | cons t txs ih =>
    apply ih
    unfold remove
    split
    · exact h
    · dsimp only
      split
      · rfl
      · exact h

/-- An output that a removed transaction names has no spender afterwards. -/
theorem mapNextTx_removeAll_of_mem (htx : tx ∈ pool.txs) (hmem : tx ∈ txs)
    (ho : o ∈ tx.inputOutpoints) :
    (pool.removeAll txs).mapNextTx o = none := by
  induction txs generalizing pool with
  | nil => cases hmem
  | cons t txs ih =>
    by_cases hhash : tx.hash = t.hash
    · have hnone := mapNextTx_remove_of_mem htx hhash ho
      exact (mapNextTx_removeAll_none hnone : ((pool.remove t).removeAll txs).mapNextTx o = none)
    · have hne : tx ≠ t := fun heq => hhash (congrArg CTransaction.hash heq)
      exact ih (mem_txs_remove.2 ⟨htx, hhash⟩) ((List.mem_cons.1 hmem).resolve_left hne)

end CTxMemPool

end IndexChain
