import IndexChain.Core.SetIndex
import IndexChain.Models.Mempool.TxMemPool

/-!
# Orphan transactions

`AddOrphanTx`, `EraseOrphanTx`, `EraseOrphansFor` and `LimitOrphanTxSize` of `main.cpp`. The
orphans are kept by their hash, and the hashes of those that spend an output of a transaction by
the id of that transaction. A loop that would go on from an erased element, and one that has not
ended after as many rounds as there were orphans, give `none`.
-/

namespace IndexChain

open IndexChain.Core

/-- `COrphanTx`: a transaction and the node it came from. -/
structure COrphanTx where
  /-- The transaction. -/
  tx : CTransaction
  /-- The node. -/
  fromPeer : Int
  deriving DecidableEq, Repr

/-- The two maps. -/
structure Orphans where
  /-- The orphans by hash. -/
  mapOrphanTransactions : Keyed (Prod.fst : Uint256 × COrphanTx → Uint256) := {}
  /-- The hashes of the orphans by the transactions they spend from. -/
  mapOrphanTransactionsByPrev : SetIndex Uint256 Uint256 := fun _ => none

namespace CTransaction

/-- The transactions that the inputs spend from. -/
def prevHashes (tx : CTransaction) : List Uint256 :=
  tx.vin.map fun txin => txin.prevout.hash

end CTransaction

namespace Orphans

/-- `AddOrphanTx`; the size is that of `GetSerializeSize`. -/
def addOrphanTx (serializeSize : CTransaction → Nat) (s : Orphans) (tx : CTransaction)
    (peer : Int) : Bool × Orphans :=
  let hash := tx.hash
  if s.mapOrphanTransactions.contains hash then (false, s)
  else if serializeSize tx > 5000 then (false, s)
  else (true,
    { mapOrphanTransactions := s.mapOrphanTransactions.insert memLt (hash, ⟨tx, peer⟩)
      mapOrphanTransactionsByPrev :=
        tx.prevHashes.foldl (SetIndex.insert hash) s.mapOrphanTransactionsByPrev })

/-- `EraseOrphanTx`. -/
def eraseOrphanTx (s : Orphans) (hash : Uint256) : Orphans :=
  match s.mapOrphanTransactions.find? hash with
  | none => s
  | some (_, orphan) =>
    { mapOrphanTransactions := s.mapOrphanTransactions.erase hash
      mapOrphanTransactionsByPrev :=
        orphan.tx.prevHashes.foldl (SetIndex.erase hash) s.mapOrphanTransactionsByPrev }

/-- What the iterator still comes to when a hash is erased. -/
def without (hash : Uint256) (iter : List (Uint256 × COrphanTx)) : List (Uint256 × COrphanTx) :=
  iter.filter fun x => x.1 ≠ hash

theorem length_without_le (hash : Uint256) (iter : List (Uint256 × COrphanTx)) :
    (without hash iter).length ≤ iter.length :=
  List.length_filter_le _ iter

/-- The loop of `EraseOrphansFor`, over what is left of the map from `iter` on. The element that
`iter` has moved on to must not be the one that is erased. -/
def eraseFrom (peer : Int) (iter : List (Uint256 × COrphanTx)) (s : Orphans) : Option Orphans :=
  match iter with
  | [] => some s
  | maybeErase :: iter =>
    if maybeErase.2.fromPeer = peer then
      let hash := maybeErase.2.tx.hash
      if iter.head?.map Prod.fst = some hash then none
      else eraseFrom peer (without hash iter) (s.eraseOrphanTx hash)
    else eraseFrom peer iter s
termination_by iter.length
decreasing_by
  · exact Nat.lt_succ_of_le (length_without_le hash iter)
  · exact Nat.lt_succ_self _

/-- `EraseOrphansFor`. -/
def eraseOrphansFor (s : Orphans) (peer : Int) : Option Orphans :=
  eraseFrom peer s.mapOrphanTransactions.toList s

/-- `lower_bound`: the first element that is not before a hash. -/
def lowerBound (s : Orphans) (hash : Uint256) : Option (Uint256 × COrphanTx) :=
  s.mapOrphanTransactions.toList.find? fun x => !memLt x.1 hash

/-- The loop of `LimitOrphanTxSize`, with the values of `GetRandHash` in their order. -/
def limitFrom (nMaxOrphans : Nat) (getRandHash : Nat → Uint256) :
    Nat → Nat → Orphans → Option (Nat × Orphans)
  | fuel, nEvicted, s =>
    if nMaxOrphans < s.mapOrphanTransactions.toList.length then
      match fuel with
      | 0 => none
      | fuel + 1 =>
        let it := (s.lowerBound (getRandHash nEvicted)).or s.mapOrphanTransactions.toList.head?
        it.bind fun it => limitFrom nMaxOrphans getRandHash fuel (nEvicted + 1)
          (s.eraseOrphanTx it.1)
    else some (nEvicted, s)

/-- `LimitOrphanTxSize`. -/
def limitOrphanTxSize (s : Orphans) (nMaxOrphans : Nat) (getRandHash : Nat → Uint256) :
    Option (Nat × Orphans) :=
  limitFrom nMaxOrphans getRandHash s.mapOrphanTransactions.toList.length 0 s

/-! ## Calls in any order -/

/-- A call. -/
inductive Call where
  /-- `AddOrphanTx`. -/
  | add (tx : CTransaction) (peer : Int)
  /-- `EraseOrphanTx`. -/
  | erase (hash : Uint256)
  /-- `EraseOrphansFor`. -/
  | eraseFor (peer : Int)
  /-- `LimitOrphanTxSize`. -/
  | limit (nMaxOrphans : Nat) (getRandHash : Nat → Uint256)

/-- The maps after a call. -/
def step (serializeSize : CTransaction → Nat) (s : Orphans) : Call → Option Orphans
  | .add tx peer => some (s.addOrphanTx serializeSize tx peer).2
  | .erase hash => some (s.eraseOrphanTx hash)
  | .eraseFor peer => s.eraseOrphansFor peer
  | .limit nMaxOrphans getRandHash => (s.limitOrphanTxSize nMaxOrphans getRandHash).map Prod.snd

/-- The maps after calls. -/
def run (serializeSize : CTransaction → Nat) (s : Orphans) (calls : List Call) : Option Orphans :=
  calls.foldlM (step serializeSize) s

/-- The second map is the index of the first one by the transactions that are spent from. -/
structure Indexed (s : Orphans) : Prop where
  /-- An orphan is kept under its own hash. -/
  hash : ∀ x ∈ s.mapOrphanTransactions.toList, x.1 = x.2.tx.hash
  /-- A hash is in the set of a transaction when its orphan has an input from there. -/
  byPrev : ∀ prev hash, s.mapOrphanTransactionsByPrev.Holds prev hash ↔
    ∃ orphan, (hash, orphan) ∈ s.mapOrphanTransactions.toList ∧
      ∃ txin ∈ orphan.tx.vin, txin.prevout.hash = prev
  /-- No set is empty. -/
  noEmpty : s.mapOrphanTransactionsByPrev.NoEmpty

variable {serializeSize : CTransaction → Nat} {s s' : Orphans} {tx : CTransaction} {peer : Int}
  {hash : Uint256}

theorem indexed_empty : Indexed {} where
  hash := by
    intro x hx
    cases hx
  byPrev := by
    intro prev hash
    simp [SetIndex.Holds]
  noEmpty := by
    intro prev set hset
    cases hset

theorem mem_prevHashes {prev : Uint256} :
    prev ∈ tx.prevHashes ↔ ∃ txin ∈ tx.vin, txin.prevout.hash = prev :=
  List.mem_map

/-! ## One call -/

/-- A new orphan is entered for each of its inputs. -/
theorem Indexed.addOrphanTx (h : s.Indexed) (serializeSize : CTransaction → Nat)
    (tx : CTransaction) (peer : Int) : (s.addOrphanTx serializeSize tx peer).2.Indexed := by
  rw [Orphans.addOrphanTx]
  split
  · exact h
  split
  · exact h
  · rename_i hcontains _
    have hnew : s.mapOrphanTransactions.contains tx.hash = false := Bool.eq_false_iff.2 hcontains
    constructor
    · intro x hx
      obtain hx | ⟨rfl, -⟩ := Keyed.mem_insert.1 hx
      · exact h.hash x hx
      · rfl
    · intro prev hash
      rw [SetIndex.holds_foldl_insert, h.byPrev, mem_prevHashes]
      simp only [Keyed.mem_insert]
      constructor
      · rintro (⟨orphan, hmem, hspends⟩ | ⟨hspends, rfl⟩)
        · exact ⟨orphan, Or.inl hmem, hspends⟩
        · exact ⟨⟨tx, peer⟩, Or.inr ⟨rfl, hnew⟩, hspends⟩
      · rintro ⟨orphan, hmem | ⟨heq, -⟩, hspends⟩
        · exact Or.inl ⟨orphan, hmem, hspends⟩
        · cases heq
          exact Or.inr ⟨hspends, rfl⟩
    · exact h.noEmpty.foldl_insert _

/-- An orphan that is erased is taken out for each of its inputs. -/
theorem Indexed.eraseOrphanTx (h : s.Indexed) (hash : Uint256) :
    (s.eraseOrphanTx hash).Indexed := by
  rw [Orphans.eraseOrphanTx]
  split
  · exact h
  · rename_i key orphan hfind
    obtain ⟨hmem, hkey⟩ := Keyed.find?_eq_some_iff.1 hfind
    constructor
    · intro x hx
      exact h.hash x (Keyed.mem_erase.1 hx).1
    · intro prev hash'
      rw [SetIndex.holds_foldl_erase, h.byPrev, mem_prevHashes]
      simp only [Keyed.mem_erase]
      constructor
      · rintro ⟨⟨orphan', hmem', hspends⟩, hnot⟩
        refine ⟨orphan', ⟨hmem', fun heq => hnot ⟨?_, heq⟩⟩, hspends⟩
        -- the orphan of the hash is the one that was found
        have hsame : (key, orphan) = (hash', orphan') :=
          Keyed.eq_of_key hmem hmem' (hkey.trans heq.symm)
        cases hsame
        exact hspends
      · rintro ⟨orphan', ⟨hmem', hne⟩, hspends⟩
        exact ⟨⟨orphan', hmem', hspends⟩, fun h => hne h.2⟩
    · exact h.noEmpty.foldl_erase _

/-- Erasing an orphan that is there leaves one less. -/
theorem length_eraseOrphanTx {x : Uint256 × COrphanTx}
    (hx : x ∈ s.mapOrphanTransactions.toList) :
    s.mapOrphanTransactions.toList.length =
      (s.eraseOrphanTx x.1).mapOrphanTransactions.toList.length + 1 := by
  have hfind : s.mapOrphanTransactions.find? x.1 = some x := Keyed.find?_eq_some_iff.2 ⟨hx, rfl⟩
  rw [Orphans.eraseOrphanTx, hfind]
  exact (Keyed.perm_erase hx).length_eq

/-! ## EraseOrphansFor -/

/-- The other elements stay when an orphan is erased. -/
theorem mem_eraseOrphanTx_of_ne {x : Uint256 × COrphanTx}
    (hx : x ∈ s.mapOrphanTransactions.toList) (hne : x.1 ≠ hash) :
    x ∈ (s.eraseOrphanTx hash).mapOrphanTransactions.toList := by
  rw [Orphans.eraseOrphanTx]
  split
  · exact hx
  · exact Keyed.mem_erase.2 ⟨hx, hne⟩

/-- The loop goes through the elements it has not come to, and only erases the current one. -/
theorem eraseFrom_spec (h : s.Indexed) {iter : List (Uint256 × COrphanTx)}
    (hiter : ∀ x ∈ iter, x ∈ s.mapOrphanTransactions.toList)
    (hkeys : (iter.map Prod.fst).Nodup) :
    ∃ s', eraseFrom peer iter s = some s' ∧ s'.Indexed := by
  induction iter generalizing s with
  | nil => exact ⟨s, by rw [eraseFrom], h⟩
  | cons x iter ih =>
    rw [List.map_cons, List.nodup_cons] at hkeys
    obtain ⟨hx, hrest⟩ := List.forall_mem_cons.1 hiter
    rw [eraseFrom]
    split
    · have hhash := h.hash x hx
      have hnot : ∀ y ∈ iter, y.1 ≠ x.2.tx.hash := fun y hy heq =>
        hkeys.1 (List.mem_map.2 ⟨y, hy, heq.trans hhash.symm⟩)
      have hhead : iter.head?.map Prod.fst ≠ some x.2.tx.hash := by
        intro hsome
        obtain ⟨y, hy, heq⟩ := Option.map_eq_some_iff.1 hsome
        exact hnot y (List.mem_of_mem_head? hy) heq
      have hwithout : without x.2.tx.hash iter = iter :=
        List.filter_eq_self.2 fun y hy => decide_eq_true (hnot y hy)
      dsimp only
      rw [if_neg hhead, hwithout]
      exact ih (h.eraseOrphanTx _)
        (fun y hy => mem_eraseOrphanTx_of_ne (hrest y hy) (hnot y hy)) hkeys.2
    · exact ih h hrest hkeys.2

theorem eraseOrphansFor_spec (h : s.Indexed) (peer : Int) :
    ∃ s', s.eraseOrphansFor peer = some s' ∧ s'.Indexed :=
  eraseFrom_spec h (fun _ hx => hx) s.mapOrphanTransactions.unique

/-! ## LimitOrphanTxSize -/

/-- Every round erases an orphan, until no more are left than there may be. -/
theorem limitFrom_spec (h : s.Indexed) {nMaxOrphans fuel : Nat} (nEvicted : Nat)
    (getRandHash : Nat → Uint256)
    (hfuel : s.mapOrphanTransactions.toList.length ≤ nMaxOrphans + fuel) :
    ∃ n s', limitFrom nMaxOrphans getRandHash fuel nEvicted s = some (n, s') ∧ s'.Indexed ∧
      s'.mapOrphanTransactions.toList.length =
        min s.mapOrphanTransactions.toList.length nMaxOrphans := by
  induction fuel generalizing s nEvicted with
  | zero =>
    rw [Nat.add_zero] at hfuel
    rw [limitFrom, if_neg (Nat.not_lt.2 hfuel)]
    exact ⟨nEvicted, s, rfl, h, (Nat.min_eq_left hfuel).symm⟩
  | succ fuel ih =>
    rw [limitFrom]
    split
    · rename_i hmany
      obtain ⟨x, hit, hx⟩ : ∃ x, (s.lowerBound (getRandHash nEvicted)).or
          s.mapOrphanTransactions.toList.head? = some x ∧ x ∈ s.mapOrphanTransactions.toList := by
        cases hlower : s.lowerBound (getRandHash nEvicted) with
        | some x => exact ⟨x, rfl, List.mem_of_find?_eq_some hlower⟩
        | none =>
          obtain ⟨x, l, hcons⟩ := List.exists_cons_of_length_pos (Nat.zero_lt_of_lt hmany)
          rw [hcons]
          exact ⟨x, rfl, List.mem_cons_self⟩
      have hlength := length_eraseOrphanTx hx
      dsimp only
      rw [hit, Option.bind_some]
      obtain ⟨n, s', hlimit, hindexed, hle⟩ := ih (h.eraseOrphanTx x.1) (nEvicted + 1) (by omega)
      exact ⟨n, s', hlimit, hindexed, by omega⟩
    · rename_i hfew
      exact ⟨nEvicted, s, rfl, h, (Nat.min_eq_left (Nat.not_lt.1 hfew)).symm⟩

theorem limitOrphanTxSize_spec (h : s.Indexed) (nMaxOrphans : Nat) (getRandHash : Nat → Uint256) :
    ∃ n s', s.limitOrphanTxSize nMaxOrphans getRandHash = some (n, s') ∧ s'.Indexed ∧
      s'.mapOrphanTransactions.toList.length =
        min s.mapOrphanTransactions.toList.length nMaxOrphans :=
  limitFrom_spec h 0 getRandHash (Nat.le_add_left _ _)

/-! ## Runs -/

/-- Every call ends, and leaves the index right. -/
theorem Indexed.step (h : s.Indexed) (serializeSize : CTransaction → Nat) (call : Call) :
    ∃ s', s.step serializeSize call = some s' ∧ s'.Indexed := by
  cases call with
  | add tx peer => exact ⟨_, rfl, h.addOrphanTx serializeSize tx peer⟩
  | erase hash => exact ⟨_, rfl, h.eraseOrphanTx hash⟩
  | eraseFor peer => exact eraseOrphansFor_spec h peer
  | limit nMaxOrphans getRandHash =>
    obtain ⟨n, s', hlimit, hindexed, -⟩ := limitOrphanTxSize_spec h nMaxOrphans getRandHash
    exact ⟨s', by rw [Orphans.step, hlimit, Option.map_some], hindexed⟩

theorem Indexed.run (h : s.Indexed) (serializeSize : CTransaction → Nat) (calls : List Call) :
    ∃ s', s.run serializeSize calls = some s' ∧ s'.Indexed := by
  induction calls generalizing s with
  | nil => exact ⟨s, rfl, h⟩
  | cons call calls ih =>
    obtain ⟨s₁, hstep, hindexed⟩ := h.step serializeSize call
    obtain ⟨s₂, hrun, hlast⟩ := ih hindexed
    refine ⟨s₂, ?_, hlast⟩
    rw [Orphans.run, List.foldlM_cons, hstep]
    exact hrun

/-- After any calls the second map is exactly the index of the first one, and `LimitOrphanTxSize`
ends with no more orphans than it is given. -/
theorem orphans_exact (serializeSize : CTransaction → Nat) (calls : List Call) :
    ∃ s, run serializeSize {} calls = some s ∧ s.Indexed ∧
      ∀ nMaxOrphans getRandHash, ∃ nEvicted s',
        s.limitOrphanTxSize nMaxOrphans getRandHash = some (nEvicted, s') ∧
          s'.mapOrphanTransactions.toList.length ≤ nMaxOrphans := by
  obtain ⟨s, hrun, hindexed⟩ := indexed_empty.run serializeSize calls
  refine ⟨s, hrun, hindexed, fun nMaxOrphans getRandHash => ?_⟩
  obtain ⟨n, s', hlimit, -, hlength⟩ := limitOrphanTxSize_spec hindexed nMaxOrphans getRandHash
  exact ⟨n, s', hlimit, by omega⟩

end Orphans

end IndexChain
