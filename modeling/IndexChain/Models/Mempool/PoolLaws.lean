import IndexChain.Models.Mempool.Removal
import Mathlib.Algebra.BigOperators.Group.List.Basic

/-!
# The laws of the memory pool

What `CTxMemPool::check` asserts of `mapTx`, `mapNextTx` and `totalTxSize`, along every
run of additions and removals. `check` asks for every input to be recorded, but
`addUnchecked` records no input of a coin import: an import in the pool breaks the laws,
and they hold along every run that adds none.
-/

namespace IndexChain

open IndexChain.Core

namespace CTxMemPool

variable {pool : CTxMemPool} {entry : CTxMemPoolEntry} {tx c : CTransaction} {hash : Uint256}
  {o : COutPoint} {removed : List CTransaction}

/-! ## The laws -/

/-- `checkTotal`: the sum of the sizes. -/
def checkTotal (pool : CTxMemPool) : BitVec 64 :=
  (pool.mapTx.toList.map fun e => BitVec.ofNat 64 e.nTxSize).sum

/-- What `check` asserts of the pool alone. -/
structure Laws (pool : CTxMemPool) : Prop where
  /-- An input that names a transaction of the pool names one of its outputs. -/
  available : ∀ tx ∈ pool.txs, ∀ o ∈ tx.inputOutpoints, ∀ t ∈ pool.txs, t.hash = o.hash →
    ∃ out, t.vout[o.n.toNat]? = some out ∧ out.isNull = false
  /-- Every input is recorded with its transaction and index. -/
  marked : ∀ tx ∈ pool.txs, ∀ i o, tx.inputOutpoints[i]? = some o →
    pool.mapNextTx o = some { ptx := tx.hash, n := i }
  /-- Every record is of an input of a transaction of the pool. -/
  points : ∀ o p, pool.mapNextTx o = some p →
    ∃ tx ∈ pool.txs, tx.hash = p.ptx ∧ tx.inputOutpoints[p.n]? = some o
  /-- The size is the sum of the sizes. -/
  total : pool.totalTxSize = pool.checkTotal

/-- Every nullifier of the pool is recorded with its transaction. -/
def NullifiersMarked (pool : CTxMemPool) : Prop :=
  ∀ tx ∈ pool.txs, ∀ ty nf, nf ∈ tx.nullifiers ty → pool.mapNullifiers ty nf = some tx.hash

theorem Laws.marked_of_mem (h : pool.Laws) (htx : tx ∈ pool.txs) (ho : o ∈ tx.inputOutpoints) :
    ∃ i, pool.mapNextTx o = some { ptx := tx.hash, n := i } := by
  obtain ⟨i, hi⟩ := List.mem_iff_getElem?.1 ho
  exact ⟨i, h.marked tx htx i o hi⟩

/-- Two transactions of the pool that name the same output are the same. -/
theorem Laws.hash_eq (h : pool.Laws) (htx : tx ∈ pool.txs) (hc : c ∈ pool.txs)
    (ho : o ∈ tx.inputOutpoints) (ho' : o ∈ c.inputOutpoints) : tx.hash = c.hash := by
  obtain ⟨i, hi⟩ := h.marked_of_mem htx ho
  obtain ⟨j, hj⟩ := h.marked_of_mem hc ho'
  exact congrArg CInPoint.ptx (Option.some.inj (hi.symm.trans hj))

/-! ## Removing one transaction -/

theorem perm_remove {e : CTxMemPoolEntry} (he : e ∈ pool.mapTx.toList)
    (hhash : e.tx.hash = tx.hash) :
    pool.mapTx.toList.Perm (e :: (pool.remove tx).mapTx.toList) := by
  have hfind : pool.mapTx.find? tx.hash = some e := Keyed.find?_eq_some_iff.2 ⟨he, hhash⟩
  unfold remove
  rw [hfind]
  have hperm := Keyed.perm_erase he
  rwa [CTxMemPoolEntry.txid, hhash] at hperm

theorem checkTotal_remove (h : pool.totalTxSize = pool.checkTotal) :
    (pool.remove tx).totalTxSize = (pool.remove tx).checkTotal := by
  cases hfind : pool.mapTx.find? tx.hash with
  | none =>
    unfold remove
    rw [hfind]
    exact h
  | some e =>
    obtain ⟨he, hhash⟩ := Keyed.find?_eq_some_iff.1 hfind
    have hsum : pool.checkTotal = BitVec.ofNat 64 e.nTxSize + (pool.remove tx).checkTotal := by
      unfold checkTotal
      rw [((perm_remove he hhash).map _).sum_eq, List.map_cons, List.sum_cons]
    have hsize : (pool.remove tx).totalTxSize = pool.totalTxSize - BitVec.ofNat 64 e.nTxSize := by
      unfold remove
      rw [hfind]
    rw [hsize, h, hsum, add_sub_cancel_left]

/-- A record that stays is none of an input of the transaction. -/
theorem mapNextTx_of_remove {p : CInPoint} (hp : (pool.remove tx).mapNextTx o = some p) :
    pool.mapNextTx o = some p ∧ ∀ t ∈ pool.txs, t.hash = tx.hash → o ∉ t.inputOutpoints := by
  have hnot : ∀ t ∈ pool.txs, t.hash = tx.hash → o ∉ t.inputOutpoints := by
    intro t ht hhash ho
    rw [mapNextTx_remove_of_mem ht hhash ho] at hp
    cases hp
  rw [mapNextTx_remove_of_not hnot] at hp
  exact ⟨hp, hnot⟩

theorem Laws.remove (h : pool.Laws) (tx : CTransaction) : (pool.remove tx).Laws where
  available := by
    intro t ht o ho t' ht'
    exact h.available t (mem_txs_remove.1 ht).1 o ho t' (mem_txs_remove.1 ht').1
  marked := by
    intro t ht i o hi
    obtain ⟨hmem, hne⟩ := mem_txs_remove.1 ht
    rw [mapNextTx_remove_of_not, h.marked t hmem i o hi]
    intro t' ht' hhash ho
    exact hne ((h.hash_eq hmem ht' (List.mem_of_getElem? hi) ho).trans hhash)
  points := by
    intro o p hp
    obtain ⟨hp, hnot⟩ := mapNextTx_of_remove hp
    obtain ⟨t, ht, hptx, hi⟩ := h.points o p hp
    refine ⟨t, mem_txs_remove.2 ⟨ht, fun hhash => ?_⟩, hptx, hi⟩
    exact hnot t ht hhash (List.mem_of_getElem? hi)
  total := checkTotal_remove h.total

theorem NullifiersMarked.remove (h : pool.NullifiersMarked) (tx : CTransaction) :
    (pool.remove tx).NullifiersMarked := by
  intro t ht ty nf hnf
  obtain ⟨hmem, hne⟩ := mem_txs_remove.1 ht
  have hmarked := h t hmem ty nf hnf
  unfold CTxMemPool.remove
  cases hfind : pool.mapTx.find? tx.hash with
  | none => exact hmarked
  | some e =>
    obtain ⟨he, hhash⟩ := Keyed.find?_eq_some_iff.1 hfind
    dsimp only
    rw [if_neg, hmarked]
    intro hmine
    have hother := h e.tx (mem_txs.2 ⟨e, he, rfl⟩) ty nf hmine
    rw [hmarked] at hother
    exact hne ((Option.some.inj hother).trans hhash)

/-- Both laws, for the removals to keep. -/
theorem laws_remove (pool : CTxMemPool) (tx : CTransaction)
    (h : pool.Laws ∧ pool.NullifiersMarked) :
    (pool.remove tx).Laws ∧ (pool.remove tx).NullifiersMarked :=
  ⟨h.1.remove tx, h.2.remove tx⟩

/-! ## Adding one transaction -/

/-- A transaction that may enter: not an import, not in the pool, and not in conflict
with it. The last two fields are what `CheckTransaction` and `AcceptToMemoryPool` check. -/
structure Addable (pool : CTxMemPool) (tx : CTransaction) : Prop where
  /-- It is no coin import. -/
  notImport : tx.isCoinImport = false
  /-- It is not in the pool. -/
  fresh : ∀ t ∈ pool.txs, t.hash ≠ tx.hash
  /-- It spends no output that the pool spends. -/
  noConflict : ∀ t ∈ pool.txs, ∀ o ∈ tx.inputOutpoints, o ∉ t.inputOutpoints
  /-- It reveals no nullifier of the pool. -/
  noNullifier : ∀ t ∈ pool.txs, ∀ ty, ∀ nf ∈ tx.nullifiers ty, nf ∉ t.nullifiers ty
  /-- It names no output twice. -/
  distinct : tx.inputOutpoints.Nodup
  /-- The outputs it names in the pool exist, and so do those that the pool names in it. -/
  available : ∀ t ∈ tx :: pool.txs, ∀ o ∈ t.inputOutpoints, ∀ t' ∈ tx :: pool.txs,
    t = tx ∨ t' = tx → t'.hash = o.hash → ∃ out, t'.vout[o.n.toNat]? = some out ∧ out.isNull = false

theorem Addable.same (h : pool.Addable tx) : ∀ t ∈ pool.txs, t.hash = tx.hash → t = tx :=
  fun t ht hhash => absurd hhash (h.fresh t ht)

theorem Addable.contains (h : pool.Addable tx) : pool.mapTx.contains tx.hash = false := by
  rw [← Bool.not_eq_true]
  intro hcontains
  obtain ⟨t, ht, hhash⟩ := contains_iff.1 hcontains
  exact h.fresh t ht hhash

theorem Addable.mem_txs (h : pool.Addable entry.tx) :
    tx ∈ (pool.addUnchecked entry).txs ↔ tx = entry.tx ∨ tx ∈ pool.txs := by
  rw [mem_txs_addUnchecked h.same, or_comm]

/-- The inputs are recorded at their indexes. -/
theorem Addable.mapNextTx_of_spends (h : pool.Addable entry.tx) {i : Nat}
    (hi : entry.tx.inputOutpoints[i]? = some o) :
    (pool.addUnchecked entry).mapNextTx o = some { ptx := entry.tx.hash, n := i } := by
  have hspends : (pool.added entry).Spends i o := by
    rw [added_eq h.same]
    exact ⟨h.notImport, hi⟩
  obtain ⟨j, hj, heq⟩ := mapNextTx_addUnchecked_of_spends hspends
  rw [added_eq h.same] at hj heq
  have hindex : i = j := by
    have hlt := (List.getElem?_eq_some_iff.1 hi).1
    exact (List.getElem?_inj hlt h.distinct).1 (hi.trans hj.names.symm)
  rw [heq, hindex]

/-- The other outputs keep their record. -/
theorem Addable.mapNextTx_of_not (h : pool.Addable entry.tx)
    (ho : o ∉ entry.tx.inputOutpoints) :
    (pool.addUnchecked entry).mapNextTx o = pool.mapNextTx o := by
  refine mapNextTx_addUnchecked_of_not fun i hi => ?_
  rw [added_eq h.same] at hi
  exact ho (List.mem_of_getElem? hi.names)

/-- The laws hold after a transaction has entered. -/
theorem Laws.addUnchecked (hlaws : pool.Laws) (h : pool.Addable entry.tx) :
    (pool.addUnchecked entry).Laws where
  available := by
    intro t ht o ho t' ht' hhash
    rw [h.mem_txs] at ht ht'
    by_cases hnew : t = entry.tx ∨ t' = entry.tx
    · exact h.available t (List.mem_cons.2 ht) o ho t' (List.mem_cons.2 ht') hnew hhash
    · rw [not_or] at hnew
      exact hlaws.available t (ht.resolve_left hnew.1) o ho t' (ht'.resolve_left hnew.2) hhash
  marked := by
    intro t ht i o hi
    rcases h.mem_txs.1 ht with rfl | hmem
    · exact h.mapNextTx_of_spends hi
    · rw [h.mapNextTx_of_not fun ho => h.noConflict t hmem o ho (List.mem_of_getElem? hi)]
      exact hlaws.marked t hmem i o hi
  points := by
    intro o p hp
    by_cases ho : o ∈ entry.tx.inputOutpoints
    · obtain ⟨i, hi⟩ := List.mem_iff_getElem?.1 ho
      rw [h.mapNextTx_of_spends hi] at hp
      cases hp
      exact ⟨entry.tx, h.mem_txs.2 (Or.inl rfl), rfl, hi⟩
    · rw [h.mapNextTx_of_not ho] at hp
      obtain ⟨t, ht, hptx, hi⟩ := hlaws.points o p hp
      exact ⟨t, h.mem_txs.2 (Or.inr ht), hptx, hi⟩
  total := by
    have hsize : (pool.addUnchecked entry).totalTxSize =
        pool.totalTxSize + BitVec.ofNat 64 entry.nTxSize := rfl
    have hperm : (pool.addUnchecked entry).mapTx.toList.Perm (entry :: pool.mapTx.toList) :=
      Keyed.perm_insert h.contains
    rw [hsize, hlaws.total]
    unfold checkTotal
    rw [(hperm.map _).sum_eq, List.map_cons, List.sum_cons, BitVec.add_comm]

theorem NullifiersMarked.addUnchecked (hmarked : pool.NullifiersMarked)
    (h : pool.Addable entry.tx) : (pool.addUnchecked entry).NullifiersMarked := by
  intro t ht ty nf hnf
  have hnext : (pool.addUnchecked entry).mapNullifiers ty nf =
      if nf ∈ (pool.added entry).nullifiers ty then some (pool.added entry).hash
      else pool.mapNullifiers ty nf := rfl
  rw [hnext, added_eq h.same]
  rcases h.mem_txs.1 ht with rfl | hmem
  · rw [if_pos hnf]
  · rw [if_neg fun hmine => h.noNullifier t hmem ty nf hmine hnf]
    exact hmarked t hmem ty nf hnf

/-! ## Descendants -/

/-- `c` spends an output of `tx`. -/
def SpendsOutputOf (tx c : CTransaction) : Prop :=
  ∃ o ∈ c.inputOutpoints, o.hash = tx.hash ∧ o.n.toNat < tx.vout.length

/-- `c` is in the pool, and spends an output of `tx` or of one of its descendants. -/
inductive Descends (pool : CTxMemPool) (tx : CTransaction) : CTransaction → Prop where
  | child {c : CTransaction} : c ∈ pool.txs → SpendsOutputOf tx c → Descends pool tx c
  | step {d c : CTransaction} : Descends pool tx d → c ∈ pool.txs → SpendsOutputOf d c →
      Descends pool tx c

theorem Descends.mem (h : Descends pool tx c) : c ∈ pool.txs := by
  cases h with
  | child hc _ => exact hc
  | step _ hc _ => exact hc

/-- The transaction recorded for an output is among the spenders. -/
theorem mem_spenders_of_marked {p : CInPoint} {n : Nat} (hp : pool.mapNextTx o = some p)
    (hlt : o.n.toNat < n) : p.ptx ∈ pool.spenders o.hash n := by
  refine List.mem_filterMap.2 ⟨o.n.toNat, List.mem_range.2 hlt, ?_⟩
  rw [UInt32.ofNat_toNat, hp]
  rfl

/-- A transaction of the pool that spends an output is among its spenders. -/
theorem Laws.mem_spenders (h : pool.Laws) (hc : c ∈ pool.txs) (hspends : SpendsOutputOf tx c) :
    c.hash ∈ pool.spenders tx.hash tx.vout.length := by
  obtain ⟨o, ho, hhash, hlt⟩ := hspends
  obtain ⟨i, hi⟩ := h.marked_of_mem hc ho
  rw [← hhash]
  exact mem_spenders_of_marked hi hlt

theorem length_spenders_le (pool : CTxMemPool) (hash : Uint256) (n : Nat) :
    (pool.spenders hash n).length ≤ n :=
  (List.length_filterMap_le _ _).trans_eq List.length_range

/-- Taking a transaction out pays for the rounds of its spenders. -/
theorem rounds_remove (htx : tx ∈ pool.txs) (txToRemove : List Uint256) :
    (pool.remove tx).rounds (txToRemove ++ pool.spenders hash tx.vout.length) + 1 ≤
      pool.rounds (hash :: txToRemove) := by
  obtain ⟨e, he, rfl⟩ := mem_txs.1 htx
  have hsum : (pool.txs.map fun t => t.vout.length).sum =
      e.tx.vout.length + ((pool.remove e.tx).txs.map fun t => t.vout.length).sum := by
    unfold txs
    rw [List.map_map, List.map_map, ((perm_remove he rfl).map _).sum_eq, List.map_cons,
      List.sum_cons]
    rfl
  have hle := length_spenders_le pool hash e.tx.vout.length
  unfold rounds
  rw [hsum, List.length_append, List.length_cons]
  omega

/-- Every transaction of the pool that spends an output of one that is gone is listed. -/
def Pending (gone : CTransaction → Prop) (pool : CTxMemPool) (txToRemove : List Uint256) : Prop :=
  ∀ d, gone d → ∀ c ∈ pool.txs, SpendsOutputOf d c → c.hash ∈ txToRemove

theorem mem_of_mem_removeLoop {fRecursive : Bool} {fuel : Nat} {txToRemove : List Uint256}
    (h : c ∈ (removeLoop fRecursive fuel txToRemove (pool, removed)).1.txs) : c ∈ pool.txs := by
  have hkeeps : ∀ c ∈ (removeLoop fRecursive fuel txToRemove (pool, removed)).1.txs,
      c ∈ pool.txs :=
    removeLoop_keeps (P := fun p => ∀ c ∈ p.txs, c ∈ pool.txs)
      (fun _ _ hp c hc => hp c (mem_txs_remove.1 hc).1) (fun _ hc => hc)
  exact hkeeps c h

/-- The loop leaves nothing in the pool that spends an output of what is gone before or
of what it takes out, under any law that makes the spenders known and that removals keep. -/
theorem removeLoop_closed {L : CTxMemPool → Prop} {gone : CTransaction → Prop} {fuel : Nat}
    {txToRemove : List Uint256} (hremove : ∀ pool tx, L pool → L (pool.remove tx))
    (hknown : ∀ {pool t c}, L pool → t ∈ pool.txs → c ∈ pool.txs → SpendsOutputOf t c →
      c.hash ∈ pool.spenders t.hash t.vout.length)
    (hlaws : L pool) (hpending : Pending gone pool txToRemove)
    (hfuel : pool.rounds txToRemove ≤ fuel) {d : CTransaction}
    (hc : c ∈ (removeLoop true fuel txToRemove (pool, removed)).1.txs)
    (hd : gone d ∨ (d ∈ pool.txs ∧
      d ∉ (removeLoop true fuel txToRemove (pool, removed)).1.txs)) : ¬ SpendsOutputOf d c := by
  induction fuel generalizing pool removed txToRemove gone with
  | zero =>
    have hnil : txToRemove = [] := by
      unfold rounds at hfuel
      exact List.eq_nil_of_length_eq_zero (by omega)
    subst hnil
    intro hspends
    rcases hd with hgone | ⟨hmem, hnot⟩
    · exact List.not_mem_nil (hpending d hgone c hc hspends)
    · exact hnot hmem
  | succ fuel ih =>
    cases txToRemove with
    | nil =>
      intro hspends
      rcases hd with hgone | ⟨hmem, hnot⟩
      · exact List.not_mem_nil (hpending d hgone c hc hspends)
      · exact hnot hmem
    | cons hash txToRemove =>
      rw [removeLoop] at hc hd
      cases hlookup : pool.lookup hash with
      | none =>
        rw [hlookup] at hc hd
        refine ih hlaws ?_ ?_ hc hd
        · intro d hgone c hc hspends
          have hne : c.hash ≠ hash := by
            intro heq
            have hcontains := contains_iff.2 ⟨c, hc, heq⟩
            rw [lookup_eq_none_iff.1 hlookup] at hcontains
            cases hcontains
          exact (List.mem_cons.1 (hpending d hgone c hc hspends)).resolve_left hne
        · unfold rounds at hfuel ⊢
          rw [List.length_cons] at hfuel
          omega
      | some t =>
        rw [hlookup] at hc hd
        dsimp only at hc hd
        rw [if_pos rfl] at hc hd
        obtain ⟨ht, rfl⟩ := lookup_eq_some_iff.1 hlookup
        have hpending' : Pending (fun d => gone d ∨ d = t) (pool.remove t)
            (txToRemove ++ pool.spenders t.hash t.vout.length) := by
          rintro d (hgone | rfl) c hc hspends
          · obtain ⟨hmem, hne⟩ := mem_txs_remove.1 hc
            have hlisted := hpending d hgone c hmem hspends
            exact List.mem_append_left _ ((List.mem_cons.1 hlisted).resolve_left hne)
          · exact List.mem_append_right _ (hknown hlaws ht (mem_txs_remove.1 hc).1 hspends)
        have hrounds := Nat.le_of_succ_le_succ ((rounds_remove ht txToRemove).trans hfuel)
        refine ih (hremove pool t hlaws) hpending' hrounds hc ?_
        rcases hd with hgone | ⟨hmem, hnot⟩
        · exact Or.inl (Or.inl hgone)
        · by_cases hhash : d.hash = t.hash
          · exact Or.inl (Or.inr (eq_of_hash hmem ht hhash))
          · exact Or.inr ⟨mem_txs_remove.2 ⟨hmem, hhash⟩, hnot⟩

/-- `remove` takes the transaction itself out. -/
theorem hash_ne_of_mem_removeTx {fRecursive : Bool}
    (h : c ∈ (pool.removeTx tx removed fRecursive).1.txs) : c.hash ≠ tx.hash := by
  intro heq
  unfold removeTx toRemove rounds at h
  dsimp only at h
  rw [List.length_cons, Nat.add_right_comm, removeLoop] at h
  split at h
  · rename_i hlookup
    have hcontains := contains_iff.2 ⟨c, mem_of_mem_removeLoop h, heq⟩
    rw [lookup_eq_none_iff.1 hlookup] at hcontains
    cases hcontains
  · rename_i t hlookup
    obtain ⟨-, hne⟩ := mem_txs_remove.1 (mem_of_mem_removeLoop h)
    exact hne (heq.trans (lookup_eq_some_iff.1 hlookup).2.symm)

/-- A recursive `remove` takes out every descendant, also of a transaction that is not in
the pool. -/
theorem not_mem_removeTx_of_descends (hlaws : pool.Laws)
    (hsame : ∀ t ∈ pool.txs, t.hash = tx.hash → t = tx) (h : Descends pool tx c) :
    c ∉ (pool.removeTx tx removed true).1.txs := by
  have hclosed : ∀ d, (d = tx ∨ d ∈ pool.txs ∧ d ∉ (pool.removeTx tx removed true).1.txs) →
      ∀ c ∈ (pool.removeTx tx removed true).1.txs, ¬ SpendsOutputOf d c := by
    intro d hd c hc
    cases hcontains : pool.contains tx.hash with
    | false =>
      have hpending : Pending (fun d => d = tx) pool (pool.toRemove tx true) := by
        rintro d rfl c hc hspends
        unfold toRemove
        rw [hcontains]
        exact List.mem_cons_of_mem _ (hlaws.mem_spenders hc hspends)
      exact removeLoop_closed (fun _ t h => Laws.remove h t) (fun h _ => h.mem_spenders) hlaws
        hpending le_rfl hc hd
    | true =>
      obtain ⟨t, ht, hhash⟩ := contains_iff.1 hcontains
      obtain rfl := hsame t ht hhash
      have hpending : Pending (fun _ => False) pool (pool.toRemove t true) :=
        fun _ hfalse => hfalse.elim
      refine removeLoop_closed (fun _ t h => Laws.remove h t) (fun h _ => h.mem_spenders) hlaws
        hpending le_rfl hc (Or.inr ?_)
      rcases hd with rfl | hd
      · exact ⟨ht, fun hin => hash_ne_of_mem_removeTx hin rfl⟩
      · exact hd
  induction h with
  | child _ hspends => exact fun hc => hclosed tx (Or.inl rfl) _ hc hspends
  | step hd _ hspends ih => exact fun hc => hclosed _ (Or.inr ⟨hd.mem, ih⟩) _ hc hspends

/-! ## Conflicts with a block -/

/-- A fold establishes of each element what its step establishes and later steps keep. -/
theorem foldl_establishes {α : Type} {P : CTxMemPool → Prop} {Q : α → CTxMemPool → Prop}
    {f : CTxMemPool × List CTransaction → α → CTxMemPool × List CTransaction}
    (hkeep : ∀ r a, P r.1 → P (f r a).1) (hest : ∀ r a, P r.1 → Q a (f r a).1)
    (hstay : ∀ r a b, Q a r.1 → Q a (f r b).1) (l : List α)
    {r : CTxMemPool × List CTransaction} (h : P r.1) : ∀ a ∈ l, Q a (l.foldl f r).1 := by
  induction l generalizing r with
  | nil => exact fun a ha => absurd ha List.not_mem_nil
  | cons b l ih =>
    intro a ha
    rcases List.mem_cons.1 ha with rfl | ha
    · exact foldl_keeps (fun r b => hstay r a b) l (hest r a h)
    · exact ih (hkeep r b h) a ha

/-- What holds of every transaction of a pool holds after any removal. -/
theorem forall_txs_remove {p : CTransaction → Prop} (pool : CTxMemPool) (tx : CTransaction)
    (h : ∀ t ∈ pool.txs, p t) : ∀ t ∈ (pool.remove tx).txs, p t :=
  fun t ht => h t (mem_txs_remove.1 ht).1

/-- The laws hold, and `tx` is not in the pool. -/
structure Cleared (tx : CTransaction) (pool : CTxMemPool) : Prop where
  /-- The laws. -/
  laws : pool.Laws
  /-- The nullifiers are recorded. -/
  nullifiers : pool.NullifiersMarked
  /-- The transaction is gone. -/
  gone : ∀ t ∈ pool.txs, t.hash ≠ tx.hash

theorem Cleared.remove {tx : CTransaction} (pool : CTxMemPool) (t : CTransaction)
    (h : Cleared tx pool) : Cleared tx (pool.remove t) where
  laws := h.laws.remove t
  nullifiers := h.nullifiers.remove t
  gone := forall_txs_remove pool t h.gone

/-- The transaction behind the pointer leaves the pool. -/
theorem hash_ne_of_mem_removeConflict {r : CTxMemPool × List CTransaction} {t : CTransaction}
    {ptx : Option Uint256} (h : Cleared tx r.1) (hptx : ptx = some t.hash) (ht : t ∈ r.1.txs)
    (hc : c ∈ (removeConflict tx r ptx).1.txs) : c.hash ≠ t.hash := by
  have hlookup : ptx.bind r.1.lookup = some t := by
    rw [hptx, Option.bind_some]
    exact lookup_eq_some_iff.2 ⟨ht, rfl⟩
  unfold removeConflict at hc
  rw [hlookup] at hc
  dsimp only at hc
  rw [if_pos (h.gone t ht)] at hc
  exact hash_ne_of_mem_removeTx hc

/-- `t` has nothing in common with `tx`: neither the id nor an output it spends nor a
nullifier. -/
structure Unrelated (tx t : CTransaction) : Prop where
  /-- Another transaction. -/
  hash : t.hash ≠ tx.hash
  /-- No output is spent by both. -/
  outpoints : ∀ o ∈ tx.inputOutpoints, o ∉ t.inputOutpoints
  /-- No nullifier is revealed by both. -/
  nullifiers : ∀ ty, ∀ nf ∈ tx.nullifiers ty, nf ∉ t.nullifiers ty

/-- The loop over the inputs leaves no transaction that spends one of them. -/
theorem removeInputConflicts_clears {r : CTxMemPool × List CTransaction} (h : Cleared tx r.1) :
    ∀ o ∈ tx.inputOutpoints, ∀ t ∈ (tx.inputOutpoints.foldl (fun r o =>
      removeConflict tx r ((r.1.mapNextTx o).map CInPoint.ptx)) r).1.txs, o ∉ t.inputOutpoints := by
  refine foldl_establishes (Q := fun o pool => ∀ t ∈ pool.txs, o ∉ t.inputOutpoints)
    (fun _ _ => removeConflict_keeps Cleared.remove) ?_
    (fun _ _ _ => removeConflict_keeps forall_txs_remove) _ h
  intro r o hr t ht ho
  have hmem : t ∈ r.1.txs :=
    removeConflict_keeps (P := fun p => ∀ t ∈ p.txs, t ∈ r.1.txs) forall_txs_remove
      (fun _ ht => ht) t ht
  obtain ⟨i, hi⟩ := hr.laws.marked_of_mem hmem ho
  exact hash_ne_of_mem_removeConflict hr (by rw [hi]; rfl) hmem ht rfl

/-- The loop over the nullifiers leaves no transaction that reveals one of them. -/
theorem removeNullifierConflicts_clears {ty : ShieldedType} {r : CTxMemPool × List CTransaction}
    (h : Cleared tx r.1) : ∀ nf ∈ tx.nullifiers ty,
      ∀ t ∈ (removeNullifierConflicts tx ty r).1.txs, nf ∉ t.nullifiers ty := by
  refine foldl_establishes (Q := fun nf pool => ∀ t ∈ pool.txs, nf ∉ t.nullifiers ty)
    (fun _ _ => removeConflict_keeps Cleared.remove) ?_
    (fun _ _ _ => removeConflict_keeps forall_txs_remove) _ h
  intro r nf hr t ht hnf
  have hmem : t ∈ r.1.txs :=
    removeConflict_keeps (P := fun p => ∀ t ∈ p.txs, t ∈ r.1.txs) forall_txs_remove
      (fun _ ht => ht) t ht
  exact hash_ne_of_mem_removeConflict hr (hr.nullifiers t hmem ty nf hnf) hmem ht rfl

/-- No conflict is left. -/
theorem removeConflicts_clears (h : Cleared tx pool) :
    ∀ t ∈ (pool.removeConflicts tx removed).1.txs, Unrelated tx t := by
  unfold removeConflicts
  generalize hr : tx.inputOutpoints.foldl (fun r o =>
    removeConflict tx r ((r.1.mapNextTx o).map CInPoint.ptx)) (pool, removed) = r
  have hspent : ∀ t ∈ r.1.txs, ∀ o ∈ tx.inputOutpoints, o ∉ t.inputOutpoints := by
    intro t ht o ho
    rw [← hr] at ht
    exact removeInputConflicts_clears h o ho t ht
  have hcleared : Cleared tx r.1 := by
    rw [← hr]
    exact foldl_keeps (fun _ _ => removeConflict_keeps Cleared.remove) _ h
  have hsprout : Cleared tx (removeNullifierConflicts tx .sprout r).1 :=
    removeNullifierConflicts_keeps Cleared.remove hcleared
  intro t ht
  have hmem : t ∈ (removeNullifierConflicts tx .sprout r).1.txs :=
    removeNullifierConflicts_keeps (P := fun p => ∀ t ∈ p.txs, t ∈ _) forall_txs_remove
      (fun _ ht => ht) t ht
  have hmem' : t ∈ r.1.txs :=
    removeNullifierConflicts_keeps (P := fun p => ∀ t ∈ p.txs, t ∈ r.1.txs) forall_txs_remove
      (fun _ ht => ht) t hmem
  refine ⟨hcleared.gone t hmem', hspent t hmem', ?_⟩
  intro ty nf hnf
  cases ty with
  | sprout => exact removeNullifierConflicts_clears hcleared nf hnf t hmem
  | sapling => exact removeNullifierConflicts_clears hsprout nf hnf t ht

/-- After `removeForBlock`, the pool has nothing in common with the block. -/
theorem removeForBlock_clears (hlaws : pool.Laws) (hnull : pool.NullifiersMarked)
    (vtx : List CTransaction) : ∀ tx ∈ vtx, ∀ t ∈ (pool.removeForBlock vtx removed).1.txs,
      Unrelated tx t := by
  refine foldl_establishes (P := fun p => p.Laws ∧ p.NullifiersMarked)
    (Q := fun tx pool => ∀ t ∈ pool.txs, Unrelated tx t)
    (fun _ _ => removeForTx_keeps laws_remove) ?_
    (fun _ _ _ => removeForTx_keeps forall_txs_remove) vtx ⟨hlaws, hnull⟩
  intro r tx hr
  have hkept : (r.1.removeTx tx [] false).1.Laws ∧ (r.1.removeTx tx [] false).1.NullifiersMarked :=
    removeTx_keeps laws_remove hr
  exact removeConflicts_clears ⟨hkept.1, hkept.2, fun t ht => hash_ne_of_mem_removeTx ht⟩

/-! ## Runs -/

/-- The operations on the pool. -/
inductive PoolStep where
  | addUnchecked (entry : CTxMemPoolEntry)
  | remove (tx : CTransaction) (fRecursive : Bool)
  | removeConflicts (tx : CTransaction)
  | removeWithAnchor (invalidRoot : Uint256) (type : ShieldedType)
  | removeExpired (nBlockHeight : UInt32)
  | removeForBlock (vtx : List CTransaction)

/-- The pool after one operation. -/
def poolStep (pool : CTxMemPool) : PoolStep → CTxMemPool
  | .addUnchecked entry => pool.addUnchecked entry
  | .remove tx fRecursive => (pool.removeTx tx [] fRecursive).1
  | .removeConflicts tx => (pool.removeConflicts tx []).1
  | .removeWithAnchor invalidRoot type => pool.removeWithAnchor invalidRoot type
  | .removeExpired nBlockHeight => pool.removeExpired nBlockHeight
  | .removeForBlock vtx => (pool.removeForBlock vtx []).1

/-- The pool after a list of operations. -/
def poolRun (pool : CTxMemPool) (steps : List PoolStep) : CTxMemPool :=
  steps.foldl poolStep pool

/-- A transaction enters only if it may. -/
def StepOk (pool : CTxMemPool) : PoolStep → Prop
  | .addUnchecked entry => pool.Addable entry.tx
  | _ => True

/-- Every transaction that enters during the run may enter. -/
def RunOk : List PoolStep → CTxMemPool → Prop
  | [], _ => True
  | step :: steps, pool => pool.StepOk step ∧ RunOk steps (pool.poolStep step)

theorem laws_poolStep {step : PoolStep} (h : pool.Laws ∧ pool.NullifiersMarked)
    (hok : pool.StepOk step) :
    (pool.poolStep step).Laws ∧ (pool.poolStep step).NullifiersMarked := by
  cases step with
  | addUnchecked entry => exact ⟨h.1.addUnchecked hok, h.2.addUnchecked hok⟩
  | remove tx fRecursive => exact removeTx_keeps laws_remove h
  | removeConflicts tx => exact removeConflicts_keeps laws_remove h
  | removeWithAnchor invalidRoot type => exact removeRecursively_keeps laws_remove _ h
  | removeExpired nBlockHeight => exact removeRecursively_keeps laws_remove _ h
  | removeForBlock vtx => exact removeForBlock_keeps laws_remove vtx h

theorem laws_poolRun {steps : List PoolStep} (h : pool.Laws ∧ pool.NullifiersMarked)
    (hok : RunOk steps pool) :
    (pool.poolRun steps).Laws ∧ (pool.poolRun steps).NullifiersMarked := by
  induction steps generalizing pool with
  | nil => exact h
  | cons step steps ih => exact ih (laws_poolStep h hok.1) hok.2

theorem RunOk.of_append {before after : List PoolStep} (h : RunOk (before ++ after) pool) :
    RunOk before pool := by
  induction before generalizing pool with
  | nil => trivial
  | cons step before ih => exact ⟨h.1, ih h.2⟩

/-- Along every run that adds what may enter, the laws hold after each step; a recursive
`remove` takes out every descendant; and after `removeForBlock` the pool has nothing in
common with the block. -/
theorem laws_along_run (pool : CTxMemPool) (steps : List PoolStep) (hlaws : pool.Laws)
    (hnull : pool.NullifiersMarked) (hok : RunOk steps pool) :
    ∀ before after, steps = before ++ after →
      (pool.poolRun before).Laws ∧
      (∀ tx, (∀ t ∈ (pool.poolRun before).txs, t.hash = tx.hash → t = tx) →
        ∀ c, Descends (pool.poolRun before) tx c →
          c ∉ ((pool.poolRun before).poolStep (.remove tx true)).txs) ∧
      ∀ vtx, ∀ tx ∈ vtx, ∀ t ∈ ((pool.poolRun before).poolStep (.removeForBlock vtx)).txs,
        Unrelated tx t := by
  rintro before after rfl
  obtain ⟨hreached, hreachedNull⟩ := laws_poolRun ⟨hlaws, hnull⟩ hok.of_append
  exact ⟨hreached, fun tx hsame c hc => not_mem_removeTx_of_descends hreached hsame hc,
    fun vtx => removeForBlock_clears hreached hreachedNull vtx⟩

theorem laws_empty : ({} : CTxMemPool).Laws where
  available _ h := absurd h List.not_mem_nil
  marked _ h := absurd h List.not_mem_nil
  points _ _ h := by cases h
  total := rfl

end CTxMemPool

/-! ## A parent and a child, and an import -/

namespace PoolRuns

open CTxMemPool

/-- A transaction that spends a coin outside the pool. -/
def parent : CTransaction where
  hash := 1
  vin := [{ prevout := { hash := 9, n := 0 } }]
  vout := [{ nValue := 10 }]

/-- A transaction that spends its output. -/
def child : CTransaction where
  hash := 2
  vin := [{ prevout := { hash := 1, n := 0 } }]
  vout := [{ nValue := 9 }]

/-- An entry of the pool. -/
def entryOf (tx : CTransaction) : CTxMemPoolEntry where
  tx := tx
  nFee := 1
  nTxSize := 100
  hadNoDependencies := true
  spendsCoinbase := false

/-- Add both. -/
def steps : List PoolStep :=
  [.addUnchecked (entryOf parent), .addUnchecked (entryOf child)]

theorem addable_parent : ({} : CTxMemPool).Addable parent := by
  have htxs : ({} : CTxMemPool).txs = [] := rfl
  refine ⟨by decide, ?_, ?_, ?_, by decide, ?_⟩
  all_goals rw [htxs]
  · exact fun _ h => absurd h List.not_mem_nil
  · exact fun _ h => absurd h List.not_mem_nil
  · exact fun _ h => absurd h List.not_mem_nil
  · simp [parent, CTransaction.inputOutpoints]

theorem addable_child : (({} : CTxMemPool).addUnchecked (entryOf parent)).Addable child := by
  have htxs : (({} : CTxMemPool).addUnchecked (entryOf parent)).txs = [parent] := rfl
  have hnone : ∀ ty, child.nullifiers ty = [] := by
    intro ty
    cases ty <;> rfl
  refine ⟨by decide, ?_, ?_, ?_, by decide, ?_⟩
  all_goals rw [htxs]
  · decide
  · decide
  · intro _ _ ty nf hnf
    rw [hnone ty] at hnf
    exact absurd hnf List.not_mem_nil
  · simp [parent, child, CTransaction.inputOutpoints, CTxOut.isNull]

/-- After both are added the laws hold, and removing the parent takes out the child. -/
theorem child_removed : (({} : CTxMemPool).poolRun steps).Laws ∧
    child ∈ (({} : CTxMemPool).poolRun steps).txs ∧
    child ∉ ((({} : CTxMemPool).poolRun steps).poolStep (.remove parent true)).txs := by
  have hrun := laws_along_run {} steps laws_empty (fun _ h => absurd h List.not_mem_nil)
    ⟨addable_parent, addable_child, trivial⟩ steps [] rfl
  have htxs : (({} : CTxMemPool).poolRun steps).txs = [parent, child] := rfl
  have hspends : SpendsOutputOf parent child :=
    ⟨{ hash := 1, n := 0 }, by decide, rfl, by decide⟩
  refine ⟨hrun.1, by rw [htxs]; decide, hrun.2.1 parent ?_ child ?_⟩
  · rw [htxs]
    decide
  · refine Descends.child ?_ hspends
    rw [htxs]
    decide

/-- A coin import. -/
def importTx : CTransaction where
  hash := 3
  vin := [{ prevout := { hash := 7, n := 1000000000 } }]
  vout := [{ nValue := 10 }]

/-- An import that conflicts with nothing breaks the laws: its input is not recorded. -/
theorem import_breaks_laws : ({} : CTxMemPool).Laws ∧ ({} : CTxMemPool).txs = [] ∧
    importTx.inputOutpoints.Nodup ∧
    ¬ (({} : CTxMemPool).poolStep (.addUnchecked (entryOf importTx))).Laws := by
  refine ⟨laws_empty, rfl, by decide, fun hlaws => ?_⟩
  have htxs : (({} : CTxMemPool).poolStep (.addUnchecked (entryOf importTx))).txs =
      [importTx] := rfl
  have hmarked := hlaws.marked importTx (by rw [htxs]; exact List.mem_singleton_self _) 0
    { hash := 7, n := 1000000000 } rfl
  have hnone : (({} : CTxMemPool).poolStep (.addUnchecked (entryOf importTx))).mapNextTx
      { hash := 7, n := 1000000000 } = none := by decide +kernel
  rw [hnone] at hmarked
  cases hmarked

end PoolRuns

end IndexChain
