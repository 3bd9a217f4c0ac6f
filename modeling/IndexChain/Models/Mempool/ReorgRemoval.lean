import IndexChain.Models.Mempool.PoolLaws
import IndexChain.Models.Validation.CheckTxInputs

/-!
# Removing after a reorganization

`removeForReorg` of `txmempool.cpp` takes out of the pool what is not final any more, and
what spends a coinbase too early at the next height. `CheckTxInputs` rejects an output of a
coinbase that is premature or timelocked; `removeForReorg` looks for one that is both. What
else is left in the pool is decided by what depends on what is taken out
(`mem_removeRecursively_iff`).
-/

namespace IndexChain

open IndexChain.Core

namespace CTxMemPool

variable {pool : CTxMemPool} {entry : CTxMemPoolEntry} {tx c : CTransaction} {o : COutPoint}
  {removed l : List CTransaction} {bad gone : CTransaction → Prop}

/-! ## Pools with imports -/

/-- The inputs are recorded, but for those of an import, and nothing else is. -/
structure Linked (pool : CTxMemPool) : Prop where
  /-- No output has the index of an import. -/
  short : ∀ tx ∈ pool.txs, tx.vout.length ≤ 1000000000
  /-- Every input below that index is recorded. -/
  marked : ∀ tx ∈ pool.txs, ∀ o ∈ tx.inputOutpoints, o.n.toNat < 1000000000 →
    ∃ n, pool.mapNextTx o = some { ptx := tx.hash, n := n }
  /-- Every record is of an input. -/
  points : ∀ o p, pool.mapNextTx o = some p → ∃ tx ∈ pool.txs, tx.hash = p.ptx ∧
    o ∈ tx.inputOutpoints

theorem Laws.linked (h : pool.Laws) (hshort : ∀ tx ∈ pool.txs, tx.vout.length ≤ 1000000000) :
    pool.Linked where
  short := hshort
  marked _ htx _ ho _ := h.marked_of_mem htx ho
  points o p hp := by
    obtain ⟨tx, htx, hhash, hi⟩ := h.points o p hp
    exact ⟨tx, htx, hhash, List.mem_of_getElem? hi⟩

theorem Linked.remove (h : pool.Linked) (tx : CTransaction) : (pool.remove tx).Linked where
  short t ht := h.short t (mem_txs_remove.1 ht).1
  marked := by
    intro t ht o ho hlt
    obtain ⟨hmem, hne⟩ := mem_txs_remove.1 ht
    obtain ⟨n, hn⟩ := h.marked t hmem o ho hlt
    refine ⟨n, ?_⟩
    rw [mapNextTx_remove_of_not, hn]
    intro t' ht' hhash ho'
    obtain ⟨n', hn'⟩ := h.marked t' ht' o ho' hlt
    rw [hn] at hn'
    exact hne ((congrArg CInPoint.ptx (Option.some.inj hn')).trans hhash)
  points := by
    intro o p hp
    obtain ⟨hp, hnot⟩ := mapNextTx_of_remove hp
    obtain ⟨t, ht, hptx, ho⟩ := h.points o p hp
    exact ⟨t, mem_txs_remove.2 ⟨ht, fun hhash => hnot t ht hhash ho⟩, hptx, ho⟩

/-- The input of an import has the index that no output has. -/
theorem index_of_isCoinImport (h : tx.isCoinImport = true) (ho : o ∈ tx.inputOutpoints) :
    o.n.toNat = 1000000000 := by
  rw [CTransaction.isCoinImport] at h
  rw [CTransaction.inputOutpoints] at ho
  split at h
  · next txin hvin =>
    rw [hvin, List.map_singleton, List.mem_singleton] at ho
    rw [ho, beq_iff_eq.1 h]
    rfl
  · cases h

/-- A transaction that conflicts with none of the pool is recorded, an import or not. -/
theorem Linked.addUnchecked (h : pool.Linked) (hfresh : pool.contains entry.tx.hash = false)
    (hfree : ∀ o ∈ entry.tx.inputOutpoints, pool.mapNextTx o = none)
    (hshort : entry.tx.vout.length ≤ 1000000000) : (pool.addUnchecked entry).Linked := by
  have hids : ∀ t ∈ pool.txs, t.hash = entry.tx.hash → t = entry.tx := by
    intro t ht hhash
    rw [contains_iff.2 ⟨t, ht, hhash⟩] at hfresh
    cases hfresh
  have hadded := added_eq hids
  have hmem : ∀ t, t ∈ (pool.addUnchecked entry).txs ↔ t ∈ pool.txs ∨ t = entry.tx :=
    fun _ => mem_txs_addUnchecked hids
  refine ⟨fun t ht => ?_, fun t ht o ho hlt => ?_, fun o p hp => ?_⟩
  · rcases (hmem t).1 ht with hold | rfl
    · exact h.short t hold
    · exact hshort
  · rcases (hmem t).1 ht with hold | rfl
    · obtain ⟨n, hn⟩ := h.marked t hold o ho hlt
      refine ⟨n, ?_⟩
      rw [mapNextTx_addUnchecked_of_not, hn]
      intro i hi
      rw [hadded] at hi
      rw [hfree o (List.mem_of_getElem? hi.names)] at hn
      cases hn
    · obtain ⟨i, hi⟩ := List.mem_iff_getElem?.1 ho
      have himport : entry.tx.isCoinImport = false := by
        by_contra himport
        exact absurd (index_of_isCoinImport (Bool.not_eq_false _ ▸ himport) ho) (Nat.ne_of_lt hlt)
      have hspends : entry.tx.Spends i o := ⟨himport, hi⟩
      rw [← hadded] at hspends
      obtain ⟨j, -, hj⟩ := mapNextTx_addUnchecked_of_spends hspends
      exact ⟨j, hadded ▸ hj⟩
  · by_cases hspends : ∃ i, entry.tx.Spends i o
    · obtain ⟨i, hi⟩ := hspends
      obtain ⟨j, -, hj⟩ := mapNextTx_addUnchecked_of_spends (hadded.symm ▸ hi)
      rw [hp, hadded, Option.some.injEq] at hj
      exact ⟨entry.tx, (hmem _).2 (.inr rfl), hj ▸ rfl, List.mem_of_getElem? hi.names⟩
    · rw [mapNextTx_addUnchecked_of_not fun i hi => hspends ⟨i, hadded ▸ hi⟩] at hp
      obtain ⟨t, ht, hptx, ho⟩ := h.points o p hp
      exact ⟨t, (hmem t).2 (.inl ht), hptx, ho⟩

/-! ## What is taken out -/

theorem Linked.mem_spenders (h : pool.Linked) (htx : tx ∈ pool.txs) (hc : c ∈ pool.txs)
    (hspends : SpendsOutputOf tx c) : c.hash ∈ pool.spenders tx.hash tx.vout.length := by
  obtain ⟨o, ho, hhash, hlt⟩ := hspends
  obtain ⟨n, hn⟩ := h.marked c hc o ho (hlt.trans_le (h.short tx htx))
  rw [← hhash]
  exact mem_spenders_of_marked hn hlt

/-- The spenders spend an output. -/
theorem Linked.spends_of_mem_spenders (h : pool.Linked) (hc : c ∈ pool.txs)
    (hmem : c.hash ∈ pool.spenders tx.hash tx.vout.length) : SpendsOutputOf tx c := by
  obtain ⟨i, hi, hptx⟩ := List.mem_filterMap.1 hmem
  obtain ⟨p, hp, hhash⟩ := Option.map_eq_some_iff.1 hptx
  obtain ⟨t, ht, hpoints, ho⟩ := h.points _ p hp
  obtain rfl : t = c := eq_of_hash ht hc (hpoints.trans hhash)
  refine ⟨_, ho, rfl, lt_of_le_of_lt ?_ (List.mem_range.1 hi)⟩
  rw [UInt32.toNat_ofNat']
  exact Nat.mod_le _ _

/-- The loop takes out only what is listed and what depends on it. -/
theorem mem_removeLoop {fRecursive : Bool} {fuel : Nat} {txToRemove : List Uint256}
    (hlinked : pool.Linked)
    (hbad : ∀ d, bad d → ∀ c ∈ pool.txs, SpendsOutputOf d c → bad c)
    (hlist : ∀ c ∈ pool.txs, c.hash ∈ txToRemove → bad c) (hc : c ∈ pool.txs) (hgood : ¬bad c) :
    c ∈ (removeLoop fRecursive fuel txToRemove (pool, removed)).1.txs := by
  induction fuel generalizing pool removed txToRemove with
  | zero => exact hc
  | succ fuel ih =>
    cases txToRemove with
    | nil => exact hc
    | cons hash txToRemove =>
      rw [removeLoop]
      cases hlookup : pool.lookup hash with
      | none => exact ih hlinked hbad (fun c hc hmem => hlist c hc (List.mem_cons_of_mem _ hmem)) hc
      | some t =>
        obtain ⟨ht, rfl⟩ := lookup_eq_some_iff.1 hlookup
        have hbadt : bad t := hlist t ht List.mem_cons_self
        have hshrink : ∀ c ∈ (pool.remove t).txs, c ∈ pool.txs :=
          fun c hc => (mem_txs_remove.1 hc).1
        refine ih (hlinked.remove t) (fun d hd c hc => hbad d hd c (hshrink c hc)) ?_ ?_
        · intro c hc hmem
          rcases List.mem_append.1 hmem with hrest | hspender
          · exact hlist c (hshrink c hc) (List.mem_cons_of_mem _ hrest)
          · cases fRecursive with
            | false => cases hspender
            | true =>
              exact hbad t hbadt c (hshrink c hc)
                (hlinked.spends_of_mem_spenders (hshrink c hc) hspender)
        · refine mem_txs_remove.2 ⟨hc, fun hhash => hgood ?_⟩
          rwa [eq_of_hash hc ht hhash]

/-- A transaction that depends on none of those removed stays. -/
theorem mem_removeRecursively (hlinked : pool.Linked)
    (hbad : ∀ d, bad d → ∀ c ∈ pool.txs, SpendsOutputOf d c → bad c)
    (hl : ∀ t ∈ l, bad t ∧ ∀ c ∈ pool.txs, c.hash = t.hash → c = t)
    (hc : c ∈ pool.txs) (hgood : ¬bad c) : c ∈ (pool.removeRecursively l).txs := by
  induction l generalizing pool with
  | nil => exact hc
  | cons t l ih =>
    obtain ⟨hbadt, hsame⟩ := hl t List.mem_cons_self
    have hlist : ∀ c ∈ pool.txs, c.hash ∈ pool.toRemove t true → bad c := by
      intro c hc hmem
      rcases List.mem_cons.1 hmem with hhash | hspender
      · rwa [hsame c hc hhash]
      · split at hspender
        · exact hbad t hbadt c hc (hlinked.spends_of_mem_spenders hc hspender)
        · cases hspender
    have hshrink : ∀ c ∈ (pool.removeTx t [] true).1.txs, c ∈ pool.txs :=
      fun c hc => mem_of_mem_removeLoop hc
    have hlinked' : (pool.removeTx t [] true).1.Linked :=
      removeTx_keeps (fun _ tx h => h.remove tx) hlinked
    refine ih hlinked' (fun d hd c hc => hbad d hd c (hshrink c hc)) ?_
      (mem_removeLoop hlinked hbad hlist hc hgood)
    intro t' ht'
    obtain ⟨hbadt', hsame'⟩ := hl t' (List.mem_cons_of_mem _ ht')
    exact ⟨hbadt', fun c hc => hsame' c (hshrink c hc)⟩

theorem mem_of_mem_removeRecursively (h : c ∈ (pool.removeRecursively l).txs) : c ∈ pool.txs := by
  have hkeeps : ∀ c ∈ (pool.removeRecursively l).txs, c ∈ pool.txs :=
    removeRecursively_keeps (P := fun p => ∀ c ∈ p.txs, c ∈ pool.txs)
      (fun _ _ hp c hc => hp c (mem_txs_remove.1 hc).1) l fun _ hc => hc
  exact hkeeps c h

/-- What is listed is taken out. -/
theorem not_mem_removeRecursively (h : tx ∈ l) : tx ∉ (pool.removeRecursively l).txs := by
  induction l generalizing pool with
  | nil => cases h
  | cons t l ih =>
    intro hmem
    rcases List.mem_cons.1 h with rfl | hrest
    · exact hash_ne_of_mem_removeTx (mem_of_mem_removeRecursively hmem) rfl
    · exact ih hrest hmem

/-- Nothing that is left depends on what is gone. -/
theorem removeRecursively_closed (hlinked : pool.Linked)
    (hgone : ∀ d, gone d → ∀ c ∈ pool.txs, ¬SpendsOutputOf d c) {d : CTransaction}
    (hd : gone d ∨ (d ∈ pool.txs ∧ d ∉ (pool.removeRecursively l).txs))
    (hc : c ∈ (pool.removeRecursively l).txs) : ¬SpendsOutputOf d c := by
  induction l generalizing pool gone with
  | nil => exact hd.elim (fun hd => hgone d hd c hc) fun hd => absurd hd.1 hd.2
  | cons t l ih =>
    have hstep : ∀ d, (gone d ∨ (d ∈ pool.txs ∧ d ∉ (pool.removeTx t [] true).1.txs)) →
        ∀ c ∈ (pool.removeTx t [] true).1.txs, ¬SpendsOutputOf d c :=
      fun d hd c hc => removeLoop_closed (fun _ tx h => Linked.remove h tx)
        (fun h => h.mem_spenders) hlinked
        (fun d hd c hc hspends => absurd hspends (hgone d hd c hc)) le_rfl hc hd
    have hlinked' : (pool.removeTx t [] true).1.Linked :=
      removeTx_keeps (fun _ tx h => h.remove tx) hlinked
    refine ih hlinked' hstep ?_ hc
    by_cases hd' : d ∈ (pool.removeTx t [] true).1.txs
    · exact hd.imp .inl fun hd => ⟨hd', hd.2⟩
    · exact .inl (hd.imp_right fun hd => ⟨hd.1, hd'⟩)

/-- Exactly the listed transactions are taken out, and what descends from them. -/
theorem mem_removeRecursively_iff (hlinked : pool.Linked) (hl : ∀ t ∈ l, t ∈ pool.txs) :
    c ∈ (pool.removeRecursively l).txs ↔
      c ∈ pool.txs ∧ c ∉ l ∧ ∀ d ∈ l, ¬Descends pool d c := by
  constructor
  · intro hc
    refine ⟨mem_of_mem_removeRecursively hc, fun hmem => not_mem_removeRecursively hmem hc, ?_⟩
    intro d hd hdescends
    have hclosed : ∀ {d c}, d ∈ pool.txs → d ∉ (pool.removeRecursively l).txs →
        c ∈ (pool.removeRecursively l).txs → ¬SpendsOutputOf d c :=
      fun hd hnot => removeRecursively_closed hlinked (fun _ (h : False) => h.elim)
        (.inr ⟨hd, hnot⟩)
    induction hdescends with
    | child _ hspends => exact hclosed (hl d hd) (not_mem_removeRecursively hd) hc hspends
    | step hd' _ hspends ih => exact hclosed hd'.mem ih hc hspends
  · rintro ⟨hc, hnot, hfar⟩
    have hbad : ∀ d, (d ∈ l ∨ ∃ d' ∈ l, Descends pool d' d) → ∀ c ∈ pool.txs,
        SpendsOutputOf d c → c ∈ l ∨ ∃ d' ∈ l, Descends pool d' c := by
      rintro d (hd | ⟨d', hd', hdescends⟩) c hc hspends
      · exact .inr ⟨d, hd, .child hc hspends⟩
      · exact .inr ⟨d', hd', .step hdescends hc hspends⟩
    apply mem_removeRecursively hlinked hbad
    · exact fun t ht => ⟨.inl ht, fun c hc hhash => eq_of_hash hc (hl t ht) hhash⟩
    · exact hc
    · rintro (hmem | ⟨d, hd, hdescends⟩)
      · exact hnot hmem
      · exact hfar d hd hdescends

end CTxMemPool

/-! ## The rules -/

/-- What `removeForReorg` reads, with the rules of `CheckTxInputs`. -/
structure ReorgEnv extends TxInputsEnv where
  /-- `CheckFinalTx` under the flags. -/
  checkFinalTx : CTransaction → Bool
  /-- `pcoins`. -/
  pcoins : CCoinsView
  /-- `nMemPoolHeight`, the next height. -/
  nMemPoolHeight : Nat

namespace ReorgEnv

open CTxMemPool

variable (env : ReorgEnv)

/-- The coins for which an input is removed: of a coinbase that is premature, and timelocked
by its first output. -/
def tooEarly (coins : CCoins) : Bool :=
  coins.fCoinBase && decide ((env.nMemPoolHeight : Int) - coins.nHeight < env.coinbaseMaturity) &&
    (decide ((env.nMemPoolHeight : Int) < toInt64 (env.blockUnlocktime coins.nHeight)) &&
      coins.isAvailable 0 &&
      decide (toUint64 env.timelockGte ≤ toUint64 (coins.vout.getD 0 CTxOut.null).nValue))

/-- An input that is not of the pool, for which the transaction is removed. -/
def removesFor (pool : CTxMemPool) (prevout : COutPoint) : Bool :=
  !pool.contains prevout.hash &&
    match env.pcoins.getCoins prevout.hash with
    | none => true
    | some coins => env.tooEarly coins

/-- `transactionsToRemove` gets the transaction. -/
def picks (pool : CTxMemPool) (entry : CTxMemPoolEntry) : Bool :=
  !env.checkFinalTx entry.tx ||
    (entry.spendsCoinbase && entry.tx.inputOutpoints.any (env.removesFor pool))

/-- `transactionsToRemove`. -/
def transactionsToRemove (pool : CTxMemPool) : List CTransaction :=
  (pool.mapTx.toList.filter (env.picks pool)).map CTxMemPoolEntry.tx

/-- `removeForReorg`. -/
def removeForReorg (pool : CTxMemPool) : CTxMemPool :=
  pool.removeRecursively (env.transactionsToRemove pool)

/-- Why a transaction of the pool is taken out, besides what it depends on. -/
inductive TakenOut (pool : CTxMemPool) : CTransaction → Prop where
  | notFinal {tx : CTransaction} : tx ∈ pool.txs → env.checkFinalTx tx = false → TakenOut pool tx
  | noCoins {entry : CTxMemPoolEntry} {o : COutPoint} : entry ∈ pool.mapTx.toList →
      entry.spendsCoinbase = true → o ∈ entry.tx.inputOutpoints → pool.contains o.hash = false →
      env.pcoins.getCoins o.hash = none → TakenOut pool entry.tx
  | tooEarly {entry : CTxMemPoolEntry} {o : COutPoint} {coins : CCoins} :
      entry ∈ pool.mapTx.toList → entry.spendsCoinbase = true → o ∈ entry.tx.inputOutpoints →
      pool.contains o.hash = false → env.pcoins.getCoins o.hash = some coins →
      env.tooEarly coins = true → TakenOut pool entry.tx

/-- The transaction spends an output of a coinbase that `CheckTxInputs` rejects as premature
or timelocked at the next height. -/
def SpendsPremature (tx : CTransaction) : Prop :=
  ∃ i o coins nDoS, tx.Spends i o ∧ env.pcoins.getCoins o.hash = some coins ∧
    env.checkCoinbase env.nMemPoolHeight tx coins =
      .error ⟨nDoS, "bad-txns-premature-spend-of-coinbase"⟩

/-- What `removeForReorg` is to leave. -/
structure Settled (pool : CTxMemPool) : Prop where
  final : ∀ tx ∈ pool.txs, env.checkFinalTx tx = true
  mature : ∀ tx ∈ pool.txs, ¬env.SpendsPremature tx

variable {env} {pool : CTxMemPool} {tx : CTransaction} {coins : CCoins}

theorem removesFor_iff {o : COutPoint} : env.removesFor pool o = true ↔
    pool.contains o.hash = false ∧ (env.pcoins.getCoins o.hash = none ∨
      ∃ coins, env.pcoins.getCoins o.hash = some coins ∧ env.tooEarly coins = true) := by
  rw [removesFor, Bool.and_eq_true, Bool.not_eq_true']
  cases env.pcoins.getCoins o.hash <;> simp

/-- The list holds what is to be taken out. -/
theorem mem_transactionsToRemove : tx ∈ env.transactionsToRemove pool ↔ env.TakenOut pool tx := by
  simp only [transactionsToRemove, List.mem_map, List.mem_filter, picks, Bool.or_eq_true,
    Bool.not_eq_true', Bool.and_eq_true, List.any_eq_true, removesFor_iff]
  constructor
  · rintro ⟨entry, ⟨hentry, hfinal | ⟨hflag, o, ho, hnot, hnone | ⟨coins, hcoins, hearly⟩⟩⟩, rfl⟩
    · exact .notFinal (mem_txs.2 ⟨entry, hentry, rfl⟩) hfinal
    · exact .noCoins hentry hflag ho hnot hnone
    · exact .tooEarly hentry hflag ho hnot hcoins hearly
  · intro h
    cases h with
    | notFinal htx hfinal =>
      obtain ⟨entry, hentry, rfl⟩ := mem_txs.1 htx
      exact ⟨entry, ⟨hentry, .inl hfinal⟩, rfl⟩
    | noCoins hentry hflag ho hnot hnone =>
      exact ⟨_, ⟨hentry, .inr ⟨hflag, _, ho, hnot, .inl hnone⟩⟩, rfl⟩
    | tooEarly hentry hflag ho hnot hcoins hearly =>
      exact ⟨_, ⟨hentry, .inr ⟨hflag, _, ho, hnot, .inr ⟨_, hcoins, hearly⟩⟩⟩, rfl⟩

theorem TakenOut.mem (h : env.TakenOut pool tx) : tx ∈ pool.txs := by
  cases h with
  | notFinal htx _ => exact htx
  | noCoins hentry _ _ _ _ => exact mem_txs.2 ⟨_, hentry, rfl⟩
  | tooEarly hentry _ _ _ _ _ => exact mem_txs.2 ⟨_, hentry, rfl⟩

/-- What `removeForReorg` leaves. -/
theorem mem_removeForReorg (hlinked : pool.Linked) : tx ∈ (env.removeForReorg pool).txs ↔
    tx ∈ pool.txs ∧ ¬env.TakenOut pool tx ∧ ∀ d, env.TakenOut pool d → ¬Descends pool d tx := by
  rw [removeForReorg, mem_removeRecursively_iff hlinked fun t ht =>
    (mem_transactionsToRemove.1 ht).mem]
  simp only [mem_transactionsToRemove]

/-- The pool that is left is final, and has no premature spends exactly where each of them is
taken out or depends on what is taken out. -/
theorem removeForReorg_settled_iff (env : ReorgEnv) (pool : CTxMemPool) (hlinked : pool.Linked) :
    env.Settled (env.removeForReorg pool) ↔ ∀ tx ∈ pool.txs, env.SpendsPremature tx →
      env.TakenOut pool tx ∨ ∃ d, env.TakenOut pool d ∧ Descends pool d tx := by
  constructor
  · intro hsettled tx htx hpremature
    by_contra hkept
    rw [not_or, not_exists] at hkept
    refine hsettled.mature tx ((mem_removeForReorg hlinked).2 ⟨htx, hkept.1, ?_⟩) hpremature
    exact fun d hd hdescends => hkept.2 d ⟨hd, hdescends⟩
  · intro htaken
    refine ⟨fun tx htx => ?_, fun tx htx hpremature => ?_⟩
    · obtain ⟨hmem, hnot, -⟩ := (mem_removeForReorg hlinked).1 htx
      by_contra hfinal
      exact hnot (.notFinal hmem (Bool.not_eq_true _ ▸ hfinal))
    · obtain ⟨hmem, hnot, hfar⟩ := (mem_removeForReorg hlinked).1 htx
      obtain hout | ⟨d, hd, hdescends⟩ := htaken tx hmem hpremature
      · exact hnot hout
      · exact hfar d hd hdescends

end ReorgEnv

/-! ## A coinbase at depth 50 -/

namespace EarlySpend

/-- A transaction that spends a coinbase. -/
def spender : CTransaction where
  hash := 2
  vin := [{ prevout := { hash := 1, n := 0 } }]
  vout := [{ nValue := 290000000 }]

/-- Its entry, made with the coinbase in the view. -/
def entry : CTxMemPoolEntry where
  tx := spender
  nFee := 10000000
  nTxSize := 100
  hadNoDependencies := true
  spendsCoinbase := true

/-- The pool with it. -/
def pool : CTxMemPool := ({} : CTxMemPool).addUnchecked entry

/-- The view after a reorganization to height 149, with a coinbase of height 100, on a chain
that is timelocked from an amount on. -/
def env (timelockGte : Int) : ReorgEnv where
  toTxInputsEnv := { OldOutput.env with timelockGte, blockUnlocktime := fun _ => 1000 }
  checkFinalTx := fun _ => true
  pcoins := { DoubleInterest.base with
    getCoins := fun txid => if txid = 1 then some
      { fCoinBase := true, vout := [{ nValue := 300000000, scriptPubKey := [0x51] }]
        nHeight := 100 } else none }
  nMemPoolHeight := 150

theorem linked : pool.Linked := by
  apply CTxMemPool.Linked.addUnchecked
  · exact { short := fun _ h => absurd h List.not_mem_nil
            marked := fun _ h => absurd h List.not_mem_nil
            points := fun _ _ h => by cases h }
  · rfl
  · exact fun _ _ => rfl
  · decide

/-- Without timelocks the premature spend stays. -/
theorem removeForReorg_keeps_spender :
    ¬(env (-1)).Settled ((env (-1)).removeForReorg pool) := by
  intro hsettled
  have hleft : spender ∈ ((env (-1)).removeForReorg pool).txs := by decide +kernel
  refine hsettled.mature spender hleft ⟨0, { hash := 1, n := 0 }, _, 0, ⟨rfl, rfl⟩, rfl, ?_⟩
  decide +kernel

/-- With a timelock from one coin on, the coinbase is premature and timelocked, and its spender
is taken out. -/
theorem removeForReorg_settled_spender :
    (env 100000000).Settled ((env 100000000).removeForReorg pool) := by
  refine (ReorgEnv.removeForReorg_settled_iff (env 100000000) pool linked).2 fun tx htx _ => ?_
  have htxs : pool.txs = [spender] := rfl
  rw [htxs, List.mem_singleton] at htx
  subst htx
  have hentry : entry ∈ pool.mapTx.toList := List.mem_singleton_self _
  refine .inl (.tooEarly hentry rfl (o := { hash := 1, n := 0 }) ?_ ?_ rfl ?_)
  · exact List.mem_singleton_self _
  · decide +kernel
  · decide +kernel

end EarlySpend

end IndexChain
