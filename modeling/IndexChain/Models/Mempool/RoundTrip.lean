import IndexChain.Models.Mempool.CheckBlock

/-!
# What the round trip leaves in the pool

The transactions of the block enter the pool without a check for conflicts, and those
set aside are added back without one. Which transactions of the block enter is decided
by the tip and the transactions themselves (`admissible`): the inputs of a call that
returns are all available, so they are read from the same places whatever has entered
before. The pool is lawful after the round trip exactly when no two of the transactions
that meet in it spend the same output.
-/

namespace IndexChain

open IndexChain.Core CTxMemPool

namespace CheckBlockEnv

variable (env : CheckBlockEnv) (block : CBlock) (st : PoolState)

/-- The transactions that never leave the pool. -/
def kept : List CTransaction :=
  st.mempool.txs.filter fun tx => !tx.isTransparent

/-- Where the inputs of the block's transactions are read: in the pool's shielded
transactions, at the tip, and in the block. -/
def inputView : CCoinsView :=
  { env.pool.pcoinsTip with
    getCoins := fun txid =>
      match (kept st).find? fun tx => tx.hash == txid with
      | some tx => some (CCoins.fromTx tx mempoolHeight)
      | none =>
        match (env.pool.view {}).getCoins txid with
        | some coins => some coins
        | none =>
          ((env.tried block).find? fun tx => tx.hash == txid).map fun tx =>
            CCoins.fromTx tx mempoolHeight }

/-- Whether a transaction of the block that is no import passes the checks of
`AcceptToMemoryPool` that are not skipped. -/
def admissible (tx : CTransaction) : Bool :=
  (env.pool.contextFree tx true).isOk && !(env.pool.view {}).haveCoins tx.hash &&
    match (env.inputView block st).inputCoins tx with
    | none => false
    | some coins =>
      match env.pool.afterInputs tx coins with
      | some (.ok _) => true
      | _ => false

/-- The transactions of the block that enter the pool, imports apart. -/
def entering : List CTransaction :=
  (env.tried block).filter fun tx => !tx.isCoinImport && env.admissible block st tx

/-- The transactions that are added back: those of both pools that spend no shielded
note and are not tried with the block. -/
def returning : List CTransaction :=
  (st.tmpmempool.txs ++ st.mempool.txs.filter CTransaction.isTransparent).filter fun tx =>
    (env.tried block).all fun t => !(t.hash == tx.hash)

/-- The transactions that meet in the pool do not conflict, and no import set aside names
an output that a transaction which stays in the pool spends. -/
structure MeetsLawfully : Prop where
  compatible : Compatible (kept st ++ env.returning block st ++ env.entering block st)
  imports : ∀ tx ∈ kept st, ∀ i o, tx.Spends i o → ∀ t ∈ st.mempool.txs,
    t.isTransparent = true → t.isCoinImport = true → o ∉ t.inputOutpoints

/-- The transactions of the pools and of the block. -/
def allTxs : List CTransaction :=
  st.mempool.txs ++ st.tmpmempool.txs ++ block.vtx

variable {env block st} {pool pool' : CTxMemPool} {tx : CTransaction}

theorem mem_kept : tx ∈ kept st ↔ tx ∈ st.mempool.txs ∧ tx.isTransparent = false := by
  rw [kept, List.mem_filter, Bool.not_eq_true']

theorem mem_allTxs : tx ∈ allTxs block st ↔
    tx ∈ st.mempool.txs ∨ tx ∈ st.tmpmempool.txs ∨ tx ∈ block.vtx := by
  rw [allTxs, List.mem_append, List.mem_append, or_assoc]

theorem kept_mem_allTxs (h : tx ∈ kept st) : tx ∈ allTxs block st :=
  mem_allTxs.2 (Or.inl (mem_kept.1 h).1)

theorem tried_mem_allTxs (h : tx ∈ env.tried block) : tx ∈ allTxs block st :=
  mem_allTxs.2 (Or.inr (Or.inr (triedFrom_subset tx h).1))

/-! ## The pool during the passes -/

variable (env block st) in
/-- A transaction of the block that has passed the checks. -/
structure Entered (tx : CTransaction) : Prop where
  tried : tx ∈ env.tried block
  fresh : (env.pool.view {}).haveCoins tx.hash = false
  admissible : tx.isCoinImport = false → env.admissible block st tx = true

variable (env block st) in
/-- The pool has grown by transactions of the block. -/
inductive Grows : CTxMemPool → Prop
  | start : Grows st.putAside.mempool
  | add {pool : CTxMemPool} {entry : CTxMemPoolEntry} (hpool : Grows pool)
    (hnew : pool.contains entry.tx.hash = false) (hentered : Entered env block st entry.tx) :
    Grows (pool.addUnchecked entry)

theorem agree_of_not_contains {entry : CTxMemPoolEntry}
    (h : pool.contains entry.tx.hash = false) :
    ∀ t ∈ pool.txs, t.hash = entry.tx.hash → t = entry.tx := by
  intro t ht hhash
  have hcontains := contains_iff.2 ⟨t, ht, hhash⟩
  rw [h] at hcontains
  cases hcontains

theorem Grows.kept_mem (hg : Grows env block st pool) (h : tx ∈ kept st) : tx ∈ pool.txs := by
  induction hg with
  | start => exact mem_putAside_mempool.2 (mem_kept.1 h)
  | add hpool hnew _ ih =>
    exact (mem_txs_addUnchecked (agree_of_not_contains hnew)).2 (Or.inl ih)

theorem Grows.cases_mem (hg : Grows env block st pool) (h : tx ∈ pool.txs) :
    tx ∈ kept st ∨ Entered env block st tx := by
  induction hg with
  | start => exact Or.inl (mem_kept.2 (mem_putAside_mempool.1 h))
  | add hpool hnew hentered ih =>
    rcases (mem_txs_addUnchecked (agree_of_not_contains hnew)).1 h with hmem | rfl
    · exact ih hmem
    · exact Or.inr hentered

theorem Grows.mem_allTxs (hg : Grows env block st pool) (h : tx ∈ pool.txs) :
    tx ∈ allTxs block st := by
  rcases hg.cases_mem h with hkept | hentered
  · exact kept_mem_allTxs hkept
  · exact tried_mem_allTxs hentered.tried

/-- Coins that are not pruned have outputs. -/
theorem haveCoins_of_getCoins {coins : CCoins} {txid : Uint256}
    (h : (env.pool.view {}).getCoins txid = some coins) :
    (env.pool.view {}).haveCoins txid = true := by
  have hfilter : (env.pool.pcoinsTip.getCoins txid).filter (fun k => !k.isPruned) = some coins := h
  have hunpruned := (Option.filter_eq_some_iff.1 hfilter).2
  unfold CCoinsView.haveCoins
  rw [h]
  dsimp only
  cases hvout : coins.vout with
  | nil =>
    rw [CCoins.isPruned, hvout] at hunpruned
    cases hunpruned
  | cons out outs => rfl

theorem getCoins_of_fresh {txid : Uint256} (h : (env.pool.view {}).haveCoins txid = false) :
    (env.pool.view {}).getCoins txid = none := by
  cases hcoins : (env.pool.view {}).getCoins txid with
  | none => rfl
  | some coins =>
    rw [haveCoins_of_getCoins hcoins] at h
    cases h

/-- The pool's own transactions come before the tip. -/
theorem getCoins_view (pool : CTxMemPool) (txid : Uint256) :
    (env.pool.view pool).getCoins txid = match pool.lookup txid with
      | some tx => some (CCoins.fromTx tx mempoolHeight)
      | none => (env.pool.view {}).getCoins txid := rfl

/-- What the pool and the tip have, the block's inputs are read from. -/
theorem Grows.getCoins (hids : TxidsAgree (allTxs block st)) (hg : Grows env block st pool)
    {txid : Uint256} {coins : CCoins} (h : (env.pool.view pool).getCoins txid = some coins) :
    (env.inputView block st).getCoins txid = some coins := by
  have hinput : (env.inputView block st).getCoins txid =
      match (kept st).find? fun tx => tx.hash == txid with
      | some tx => some (CCoins.fromTx tx mempoolHeight)
      | none =>
        match (env.pool.view {}).getCoins txid with
        | some coins => some coins
        | none =>
          ((env.tried block).find? fun tx => tx.hash == txid).map fun tx =>
            CCoins.fromTx tx mempoolHeight := rfl
  rw [getCoins_view] at h
  rw [hinput]
  cases hlookup : pool.lookup txid with
  | some t =>
    obtain ⟨ht, rfl⟩ := lookup_eq_some_iff.1 hlookup
    rw [hlookup] at h
    by_cases hkept : t ∈ kept st
    · rw [hids.find?_eq (fun t => kept_mem_allTxs) hkept]
      exact h
    · have hentered := (hg.cases_mem ht).resolve_left hkept
      have hnone : (kept st).find? (fun tx => tx.hash == t.hash) = none := by
        rw [List.find?_eq_none]
        intro k hk hhash
        rw [hids k (kept_mem_allTxs hk) t (hg.mem_allTxs ht) (by simpa using hhash)] at hk
        exact hkept hk
      rw [hnone]
      dsimp only
      rw [getCoins_of_fresh hentered.fresh,
        hids.find?_eq (fun t => tried_mem_allTxs) hentered.tried]
      exact h
  | none =>
    rw [hlookup] at h
    have hnone : (kept st).find? (fun tx => tx.hash == txid) = none := by
      rw [List.find?_eq_none]
      intro k hk hkhash
      have hcontains := contains_iff.2 ⟨k, hg.kept_mem hk, by simpa using hkhash⟩
      rw [lookup_eq_none_iff.1 hlookup] at hcontains
      cases hcontains
    dsimp only at h
    rw [hnone]
    dsimp only
    rw [h]

theorem mapM_of_imp {α β : Type} {f g : α → Option β} (h : ∀ a b, f a = some b → g a = some b)
    {l : List α} {bs : List β} (hf : l.mapM f = some bs) : l.mapM g = some bs := by
  induction l generalizing bs with
  | nil => exact hf
  | cons a l ih =>
    rw [List.mapM_cons] at hf ⊢
    obtain ⟨b, hb, hf⟩ := Option.bind_eq_some_iff.1 hf
    obtain ⟨bs', hbs, hf⟩ := Option.bind_eq_some_iff.1 hf
    rw [h a b hb, ih hbs]
    exact hf

theorem Grows.inputCoins (hids : TxidsAgree (allTxs block st)) (hg : Grows env block st pool)
    {coins : List CCoins} (h : (env.pool.view pool).inputCoins tx = some coins) :
    (env.inputView block st).inputCoins tx = some coins := by
  unfold CCoinsView.inputCoins at h ⊢
  split at h
  · rename_i himport
    rw [if_pos himport]
    exact h
  · rename_i himport
    rw [if_neg himport]
    refine mapM_of_imp (fun o k hk => ?_) h
    obtain ⟨hget, havail⟩ := Option.filter_eq_some_iff.1 hk
    exact Option.filter_eq_some_iff.2 ⟨hg.getCoins hids hget, havail⟩

/-! ## One transaction of the block -/

/-- Coins of a transaction that is not in the pool are looked for at the tip. -/
theorem haveCoins_of_not_contains {txid : Uint256} (h : pool.contains txid = false) :
    (env.pool.view pool).haveCoins txid = (env.pool.view {}).haveCoins txid := by
  have hlookup := lookup_eq_none_iff.2 h
  unfold CCoinsView.haveCoins
  rw [getCoins_view, hlookup]

/-- A transparent transaction that is not in the pool is checked on its own and against
the tip. -/
theorem beforeInputs_iff (hnot : pool.contains tx.hash = false) (htr : tx.isTransparent = true)
    (himport : tx.isCoinImport = false) :
    env.pool.beforeInputs pool tx true = .ok () ↔
      env.pool.contextFree tx true = .ok () ∧ (env.pool.view {}).haveCoins tx.hash = false := by
  obtain ⟨hjs, hsp⟩ : tx.vjoinsplit = [] ∧ tx.vShieldedSpend = [] := by
    rw [CTransaction.isTransparent, Bool.and_eq_true, List.isEmpty_iff, List.isEmpty_iff] at htr
    exact htr
  have hrequirements : (env.pool.view pool).haveJoinSplitRequirements env.pool.trees tx = true := by
    rw [CCoinsView.haveJoinSplitRequirements, hjs, hsp]
    rfl
  unfold PoolEnv.beforeInputs
  rw [require_bind_eq_ok, unit_bind_eq_ok, unit_bind_eq_ok, require_bind_eq_ok, unit_bind_eq_ok,
    hnot, haveCoins_of_not_contains hnot, hrequirements, CCoinsView.inputsThere, himport]
  constructor
  · rintro ⟨-, hfree, -, hfresh, -⟩
    exact ⟨hfree, by simpa using hfresh⟩
  · rintro ⟨hfree, hfresh⟩
    refine ⟨rfl, hfree, rfl, ?_, rfl, rfl⟩
    rw [hfresh, Bool.not_false]

/-- An accepted transaction has no coins at the tip. -/
theorem fresh_of_beforeInputs (h : env.pool.beforeInputs pool tx true = .ok ()) :
    (env.pool.view {}).haveCoins tx.hash = false := by
  have hnot := PoolEnv.not_contains h
  unfold PoolEnv.beforeInputs at h
  rw [require_bind_eq_ok, unit_bind_eq_ok, unit_bind_eq_ok, require_bind_eq_ok,
    haveCoins_of_not_contains hnot] at h
  simpa using h.2.2.2.1

/-- What is accepted has passed the checks and is in the pool. -/
theorem Grows.accept (hids : TxidsAgree (allTxs block st)) (hg : Grows env block st pool)
    (htried : tx ∈ env.tried block)
    (h : env.pool.acceptToMemoryPool pool tx true = some (.ok pool')) :
    Grows env block st pool' ∧ (∀ t ∈ pool.txs, t ∈ pool'.txs) ∧ tx ∈ pool'.txs := by
  obtain ⟨hbefore, coins, nFees, entry, hcoins, hafter, -, rfl, rfl⟩ := PoolEnv.accept_cases h
  have hnot := PoolEnv.not_contains hbefore
  have hagree := agree_of_not_contains hnot
  have hfresh := fresh_of_beforeInputs hbefore
  refine ⟨Grows.add hg hnot ⟨htried, hfresh, fun himport => ?_⟩, ?_, ?_⟩
  · have htr := (triedFrom_subset entry.tx htried).2.1
    have hfree := ((beforeInputs_iff hnot htr himport).1 hbefore).1
    rw [CheckBlockEnv.admissible, hfree, hfresh, hg.inputCoins hids hcoins]
    dsimp only
    rw [hafter]
    rfl
  · exact fun t ht => (mem_txs_addUnchecked hagree).2 (Or.inl ht)
  · exact (mem_txs_addUnchecked hagree).2 (Or.inr rfl)

/-- A transaction that is admissible is accepted when the call returns. -/
theorem Grows.accept_ok (hids : TxidsAgree (allTxs block st)) (hg : Grows env block st pool)
    (htried : tx ∈ env.tried block) (hnot : pool.contains tx.hash = false)
    (himport : tx.isCoinImport = false) (hadm : env.admissible block st tx = true)
    {verdict : Except String CTxMemPool}
    (h : env.pool.acceptToMemoryPool pool tx true = some verdict) :
    ∃ pool', verdict = .ok pool' := by
  have htr := (triedFrom_subset tx htried).2.1
  unfold CheckBlockEnv.admissible at hadm
  rw [Bool.and_eq_true, Bool.and_eq_true, Bool.not_eq_true'] at hadm
  obtain ⟨⟨hfree, hfresh⟩, hvalues⟩ := hadm
  have hbefore := (beforeInputs_iff hnot htr himport).2 ⟨eq_ok_of_isOk hfree, hfresh⟩
  unfold PoolEnv.acceptToMemoryPool at h
  rw [hbefore] at h
  obtain ⟨coins, hcoins, h⟩ := Option.bind_eq_some_iff.1 h
  rw [hg.inputCoins hids hcoins] at hvalues
  dsimp only at hvalues
  obtain ⟨value, hvalue, h⟩ := Option.bind_eq_some_iff.1 h
  rw [hvalue] at hvalues
  cases value with
  | error reason => cases hvalues
  | ok nFees =>
    dsimp only at h
    rw [Bool.not_true, Bool.false_and, if_neg Bool.false_ne_true] at h
    exact ⟨_, (Option.some.inj h).symm⟩

/-! ## Passes -/

variable (env block st) in
/-- The transactions of a list have been tried between two stages. -/
structure Ran (txs : List CTransaction) (mid mid' : PoolState) : Prop where
  grows : Grows env block st mid'.mempool
  keeps : ∀ t ∈ mid.mempool.txs, t ∈ mid'.mempool.txs
  takes : ∀ t ∈ txs, t.isCoinImport = false → env.admissible block st t = true →
    t ∈ mid'.mempool.txs
  aside : ∀ t, t ∈ mid'.tmpmempool.txs ↔ t ∈ mid.tmpmempool.txs ∧ ∀ b ∈ txs, t.hash ≠ b.hash

variable {mid mid' mid'' : PoolState} {txs txs' : List CTransaction} {i rejects rejects' : Nat}

theorem Ran.refl (hg : Grows env block st mid.mempool) : Ran env block st [] mid mid where
  grows := hg
  keeps _ ht := ht
  takes _ ht := absurd ht List.not_mem_nil
  aside t := by simp

theorem Ran.trans (h : Ran env block st txs mid mid') (h' : Ran env block st txs' mid' mid'') :
    Ran env block st (txs ++ txs') mid mid'' where
  grows := h'.grows
  keeps t ht := h'.keeps t (h.keeps t ht)
  takes t ht himport hadm := by
    rcases List.mem_append.1 ht with ht | ht
    · exact h'.keeps t (h.takes t ht himport hadm)
    · exact h'.takes t ht himport hadm
  aside t := by
    rw [h'.aside, h.aside, and_assoc]
    simp only [List.mem_append, or_imp, forall_and]

/-- Trying transactions again adds no obligation. -/
theorem Ran.twice (h : Ran env block st (txs ++ txs) mid mid') : Ran env block st txs mid mid' where
  grows := h.grows
  keeps := h.keeps
  takes t ht := h.takes t (List.mem_append_left txs ht)
  aside t := by
    rw [h.aside]
    simp only [List.mem_append, or_self]

/-- One iteration. -/
theorem Ran.addBlockTx (hids : TxidsAgree (allTxs block st)) (hg : Grows env block st mid.mempool)
    (htried : env.skips block i tx = false → tx ∈ env.tried block)
    (h : env.addBlockTx block i tx mid rejects = some (mid', rejects')) :
    Ran env block st (if env.skips block i tx then [] else [tx]) mid mid' := by
  unfold CheckBlockEnv.addBlockTx at h
  split at h
  · rename_i hskip
    obtain rfl : mid = mid' := congrArg Prod.fst (Option.some.inj h)
    rw [if_pos hskip]
    exact Ran.refl hg
  · rename_i hskip
    have hmem := htried (Bool.eq_false_iff.2 hskip)
    have hall : tx ∈ allTxs block st := tried_mem_allTxs hmem
    rw [if_neg hskip]
    have haside : ∀ t, t ∈ (mid.tmpmempool.remove tx).txs ↔
        t ∈ mid.tmpmempool.txs ∧ ∀ b ∈ [tx], t.hash ≠ b.hash := by
      intro t
      rw [mem_txs_remove, List.forall_mem_singleton]
    obtain ⟨verdict, hverdict, h⟩ := Option.bind_eq_some_iff.1 h
    unfold PoolEnv.myAddtomempool at hverdict
    split at hverdict
    · -- a transaction of this id is in the pool, so it is this one
      rename_i hlookup
      obtain rfl := Option.some.inj hverdict
      obtain rfl := congrArg Prod.fst (Option.some.inj h)
      obtain ⟨t, ht⟩ := Option.isSome_iff_exists.1 hlookup
      obtain ⟨htmem, hhash⟩ := lookup_eq_some_iff.1 ht
      obtain rfl := hids t (hg.mem_allTxs htmem) tx hall hhash
      refine ⟨hg, fun _ => id, fun b hb _ _ => ?_, haside⟩
      rwa [List.mem_singleton.1 hb]
    · rename_i hlookup
      have hnot : mid.mempool.contains tx.hash = false :=
        lookup_eq_none_iff.1 (Option.not_isSome_iff_eq_none.1 hlookup)
      cases verdict with
      | ok mempool =>
        obtain rfl := congrArg Prod.fst (Option.some.inj h)
        obtain ⟨hgrows, hkeeps, hin⟩ := hg.accept hids hmem hverdict
        refine ⟨hgrows, hkeeps, fun b hb _ _ => ?_, haside⟩
        rwa [List.mem_singleton.1 hb]
      | error reason =>
        obtain rfl := congrArg Prod.fst (Option.some.inj h)
        refine ⟨hg, fun _ => id, fun b hb himport hadm => ?_, haside⟩
        rw [List.mem_singleton.1 hb] at himport hadm
        obtain ⟨pool', hok⟩ := hg.accept_ok hids hmem hnot himport hadm hverdict
        cases hok

/-- A pass tries every transaction that is not skipped. -/
theorem Ran.pass (hids : TxidsAgree (allTxs block st)) (hg : Grows env block st mid.mempool)
    (htried : ∀ t ∈ env.triedFrom block i txs, t ∈ env.tried block)
    (h : env.pass block i txs mid rejects = some (mid', rejects')) :
    Ran env block st (env.triedFrom block i txs) mid mid' := by
  induction txs generalizing i mid rejects with
  | nil =>
    obtain rfl : mid = mid' := congrArg Prod.fst (Option.some.inj h)
    exact Ran.refl hg
  | cons t txs ih =>
    rw [CheckBlockEnv.pass] at h
    obtain ⟨⟨mid₁, rejects₁⟩, hstep, hrest⟩ := Option.bind_eq_some_iff.1 h
    have hsplit : env.triedFrom block i (t :: txs) =
        (if env.skips block i t then [] else [t]) ++ env.triedFrom block (i + 1) txs := by
      rw [triedFrom]
      split
      · rfl
      · rfl
    rw [hsplit] at htried ⊢
    have hfirst : Ran env block st (if env.skips block i t then [] else [t]) mid mid₁ := by
      refine Ran.addBlockTx hids hg (fun hskip => ?_) hstep
      apply htried t
      rw [hskip, if_neg Bool.false_ne_true]
      exact List.mem_append_left _ List.mem_cons_self
    exact hfirst.trans (ih hfirst.grows (fun b hb => htried b (List.mem_append_right _ hb)) hrest)

/-- The passes try every transaction that is not skipped. -/
theorem Ran.passes (hids : TxidsAgree (allTxs block st)) (hg : Grows env block st mid.mempool)
    {fuel last : Nat} (h : env.passes block fuel last mid = some mid') :
    Ran env block st (env.tried block) mid mid' := by
  induction fuel generalizing last mid with
  | zero => cases h
  | succ fuel ih =>
    rw [CheckBlockEnv.passes] at h
    obtain ⟨⟨mid₁, rejects₁⟩, hpass, hrest⟩ := Option.bind_eq_some_iff.1 h
    have hran : Ran env block st (env.tried block) mid mid₁ :=
      Ran.pass hids hg (fun t ht => ht) hpass
    split at hrest
    · obtain rfl := Option.some.inj hrest
      exact hran
    · exact (hran.trans (ih hran.grows hrest)).twice

/-! ## Laws of the pool -/

variable (env block st) in
/-- The transactions that meet in the pool, imports apart. -/
def meeting : List CTransaction :=
  kept st ++ env.returning block st ++ env.entering block st

theorem mem_meeting : tx ∈ env.meeting block st ↔
    tx ∈ kept st ∨ tx ∈ env.returning block st ∨ tx ∈ env.entering block st := by
  rw [meeting, List.mem_append, List.mem_append, or_assoc]

theorem mem_entering : tx ∈ env.entering block st ↔
    tx ∈ env.tried block ∧ tx.isCoinImport = false ∧ env.admissible block st tx = true := by
  rw [entering, List.mem_filter, Bool.and_eq_true, Bool.not_eq_true']

theorem mem_returning : tx ∈ env.returning block st ↔
    (tx ∈ st.tmpmempool.txs ∨ (tx ∈ st.mempool.txs ∧ tx.isTransparent = true)) ∧
      ∀ b ∈ env.tried block, tx.hash ≠ b.hash := by
  rw [returning, List.mem_filter, List.mem_append, List.mem_filter, List.all_eq_true]
  simp only [Bool.not_eq_true', beq_eq_false_iff_ne, ne_comm]

/-- Compatibility is about the transactions that spend outputs. -/
theorem compatible_of_meeting (hcompat : Compatible (env.meeting block st))
    (h : ∀ t ∈ txs, ∀ i o, t.Spends i o → t ∈ env.meeting block st) : Compatible txs := by
  intro t ht t' ht' i j o hi hj
  exact hcompat t (h t ht i o hi) t' (h t' ht' j o hj) i j o hi hj

theorem Entered.mem_meeting {o : COutPoint} (h : Entered env block st tx) (hs : tx.Spends i o) :
    tx ∈ env.meeting block st :=
  CheckBlockEnv.mem_meeting.2 (Or.inr (Or.inr (mem_entering.2
    ⟨h.tried, hs.notImport, h.admissible hs.notImport⟩)))

theorem Grows.mem_meeting {o : COutPoint} (hg : Grows env block st pool) (h : tx ∈ pool.txs)
    (hs : tx.Spends i o) : tx ∈ env.meeting block st := by
  rcases hg.cases_mem h with hkept | hentered
  · exact CheckBlockEnv.mem_meeting.2 (Or.inl hkept)
  · exact hentered.mem_meeting hs

/-- Setting transactions aside forgets the outputs that they name. -/
theorem mapNextTx_putAside_of_mem {o : COutPoint} (htx : tx ∈ st.mempool.txs)
    (htr : tx.isTransparent = true) (ho : o ∈ tx.inputOutpoints) :
    st.putAside.mempool.mapNextTx o = none :=
  mapNextTx_removeAll_of_mem htx (mem_transparent.2 ⟨htx, htr⟩) ho

theorem lawful_putAside (hpool : st.mempool.Lawful)
    (himports : ∀ tx ∈ kept st, ∀ i o, tx.Spends i o → ∀ t ∈ st.mempool.txs,
      t.isTransparent = true → t.isCoinImport = true → o ∉ t.inputOutpoints) :
    st.putAside.mempool.Lawful := by
  apply Lawful.of_spent
  intro tx htx i o hi
  have hkept := mem_kept.2 (mem_putAside_mempool.1 htx)
  obtain ⟨hmem, hshielded⟩ := mem_kept.1 hkept
  have hunchanged : st.putAside.mempool.mapNextTx o = st.mempool.mapNextTx o := by
    apply mapNextTx_removeAll_of_not
    intro t ht t' ht' hhash ho
    obtain ⟨htmem', htr'⟩ := mem_transparent.1 ht'
    obtain rfl := eq_of_hash ht htmem' hhash
    cases himport : t.isCoinImport with
    | true => exact himports tx hkept i o hi t ht htr' himport ho
    | false =>
      obtain ⟨j, hj⟩ := List.mem_iff_getElem?.1 ho
      obtain rfl := hpool.noConflict tx hmem t ht i j o hi ⟨himport, hj⟩
      rw [hshielded] at htr'
      cases htr'
  rw [hunchanged]
  exact hpool.spent tx hmem i o hi

/-- The pool stays lawful while compatible transactions enter. -/
theorem Grows.lawful (hstart : st.putAside.mempool.Lawful)
    (hcompat : Compatible (env.meeting block st)) (hg : Grows env block st pool) :
    pool.Lawful := by
  induction hg with
  | start => exact hstart
  | add hg hnew hentered ih =>
    apply ih.addUnchecked (agree_of_not_contains hnew)
    apply compatible_of_meeting hcompat
    intro t ht i o hi
    rcases List.mem_cons.1 ht with rfl | ht
    · exact hentered.mem_meeting hi
    · exact hg.mem_meeting ht hi

/-- Only transactions of the block change who spends an output meanwhile. -/
theorem Grows.mapNextTx {o : COutPoint} (hg : Grows env block st pool) :
    pool.mapNextTx o = st.putAside.mempool.mapNextTx o ∨
      ∃ b ∈ env.tried block, ∃ i, pool.mapNextTx o = some { ptx := b.hash, n := i } := by
  induction hg with
  | start => exact Or.inl rfl
  | add hg hnew hentered ih =>
    rename_i pool entry
    rcases mapNextTx_addUnchecked_cases (o := o) (agree_of_not_contains hnew) with hsame | ⟨i, hi⟩
    · rwa [hsame]
    · exact Or.inr ⟨entry.tx, hentered.tried, i, hi⟩

/-! ## The round trip -/

/-- What is in the two pools when the passes end. -/
theorem Ran.mem_tmpmempool (hids : TxidsAgree (allTxs block st))
    (h : Ran env block st (env.tried block) st.putAside mid) :
    tx ∈ mid.tmpmempool.txs ↔ tx ∈ env.returning block st := by
  have hpool : ∀ t ∈ st.mempool.txs, t ∈ allTxs block st := fun t ht => mem_allTxs.2 (Or.inl ht)
  have htmp : ∀ t ∈ st.tmpmempool.txs, t ∈ allTxs block st :=
    fun t ht => mem_allTxs.2 (Or.inr (Or.inl ht))
  rw [h.aside, mem_putAside_tmpmempool hids hpool htmp, mem_returning]

theorem returning_mem_allTxs (h : tx ∈ env.returning block st) : tx ∈ allTxs block st := by
  rcases (mem_returning.1 h).1 with htmp | ⟨hpool, -⟩
  · exact mem_allTxs.2 (Or.inr (Or.inl htmp))
  · exact mem_allTxs.2 (Or.inl hpool)

/-- What is added back to the pool spends no shielded notes. -/
theorem returning_transparent (htmp : ∀ t ∈ st.tmpmempool.txs, t.isTransparent = true)
    (h : tx ∈ env.returning block st) : tx.isTransparent = true := by
  rcases (mem_returning.1 h).1 with hmem | ⟨-, htr⟩
  · exact htmp tx hmem
  · exact htr

/-- The round trip leaves a lawful pool when the transactions that meet in it allow it. -/
theorem putBack_lawful (hids : TxidsAgree (allTxs block st)) (hpool : st.mempool.Lawful)
    (h : Ran env block st (env.tried block) st.putAside mid)
    (hmeets : env.MeetsLawfully block st) : mid.putBack.mempool.Lawful := by
  have hlawful := h.grows.lawful (lawful_putAside hpool hmeets.imports) hmeets.compatible
  have hmem : ∀ e ∈ mid.tmpmempool.mapTx.toList, e.tx ∈ env.returning block st :=
    fun e he => (h.mem_tmpmempool hids).1 (mem_txs.2 ⟨e, he, rfl⟩)
  apply hlawful.addAll hids (fun t ht => h.grows.mem_allTxs ht)
    (fun e he => returning_mem_allTxs (hmem e he))
  apply compatible_of_meeting hmeets.compatible
  intro t ht i o hi
  rcases List.mem_append.1 ht with ht | ht
  · obtain ⟨e, he, rfl⟩ := List.mem_map.1 ht
    exact mem_meeting.2 (Or.inr (Or.inl (hmem e he)))
  · exact h.grows.mem_meeting ht hi

/-- A lawful pool after the round trip shows that the transactions that met in it
allowed it. -/
theorem meetsLawfully_of_putBack (hids : TxidsAgree (allTxs block st))
    (htmp : ∀ t ∈ st.tmpmempool.txs, t.isTransparent = true)
    (h : Ran env block st (env.tried block) st.putAside mid)
    (hlawful : mid.putBack.mempool.Lawful) : env.MeetsLawfully block st := by
  have hmidpool : ∀ t ∈ mid.mempool.txs, t ∈ allTxs block st := fun t ht => h.grows.mem_allTxs ht
  have hmidtmp : ∀ t ∈ mid.tmpmempool.txs, t ∈ allTxs block st :=
    fun t ht => returning_mem_allTxs ((h.mem_tmpmempool hids).1 ht)
  have hfinal : ∀ t, t ∈ mid.putBack.mempool.txs ↔ t ∈ mid.mempool.txs ∨ t ∈ mid.tmpmempool.txs :=
    fun t => mem_putBack_mempool hids hmidpool hmidtmp
  constructor
  · have hin : ∀ t ∈ env.meeting block st, t ∈ mid.putBack.mempool.txs := by
      intro t ht
      rw [hfinal]
      rcases mem_meeting.1 ht with hkept | hreturning | hentering
      · exact Or.inl (h.grows.kept_mem hkept)
      · exact Or.inr ((h.mem_tmpmempool hids).2 hreturning)
      · obtain ⟨htried, himport, hadm⟩ := mem_entering.1 hentering
        exact Or.inl (h.takes t htried himport hadm)
    exact hlawful.compatible.mono hin
  · intro t ht i o hi a ha htr himport ho
    have hmem := (hfinal t).2 (Or.inl (h.grows.kept_mem ht))
    have hspent := hlawful.spent t hmem i o hi
    have hshielded := (mem_kept.1 ht).2
    -- the entry was erased, so whatever wrote it again is not shielded
    have hwriter : ∀ b, b ∈ allTxs block st → b.isTransparent = true →
        ∀ j, mid.putBack.mempool.mapNextTx o ≠ some { ptx := b.hash, n := j } := by
      intro b hb hbtr j heq
      have hhash : t.hash = b.hash :=
        congrArg CInPoint.ptx (Option.some.inj (hspent.symm.trans heq))
      obtain rfl := hids t (kept_mem_allTxs ht) b hb hhash
      rw [hshielded] at hbtr
      cases hbtr
    have hentries : ∀ e ∈ mid.tmpmempool.mapTx.toList, e.tx ∈ allTxs block st :=
      fun e he => hmidtmp e.tx (mem_txs.2 ⟨e, he, rfl⟩)
    have hback : mid.putBack.mempool.mapNextTx o = mid.mempool.mapNextTx o ∨
        ∃ e ∈ mid.tmpmempool.mapTx.toList, ∃ j,
          mid.putBack.mempool.mapNextTx o = some { ptx := e.tx.hash, n := j } :=
      mapNextTx_addAll hids hmidpool hentries
    rcases hback with hback | ⟨e, he, j, heq⟩
    · rcases h.grows.mapNextTx (o := o) with hgrown | ⟨b, hb, j, heq⟩
      · have hnone := mapNextTx_putAside_of_mem ha htr ho
        rw [hback, hgrown, hnone] at hspent
        cases hspent
      · exact hwriter b (tried_mem_allTxs hb) (triedFrom_subset b hb).2.1 j (hback.trans heq)
    · have hreturning := (h.mem_tmpmempool hids).1 (mem_txs.2 ⟨e, he, rfl⟩)
      exact hwriter e.tx (hentries e he) (returning_transparent htmp hreturning) j heq

/-- When `CheckBlock` accepts a block, the pool is lawful afterwards exactly when it was
left alone or the transactions that met in it allowed it. -/
theorem checkBlock_lawful_iff {fuel : Nat} {fCheckPOW : Bool} {st' : PoolState}
    (hids : TxidsAgree (allTxs block st)) (hpool : st.mempool.Lawful)
    (htmp : ∀ t ∈ st.tmpmempool.txs, t.isTransparent = true)
    (h : env.checkBlock block fuel fCheckPOW st = some (true, st')) :
    st'.mempool.Lawful ↔ (fCheckPOW = true → env.MeetsLawfully block st) := by
  cases fCheckPOW with
  | false =>
    rw [checkBlock_noPOW h]
    simp [hpool]
  | true =>
    obtain ⟨mid, hmid, rfl⟩ := checkBlock_true h
    have hran : Ran env block st (env.tried block) st.putAside mid :=
      Ran.passes hids Grows.start hmid
    constructor
    · exact fun hlawful _ => meetsLawfully_of_putBack hids htmp hran hlawful
    · exact fun hmeets => putBack_lawful hids hpool hran (hmeets rfl)

/-- `tmpmempool` never holds a transaction that spends shielded notes. -/
theorem checkBlock_tmpmempool {fuel : Nat} {fCheckPOW verdict : Bool} {st' : PoolState}
    (hids : TxidsAgree (allTxs block st)) (htmp : ∀ t ∈ st.tmpmempool.txs, t.isTransparent = true)
    (h : env.checkBlock block fuel fCheckPOW st = some (verdict, st')) :
    ∀ t ∈ st'.tmpmempool.txs, t.isTransparent = true := by
  unfold checkBlock at h
  split at h
  · obtain rfl := congrArg Prod.snd (Option.some.inj h)
    exact htmp
  · split at h
    · obtain rfl := congrArg Prod.snd (Option.some.inj h)
      exact htmp
    · obtain ⟨mid, hmid, heq⟩ := Option.map_eq_some_iff.1 h
      have hran : Ran env block st (env.tried block) st.putAside mid :=
        Ran.passes hids Grows.start hmid
      split at heq
      · obtain rfl := congrArg Prod.snd heq
        exact fun t ht => absurd ht List.not_mem_nil
      · obtain rfl := congrArg Prod.snd heq
        exact fun t ht => returning_transparent htmp ((hran.mem_tmpmempool hids).1 ht)

end CheckBlockEnv

/-! ## A block that spends what the pool spends -/

namespace SamplePool

/-- The tip has one unspent output. -/
def tip : CCoinsView where
  getCoins txid := if txid = 1 then
      some { vout := [{ nValue := 100000, scriptPubKey := [0x51] }], nHeight := 10, nVersion := 4 }
    else none
  getNullifier _ _ := false
  getAnchorAt _ _ := none
  getBestAnchor _ := 0
  getBestBlock := 3

/-- Node hashes that no transaction of the sample needs. -/
def trees : TreeHashes where
  hash _ := { combine := fun a _ _ => a, uncommitted := 1 }

/-- A configuration without further limits. -/
def txEnv : TxCheckEnv where
  acpublic := false
  assetchainsPrivate := false
  txpow := 0
  maxMoney := 2100000000000000
  tiptime := 1600000000
  isNotaryVout _ := false
  serializeSize _ := 300

/-- Acceptance over the tip. -/
def poolEnv : PoolEnv where
  txEnv := txEnv
  trees := trees
  pcoinsTip := tip
  inputLimit := 0
  interestOk _ := true
  proofsOk _ := true
  contextualCheckTransaction _ := .ok ()
  requireStandard := true
  isStandardTx _ := .ok ()
  checkFinalTx _ := true
  getCoinImportValue _ := 0
  accruedInterest _ _ := 0
  areInputsStandard _ _ := true
  getLegacySigOpCount _ := 1
  getP2SHSigOpCount _ _ := 0
  maxStandardTxSigops := 4000
  priorityOk _ _ _ := true
  minRelayFee _ := 1000
  contextualCheckInputs _ _ := true

/-- A block check over the tip. -/
def env : CheckBlockEnv where
  pool := poolEnv
  headerOk _ _ := true
  isStaked _ := false
  isVerusPOSBlock _ := false
  txEnv _ := txEnv
  interestOk _ _ := true
  proofsOk _ := true
  maxBlockSigops := 20000
  depositOk _ := true

/-- A transaction that spends the output at the tip. -/
def spender (hash : Uint256) (nValue : Int) : CTransaction :=
  { hash := hash
    vin := [{ prevout := { hash := 1, n := 0 }, scriptSig := [0x51, 0x51] }]
    vout := [{ nValue := nValue, scriptPubKey := [0x51] }] }

/-- A coinbase. -/
def coinbase : CTransaction :=
  { hash := 5
    vin := [{ prevout := { hash := 0, n := 4294967295 }, scriptSig := [0x51, 0x51] }]
    vout := [{ nValue := 300000000, scriptPubKey := [0x51] }] }

theorem four_ne_null : (4 : Uint256) ≠ 0 := by decide

/-- A block with one transaction beside the coinbase. -/
def block (tx : CTransaction) : CBlock :=
  { hash := 4, hashFinalSaplingRoot := 1, nTime := 1600000060, vtx := [coinbase, tx]
    hash_ne_null := four_ne_null }

/-- The entry of a transaction. -/
def entry (tx : CTransaction) : CTxMemPoolEntry :=
  { tx := tx, nFee := 10000, nTxSize := 300, hadNoDependencies := true, spendsCoinbase := false }

/-- A pool of one transaction. -/
def state (tx : CTransaction) : PoolState :=
  { mempool := ({} : CTxMemPool).addUnchecked (entry tx) }

theorem spender_compatible (hash : Uint256) (nValue : Int) :
    Compatible [spender hash nValue] := by
  intro t ht t' ht' i j o hi hj
  obtain rfl := List.mem_singleton.1 ht
  obtain rfl := List.mem_singleton.1 ht'
  have hnodup : (spender hash nValue).inputOutpoints.Nodup := List.nodup_singleton _
  exact ⟨rfl, hi.index_eq hnodup hj⟩

theorem state_lawful (hash : Uint256) (nValue : Int) :
    (state (spender hash nValue)).mempool.Lawful := by
  have hempty : ({} : CTxMemPool).Lawful := Lawful.of_spent fun t ht => absurd ht List.not_mem_nil
  exact hempty.addUnchecked (fun t ht => absurd ht List.not_mem_nil)
    (spender_compatible hash nValue)

theorem same_txidsAgree : TxidsAgree
    (CheckBlockEnv.allTxs (block (spender 0x10 90000)) (state (spender 0x10 90000))) := by
  unfold TxidsAgree
  decide +kernel

theorem other_txidsAgree : TxidsAgree
    (CheckBlockEnv.allTxs (block (spender 0x20 80000)) (state (spender 0x10 90000))) := by
  unfold TxidsAgree
  decide +kernel

end SamplePool

namespace CheckBlockEnv

open SamplePool in
/-- A block that has the transaction of the pool leaves a lawful pool. -/
theorem checkBlock_same_tx : ∃ st', env.checkBlock (block (spender 0x10 90000)) 2 true
    (state (spender 0x10 90000)) = some (true, st') ∧ st'.mempool.Lawful := by
  have hreturns : (env.checkBlock (block (spender 0x10 90000)) 2 true
      (state (spender 0x10 90000))).map Prod.fst = some true := by decide +kernel
  obtain ⟨⟨verdict, st'⟩, hcheck, hverdict⟩ := Option.map_eq_some_iff.1 hreturns
  obtain rfl : verdict = true := hverdict
  refine ⟨st', hcheck, ?_⟩
  have hmeeting : env.meeting (block (spender 0x10 90000)) (state (spender 0x10 90000)) =
      [spender 0x10 90000] := by decide +kernel
  have hmeets : env.MeetsLawfully (block (spender 0x10 90000)) (state (spender 0x10 90000)) := by
    constructor
    · have hcompat := spender_compatible 0x10 90000
      rwa [← hmeeting] at hcompat
    · intro t ht
      have hkept : kept (state (spender 0x10 90000)) = [] := by decide +kernel
      rw [hkept] at ht
      exact absurd ht List.not_mem_nil
  exact (checkBlock_lawful_iff same_txidsAgree (state_lawful 0x10 90000)
    (fun t ht => absurd ht List.not_mem_nil) hcheck).2 fun _ => hmeets

open SamplePool in
/-- The pool has a transaction, and the block another one that spends the same output:
both are in the pool afterwards. -/
theorem checkBlock_admits_conflict :
    ¬ ∀ (env : CheckBlockEnv) (block : CBlock) (fuel : Nat) (fCheckPOW : Bool) (st st' : PoolState),
      TxidsAgree (allTxs block st) → st.mempool.Lawful →
      (∀ t ∈ st.tmpmempool.txs, t.isTransparent = true) →
      env.checkBlock block fuel fCheckPOW st = some (true, st') → st'.mempool.Lawful := by
  intro hclaim
  have hreturns : (env.checkBlock (block (spender 0x20 80000)) 2 true
      (state (spender 0x10 90000))).map (fun p => (p.1, p.2.mempool.txs)) =
        some (true, [spender 0x10 90000, spender 0x20 80000]) := by decide +kernel
  obtain ⟨⟨verdict, st'⟩, hcheck, heq⟩ := Option.map_eq_some_iff.1 hreturns
  obtain rfl : verdict = true := congrArg Prod.fst heq
  have htxs : st'.mempool.txs = [spender 0x10 90000, spender 0x20 80000] := congrArg Prod.snd heq
  have hlawful := hclaim env (block (spender 0x20 80000)) 2 true (state (spender 0x10 90000)) st'
    other_txidsAgree (state_lawful 0x10 90000) (fun t ht => absurd ht List.not_mem_nil) hcheck
  have hspends : ∀ hash nValue, (spender hash nValue).Spends 0 { hash := 1, n := 0 } :=
    fun hash nValue => ⟨rfl, rfl⟩
  have hsame := hlawful.noConflict (spender 0x10 90000) (by rw [htxs]; exact List.mem_cons_self)
    (spender 0x20 80000) (by rw [htxs]; exact List.mem_cons_of_mem _ List.mem_cons_self)
    0 0 _ (hspends 0x10 90000) (hspends 0x20 80000)
  exact absurd (congrArg CTransaction.hash hsame) (by decide)

end CheckBlockEnv

end IndexChain
