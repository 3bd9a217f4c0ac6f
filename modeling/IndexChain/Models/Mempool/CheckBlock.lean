import IndexChain.Models.Mempool.Accept

/-!
# The mempool round trip of `CheckBlock`

On a chain with crypto-conditions, `CheckBlock` moves the transparent transactions of
the pool to `tmpmempool`, adds those of the block through `AcceptToMemoryPool` with
`fSkipExpiry`, pass after pass until the number of rejects is zero or repeats, and takes
the block's transactions out of `tmpmempool`. When the block passes the checks that
follow, what is left there is added back.
-/

namespace IndexChain

open IndexChain.Core CTxMemPool

/-- The pool and the place where its transactions are kept during the checks. -/
structure PoolState where
  /-- `mempool`. -/
  mempool : CTxMemPool := {}
  /-- `tmpmempool`. -/
  tmpmempool : CTxMemPool := {}

/-- What `CheckBlock` reads beside the pools. -/
structure CheckBlockEnv where
  /-- What acceptance to the pool reads. -/
  pool : PoolEnv
  /-- The header, the proof of work when it is asked for, the Merkle root and the size. -/
  headerOk : CBlock → Bool → Bool
  /-- `ASSETCHAINS_STAKED` is set and the block is a staked one. -/
  isStaked : CBlock → Bool
  /-- `ASSETCHAINS_LWMAPOS` is set and the block is a Verus stake block. -/
  isVerusPOSBlock : CBlock → Bool
  /-- The configuration of the context-free checks at the block. -/
  txEnv : CBlock → TxCheckEnv
  /-- `komodo_validate_interest` at the block. -/
  interestOk : CBlock → CTransaction → Bool
  /-- The banned inputs and the proofs that `CheckTransaction` looks at. -/
  proofsOk : CTransaction → Bool
  /-- `MAX_BLOCK_SIGOPS`. -/
  maxBlockSigops : Nat
  /-- `komodo_check_deposit`. -/
  depositOk : CBlock → Bool

/-- The transparent transactions of the pool. -/
def PoolState.transparent (st : PoolState) : List CTxMemPoolEntry :=
  st.mempool.mapTx.toList.filter fun e => e.tx.isTransparent

/-- Move them to `tmpmempool`. -/
def PoolState.putAside (st : PoolState) : PoolState where
  mempool := st.mempool.removeAll (st.transparent.map CTxMemPoolEntry.tx)
  tmpmempool := st.tmpmempool.addAll st.transparent

/-- Add the transactions of `tmpmempool` back to the pool. -/
def PoolState.putBack (st : PoolState) : PoolState where
  mempool := st.mempool.addAll st.tmpmempool.mapTx.toList
  tmpmempool := st.tmpmempool.clear

namespace CheckBlockEnv

variable (env : CheckBlockEnv) (block : CBlock)

/-- The transactions that are not tried: the coinbase, those that spend shielded notes
and the stake of a staked block. -/
def skips (i : Nat) (tx : CTransaction) : Bool :=
  tx.isCoinBase || !tx.isTransparent ||
    (i + 1 == block.vtx.length && env.isStaked block)

/-- One iteration of the loop over the block's transactions. -/
def addBlockTx (i : Nat) (tx : CTransaction) (st : PoolState) (rejects : Nat) :
    Option (PoolState × Nat) :=
  if env.skips block i tx then some (st, rejects)
  else do
    let verdict ← env.pool.myAddtomempool st.mempool tx true
    match verdict with
    | .ok mempool => return ({ mempool := mempool, tmpmempool := st.tmpmempool.remove tx }, rejects)
    | .error reason =>
      -- the stake of a Verus block is only passed on to the wallet
      let isStake := i + 1 == block.vtx.length && env.isVerusPOSBlock block && reason == "staking"
      return ({ st with tmpmempool := st.tmpmempool.remove tx },
        if isStake then rejects else rejects + 1)

/-- The loop over the block's transactions from index `i` on. -/
def pass : Nat → List CTransaction → PoolState → Nat → Option (PoolState × Nat)
  | _, [], st, rejects => some (st, rejects)
  | i, tx :: rest, st, rejects =>
    (env.addBlockTx block i tx st rejects).bind fun p => pass (i + 1) rest p.1 p.2

/-- Passes until there are no rejects or as many as in the pass before; at most `fuel`. -/
def passes : Nat → Nat → PoolState → Option PoolState
  | 0, _, _ => none
  | fuel + 1, lastrejects, st =>
    (env.pass block 0 block.vtx st 0).bind fun p =>
      if p.2 = 0 ∨ p.2 = lastrejects then some p.1 else passes fuel p.2 p.1

/-- The checks after the round trip. -/
def blockOk : Bool :=
  (block.vtx.all fun tx => env.interestOk block tx &&
    ((env.txEnv block).checkTransaction tx).isOk && env.proofsOk tx) &&
  decide ((block.vtx.map env.pool.getLegacySigOpCount).sum ≤ env.maxBlockSigops) &&
  env.depositOk block

/-- The first transaction is a coinbase and no other is. -/
def coinbaseFirst : Bool :=
  match block.vtx with
  | [] => false
  | tx :: rest => tx.isCoinBase && rest.all fun tx => !tx.isCoinBase

/-- `CheckBlock` with at most `fuel` passes; `none` when an assertion fails or more
passes are needed. Without `fCheckPOW` the pools are left alone. -/
def checkBlock (fuel : Nat) (fCheckPOW : Bool) (st : PoolState) : Option (Bool × PoolState) :=
  if !env.headerOk block fCheckPOW || !coinbaseFirst block then some (false, st)
  else if !fCheckPOW then some (true, st)
  else (env.passes block fuel 0 st.putAside).map fun st =>
    if env.blockOk block then (true, st.putBack) else (false, st)

variable {env block} {st st' : PoolState} {fuel : Nat}

/-- More passes are allowed without changing what is found. -/
theorem passes_succ {last : Nat} (h : env.passes block fuel last st = some st') :
    env.passes block (fuel + 1) last st = some st' := by
  induction fuel generalizing last st with
  | zero => cases h
  | succ fuel ih =>
    rw [passes] at h ⊢
    obtain ⟨p, hp, h⟩ := Option.bind_eq_some_iff.1 h
    rw [hp, Option.bind_some]
    split at h
    · rename_i hstop
      rw [if_pos hstop, h]
    · rename_i hstop
      rw [if_neg hstop, ih h]

/-- A block that is accepted with its proof of work went through the round trip. -/
theorem checkBlock_true (h : env.checkBlock block fuel true st = some (true, st')) :
    ∃ mid, env.passes block fuel 0 st.putAside = some mid ∧ st' = mid.putBack := by
  unfold checkBlock at h
  split at h
  · cases h
  · rw [if_neg (by decide)] at h
    obtain ⟨mid, hmid, heq⟩ := Option.map_eq_some_iff.1 h
    split at heq
    · exact ⟨mid, hmid, (congrArg Prod.snd heq).symm⟩
    · cases heq

theorem checkBlock_noPOW (h : env.checkBlock block fuel false st = some (true, st')) :
    st' = st := by
  unfold checkBlock at h
  split at h
  · cases h
  · rw [if_pos (by decide)] at h
    exact (congrArg Prod.snd (Option.some.inj h)).symm

/-! ## The transactions that are tried -/

variable (env block) in
/-- The transactions that are tried, from index `i` on. -/
def triedFrom : Nat → List CTransaction → List CTransaction
  | _, [] => []
  | i, tx :: rest =>
    if env.skips block i tx then triedFrom (i + 1) rest else tx :: triedFrom (i + 1) rest

variable (env block) in
/-- The transactions of the block that are tried. -/
def tried : List CTransaction :=
  env.triedFrom block 0 block.vtx

theorem triedFrom_subset {i : Nat} {txs : List CTransaction} :
    ∀ tx ∈ env.triedFrom block i txs,
      tx ∈ txs ∧ tx.isTransparent = true ∧ tx.isCoinBase = false := by
  induction txs generalizing i with
  | nil => exact fun tx htx => absurd htx List.not_mem_nil
  | cons t txs ih =>
    intro tx htx
    rw [triedFrom] at htx
    split at htx
    · obtain ⟨hmem, hrest⟩ := ih tx htx
      exact ⟨List.mem_cons_of_mem t hmem, hrest⟩
    · rename_i hskip
      rcases List.mem_cons.1 htx with rfl | htx
      · rw [skips, Bool.or_eq_true, Bool.or_eq_true, not_or, not_or] at hskip
        refine ⟨List.mem_cons_self, ?_, Bool.eq_false_iff.2 hskip.1.1⟩
        simpa using hskip.1.2
      · obtain ⟨hmem, hrest⟩ := ih tx htx
        exact ⟨List.mem_cons_of_mem t hmem, hrest⟩

/-! ## Stages of the round trip -/

variable {tx : CTransaction}

theorem mem_transparent : tx ∈ st.transparent.map CTxMemPoolEntry.tx ↔
    tx ∈ st.mempool.txs ∧ tx.isTransparent = true := by
  rw [List.mem_map, mem_txs]
  unfold PoolState.transparent
  constructor
  · rintro ⟨e, he, rfl⟩
    obtain ⟨hmem, htr⟩ := List.mem_filter.1 he
    exact ⟨⟨e, hmem, rfl⟩, htr⟩
  · rintro ⟨⟨e, hmem, rfl⟩, htr⟩
    exact ⟨e, List.mem_filter.2 ⟨hmem, htr⟩, rfl⟩

/-- What stays in the pool spends shielded notes. -/
theorem mem_putAside_mempool : tx ∈ st.putAside.mempool.txs ↔
    tx ∈ st.mempool.txs ∧ tx.isTransparent = false := by
  have hremoved : tx ∈ st.putAside.mempool.txs ↔ tx ∈ st.mempool.txs ∧
      ∀ t ∈ st.transparent.map CTxMemPoolEntry.tx, tx.hash ≠ t.hash := mem_txs_removeAll
  rw [hremoved]
  constructor
  · rintro ⟨hmem, hne⟩
    refine ⟨hmem, Bool.eq_false_iff.2 fun htr => ?_⟩
    exact hne tx (mem_transparent.2 ⟨hmem, htr⟩) rfl
  · rintro ⟨hmem, htr⟩
    refine ⟨hmem, fun t ht heq => ?_⟩
    obtain ⟨htmem, httr⟩ := mem_transparent.1 ht
    rw [eq_of_hash hmem htmem heq, httr] at htr
    cases htr

theorem mem_putAside_tmpmempool {all : List CTransaction} (hids : TxidsAgree all)
    (hpool : ∀ t ∈ st.mempool.txs, t ∈ all) (htmp : ∀ t ∈ st.tmpmempool.txs, t ∈ all) :
    tx ∈ st.putAside.tmpmempool.txs ↔
      tx ∈ st.tmpmempool.txs ∨ (tx ∈ st.mempool.txs ∧ tx.isTransparent = true) := by
  have hentries : ∀ e ∈ st.transparent, e.tx ∈ all := by
    intro e he
    exact hpool e.tx (mem_transparent.1 (List.mem_map_of_mem he)).1
  have hadded : tx ∈ st.putAside.tmpmempool.txs ↔
      tx ∈ st.tmpmempool.txs ∨ ∃ e ∈ st.transparent, e.tx = tx :=
    mem_txs_addAll hids htmp hentries
  rw [hadded, ← mem_transparent, List.mem_map]

theorem mem_putBack_mempool {all : List CTransaction} (hids : TxidsAgree all)
    (hpool : ∀ t ∈ st.mempool.txs, t ∈ all) (htmp : ∀ t ∈ st.tmpmempool.txs, t ∈ all) :
    tx ∈ st.putBack.mempool.txs ↔ tx ∈ st.mempool.txs ∨ tx ∈ st.tmpmempool.txs := by
  have hentries : ∀ e ∈ st.tmpmempool.mapTx.toList, e.tx ∈ all :=
    fun e he => htmp e.tx (mem_txs.2 ⟨e, he, rfl⟩)
  have hadded : tx ∈ st.putBack.mempool.txs ↔
      tx ∈ st.mempool.txs ∨ ∃ e ∈ st.tmpmempool.mapTx.toList, e.tx = tx :=
    mem_txs_addAll hids hpool hentries
  rw [hadded]
  exact or_congr Iff.rfl mem_txs.symm

end CheckBlockEnv

end IndexChain
