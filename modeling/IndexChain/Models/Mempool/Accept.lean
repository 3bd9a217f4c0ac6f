import IndexChain.Models.Coins.Connect
import IndexChain.Models.Mempool.TxMemPool

/-!
# Acceptance to the memory pool

`AcceptToMemoryPool` of `main.cpp` as `myAddtomempool` calls it, without free-relay
limits and with a cap on absurd fees. The flag `fSkipExpiry` leaves out the contextual
checks, among them the check for conflicts with transactions of the pool. The inputs
are read from the pool and, below it, the tip of the chain; a missing one fails the
assertion of `GetOutputFor`, and the call does not return.
-/

namespace IndexChain

open IndexChain.Core

/-- Checks that the flag leaves out. -/
def orSkip (fSkipExpiry : Bool) (check : Except String Unit) : Except String Unit :=
  if fSkipExpiry then .ok () else check

namespace TxCheckEnv

variable (env : TxCheckEnv)

/-- Add an amount to a sum that must stay in range. -/
def addInRange (n v : Int) : Option Int :=
  if env.moneyRange v && env.moneyRange (toInt64 (n + v)) then some (toInt64 (n + v)) else none

/-- `GetValueOut`; `none` when it throws. -/
def getValueOut (tx : CTransaction) : Option Int := do
  let n ← tx.vout.foldlM (fun n out => env.addInRange n out.nValue) 0
  let n ← if tx.valueBalance ≤ 0 then env.addInRange n (-tx.valueBalance) else some n
  tx.vjoinsplit.foldlM (fun n js => env.addInRange n js.vpubOld) n

/-- `GetShieldedValueIn`; `none` when it throws. -/
def getShieldedValueIn (tx : CTransaction) : Option Int := do
  let n ← if 0 ≤ tx.valueBalance then env.addInRange 0 tx.valueBalance else some 0
  tx.vjoinsplit.foldlM (fun n js => env.addInRange n js.vpubNew) n

end TxCheckEnv

/-- What acceptance reads beside the pool. -/
structure PoolEnv where
  /-- The configuration of the context-free checks at the tip. -/
  txEnv : TxCheckEnv
  /-- The node hashes of the note commitment trees. -/
  trees : TreeHashes
  /-- `pcoinsTip`. -/
  pcoinsTip : CCoinsView
  /-- `-mempooltxinputlimit`, zero for no limit. -/
  inputLimit : Nat
  /-- `komodo_validate_interest` at the tip, which only the main chain calls. -/
  interestOk : CTransaction → Bool
  /-- The banned inputs and the proofs that `CheckTransaction` looks at. -/
  proofsOk : CTransaction → Bool
  /-- `ContextualCheckTransaction` for the next block. -/
  contextualCheckTransaction : CTransaction → Except String Unit
  /-- `RequireStandard()`. -/
  requireStandard : Bool
  /-- `IsStandardTx`. -/
  isStandardTx : CTransaction → Except String Unit
  /-- `CheckFinalTx`. -/
  checkFinalTx : CTransaction → Bool
  /-- `GetCoinImportValue`. -/
  getCoinImportValue : CTransaction → Int
  /-- The interest that `GetValueIn` adds for an input, on the main chain only. -/
  accruedInterest : COutPoint → Int → Int
  /-- `AreInputsStandard`, given the outputs that the inputs spend. -/
  areInputsStandard : CTransaction → List CTxOut → Bool
  /-- `GetLegacySigOpCount`. -/
  getLegacySigOpCount : CTransaction → Nat
  /-- `GetP2SHSigOpCount`, given the outputs that the inputs spend. -/
  getP2SHSigOpCount : CTransaction → List CTxOut → Nat
  /-- `MAX_STANDARD_TX_SIGOPS`. -/
  maxStandardTxSigops : Nat
  /-- The `-relaypriority` check of a transaction with a fee. -/
  priorityOk : CTransaction → List CCoins → Int → Bool
  /-- `minRelayTxFee.GetFee`. -/
  minRelayFee : Nat → Int
  /-- `ContextualCheckInputs` with the standard and with the mandatory flags. -/
  contextualCheckInputs : CCoinsView → CTransaction → Bool

/-- `HaveCoins` of a cache over the view. -/
def CCoinsView.haveCoins (v : CCoinsView) (txid : Uint256) : Bool :=
  match v.getCoins txid with
  | some k => !k.vout.isEmpty
  | none => false

/-- No transaction of the pool spends an output or reveals a nullifier of this one. -/
def CTxMemPool.conflictFree (pool : CTxMemPool) (tx : CTransaction) : Bool :=
  (tx.inputOutpoints.all fun o => (pool.mapNextTx o).isNone) &&
    [ShieldedType.sprout, .sapling].all fun ty =>
      (tx.nullifiers ty).all fun nf => (pool.mapNullifiers ty nf).isNone

/-- The burn of an import has not been redeemed, and the inputs of any other transaction
are there. -/
def CCoinsView.inputsThere (v : CCoinsView) (tx : CTransaction) (fSkipExpiry : Bool) :
    Except String Unit :=
  if tx.isCoinImport then
    require (tx.inputOutpoints.all fun o => !v.haveCoins o.hash) "import tombstone exists"
  else do
    orSkip fSkipExpiry (require (tx.inputOutpoints.all fun o => v.haveCoins o.hash)
      "bad-txns-inputs-missing")
    orSkip fSkipExpiry (require (v.haveInputs tx) "bad-txns-inputs-spent")

/-- `GetOutputFor` for each input; `none` when its assertion fails. An import reads no
coins. -/
def CCoinsView.inputCoins (v : CCoinsView) (tx : CTransaction) : Option (List CCoins) :=
  if tx.isCoinImport then some []
  else tx.inputOutpoints.mapM fun o => (v.getCoins o.hash).filter fun k => k.isAvailable o.n.toNat

namespace PoolEnv

variable (env : PoolEnv)

/-- The checks of a transaction on its own. -/
def contextFree (tx : CTransaction) (fSkipExpiry : Bool) : Except String Unit := do
  require (!(decide (0 < env.inputLimit) && decide (env.inputLimit < tx.vin.length))) ""
  require (env.interestOk tx) ""
  env.txEnv.checkTransaction tx
  require (env.proofsOk tx) ""
  orSkip fSkipExpiry (env.contextualCheckTransaction tx)
  require (!tx.isCoinBase) "coinbase"
  orSkip fSkipExpiry (if env.requireStandard then env.isStandardTx tx else .ok ())
  orSkip fSkipExpiry (require (env.checkFinalTx tx) "non-final")

/-- The coins of the pool over those of the tip. -/
def view (pool : CTxMemPool) : CCoinsView :=
  CTxMemPool.viewMemPool env.pcoinsTip pool

/-- The checks before the values of the inputs are read. -/
def beforeInputs (pool : CTxMemPool) (tx : CTransaction) (fSkipExpiry : Bool) :
    Except String Unit := do
  require (!pool.contains tx.hash) "already in mempool"
  env.contextFree tx fSkipExpiry
  orSkip fSkipExpiry (require (pool.conflictFree tx) "")
  require (!(env.view pool).haveCoins tx.hash) "already have coins"
  (env.view pool).inputsThere tx fSkipExpiry
  require ((env.view pool).haveJoinSplitRequirements env.trees tx)
    "bad-txns-joinsplit-requirements-not-met"

/-- The outputs that the inputs spend. -/
def outputsFor (tx : CTransaction) (coins : List CCoins) : List CTxOut :=
  (tx.inputOutpoints.zip coins).map fun p => p.2.vout.getD p.1.n.toNat CTxOut.null

/-- `GetValueIn`; `none` when it throws. -/
def getValueIn (tx : CTransaction) (outs : List CTxOut) : Option Int :=
  if tx.isCoinImport then some (env.getCoinImportValue tx)
  else do
    let shielded ← env.txEnv.getShieldedValueIn tx
    let n := (tx.inputOutpoints.zip outs).foldl
      (fun n p => toInt64 (n + p.2.nValue + env.accruedInterest p.1 p.2.nValue)) 0
    return toInt64 (n + shielded)

/-- `KOMODO_VALUETOOBIG`, past the allowance for rewards and fees. -/
def valueTooBig (nValueOut : Int) : Bool :=
  decide (777777 * COIN < nValueOut) && decide (10000000001 * COIN < nValueOut - 777777 * COIN)

/-- The checks of the values, and the fee. -/
def afterInputs (tx : CTransaction) (coins : List CCoins) : Option (Except String Int) := do
  let outs := outputsFor tx coins
  let nValueIn ← env.getValueIn tx outs
  if env.requireStandard && !env.areInputsStandard tx outs then return .error ""
  else if env.maxStandardTxSigops <
      env.getLegacySigOpCount tx + env.getP2SHSigOpCount tx outs then
    return .error "bad-txns-too-many-sigops"
  else do
    let nValueOut ← env.txEnv.getValueOut tx
    let nFees := toInt64 (nValueIn - nValueOut)
    if valueTooBig nValueOut then return .error "tx valueout is too big"
    else if !env.priorityOk tx coins nFees then return .error "insufficient priority"
    else if !tx.isCoinImport &&
        decide (env.minRelayFee (env.txEnv.serializeSize tx) * 10000 < nFees) &&
        decide (nValueOut / 19 < nFees) then
      return .error "AcceptToMemoryPool: absurdly high fees"
    else return .ok nFees

/-- The entry of an accepted transaction. -/
def entryFor (pool : CTxMemPool) (tx : CTransaction) (coins : List CCoins) (nFees : Int)
    (fSkipExpiry : Bool) : CTxMemPoolEntry where
  tx := tx
  nFee := nFees
  nTxSize := env.txEnv.serializeSize tx
  hadNoDependencies := pool.hasNoInputsOf tx
  spendsCoinbase := !fSkipExpiry && coins.any CCoins.fCoinBase

/-- `AcceptToMemoryPool`; `none` when an assertion fails. -/
def acceptToMemoryPool (pool : CTxMemPool) (tx : CTransaction) (fSkipExpiry : Bool) :
    Option (Except String CTxMemPool) :=
  match env.beforeInputs pool tx fSkipExpiry with
  | .error reason => some (.error reason)
  | .ok () => do
    let coins ← (env.view pool).inputCoins tx
    match ← env.afterInputs tx coins with
    | .error reason => return .error reason
    | .ok nFees =>
      if !fSkipExpiry && !env.contextualCheckInputs (env.view pool) tx then return .error ""
      else return .ok (pool.addUnchecked (env.entryFor pool tx coins nFees fSkipExpiry))

/-- `myAddtomempool`: a transaction that is in the pool is not looked at again. -/
def myAddtomempool (pool : CTxMemPool) (tx : CTransaction) (fSkipExpiry : Bool) :
    Option (Except String CTxMemPool) :=
  if (pool.lookup tx.hash).isSome then some (.ok pool)
  else env.acceptToMemoryPool pool tx fSkipExpiry

variable {env} {pool pool' : CTxMemPool} {tx : CTransaction} {fSkipExpiry : Bool} {i j : Nat}
  {o : COutPoint}

/-- An accepted transaction has passed every check, and is in the pool afterwards. -/
theorem accept_cases (h : env.acceptToMemoryPool pool tx fSkipExpiry = some (.ok pool')) :
    env.beforeInputs pool tx fSkipExpiry = .ok () ∧
      ∃ coins nFees entry, (env.view pool).inputCoins tx = some coins ∧
        env.afterInputs tx coins = some (.ok nFees) ∧
        (fSkipExpiry = false → env.contextualCheckInputs (env.view pool) tx = true) ∧
        entry.tx = tx ∧ pool' = pool.addUnchecked entry := by
  unfold acceptToMemoryPool at h
  split at h
  · cases h
  · rename_i hbefore
    refine ⟨hbefore, ?_⟩
    obtain ⟨coins, hcoins, h⟩ := Option.bind_eq_some_iff.1 h
    obtain ⟨verdict, hverdict, h⟩ := Option.bind_eq_some_iff.1 h
    cases verdict with
    | error reason => cases h
    | ok nFees =>
      dsimp only at h
      split at h
      · cases h
      · rename_i hinputs
        refine ⟨coins, nFees, env.entryFor pool tx coins nFees fSkipExpiry, hcoins, hverdict, ?_,
          rfl, ?_⟩
        · rintro rfl
          simpa using hinputs
        · exact (Except.ok.inj (Option.some.inj h)).symm

/-- An accepted transaction was not in the pool. -/
theorem not_contains (h : env.beforeInputs pool tx fSkipExpiry = .ok ()) :
    pool.contains tx.hash = false := by
  unfold beforeInputs at h
  rw [require_bind_eq_ok] at h
  simpa using h.1

end PoolEnv

theorem CTransaction.Spends.index_eq {tx : CTransaction} {i j : Nat} {o : COutPoint}
    (hnodup : tx.inputOutpoints.Nodup) (hi : tx.Spends i o) (hj : tx.Spends j o) : i = j := by
  have hlt : i < tx.inputOutpoints.length := (List.getElem?_eq_some_iff.1 hi.names).1
  exact (List.getElem?_inj hlt hnodup).1 (hi.names.trans hj.names.symm)

namespace PoolEnv

variable {env : PoolEnv} {pool pool' : CTxMemPool} {tx : CTransaction}

end PoolEnv

end IndexChain
