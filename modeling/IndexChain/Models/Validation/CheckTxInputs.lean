import IndexChain.Models.Coins.Reward
import IndexChain.Models.Supply.Interest

/-!
# The value of the inputs, computed twice

`Consensus::CheckTxInputs` of `main.cpp` adds up the values of the inputs with the interest
they have accrued, and `GetValueIn` of `coins.cpp` does it again for the fees of a block.
The first one is told the height of the block that spends, the second one the height of
the tip below it; both start to add interest at the same block.
-/

namespace IndexChain

open IndexChain.Core

/-! ## Accrued interest -/

/-- What `komodo_accrued_interest` reads. -/
structure InterestChain where
  /-- `ASSETCHAINS_SYMBOL[0] == 0`. -/
  mainChain : Bool
  /-- `GetTransaction`, with the hash of the block. -/
  getTransaction : Uint256 → Option (CTransaction × Uint256)
  /-- `komodo_getblockindex`: the height of the block. -/
  blockHeight : Uint256 → Option Int
  /-- The time of `chainActive.LastTip()`, if there is one. -/
  lastTipTime : Option UInt32

/-- `komodo_accrued_interest` without `checkheight`. `komodo_interest_args` clears the time
that the height of the tip stands for and takes that of the last tip. -/
def InterestChain.accruedInterest (chain : InterestChain) (o : COutPoint) (checkvalue : Int)
    (_tipheight : Nat) : Nat :=
  match chain.getTransaction o.hash with
  | none => 0
  | some (tx, hashBlock) => match tx.vout[o.n.toNat]?, chain.blockHeight hashBlock with
    | some out, some txheight =>
      let value := toUint64 out.nValue
      if tx.nLockTime = 0 then 0
      else if toUint64 checkvalue = 0 ∨ value = toUint64 checkvalue then
        Supply.komodoInterest chain.mainChain txheight (UInt64.ofNat value.toNat) tx.nLockTime
          (chain.lastTipTime.getD 0)
      else 0
    | _, _ => 0

/-! ## CheckTxInputs -/

/-- Why `CheckTxInputs` rejects a transaction: the level of misbehaviour and the reason. -/
structure InputsRejected where
  /-- The argument of `state.DoS`, zero for `state.Invalid`. -/
  nDoS : Nat
  /-- `strRejectReason`. -/
  strRejectReason : String
  deriving DecidableEq, Repr

/-- `TotalTxValue`, which counts a spent output as -1. -/
def CCoins.totalTxValue (coins : CCoins) : Int :=
  coins.vout.foldl (fun total out => toInt64 (total + out.nValue)) 0

/-- What `CheckTxInputs` reads beside the view. -/
structure TxInputsEnv extends RewardEnv where
  /-- `ASSETCHAINS_TIMELOCKGTE`. -/
  timelockGte : Int
  /-- `komodo_block_unlocktime`, as it is assigned to `uint64_t`. -/
  blockUnlocktime : Nat → Int
  /-- `COINBASE_MATURITY`. -/
  coinbaseMaturity : Int
  /-- `fCoinbaseEnforcedProtectionEnabled && fCoinbaseMustBeProtected`. -/
  coinbaseMustBeProtected : Bool
  /-- `strcmp(ASSETCHAINS_SYMBOL, "VRSC") == 0`. -/
  vrsc : Bool
  /-- The node hashes of the note commitment trees. -/
  trees : TreeHashes

namespace RewardEnv

variable (env : RewardEnv)

/-- `GetValueIn` at the height of the tip; `none` when it throws or its assertion fails. -/
def getValueIn (tipHeight : Nat) (v : CCoinsView) (tx : CTransaction) : Option Int :=
  if tx.isCoinImport then some (env.getCoinImportValue tx)
  else if tx.isCoinBase then some 0
  else do
    let inputs ← env.txInputs tipHeight v tx
    let shielded ← env.txEnv.getShieldedValueIn tx
    return TxAmounts.getValueIn { inputs := inputs, shielded := shielded, valueout := 0 }

end RewardEnv

namespace TxInputsEnv

variable (env : TxInputsEnv)

/-- The rules for spending an output of a coinbase. -/
def checkCoinbase (nSpendHeight : Nat) (tx : CTransaction) (coins : CCoins) :
    Except InputsRejected Unit :=
  if !coins.fCoinBase then .ok ()
  else if toUint64 env.timelockGte ≤ toUint64 coins.totalTxValue ∧
      (nSpendHeight : Int) < toUint64 (env.blockUnlocktime coins.nHeight) then
    .error ⟨10, "bad-txns-premature-spend-of-coinbase"⟩
  else if (nSpendHeight : Int) - coins.nHeight < env.coinbaseMaturity then
    .error ⟨0, "bad-txns-premature-spend-of-coinbase"⟩
  else if env.coinbaseMustBeProtected &&
      !(tx.vout.isEmpty || (tx.vout.length == 1 && (tx.vout.map CTxOut.nValue).head? == some 0)) &&
      (!env.vrsc || (decide (12800 ≤ nSpendHeight) && decide (12800 ≤ coins.nHeight))) then
    .error ⟨100, "bad-txns-coinbase-spend-has-transparent-outputs"⟩
  else .ok ()

/-- Add the value of an input and its interest to `nValueIn`. -/
def addInput (nSpendHeight : Nat) (o : COutPoint) (nValueIn nValue : Int) : Int :=
  let nValueIn := toInt64 (nValueIn + nValue)
  if env.mainChain && decide (60000 < nSpendHeight) then
    if 10 * COIN ≤ nValue then
      let interest := toInt64 (env.accruedInterest o nValue (nSpendHeight - 1))
      if interest ≠ 0 then toInt64 (nValueIn + interest) else nValueIn
    else nValueIn
  else nValueIn

/-- The loop of `CheckTxInputs`; `none` is a failed assertion. -/
def inputsLoop (nSpendHeight : Nat) (v : CCoinsView) (tx : CTransaction) :
    List COutPoint → Int → Option (Except InputsRejected Int)
  | [], nValueIn => some (.ok nValueIn)
  | o :: rest, nValueIn => match v.getCoins o.hash with
    | none => none
    | some coins => match env.checkCoinbase nSpendHeight tx coins with
      | .error e => some (.error e)
      | .ok () =>
        let nValue := (coins.vout.getD o.n.toNat CTxOut.null).nValue
        let nValueIn := env.addInput nSpendHeight o nValueIn nValue
        if !env.txEnv.moneyRange nValue || !env.txEnv.moneyRange nValueIn then
          some (.error ⟨100, "bad-txns-inputvalues-outofrange"⟩)
        else inputsLoop nSpendHeight v tx rest nValueIn

/-- `nValueIn` of `CheckTxInputs`, with the checks up to the shielded inputs. -/
def nValueIn (nSpendHeight : Nat) (v : CCoinsView) (tx : CTransaction) :
    Option (Except InputsRejected Int) :=
  if !v.haveInputs tx then some (.error ⟨0, ""⟩)
  else if !v.haveJoinSplitRequirements env.trees tx then some (.error ⟨0, ""⟩)
  else match env.inputsLoop nSpendHeight v tx tx.inputOutpoints 0 with
    | none => none
    | some (.error e) => some (.error e)
    | some (.ok nValueIn) => (env.txEnv.getShieldedValueIn tx).map fun shielded =>
      .ok (toInt64 (nValueIn + shielded))

/-- `CheckTxInputs`: the fee, when the transaction passes. -/
def checkTxInputs (nSpendHeight : Nat) (v : CCoinsView) (tx : CTransaction) :
    Option (Except InputsRejected Int) :=
  match env.nValueIn nSpendHeight v tx with
  | none => none
  | some (.error e) => some (.error e)
  | some (.ok nValueIn) =>
    if !env.txEnv.moneyRange nValueIn then
      some (.error ⟨100, "bad-txns-inputvalues-outofrange"⟩)
    else (env.txEnv.getValueOut tx).map fun valueOut =>
      if nValueIn < valueOut then .error ⟨100, "bad-txns-in-belowout"⟩
      else
        let nTxFee := toInt64 (nValueIn - valueOut)
        if nTxFee < 0 then .error ⟨100, "bad-txns-fee-negative"⟩
        else if !env.txEnv.moneyRange (toInt64 (0 + nTxFee)) then
          .error ⟨100, "bad-txns-fee-outofrange"⟩
        else .ok nTxFee

/-! ## Both sums agree -/

variable {env : TxInputsEnv} {v : CCoinsView} {tx : CTransaction} {tipHeight : Nat}

/-- Both functions start to add interest at the same block. -/
theorem addInput_eq (o : COutPoint) (n nValue : Int) :
    env.addInput (tipHeight + 1) o n nValue =
      toInt64 (toInt64 (n + nValue) + env.inputInterest tipHeight o nValue) := by
  have hheight : 60000 < tipHeight + 1 ↔ 60000 ≤ tipHeight := Nat.lt_succ_iff
  unfold addInput RewardEnv.inputInterest
  rw [Nat.add_sub_cancel]
  simp only [hheight, Bool.and_eq_true]
  by_cases hon : env.mainChain = true ∧ decide (60000 ≤ tipHeight) = true
  · by_cases hvalue : 10 * COIN ≤ nValue
    · have hdue : (env.mainChain = true ∧ decide (60000 ≤ tipHeight) = true) ∧
          decide (10 * COIN ≤ nValue) = true := ⟨hon, decide_eq_true hvalue⟩
      rw [if_pos hon, if_pos hvalue, if_pos hdue]
      by_cases hzero : toInt64 (env.accruedInterest o nValue tipHeight) = 0
      · rw [if_neg (not_not.2 hzero), ← toInt64_add_right _ (env.accruedInterest o nValue
        tipHeight),
          hzero, Int.add_zero, toInt64_toInt64]
      · rw [if_pos hzero, toInt64_add_right]
    · have hoff : ¬ ((env.mainChain = true ∧ decide (60000 ≤ tipHeight) = true) ∧
          decide (10 * COIN ≤ nValue) = true) := fun h => hvalue (of_decide_eq_true h.2)
      rw [if_pos hon, if_neg hvalue, if_neg hoff, Int.add_zero, toInt64_toInt64]
  · rw [if_neg hon, if_neg fun h => hon h.1, Int.add_zero, toInt64_toInt64]

/-- The loops over the inputs add up the same amounts. -/
theorem inputsLoop_ok {os : List COutPoint} {n r : Int}
    (havail : ∀ o ∈ os, ∃ coins, v.getCoins o.hash = some coins ∧
      coins.isAvailable o.n.toNat = true)
    (h : env.inputsLoop (tipHeight + 1) v tx os n = some (.ok r)) :
    ∃ coins, (os.mapM fun o => (v.getCoins o.hash).filter fun k => k.isAvailable o.n.toNat) =
        some coins ∧
      ((os.zip ((os.zip coins).map fun p => p.2.vout.getD p.1.n.toNat CTxOut.null)).map fun p =>
        (p.2.nValue, env.inputInterest tipHeight p.1 p.2.nValue)).foldl
          (fun n p => toInt64 (toInt64 (n + p.1) + p.2)) n = r := by
  induction os generalizing n with
  | nil =>
    cases h
    exact ⟨[], rfl, rfl⟩
  | cons o rest ih =>
    obtain ⟨k, hk, hfree⟩ := havail o List.mem_cons_self
    unfold inputsLoop at h
    rw [hk] at h
    dsimp only at h
    split at h
    · cases h
    · split at h
      · cases h
      · obtain ⟨coins, hcoins, hfold⟩ := ih (fun o' ho' => havail o' (List.mem_cons_of_mem o ho')) h
        refine ⟨k :: coins, ?_, ?_⟩
        · rw [List.mapM_cons, hk, Option.filter_some, if_pos hfree, hcoins]
          rfl
        · rw [addInput_eq] at hfold
          exact hfold

/-- The inputs of a transaction that is not minted are there. -/
theorem available_of_haveInputs (hmint : tx.isMint = false) (h : v.haveInputs tx = true) :
    ∀ o ∈ tx.inputOutpoints, ∃ coins, v.getCoins o.hash = some coins ∧
      coins.isAvailable o.n.toNat = true := by
  intro o ho
  obtain ⟨txin, htxin, rfl⟩ := List.mem_map.1 ho
  unfold CCoinsView.haveInputs at h
  rw [hmint, Bool.false_or, List.all_eq_true] at h
  have hin := h txin htxin
  split at hin
  · rename_i k hk
    exact ⟨k, hk, hin⟩
  · cases hin

/-- What `CheckTxInputs` accumulates above a tip is what `GetValueIn` returns at it. -/
theorem getValueIn_of_nValueIn (hmint : tx.isMint = false) {nValueIn : Int}
    (h : env.nValueIn (tipHeight + 1) v tx = some (.ok nValueIn)) :
    env.getValueIn tipHeight v tx = some nValueIn := by
  obtain ⟨himport, hbase⟩ := Bool.or_eq_false_iff.1 hmint
  unfold TxInputsEnv.nValueIn at h
  split at h
  · cases h
  · rename_i hhave
    rw [Bool.not_eq_true, Bool.not_eq_false'] at hhave
    split at h
    · cases h
    · split at h
      · cases h
      · cases h
      · rename_i sum hloop
        obtain ⟨shielded, hshielded, hsum⟩ := Option.map_eq_some_iff.1 h
        cases hsum
        obtain ⟨coins, hcoins, hfold⟩ := inputsLoop_ok (available_of_haveInputs hmint hhave) hloop
        have hinputs : v.inputCoins tx = some coins := by
          unfold CCoinsView.inputCoins
          rw [himport]
          exact hcoins
        unfold RewardEnv.getValueIn RewardEnv.txInputs
        rw [himport, hbase, hinputs, hshielded]
        exact congrArg (fun n => some (toInt64 (n + shielded))) hfold

/-- The value that `ConnectBlock` takes the fee from is that of `GetValueIn`. -/
theorem getValueIn_of_txAmounts (hmint : tx.isMint = false) {a : TxAmounts}
    (h : env.txAmounts tipHeight v tx = some [a]) :
    env.getValueIn tipHeight v tx = some a.getValueIn ∧
      env.txEnv.getValueOut tx = some a.valueout := by
  obtain ⟨himport, hbase⟩ := Bool.or_eq_false_iff.1 hmint
  unfold RewardEnv.txAmounts at h
  obtain ⟨valueout, hvalueout, h⟩ := Option.bind_eq_some_iff.1 h
  obtain ⟨-, -, h⟩ := Option.bind_eq_some_iff.1 h
  rw [himport, hbase] at h
  obtain ⟨inputs, hinputs, h⟩ := Option.bind_eq_some_iff.1 h
  obtain ⟨shielded, hshielded, h⟩ := Option.bind_eq_some_iff.1 h
  cases h
  refine ⟨?_, hvalueout⟩
  unfold RewardEnv.getValueIn
  rw [himport, hbase, hinputs, hshielded]
  rfl

/-- For a transaction that is not minted, the value of the inputs that `CheckTxInputs`
accumulates at the height above the tip is what `GetValueIn` returns at the tip, and the fee
that passes is the one that is added to the fees of the block. -/
theorem getValueIn_agrees (env : TxInputsEnv) (v : CCoinsView) (tx : CTransaction)
    (tipHeight : Nat) (hmint : tx.isMint = false) :
    (∀ nValueIn, env.nValueIn (tipHeight + 1) v tx = some (.ok nValueIn) →
      env.getValueIn tipHeight v tx = some nValueIn) ∧
    ∀ nTxFee, env.checkTxInputs (tipHeight + 1) v tx = some (.ok nTxFee) →
      ∀ a, env.txAmounts tipHeight v tx = some [a] →
        ∀ r : RewardSums, (r.add a).nFees = toInt64 (r.nFees + nTxFee) := by
  refine ⟨fun nValueIn => getValueIn_of_nValueIn hmint, ?_⟩
  intro nTxFee h a ha r
  obtain ⟨hin, hout⟩ := getValueIn_of_txAmounts hmint ha
  unfold checkTxInputs at h
  split at h
  · cases h
  · cases h
  · rename_i nValueIn hnValueIn
    rw [getValueIn_of_nValueIn hmint hnValueIn] at hin
    cases hin
    rw [hout] at h
    split at h
    · cases h
    · have hfee := Option.some.inj h
      dsimp only at hfee
      split at hfee
      · cases hfee
      · split at hfee
        · cases hfee
        · split at hfee
          · cases hfee
          · cases hfee
            unfold RewardSums.add
            dsimp only
            rw [toInt64_add_toUint64, toInt64_add_right]

end TxInputsEnv

namespace OldOutput

/-- The transaction of an output of 100 coins with a lock time. -/
def funding : CTransaction :=
  { hash := 5
    vout := [{ nValue := 10000000000, scriptPubKey := [0x51] }]
    nLockTime := 1470000000 }

/-- The main chain two years later. -/
def chain : InterestChain where
  mainChain := true
  getTransaction := fun id => if id = 5 then some (funding, 6) else none
  blockHeight := fun hash => if hash = 6 then some 1 else none
  lastTipTime := some 1540000000

/-- A node on it, without limits for coinbases. -/
def env : TxInputsEnv where
  toRewardEnv := { DoubleInterest.env with accruedInterest := chain.accruedInterest }
  timelockGte := -1
  blockUnlocktime := fun _ => 0
  coinbaseMaturity := 100
  coinbaseMustBeProtected := true
  vrsc := false
  trees := SampleChain.env.trees

theorem nValueIn_spend :
    env.nValueIn (900000 + 1) DoubleInterest.base DoubleInterest.spend =
      some (.ok 10500000000) := by
  decide +kernel

end OldOutput

open OldOutput in
/-- 100 coins with five coins of interest. -/
theorem getValueIn_agrees_interest :
    env.getValueIn 900000 DoubleInterest.base DoubleInterest.spend = some 10500000000 :=
  (TxInputsEnv.getValueIn_agrees env DoubleInterest.base DoubleInterest.spend 900000
    (by decide)).1 _ nValueIn_spend

end IndexChain
