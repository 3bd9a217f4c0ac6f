import IndexChain.Core.Words
import IndexChain.Models.CC.Payments
import Mathlib.Tactic.Push
import Mathlib.Tactic.Positivity
import Mathlib.Tactic.NormNum

/-!
# The rewards contract

`RewardsValidate` of `cc/rewards.cpp`. A plan is funded, funds are locked under it, and
an unlock takes them back with a reward out of the funding. `RewardsCalc` multiplies the
amount by the duration in 64 bits, so a long lock of a large amount earns next to
nothing (`rewardsCalc_iff`).
-/

namespace IndexChain

open IndexChain.Core

/-- `EVAL_REWARDS`. -/
def evalRewards : UInt8 := 0xe5

/-- `REWARDSCC_MAXAPR`. -/
def rewardsccMaxapr : Nat := 2500000000

/-- `txfee`. -/
def rewardsTxfee : Int := 10000

/-! ## Op_returns -/

/-- The functions of a rewards op_return. -/
inductive RewardsFuncId where
  | createFunding
  | addFunding
  | lock
  | unlock
  deriving DecidableEq, Repr

/-- The letter of a function. -/
def RewardsFuncId.byte : RewardsFuncId → UInt8
  | createFunding => 0x46
  | addFunding => 0x41
  | lock => 0x4c
  | unlock => 0x55

/-- The function with a letter, for the op_returns that follow the creation of a plan. -/
def RewardsFuncId.ofByte (b : UInt8) : Option RewardsFuncId :=
  [lock, unlock, addFunding].find? fun f => f.byte == b

/-- What the op_return of a plan says. -/
structure RewardsPlan where
  /-- The name of the plan. -/
  sbits : UInt64
  /-- The yearly rate, `10 ^ 6` for a hundredth of a percent. -/
  APR : UInt64
  /-- Locks that are shorter earn nothing. -/
  minseconds : UInt64
  /-- Locks that are longer earn no more. -/
  maxseconds : UInt64
  /-- The least amount of a lock. -/
  mindeposit : UInt64
  deriving DecidableEq, Repr

/-- What the other rewards op_returns say. -/
structure RewardsOpret where
  /-- The function. -/
  funcid : RewardsFuncId
  /-- The name of the plan. -/
  sbits : UInt64
  /-- The transaction that created the plan. -/
  fundingtxid : Uint256
  deriving DecidableEq, Repr

/-- Read an unsigned 64-bit number. -/
def readUint64 : Reader UInt64 := do
  let x ← Reader.nat 8
  return UInt64.ofNat x

/-- The fields of a plan. -/
def readRewardsPlan : Reader (UInt8 × UInt8 × RewardsPlan) := do
  let e ← Reader.byte
  let f ← Reader.byte
  let sbits ← readUint64
  let APR ← readUint64
  let minseconds ← readUint64
  let maxseconds ← readUint64
  let mindeposit ← readUint64
  return (e, f, { sbits, APR, minseconds, maxseconds, mindeposit })

/-- `DecodeRewardsFundingOpRet`. -/
def decodeRewardsFundingOpRet (scriptPubKey : CScript) : Option RewardsPlan :=
  let vopret := CScript.getOpReturnData scriptPubKey
  if 2 < vopret.length then
    match Reader.unmarshal readRewardsPlan vopret with
    | some (e, f, plan) =>
      if e = evalRewards ∧ f = RewardsFuncId.createFunding.byte then some plan else none
    | none => none
  else none

/-- The fields of the other op_returns. -/
def readRewardsOpret : Reader (Option RewardsOpret) := do
  let _ ← Reader.byte
  let f ← Reader.byte
  let sbits ← readUint64
  let fundingtxid ← readUint256
  return (RewardsFuncId.ofByte f).map fun funcid => { funcid, sbits, fundingtxid }

/-- `DecodeRewardsOpRet`. -/
def decodeRewardsOpRet (txid : Uint256) (scriptPubKey : CScript) : Option RewardsOpret :=
  let vopret := CScript.getOpReturnData scriptPubKey
  if 2 < vopret.length ∧ vopret[0]? = some evalRewards then
    if vopret[1]? = some RewardsFuncId.createFunding.byte then
      (Reader.unmarshal readRewardsPlan vopret).map fun r =>
        { funcid := .createFunding, sbits := r.2.2.sbits, fundingtxid := txid }
    else (Reader.unmarshal readRewardsOpret vopret).join
  else none

/-- The op_return of a rewards transaction is its last output. -/
def rewardsOpretOf (tx : CTransaction) : Option RewardsOpret :=
  tx.vout.getLast?.bind fun out => decodeRewardsOpRet tx.hash out.scriptPubKey

/-! ## The reward -/

/-- `RewardsCalc` for a lock of the given duration. All operands are unsigned. -/
def rewardsCalc (amount : Int) (APR minseconds maxseconds duration : Nat) : Int :=
  if duration < minseconds then 0
  else
    let duration := if maxseconds < duration then maxseconds else duration
    let years := toUint64 (toUint64 amount * duration) / (365 * 24 * 3600)
    let reward := toUint64 (years * (APR / 1000000 : Nat)) / 10000
    toInt64 (if toUint64 amount < reward then toUint64 amount else reward)

/-- A reward computed from the product of amount and duration, at most the amount. -/
def rewardOn (amount rate product : Nat) : Nat :=
  min amount (product / 31536000 * rate / 10000)

/-- The reward in exact arithmetic. -/
def exactReward (amount APR minseconds maxseconds duration : Nat) : Nat :=
  if duration < minseconds then 0
  else rewardOn amount (APR / 1000000) (amount * min duration maxseconds)

theorem rewardOn_le_of_le {amount rate product product' : Nat} (h : product ≤ product') :
    rewardOn amount rate product ≤ rewardOn amount rate product' := by
  have hdiv : product / 31536000 * rate ≤ product' / 31536000 * rate :=
    Nat.mul_le_mul_right rate (Nat.div_le_div_right h)
  have hquot := Nat.div_le_div_right (c := 10000) hdiv
  unfold rewardOn
  omega

/-- A longer lock earns at least as much. -/
theorem exactReward_mono {amount APR minseconds maxseconds d d' : Nat} (h : d ≤ d') :
    exactReward amount APR minseconds maxseconds d ≤
      exactReward amount APR minseconds maxseconds d' := by
  have hprod : amount * min d maxseconds ≤ amount * min d' maxseconds :=
    Nat.mul_le_mul_left amount (by omega)
  have hle : rewardOn amount (APR / 1000000) _ ≤ rewardOn amount (APR / 1000000) _ :=
    rewardOn_le_of_le hprod
  unfold exactReward
  split
  · exact Nat.zero_le _
  · rw [if_neg (by omega)]
    exact hle

/-- Only the product of amount and duration is reduced to 64 bits. -/
theorem rewardsCalc_eq {amount APR : Nat} (hamount : amount < 2 ^ 63)
    (hAPR : APR ≤ rewardsccMaxapr) (minseconds maxseconds duration : Nat) :
    rewardsCalc amount APR minseconds maxseconds duration =
      if duration < minseconds then 0
      else (rewardOn amount (APR / 1000000) (amount * min duration maxseconds % 2 ^ 64) : Nat) := by
  unfold rewardsCalc
  split
  · rfl
  · have hd : (if maxseconds < duration then maxseconds else duration) =
        min duration maxseconds := by
      split <;> omega
    have hself : toUint64 (amount : Int) = amount := toUint64_of_range (by omega) (by omega)
    rw [hd, hself]
    generalize min duration maxseconds = d
    have hproduct : toUint64 ((amount : Int) * d) = ((amount * d % 2 ^ 64 : Nat) : Int) := by
      unfold toUint64
      push_cast
      rfl
    have hlt : amount * d % 2 ^ 64 < 2 ^ 64 := Nat.mod_lt _ (by decide)
    generalize amount * d % 2 ^ 64 = product at hproduct hlt
    unfold rewardsccMaxapr at hAPR
    have hrate : APR / 1000000 ≤ 2500 := by omega
    generalize APR / 1000000 = rate at hrate
    -- the product with the rate fits
    have hyears : product / 31536000 * rate ≤ 584942417355 * 2500 :=
      Nat.mul_le_mul (by omega) hrate
    have hscaled : toUint64 (((product / 31536000 : Nat) : Int) * rate) =
        ((product / 31536000 * rate : Nat) : Int) := by
      rw [Nat.cast_mul]
      refine toUint64_of_range (by positivity) ?_
      calc ((product / 31536000 : Nat) : Int) * rate =
            ((product / 31536000 * rate : Nat) : Int) := (Nat.cast_mul _ _).symm
        _ ≤ (584942417355 * 2500 : Nat) := by exact_mod_cast hyears
        _ < 2 ^ 64 := by norm_num
    have hseconds : ((365 * 24 * 3600 : Int)) = ((31536000 : Nat) : Int) := by norm_num
    dsimp only
    rw [hproduct, hseconds, ← Int.natCast_ediv, hscaled]
    unfold rewardOn
    have hten : (10000 : Int) = ((10000 : Nat) : Int) := rfl
    rw [hten, ← Int.natCast_ediv]
    generalize product / 31536000 * rate / 10000 = reward
    have hmin : (if (amount : Int) < (reward : Int) then (amount : Int) else reward) =
        ((min amount reward : Nat) : Int) := by
      split <;> omega
    rw [hmin]
    exact toInt64_of_range (by omega) (by omega)

/-- When the product wraps for the first time, the reward collapses. -/
theorem rewardOn_wrapped_lt {amount rate rest : Nat} (hrest : rest < amount) (hrate : 1 ≤ rate)
    (hle : rate ≤ 2500) : rewardOn amount rate rest < rewardOn amount rate (2 ^ 64 + rest) := by
  have hsmall : rest / 31536000 * rate / 10000 < amount := by
    have hmul : rest / 31536000 * rate ≤ rest / 31536000 * 2500 := Nat.mul_le_mul_left _ hle
    omega
  have hlarge : rest / 31536000 * rate / 10000 < (2 ^ 64 + rest) / 31536000 * rate / 10000 := by
    have hyears : rest / 31536000 + 10000 ≤ (2 ^ 64 + rest) / 31536000 := by omega
    have hmul : (rest / 31536000 + 10000) * rate ≤ (2 ^ 64 + rest) / 31536000 * rate :=
      Nat.mul_le_mul_right rate hyears
    rw [Nat.add_mul] at hmul
    omega
  unfold rewardOn
  omega

/-- The first multiple of an amount that reaches a bound. -/
theorem exists_first_multiple {amount bound longest : Nat} (hpos : 0 < amount)
    (hreach : bound ≤ amount * longest) :
    ∃ d ≤ longest, bound ≤ amount * d ∧ amount * d < bound + amount := by
  induction longest with
  | zero => exact ⟨0, le_rfl, hreach, by omega⟩
  | succ longest ih =>
    by_cases hbefore : bound ≤ amount * longest
    · obtain ⟨d, hd, hlow, hhigh⟩ := ih hbefore
      exact ⟨d, by omega, hlow, hhigh⟩
    · refine ⟨longest + 1, le_rfl, hreach, ?_⟩
      rw [Nat.mul_add]
      omega

/-- The reward is exact as long as the rate is null or the product fits. -/
theorem rewardsCalc_exact {amount APR maxseconds longest minseconds duration : Nat}
    (hamount : amount < 2 ^ 63) (hAPR : APR ≤ rewardsccMaxapr)
    (hcase : APR < 1000000 ∨ amount * min maxseconds longest < 2 ^ 64)
    (hle : duration ≤ longest) : rewardsCalc amount APR minseconds maxseconds duration =
      exactReward amount APR minseconds maxseconds duration := by
  rw [rewardsCalc_eq hamount hAPR, exactReward]
  split
  · rfl
  · rcases hcase with hrate | hfits
    · have hzero : APR / 1000000 = 0 := by omega
      rw [hzero]
      simp [rewardOn]
    · have hmul : amount * min duration maxseconds ≤ amount * min maxseconds longest :=
        Nat.mul_le_mul_left amount (by omega)
      rw [Nat.mod_eq_of_lt (by omega)]

/-- For a given amount, rate and cap, the reward of every lock that is at most `longest`
seconds old is exact, and grows with the duration, exactly when the rate is null or the
product of amount and duration fits 64 bits. -/
theorem rewardsCalc_iff {maxMoney : Int} {amount APR maxseconds longest : Nat}
    (hmax : maxMoney < 2 ^ 63) (hamount : MoneyRange maxMoney amount)
    (hAPR : APR ≤ rewardsccMaxapr) :
    ((∀ minseconds duration, duration ≤ longest →
        rewardsCalc amount APR minseconds maxseconds duration =
          exactReward amount APR minseconds maxseconds duration) ∧
      ∀ minseconds d d', d ≤ d' → d' ≤ longest →
        rewardsCalc amount APR minseconds maxseconds d ≤
          rewardsCalc amount APR minseconds maxseconds d') ↔
    APR < 1000000 ∨ amount * min maxseconds longest < 2 ^ 64 := by
  have hamount63 : amount < 2 ^ 63 := by
    have := hamount.2
    omega
  have hrateLe : APR / 1000000 ≤ 2500 := by
    unfold rewardsccMaxapr at hAPR
    omega
  constructor
  · rintro ⟨hexact, -⟩
    by_contra hnot
    push Not at hnot
    obtain ⟨hrate, hwrap⟩ := hnot
    have hpos : 0 < amount := by
      rcases Nat.eq_zero_or_pos amount with rfl | h
      · omega
      · exact h
    -- the shortest duration at which the product wraps
    obtain ⟨d, hdle, hlow, hhigh⟩ := exists_first_multiple hpos hwrap
    have hd1 : d ≤ longest := by omega
    have heq := hexact 0 d hd1
    rw [rewardsCalc_eq hamount63 hAPR, exactReward, if_neg (by omega), if_neg (by omega)] at heq
    have hmin : min d maxseconds = d := by omega
    rw [hmin] at heq
    obtain ⟨rest, hrest⟩ : ∃ rest, amount * d = 2 ^ 64 + rest := ⟨amount * d - 2 ^ 64, by omega⟩
    have hmod : amount * d % 2 ^ 64 = rest := by omega
    have hlt : rewardOn amount (APR / 1000000) rest <
        rewardOn amount (APR / 1000000) (2 ^ 64 + rest) :=
      rewardOn_wrapped_lt (by omega) (by omega) hrateLe
    rw [hmod, hrest] at heq
    have heq' := Nat.cast_injective heq
    omega
  · intro hcase
    have hexact : ∀ minseconds duration, duration ≤ longest →
        rewardsCalc amount APR minseconds maxseconds duration =
          exactReward amount APR minseconds maxseconds duration :=
      fun _ _ hle => rewardsCalc_exact hamount63 hAPR hcase hle
    refine ⟨hexact, fun minseconds d d' hdd' hle => ?_⟩
    rw [hexact minseconds d (by omega), hexact minseconds d' hle]
    exact_mod_cast exactReward_mono hdd'

/-- A thousand coins that are locked for a month. -/
theorem rewardsCalc_month :
    (∀ minseconds duration, duration ≤ 2592000 →
      rewardsCalc (100000000000 : Nat) 500000000 minseconds 2592000 duration =
        exactReward 100000000000 500000000 minseconds 2592000 duration) ∧
    ∀ minseconds d d', d ≤ d' → d' ≤ 2592000 →
      rewardsCalc (100000000000 : Nat) 500000000 minseconds 2592000 d ≤
        rewardsCalc (100000000000 : Nat) 500000000 minseconds 2592000 d' :=
  (rewardsCalc_iff (by decide : (20000000000000000 : Int) < 2 ^ 63) (by decide) (by decide)).2
    (.inr (by decide))

/-- A hundred million coins earn less in an hour than in half an hour. -/
theorem rewardsCalc_hour :
    rewardsCalc (10000000000000000 : Nat) 2500000000 0 31536000 1800 = 142694063926 ∧
    rewardsCalc (10000000000000000 : Nat) 2500000000 0 31536000 3600 = 139152523515 ∧
    exactReward 10000000000000000 2500000000 0 31536000 3600 = 285388127853 := by
  decide

/-! ## Validation -/

/-- What the rewards contract reads besides transactions. -/
structure RewardsEnv extends CCEnv where
  /-- The height and the time of the block of a transaction; none while it is in the
  mempool. -/
  txBlock : Uint256 → Option (UInt32 × UInt32)
  /-- The height and the time of the tip. -/
  tip : UInt32 × UInt32
  /-- `GetValueIn`. -/
  getValueIn : CTransaction → Int
  /-- What the variables of a plan hold before one is decoded. -/
  uninitPlan : RewardsPlan

namespace RewardsEnv

variable (env : RewardsEnv)

/-- `CCduration`. -/
def ccDuration (txid : Uint256) : UInt32 :=
  if (env.getTransaction txid).isSome then
    match env.txBlock txid with
    | none => 0
    | some (txheight, txtime) =>
      if txtime = 0 ∨ txheight = 0 ∨ env.tip.2 < txtime ∨ env.tip.1 ≤ txheight then 0
      else env.tip.2 - txtime
  else 0

/-- The reward of a lock under a plan. -/
def rewardOf (plan : RewardsPlan) (locktxid : Uint256) (amount : Int) : Int :=
  rewardsCalc amount plan.APR.toNat plan.minseconds.toNat plan.maxseconds.toNat
    (env.ccDuration locktxid).toNat

/-- `CheckTxFee`. The comparison is between unsigned numbers. -/
def checkTxFee (tx : CTransaction) (txfee : Int) : Bool :=
  decide (0 ≤ env.getValueIn tx - tx.getValueOut) &&
    decide (env.getValueIn tx - tx.getValueOut ≤ txfee)

/-- `IsRewardsvout`: what an output of a transaction counts for in the pool of a plan. -/
def isRewardsvout (tx : CTransaction) (out : CTxOut) (refsbits : UInt64)
    (reffundingtxid : Uint256) : Int :=
  if CScript.isPayToCryptoCondition out.scriptPubKey &&
      (rewardsOpretOf tx).any (fun o => o.sbits == refsbits &&
        (o.fundingtxid == reffundingtxid || tx.hash == reffundingtxid)) &&
      env.scriptAddress out.scriptPubKey == some (env.unspendableCCaddr evalRewards) then
    out.nValue
  else 0

/-- What an input takes out of the pool of a plan. -/
def rewardsvin (refsbits : UInt64) (reffundingtxid : Uint256) (txin : CTxIn) :
    Except Failure Int :=
  if env.isMyVin evalRewards txin.scriptSig then
    match env.getTransaction txin.prevout.hash with
    | none => .error (.invalid "always should find vin, but didnt")
    | some vinTx => do
      require (env.txBlock txin.prevout.hash).isSome (.invalid "cant rewards from mempool")
      let out ← vinTx.spent txin.prevout.n.toNat
      return env.isRewardsvout vinTx out refsbits reffundingtxid
  else .ok 0

/-- `RewardsExactAmounts`. -/
def rewardsExactAmounts (tx : CTransaction) (txfee : Int) (refsbits : UInt64)
    (reffundingtxid : Uint256) : Except Failure Unit := do
  let inputs ← tx.vin.mapM (env.rewardsvin refsbits reffundingtxid)
  let outputs := (tx.vout.map fun out => env.isRewardsvout tx out refsbits reffundingtxid).sum
  require (toUint64 inputs.sum == toUint64 (outputs + txfee))
    (.invalid "mismatched inputs != outputs + txfee")

/-- The plan of a transaction. The variables are shared with the decoder of the
transaction itself, and a plan transaction without outputs leaves them as they are. -/
def planOf (o : RewardsOpret) : Except Failure RewardsPlan :=
  match env.getTransaction o.fundingtxid with
  | none => .error (.invalid "cant find fundingtxid")
  | some fundingTx => match fundingTx.vout.getLast? with
    | none => .ok { env.uninitPlan with sbits := o.sbits }
    | some out => match decodeRewardsFundingOpRet out.scriptPubKey with
      | none => .error (.invalid "fundingTx not valid")
      | some plan => .ok plan

/-- The op_return of an earlier transaction. -/
def spentOpret (txid : Uint256) (vinTx : CTransaction) : Except Failure (Option RewardsOpret) := do
  let out ← vinTx.spent (vinTx.vout.length - 1)
  return decodeRewardsOpRet txid out.scriptPubKey

/-- Case `'U'` up to the reward: the lock transaction. -/
def unlockLock (tx : CTransaction) (o : RewardsOpret) :
    Except Failure (Uint256 × CTransaction) := do
  let vin0 ← tx.inp 0
  require (o.fundingtxid != vin0.prevout.hash) (.invalid "cant unlock fundingtxid")
  match env.getTransaction vin0.prevout.hash with
  | none => .error (.invalid "always should find vin.0, but didnt")
  | some vinTx => do
    let lock ← spentOpret vin0.prevout.hash vinTx
    require (lock.any fun l => l.funcid == .lock) (.invalid "can only unlock locktxid")
    require (lock.any fun l => o.fundingtxid == l.fundingtxid)
      (.invalid "mismatched vinfundingtxid")
    require (tx.vin.all fun txin => env.isMyVin evalRewards txin.scriptSig)
      (.invalid "unexpected normal vin for unlock")
    require (env.checkTxFee tx rewardsTxfee) (.invalid "txfee is too high")
    return (vin0.prevout.hash, vinTx)

/-- Case `'U'` when a lock is taken back without a reward. -/
def unlockRecover (tx vinTx : CTransaction) : Except Failure Unit := do
  let vout1 ← tx.out 1
  require (vout1.nValue == 10000) (.invalid "wrong marker vout value")
  let vout0 ← tx.out 0
  require (vout1.scriptPubKey == vout0.scriptPubKey)
    (.invalid "unlock recover tx vout.1 mismatched scriptPubKey")
  let lock1 ← vinTx.spent 1
  require (vout0.scriptPubKey == lock1.scriptPubKey)
    (.invalid "unlock recover tx vout.0 mismatched scriptPubKey")
  let lock0 ← vinTx.spent 0
  require (decide (vout0.nValue ≤ lock0.nValue))
    (.invalid "unlock recover tx vout.0 mismatched amounts")
  let vout2 ← tx.out 2
  require (decide (vout2.nValue ≤ 0)) (.invalid "unlock recover tx vout.1 nonz amount")

/-- Case `'U'` when a lock is paid out with its reward. -/
def unlockPay (tx vinTx : CTransaction) (plan : RewardsPlan) (fundingtxid : Uint256)
    (amount reward : Int) : Except Failure Unit := do
  let lock0 ← vinTx.spent 0
  require (CScript.isPayToCryptoCondition lock0.scriptPubKey)
    (.invalid "unlock tx vout.0 is normal output")
  require (tx.vout.length == 3) (.invalid "unlock tx wrong number of vouts")
  let vout0 ← tx.out 0
  require (CScript.isPayToCryptoCondition vout0.scriptPubKey)
    (.invalid "unlock tx vout.0 is normal output")
  let vout1 ← tx.out 1
  require (!CScript.isPayToCryptoCondition vout1.scriptPubKey)
    (.invalid "unlock tx vout.1 is CC output")
  let lock1 ← vinTx.spent 1
  require (vout1.scriptPubKey == lock1.scriptPubKey)
    (.invalid "unlock tx vout.1 mismatched scriptPubKey")
  env.rewardsExactAmounts tx (rewardsTxfee + vout1.nValue) plan.sbits fundingtxid
  require (decide (toUint64 vout1.nValue ≤ toUint64 (amount + reward)))
    (.invalid "unlock tx vout.1 isnt amount+reward")
  let vout2 ← tx.out 2
  require (decide (vout2.nValue ≤ 0)) (.invalid "unlock tx vout.2 isnt 0")
  env.preventCC tx none (some 1)

/-- Case `'U'` of `RewardsValidate`. The amount is that of output 0 of the lock
transaction, whichever of its outputs is spent. -/
def unlock (tx : CTransaction) (o : RewardsOpret) (plan : RewardsPlan) : Except Failure Unit := do
  let (locktxid, vinTx) ← env.unlockLock tx o
  let lock0 ← vinTx.spent 0
  let amount := lock0.nValue
  let reward := env.rewardOf plan locktxid amount
  require (reward != 0) (.invalid "no eligible rewards")
  let vout0 ← tx.out 0
  if tx.vin.length == 1 && !CScript.isPayToCryptoCondition vout0.scriptPubKey then
    unlockRecover tx vinTx
  else env.unlockPay tx vinTx plan o.fundingtxid amount reward

/-- `RewardsValidate`. -/
def rewardsValidate (tx : CTransaction) : Except Failure Unit := do
  require (!tx.vout.isEmpty) (.invalid "no vouts")
  match rewardsOpretOf tx with
  | none => .error (.invalid "unexpected rewards missing funcid")
  | some o => do
    let plan ← env.planOf o
    require (decide (plan.APR.toNat ≤ rewardsccMaxapr)) (.invalid "excessive APR")
    match o.funcid with
    | .createFunding => .error (.invalid "unexpected RewardsValidate for createfunding")
    | .addFunding => .error (.invalid "unexpected RewardsValidate for addfunding")
    | .lock => .error (.invalid "unexpected RewardsValidate for lock")
    | .unlock => env.unlock tx o plan

end RewardsEnv

end IndexChain
