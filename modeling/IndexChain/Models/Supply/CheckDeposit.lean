import IndexChain.Models.Supply.Commission

/-!
# The check of a coinbase

`komodo_check_deposit` on a chain with a name. The outputs of the coinbase behind the first one
are added up and compared with an allowance: the commission, or what the first output leaves of
the block subsidy when there is none. The sum is unsigned, and an allowance below zero becomes a
large number in the comparison, so a first output above the subsidy lets everything pass
(`deposit_sound_iff`).
-/

namespace IndexChain.Supply

open IndexChain.Core

/-- What the check reads besides the block. -/
structure DepositEnv where
  chain : AssetChain
  /-- `ASSETCHAINS_MARMARA`. -/
  marmara : Int
  marmaraValidateCoinbase : Int → CTransaction → Int
  /-- `NetworkUpgradeActive` for the Sapling upgrade. -/
  saplingActive : Int → Bool
  /-- `MAX_MONEY`, an `int64_t`. -/
  maxMoney : Int
  maxMoney_lt : maxMoney < 2 ^ 63
  /-- The byte behind the pointer to the script of an output, where the script is empty. -/
  emptyByte : Nat → UInt8

/-- `script[0]` of an output; an empty script still has storage. -/
def firstByte (emptyByte : UInt8) (txout : CTxOut) : UInt8 :=
  txout.scriptPubKey.headD emptyByte

/-- The loop over the outputs from output `i` on: `total`, `overflow` and `strangeout`. -/
def sumOutputs (maxMoney : Int) (emptyByte : Nat → UInt8) :
    Nat → List CTxOut → Int → Nat → Int × Bool × Nat
  | _, [], total, strangeout => (total, false, strangeout)
  | i, txout :: later, total, strangeout =>
    let val := txout.nValue
    if val < 0 ∨ maxMoney ≤ val then (total, true, strangeout)
    else
      let strangeout := if 1 < i ∧ firstByte (emptyByte i) txout ≠ 0x6a ∧ val < 5000 then
          strangeout + 1
        else strangeout
      let prevtotal := total
      let total := toUint64 (total + val)
      if total < prevtotal ∨ val ≠ 0 ∧ total = prevtotal then (total, true, strangeout)
      else sumOutputs maxMoney emptyByte (i + 1) later total strangeout

namespace DepositEnv

variable (env : DepositEnv)

/-- The outputs of the coinbase are checked at this height. -/
def CoinbaseChecked (height : Int) : Prop :=
  (env.chain.commission ≠ 0 ∨ env.chain.foundersReward ≠ 0) ∧ 1 < height ∨
    env.saplingActive height = true

instance (height : Int) : Decidable (env.CoinbaseChecked height) :=
  inferInstanceAs (Decidable (_ ∨ _))

/-- Every second coinbase goes to the MARMARA contract. -/
def marmaraFails (height : Int) (coinbase : CTransaction) : Prop :=
  env.marmara ≠ 0 ∧ height % 2 = 0 ∧ env.marmaraValidateCoinbase height coinbase < 0

instance (height : Int) (coinbase : CTransaction) : Decidable (env.marmaraFails height coinbase) :=
  inferInstanceAs (Decidable (_ ∧ _))

/-- The commission that the check starts from. -/
def commissionDue (height : Int) (block : CBlock) : Except ReadFault Int :=
  if (env.chain.commission ≠ 0 ∨ env.chain.foundersReward ≠ 0) ∧ 1 < height then
    env.chain.komodoCheckcommission block height
  else .ok 0

/-- The allowance that the sum is compared with, from the commission. -/
def checktoshis (coinbase : CTransaction) (height commission : Int) : Except ReadFault Int :=
  if 1 < height ∧ commission = 0 then
    (fun txout => toInt64 (toUint64 (env.chain.getBlockSubsidy height) - txout.nValue)) <$>
      outputAt coinbase 0
  else .ok commission

/-- `komodo_check_deposit` on a chain with a name, for a block with a coinbase. -/
def komodoCheckDeposit (height : Int) (block : CBlock) : Except ReadFault Int := do
  let coinbase ← transactionAt block 0
  if 0 < height ∧ env.marmaraFails height coinbase then pure (-1)
  else if env.CoinbaseChecked height then
    let (total, overflow, strangeout) :=
      sumOutputs env.maxMoney env.emptyByte 1 (coinbase.vout.drop 1) 0 0
    let commission ← env.commissionDue height block
    if commission < 0 then pure (-1)
    else
      let checktoshis ← env.checktoshis coinbase height commission
      if 2 ≤ height ∧ (overflow ∨ toUint64 checktoshis < total ∨ strangeout ≠ 0) then pure (-1)
      else pure 0
  else pure 0

end DepositEnv

/-! ## The sum -/

/-- What the outputs behind the first one pay. -/
def laterValue (coinbase : CTransaction) : Int := ((coinbase.vout.drop 1).map CTxOut.nValue).sum

/-- An output that is not counted as strange. -/
def NotStrange (emptyByte : UInt8) (txout : CTxOut) : Prop :=
  firstByte emptyByte txout = 0x6a ∨ 5000 ≤ txout.nValue

/-- None of the outputs from output `i` on is counted as strange. -/
def NoneStrange (emptyByte : Nat → UInt8) (i : Nat) (vout : List CTxOut) : Prop :=
  ∀ k txout, vout[k]? = some txout → 1 < i + k → NotStrange (emptyByte (i + k)) txout

/-- An amount that a coinbase may pay. -/
def PayableAmount (maxMoney : Int) (txout : CTxOut) : Prop :=
  0 ≤ txout.nValue ∧ txout.nValue < maxMoney

theorem sum_nonneg_of_payable {maxMoney : Int} {vout : List CTxOut}
    (h : ∀ txout ∈ vout, PayableAmount maxMoney txout) : 0 ≤ (vout.map CTxOut.nValue).sum := by
  apply List.sum_nonneg
  intro v hv
  obtain ⟨txout, htxout, rfl⟩ := List.mem_map.1 hv
  exact (h txout htxout).1

/-- The test for a wrapped sum finds every sum that does not fit. -/
theorem wraps_iff {total val : Int} (hlow : 0 ≤ total) (hhigh : total < 2 ^ 64) (hval : 0 ≤ val)
    (hmax : val < 2 ^ 63) :
    toUint64 (total + val) < total ∨ val ≠ 0 ∧ toUint64 (total + val) = total ↔
      2 ^ 64 ≤ total + val := by
  unfold toUint64
  omega

/-- The number of strange outputs stays zero when the output is none of them. -/
theorem strangeout_eq_zero_iff {i : Nat} {byte : UInt8} {txout : CTxOut} {strangeout : Nat} :
    (if 1 < i ∧ firstByte byte txout ≠ 0x6a ∧ txout.nValue < 5000 then strangeout + 1
      else strangeout) = 0 ↔ strangeout = 0 ∧ (1 < i → NotStrange byte txout) := by
  unfold NotStrange
  split
  · next h =>
    refine ⟨fun hsucc => by omega, fun hnot => ?_⟩
    rcases hnot.2 h.1 with hreturn | hvalue
    · exact absurd hreturn h.2.1
    · omega
  · next h =>
    refine ⟨fun hzero => ⟨hzero, fun hi => ?_⟩, fun hzero => hzero.1⟩
    by_contra hstrange
    rw [not_or, not_le] at hstrange
    exact h ⟨hi, hstrange⟩

/-- One output less to look at. -/
theorem noneStrange_cons {emptyByte : Nat → UInt8} {i : Nat} {txout : CTxOut}
    {later : List CTxOut} : NoneStrange emptyByte i (txout :: later) ↔
      (1 < i → NotStrange (emptyByte i) txout) ∧ NoneStrange emptyByte (i + 1) later := by
  constructor
  · intro h
    refine ⟨fun hi => h 0 txout rfl (by omega), fun k o ho hk => ?_⟩
    rw [add_right_comm, add_assoc] at hk ⊢
    exact h (k + 1) o ho hk
  · rintro ⟨hfirst, hlater⟩ (_ | k) o ho hk
    · cases ho
      exact hfirst hk
    · rw [← add_assoc, add_right_comm] at hk ⊢
      exact hlater k o ho hk

/-- The loop ends without an overflow and without strange outputs when the amounts and their sum
are in range; then it has the exact sum. -/
theorem sumOutputs_eq {maxMoney : Int} (hmax : maxMoney < 2 ^ 63) {emptyByte : Nat → UInt8}
    {i : Nat} {vout : List CTxOut} {total t : Int} {strangeout : Nat} (hlow : 0 ≤ total)
    (hhigh : total < 2 ^ 64) :
    sumOutputs maxMoney emptyByte i vout total strangeout = (t, false, 0) ↔
      strangeout = 0 ∧ (∀ txout ∈ vout, PayableAmount maxMoney txout) ∧
        NoneStrange emptyByte i vout ∧ t = total + (vout.map CTxOut.nValue).sum ∧ t < 2 ^ 64 := by
  induction vout generalizing i total strangeout with
  | nil =>
    rw [sumOutputs]
    simp [NoneStrange]
    omega
  | cons txout later ih =>
    rw [sumOutputs, noneStrange_cons, List.map_cons, List.sum_cons, List.forall_mem_cons]
    dsimp only
    by_cases hpay : PayableAmount maxMoney txout
    · have hnot : ¬(txout.nValue < 0 ∨ maxMoney ≤ txout.nValue) := by
        rw [PayableAmount] at hpay
        omega
      have hwraps := wraps_iff hlow hhigh hpay.1 (hpay.2.trans hmax)
      rw [if_neg hnot]
      by_cases hwrap : 2 ^ 64 ≤ total + txout.nValue
      · rw [if_pos (hwraps.2 hwrap)]
        refine ⟨(fun h => by cases h), fun h => ?_⟩
        have hsum := sum_nonneg_of_payable h.2.1.2
        omega
      · have hnonneg := hpay.1
        have hsum : toUint64 (total + txout.nValue) = total + txout.nValue :=
          toUint64_of_range (by omega) (by omega)
        rw [if_neg (mt hwraps.1 hwrap), hsum, ih (by omega) (by omega), strangeout_eq_zero_iff,
          add_assoc]
        constructor
        · rintro ⟨⟨hzero, hfirst⟩, hlater, hclean, htotal⟩
          exact ⟨hzero, ⟨hpay, hlater⟩, ⟨hfirst, hclean⟩, htotal⟩
        · rintro ⟨hzero, ⟨-, hlater⟩, ⟨hfirst, hclean⟩, htotal⟩
          exact ⟨⟨hzero, hfirst⟩, hlater, hclean, htotal⟩
    · have hbad : txout.nValue < 0 ∨ maxMoney ≤ txout.nValue := by
        rw [PayableAmount] at hpay
        omega
      rw [if_pos hbad]
      exact ⟨(fun h => by cases h), fun h => absurd h.2.1.1 hpay⟩

/-! ## What passes the check -/

namespace DepositEnv

variable {env : DepositEnv} {height : Int} {block : CBlock} {coinbase : CTransaction}

/-- A coinbase meets every test but the one of the sum. -/
structure OtherChecks (env : DepositEnv) (height : Int) (coinbase : CTransaction) : Prop where
  marmara : ¬ env.marmaraFails height coinbase
  amounts : ∀ txout ∈ coinbase.vout.drop 1, PayableAmount env.maxMoney txout
  strange : NoneStrange env.emptyByte 1 (coinbase.vout.drop 1)
  fits : laterValue coinbase < 2 ^ 64

/-- The loop over the coinbase ends without a complaint. -/
theorem sumOutputs_coinbase {t : Int} :
    sumOutputs env.maxMoney env.emptyByte 1 (coinbase.vout.drop 1) 0 0 = (t, false, 0) ↔
      (∀ txout ∈ coinbase.vout.drop 1, PayableAmount env.maxMoney txout) ∧
        NoneStrange env.emptyByte 1 (coinbase.vout.drop 1) ∧
        t = laterValue coinbase ∧ t < 2 ^ 64 := by
  rw [sumOutputs_eq env.maxMoney_lt (le_refl 0) (by decide), zero_add]
  exact ⟨fun h => h.2, fun h => ⟨rfl, h⟩⟩

/-- Without a commission and a founders reward `komodo_checkcommission` gives zero. -/
theorem commissionDue_eq (hheight : 1 < height) :
    env.commissionDue height block = env.chain.komodoCheckcommission block height := by
  rw [commissionDue]
  split
  · rfl
  · next hnone =>
    rw [AssetChain.komodoCheckcommission, if_neg fun h => hnone ⟨h, hheight⟩]
    rfl

/-- The check returns zero exactly when the other tests are met, the commission is paid where
one is due, and the sum is at most the unsigned allowance. -/
theorem check_deposit_eq_zero (hheight : 2 ≤ height) (hcheck : env.CoinbaseChecked height) :
    env.komodoCheckDeposit height block = .ok 0 ↔
      ∃ coinbase, transactionAt block 0 = .ok coinbase ∧ env.OtherChecks height coinbase ∧
        ∃ c, env.chain.komodoCheckcommission block height = .ok c ∧ 0 ≤ c ∧
          ∃ allowed, env.checktoshis coinbase height c = .ok allowed ∧
            laterValue coinbase ≤ toUint64 allowed := by
  rw [komodoCheckDeposit, except_bind_eq_ok]
  refine exists_congr fun coinbase => and_congr_right fun _ => ?_
  by_cases hmarmara : env.marmaraFails height coinbase
  · rw [if_pos ⟨by omega, hmarmara⟩]
    exact ⟨(fun h => by cases h), fun h => absurd hmarmara h.1.marmara⟩
  rw [if_neg fun h => hmarmara h.2, if_pos hcheck, commissionDue_eq (by omega)]
  constructor
  · intro h
    rcases hsum : sumOutputs env.maxMoney env.emptyByte 1 (coinbase.vout.drop 1) 0 0 with
      ⟨total, overflow, strangeout⟩
    rw [hsum] at h
    dsimp only at h
    obtain ⟨c, hc, h⟩ := except_bind_eq_ok.1 h
    split at h
    · cases h
    · next hpos =>
      obtain ⟨allowed, hallowed, h⟩ := except_bind_eq_ok.1 h
      split at h
      · cases h
      · next hpass =>
        have hsilent : ¬(overflow = true ∨ toUint64 allowed < total ∨ strangeout ≠ 0) :=
          fun hbad => hpass ⟨hheight, hbad⟩
        simp only [not_or, Bool.not_eq_true, not_lt, not_not] at hsilent
        obtain ⟨rfl, hle, rfl⟩ := hsilent
        obtain ⟨hamounts, hstrange, rfl, hfits⟩ := sumOutputs_coinbase.1 hsum
        exact ⟨⟨hmarmara, hamounts, hstrange, hfits⟩, c, hc, not_lt.1 hpos, allowed, hallowed, hle⟩
  · rintro ⟨hother, c, hc, hpos, allowed, hallowed, hle⟩
    rw [sumOutputs_coinbase.2 ⟨hother.amounts, hother.strange, rfl, hother.fits⟩]
    dsimp only
    rw [hc, except_ok_bind, if_neg (not_lt.2 hpos), hallowed, except_ok_bind]
    simp only [Bool.false_eq_true, ne_eq, not_true_eq_false, or_false, false_or]
    rw [if_neg fun h => absurd h.2 (not_lt.2 hle)]
    rfl

/-! ## The allowance -/

/-- What the outputs behind the first one may pay together. -/
def allowance (env : DepositEnv) (height commission : Int) (coinbase : CTransaction) : Int :=
  if commission = 0 then
    env.chain.getBlockSubsidy height - coinbase.vout.head?.elim 0 CTxOut.nValue
  else commission

/-- The outputs behind the first one pay at most the allowance. -/
def AllowanceKept (env : DepositEnv) (height : Int) (block : CBlock) : Prop :=
  ∃ coinbase c, transactionAt block 0 = .ok coinbase ∧
    env.chain.komodoCheckcommission block height = .ok c ∧
    laterValue coinbase ≤ env.allowance height c coinbase

/-- A first output above the subsidy does not come with a coinbase that meets the other tests
and owes no commission, unless its other outputs exceed even the wrapped allowance. -/
def SubsidyKept (env : DepositEnv) (height : Int) (block : CBlock) : Prop :=
  ∀ coinbase txout, transactionAt block 0 = .ok coinbase → outputAt coinbase 0 = .ok txout →
    env.OtherChecks height coinbase → env.chain.komodoCheckcommission block height = .ok 0 →
      txout.nValue ≤ env.chain.getBlockSubsidy height ∨
        2 ^ 64 + (env.chain.getBlockSubsidy height - txout.nValue) < laterValue coinbase

theorem allowance_zero {txout : CTxOut} (hout : outputAt coinbase 0 = .ok txout) :
    env.allowance height 0 coinbase = env.chain.getBlockSubsidy height - txout.nValue := by
  rw [outputAt, entry_eq_ok, ← List.head?_eq_getElem?] at hout
  rw [allowance, if_pos rfl, hout]
  rfl

/-- The unsigned allowance without a commission. -/
theorem checktoshis_zero (hheight : 1 < height) {allowed : Int} :
    env.checktoshis coinbase height 0 = .ok allowed ↔
      ∃ txout, outputAt coinbase 0 = .ok txout ∧
        allowed = toInt64 (toUint64 (env.chain.getBlockSubsidy height) - txout.nValue) := by
  rw [checktoshis, if_pos ⟨hheight, rfl⟩]
  cases outputAt coinbase 0 with
  | error fault => exact ⟨(fun h => by cases h), fun ⟨_, h, _⟩ => by cases h⟩
  | ok txout =>
    constructor
    · intro h
      cases h
      exact ⟨txout, rfl, rfl⟩
    · rintro ⟨_, h, rfl⟩
      cases h
      rfl

/-- The check lets only what is allowed pass, exactly when no first output above the subsidy
slips through. -/
theorem deposit_sound_iff (hheight : 2 ≤ height) (hcheck : env.CoinbaseChecked height)
    (hamounts : ∀ tx ∈ block.vtx, ∀ txout ∈ tx.vout, -2 ^ 63 ≤ txout.nValue ∧
      txout.nValue < 2 ^ 63) :
    (env.komodoCheckDeposit height block = .ok 0 → env.AllowanceKept height block) ↔
      env.SubsidyKept height block := by
  have hsubsidy : -2 ^ 63 ≤ env.chain.getBlockSubsidy height ∧
      env.chain.getBlockSubsidy height < 2 ^ 63 := toInt64_range _
  have hfirst : ∀ coinbase txout, transactionAt block 0 = .ok coinbase →
      outputAt coinbase 0 = .ok txout → -2 ^ 63 ≤ txout.nValue ∧ txout.nValue < 2 ^ 63 := by
    intro coinbase txout hcoinbase hout
    exact hamounts coinbase (List.mem_of_getElem? (entry_eq_ok.1 hcoinbase)) txout
      (List.mem_of_getElem? (entry_eq_ok.1 hout))
  have hwrapped : ∀ x : Int, toUint64 (toInt64 (toUint64 (env.chain.getBlockSubsidy height) - x)) =
      toUint64 (env.chain.getBlockSubsidy height - x) := by
    intro x
    rw [toUint64_toInt64]
    unfold toUint64
    omega
  rw [check_deposit_eq_zero hheight hcheck]
  constructor
  · intro hsound coinbase txout hcoinbase hout hother hcommission
    by_contra hslips
    obtain ⟨habove, hle⟩ := not_or.1 hslips
    obtain ⟨hlow, hhigh⟩ := hfirst coinbase txout hcoinbase hout
    have hnonneg : 0 ≤ laterValue coinbase := sum_nonneg_of_payable hother.amounts
    have hpass : laterValue coinbase ≤ toUint64 (toInt64
        (toUint64 (env.chain.getBlockSubsidy height) - txout.nValue)) := by
      rw [hwrapped, toUint64]
      omega
    obtain ⟨coinbase', c, hcoinbase', hc, hkept⟩ := hsound ⟨coinbase, hcoinbase, hother, 0,
      hcommission, le_refl 0, _, (checktoshis_zero (by omega)).2 ⟨txout, hout, rfl⟩, hpass⟩
    obtain rfl := Except.ok.inj (hcoinbase'.symm.trans hcoinbase)
    obtain rfl := Except.ok.inj (hc.symm.trans hcommission)
    rw [allowance_zero hout] at hkept
    omega
  · rintro hkept ⟨coinbase, hcoinbase, hother, c, hcommission, hpos, allowed, hallowed, hle⟩
    refine ⟨coinbase, c, hcoinbase, hcommission, ?_⟩
    by_cases hc : c = 0
    · subst hc
      obtain ⟨txout, hout, rfl⟩ := (checktoshis_zero (by omega)).1 hallowed
      obtain ⟨hlow, hhigh⟩ := hfirst coinbase txout hcoinbase hout
      have hcase := hkept coinbase txout hcoinbase hout hother hcommission
      rw [allowance_zero hout]
      rw [hwrapped, toUint64] at hle
      omega
    · rw [checktoshis, if_neg fun h => hc h.2] at hallowed
      cases hallowed
      rw [allowance, if_neg hc]
      have hlt := AssetChain.checkcommission_lt hcommission
      rwa [toUint64_of_range hpos (by omega)] at hle

/-- A chain with a reward of one coin and neither a commission nor a founders reward, on which
Sapling is active. -/
def plainChain : DepositEnv where
  chain := { RewardConfig.fungibleChain with
    staked := 0
    commission := 0
    founders := 0
    foundersReward := 0
    scriptpub := []
    appendACscriptpub := fun _ => none
    decodeHex := fun _ _ => []
    overridePubkey33 := []
    overridePubkeyhash := [] }
  marmara := 0
  marmaraValidateCoinbase := fun _ _ => 0
  saplingActive := fun _ => true
  maxMoney := 100000000000000000
  maxMoney_lt := by decide
  emptyByte := fun _ => 0

theorem one_ne_null : (1 : Uint256) ≠ 0 := by decide

/-- A block whose coinbase pays two amounts. -/
def twoPayments (first second : Int) : CBlock where
  hash := 1
  hashFinalSaplingRoot := 0
  nTime := 1600000000
  vtx := [{ hash := 2, vout := [⟨first, [0x51]⟩, ⟨second, [0x51]⟩] }]
  hash_ne_null := one_ne_null

/-- Two payments share the allowance. -/
theorem fair_split : plainChain.AllowanceKept 200 (twoPayments 60000000 40000000) := by
  have hamounts : ∀ tx ∈ (twoPayments 60000000 40000000).vtx, ∀ txout ∈ tx.vout,
      -2 ^ 63 ≤ txout.nValue ∧ txout.nValue < 2 ^ 63 := by decide
  refine (deposit_sound_iff (by decide) (by decide) hamounts).2 ?_ (by rfl)
  intro coinbase txout hcoinbase hout _ _
  obtain rfl := Except.ok.inj hcoinbase
  obtain rfl := Except.ok.inj hout
  exact Or.inl (by decide)

/-- A coinbase whose first output takes twice the subsidy, and whose second takes ten times the
subsidy, passes. -/
theorem second_subsidy_passes :
    ¬ ∀ (env : DepositEnv) (height : Int) (block : CBlock), 2 ≤ height →
      env.CoinbaseChecked height →
      (∀ tx ∈ block.vtx, ∀ txout ∈ tx.vout, -2 ^ 63 ≤ txout.nValue ∧ txout.nValue < 2 ^ 63) →
      env.komodoCheckDeposit height block = .ok 0 → env.AllowanceKept height block := by
  intro hclaim
  obtain ⟨coinbase, c, hcoinbase, hc, hle⟩ := hclaim plainChain 200
    (twoPayments 200000000 1000000000) (by decide) (by decide) (by decide) (by rfl)
  obtain rfl := Except.ok.inj hcoinbase
  obtain rfl := Except.ok.inj hc
  exact absurd hle (by decide)

end DepositEnv

end IndexChain.Supply
