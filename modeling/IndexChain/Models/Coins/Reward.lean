import IndexChain.Core.Words
import IndexChain.Models.Coins.Reached
import IndexChain.Models.Mempool.Accept

/-!
# What a coinbase may pay

The sums of `ConnectBlock` over the transactions of a block and its test of the coinbase.
`GetValueIn` adds the interest of the inputs to the value it returns, so the interest is
part of the fees; the block reward adds the sum of the interest once more. A coinbase is
bounded by the exact reward only in a block without interest, and not at all at the
heights of the main chain where only its first output is compared
(`coinbase_bound_iff`).
-/

namespace IndexChain

open IndexChain.Core

/-! ## Amounts of a transaction -/

/-- What a transaction that is not a coinbase contributes. -/
structure TxAmounts where
  /-- The value of each transparent input, and the interest it has accrued. -/
  inputs : List (Int × Int)
  /-- The shielded inputs; the import value of an import. -/
  shielded : Int
  /-- `GetValueOut`. -/
  valueout : Int
  deriving DecidableEq, Repr

namespace TxAmounts

/-- The inputs without interest. -/
def value (a : TxAmounts) : Int := (a.inputs.map Prod.fst).sum + a.shielded

/-- The interest. -/
def interest (a : TxAmounts) : Int := (a.inputs.map Prod.snd).sum

/-- The result of `GetValueIn`, in the arithmetic of `int64_t`. -/
def getValueIn (a : TxAmounts) : Int :=
  toInt64 (a.inputs.foldl (fun n p => toInt64 (toInt64 (n + p.1) + p.2)) 0 + a.shielded)

/-- What `GetValueIn` leaves in `*interestp`. -/
def interestp (a : TxAmounts) : Int :=
  a.inputs.foldl (fun n p => toInt64 (n + p.2)) 0

end TxAmounts

/-- `nFees` and `sum`. -/
structure RewardSums where
  /-- The fees, with interest. -/
  nFees : Int := 0
  /-- The interest. -/
  sum : Int := 0
  deriving DecidableEq, Repr

/-- The additions for a transaction; the difference is taken in `uint64_t`. -/
def RewardSums.add (r : RewardSums) (a : TxAmounts) : RewardSums where
  nFees := toInt64 (r.nFees + toUint64 (a.getValueIn - a.valueout))
  sum := toInt64 (r.sum + a.interestp)

/-! ## The loop over a block -/

/-- What the sums and the test of the coinbase read. -/
structure RewardEnv where
  /-- `ASSETCHAINS_SYMBOL[0] == 0`. -/
  mainChain : Bool
  /-- `komodo_accrued_interest` of an output with a value, at a height of the tip. -/
  accruedInterest : COutPoint → Int → Nat → Nat
  /-- `GetCoinImportValue`. -/
  getCoinImportValue : CTransaction → Int
  /-- `GetBlockSubsidy`. -/
  getBlockSubsidy : Nat → Int
  /-- What the notaries of a notarisation in the block are paid, zero without one; none if
  the block is rejected for it. -/
  notaryPay : CBlock → Nat → Option Int
  /-- `ASSETCHAINS_COMMISSION != 0 || ASSETCHAINS_FOUNDERS_REWARD != 0`. -/
  commissionOn : Bool
  /-- `komodo_commission`. -/
  commission : CBlock → Nat → Nat
  /-- `KOMODO_EXTRASATOSHI`. -/
  extrasatoshi : Nat
  /-- The range of amounts. -/
  txEnv : TxCheckEnv

namespace RewardEnv

variable (env : RewardEnv)

/-- The interest of an input: on the main chain, from height 60000, for 10 coins or more. -/
def inputInterest (tipHeight : Nat) (o : COutPoint) (value : Int) : Int :=
  if env.mainChain && decide (60000 ≤ tipHeight) && decide (10 * COIN ≤ value) then
    env.accruedInterest o value tipHeight
  else 0

/-- The inputs of a transaction in a view; none when the assertion of `GetOutputFor` fails. -/
def txInputs (tipHeight : Nat) (v : CCoinsView) (tx : CTransaction) : Option (List (Int × Int)) :=
  (v.inputCoins tx).map fun coins =>
    (tx.inputOutpoints.zip (PoolEnv.outputsFor tx coins)).map fun p =>
      (p.2.nValue, env.inputInterest tipHeight p.1 p.2.nValue)

/-- What a transaction contributes, if it is not the coinbase; none when it throws or pays
too much. -/
def txAmounts (tipHeight : Nat) (v : CCoinsView) (tx : CTransaction) :
    Option (List TxAmounts) := do
  let valueout ← env.txEnv.getValueOut tx
  ensure (decide (valueout ≤ 10000000001 * COIN))
  if tx.isCoinBase then return []
  else if tx.isCoinImport then
    return [{ inputs := [], shielded := env.getCoinImportValue tx, valueout := valueout }]
  else do
    let inputs ← env.txInputs tipHeight v tx
    let shielded ← env.txEnv.getShieldedValueIn tx
    return [{ inputs := inputs, shielded := shielded, valueout := valueout }]

/-- The amounts of the transactions of a block, each read from the view at its turn. -/
def amountsLoop (base : CCoinsView) (pindex : CBlockIndex) :
    List CTransaction → CCoinsViewCache → Option (List TxAmounts)
  | [], _ => some []
  | tx :: rest, c => do
    let a ← env.txAmounts (pindex.nHeight - 1) (c.view base) tx
    let (c, _) ← c.updateCoins base tx pindex.nHeight
    let as ← amountsLoop base pindex rest c
    return a ++ as

/-- The commission that is added to the reward. -/
def commissionAdded (block : CBlock) (nHeight : Nat) : Int :=
  match block.vtx with
  | [] => 0
  | coinbase :: _ => match coinbase.vout[1]? with
    | none => 0
    | some out =>
      if env.commissionOn && env.commission block nHeight != 0 &&
          toUint64 out.nValue == env.commission block nHeight then
        env.commission block nHeight
      else 0

/-- `blockReward` for the sums of a block. -/
def blockReward (block : CBlock) (nHeight : Nat) (pay : Int) (r : RewardSums) : Int :=
  toInt64 (toInt64 (pay + (r.nFees + env.getBlockSubsidy nHeight + r.sum)) +
    env.commissionAdded block nHeight)

/-- The tests of what a coinbase pays, in all and with its first output. -/
def coinbaseOk (nHeight : Nat) (blockReward valueOut vout0 : Int) : Bool :=
  !(!env.mainChain && nHeight == 1 && valueOut != blockReward) &&
  !(decide (blockReward + env.extrasatoshi < valueOut) &&
    (!env.mainChain || decide (814000 ≤ nHeight) || decide (blockReward < vout0)))

/-- The reward tests of `ConnectBlock` on the view before the block. -/
def rewardOk (base : CCoinsView) (block : CBlock) (pindex : CBlockIndex) (c : CCoinsViewCache) :
    Option Unit := do
  let pay ← env.notaryPay block pindex.nHeight
  let amounts ← env.amountsLoop base pindex block.vtx c
  let coinbase ← block.vtx.head?
  let valueOut ← env.txEnv.getValueOut coinbase
  let out ← coinbase.vout.head?
  ensure (env.coinbaseOk pindex.nHeight
    (env.blockReward block pindex.nHeight pay (amounts.foldl RewardSums.add {})) valueOut
    out.nValue)

/-- `ConnectBlock` with the tests of the reward; the genesis block is exempt. -/
def connectBlock (cenv : ConnectEnv) (base : CCoinsView) (block : CBlock)
    (pprev : Option CBlockIndex) (c : CCoinsViewCache) :
    Option (CCoinsViewCache × CBlockUndo) := do
  let r ← cenv.connectBlock base block pprev c
  if block.hash = cenv.params.hashGenesisBlock then return r
  else do
    env.rewardOk base block (CBlockIndex.ofBlock block pprev) c
    return r

/-! ## The exact reward -/

/-- The interest of all transactions. -/
def interestTotal (amounts : List TxAmounts) : Int := (amounts.map TxAmounts.interest).sum

/-- The subsidy and the fees, with each interest counted once, and what is paid to notaries
and as a commission. -/
def exactReward (block : CBlock) (nHeight : Nat) (pay : Int) (amounts : List TxAmounts) : Int :=
  pay + env.getBlockSubsidy nHeight +
    (amounts.map fun a => a.value + a.interest - a.valueout).sum + env.commissionAdded block nHeight

/-- The heights of the main chain at which a coinbase is accepted by its first output. -/
def Grandfathered (nHeight : Nat) : Prop := env.mainChain = true ∧ nHeight < 814000

/-- The first block of an assetchain, whose coinbase pays the exact reward. -/
def FirstBlock (nHeight : Nat) : Prop := env.mainChain = false ∧ nHeight = 1

/-- The reward with each interest counted twice, in 64 bits, is within the exact one. -/
def InterestCovered (nHeight : Nat) (reward interest : Int) : Prop :=
  (env.FirstBlock nHeight → toInt64 (reward + interest) ≤ reward + env.extrasatoshi) ∧
    (¬ env.FirstBlock nHeight → toInt64 (reward + interest) ≤ reward)

end RewardEnv

namespace TxAmounts

theorem foldl_inputs (l : List (Int × Int)) (n : Int) :
    toInt64 (l.foldl (fun n p => toInt64 (toInt64 (n + p.1) + p.2)) n) =
      toInt64 (n + (l.map Prod.fst).sum + (l.map Prod.snd).sum) := by
  induction l generalizing n with
  | nil =>
    rw [List.foldl_nil, List.map_nil, List.map_nil, List.sum_nil, Int.add_zero, Int.add_zero]
  | cons p l ih =>
    rw [List.foldl_cons, ih, List.map_cons, List.map_cons, List.sum_cons, List.sum_cons,
      toInt64_add_left, Int.add_assoc (toInt64 _), toInt64_add_left]
    congr 1
    omega

theorem getValueIn_eq (a : TxAmounts) : a.getValueIn = toInt64 (a.value + a.interest) := by
  unfold getValueIn
  rw [← toInt64_add_left, foldl_inputs, toInt64_add_left]
  unfold value interest
  congr 1
  omega

theorem foldl_interest (l : List (Int × Int)) (n : Int) :
    toInt64 (l.foldl (fun n p => toInt64 (n + p.2)) n) = toInt64 (n + (l.map Prod.snd).sum) := by
  induction l generalizing n with
  | nil =>
    rw [List.foldl_nil, List.map_nil, List.sum_nil, Int.add_zero]
  | cons p l ih =>
    rw [List.foldl_cons, ih, List.map_cons, List.sum_cons, toInt64_add_left, Int.add_assoc]

end TxAmounts

namespace RewardSums

theorem foldl_nFees (amounts : List TxAmounts) (r : RewardSums) :
    toInt64 (amounts.foldl add r).nFees =
      toInt64 (r.nFees + (amounts.map fun a => a.value + a.interest - a.valueout).sum) := by
  induction amounts generalizing r with
  | nil => rw [List.foldl_nil, List.map_nil, List.sum_nil, Int.add_zero]
  | cons a amounts ih =>
    have hstep : (r.add a).nFees = toInt64 (r.nFees + (a.value + a.interest - a.valueout)) := by
      unfold add
      dsimp only
      rw [toInt64_add_toUint64, TxAmounts.getValueIn_eq, Int.sub_eq_add_neg, ← Int.add_assoc,
        Int.add_right_comm, toInt64_add_right]
      congr 1
      omega
    rw [List.foldl_cons, ih, hstep, toInt64_add_left, List.map_cons, List.sum_cons, Int.add_assoc]

theorem foldl_sum (amounts : List TxAmounts) (r : RewardSums) :
    toInt64 (amounts.foldl add r).sum = toInt64 (r.sum + RewardEnv.interestTotal amounts) := by
  unfold RewardEnv.interestTotal
  induction amounts generalizing r with
  | nil => rw [List.foldl_nil, List.map_nil, List.sum_nil, Int.add_zero]
  | cons a amounts ih =>
    have hstep : (r.add a).sum = toInt64 (r.sum + a.interest) := by
      unfold add TxAmounts.interestp
      dsimp only
      rw [← toInt64_add_right, TxAmounts.foldl_interest, Int.zero_add, toInt64_add_right]
      rfl
    rw [List.foldl_cons, ih, hstep, toInt64_add_left, List.map_cons, List.sum_cons, Int.add_assoc]

end RewardSums

namespace RewardEnv

variable {env : RewardEnv} {block : CBlock} {nHeight : Nat} {pay : Int}
  {amounts : List TxAmounts}

/-- The reward of the code counts the interest once more than the exact one. -/
theorem blockReward_eq : env.blockReward block nHeight pay (amounts.foldl RewardSums.add {}) =
    toInt64 (env.exactReward block nHeight pay amounts + interestTotal amounts) := by
  have hnFees := RewardSums.foldl_nFees amounts {}
  have hsum := RewardSums.foldl_sum amounts {}
  rw [Int.zero_add] at hnFees hsum
  unfold blockReward exactReward
  calc toInt64 (toInt64 (pay + ((amounts.foldl RewardSums.add {}).nFees +
          env.getBlockSubsidy nHeight + (amounts.foldl RewardSums.add {}).sum)) +
          env.commissionAdded block nHeight)
      = toInt64 (pay + env.getBlockSubsidy nHeight + env.commissionAdded block nHeight +
          toInt64 (amounts.foldl RewardSums.add {}).nFees +
          toInt64 (amounts.foldl RewardSums.add {}).sum) := by
        rw [toInt64_add_left, toInt64_add_right]
        conv_rhs => rw [Int.add_right_comm, toInt64_add_right]
        congr 1
        omega
    _ = toInt64 (pay + env.getBlockSubsidy nHeight +
          (amounts.map fun a => a.value + a.interest - a.valueout).sum +
          env.commissionAdded block nHeight + interestTotal amounts) := by
        rw [hnFees, hsum, toInt64_add_right, Int.add_right_comm, toInt64_add_right]
        congr 1
        omega

/-- Outside the heights that are exempt, a coinbase pays no more than the reward of the
code. -/
theorem le_of_coinbaseOk {reward valueOut vout0 : Int} (hold : ¬ env.Grandfathered nHeight)
    (h : env.coinbaseOk nHeight reward valueOut vout0 = true) :
    valueOut ≤ reward + env.extrasatoshi ∧ (env.FirstBlock nHeight → valueOut = reward) := by
  unfold coinbaseOk at h
  unfold Grandfathered at hold
  rw [Bool.and_eq_true] at h
  obtain ⟨hfirst, hbound⟩ := h
  constructor
  · by_contra hlt
    have hheight : (!env.mainChain || decide (814000 ≤ nHeight)) = true := by
      by_cases hmain : env.mainChain = true
      · have hle : 814000 ≤ nHeight := by
          by_contra hcontra
          exact hold ⟨hmain, not_le.1 hcontra⟩
        simp [hle]
      · simp [hmain]
    rw [hheight, Bool.true_or, Bool.and_true, decide_eq_true (not_le.1 hlt)] at hbound
    cases hbound
  · rintro ⟨hmain, rfl⟩
    rw [hmain] at hfirst
    simpa using hfirst

/-- The coinbase amounts that pass are within the exact reward exactly when the double
interest is covered and the height is not exempt. -/
theorem coinbaseOk_bound_iff {reward interest : Int} :
    (∀ valueOut vout0, vout0 ≤ valueOut →
      env.coinbaseOk nHeight (toInt64 (reward + interest)) valueOut vout0 = true →
      valueOut ≤ reward + env.extrasatoshi) ↔
    ¬ env.Grandfathered nHeight ∧ env.InterestCovered nHeight reward interest := by
  constructor
  · intro h
    have hold : ¬ env.Grandfathered nHeight := by
      rintro ⟨hmain, hheight⟩
      -- the first output takes the reward, and the rest is not looked at
      have hle := h (max (toInt64 (reward + interest)) (reward + env.extrasatoshi + 1))
        (toInt64 (reward + interest)) (le_max_left _ _) (by simp [coinbaseOk, hmain, hheight])
      have hmax := le_max_right (toInt64 (reward + interest)) (reward + env.extrasatoshi + 1)
      omega
    refine ⟨hold, ?_, ?_⟩
    · intro hfirst
      exact h _ _ le_rfl (by simp [coinbaseOk])
    · intro hfirst
      have hok : env.coinbaseOk nHeight (toInt64 (reward + interest))
          (toInt64 (reward + interest) + env.extrasatoshi)
          (toInt64 (reward + interest) + env.extrasatoshi) = true := by
        have hnot : (!env.mainChain && nHeight == 1) = false := by
          rw [Bool.eq_false_iff]
          intro hcontra
          simp only [Bool.and_eq_true, Bool.not_eq_true', beq_iff_eq] at hcontra
          exact hfirst hcontra
        simp [coinbaseOk, hnot]
      have hle := h _ _ le_rfl hok
      omega
  · rintro ⟨hold, hfirst, hlater⟩ valueOut vout0 - hok
    obtain ⟨hbound, hexact⟩ := le_of_coinbaseOk hold hok
    by_cases hblock : env.FirstBlock nHeight
    · rw [hexact hblock]
      exact hfirst hblock
    · have hle := hlater hblock
      omega

/-- Where the sums fit into 64 bits, the double interest is covered by having none. -/
theorem interestCovered_iff_of_range {reward interest : Int} (hinterest : 0 ≤ interest)
    (hlow : -2 ^ 63 ≤ reward + interest) (hhigh : reward + interest < 2 ^ 63)
    (hfirst : ¬ env.FirstBlock nHeight) :
    env.InterestCovered nHeight reward interest ↔ interest = 0 := by
  unfold InterestCovered
  rw [toInt64_of_range hlow hhigh]
  constructor
  · rintro ⟨-, hle⟩
    have hle := hle hfirst
    omega
  · rintro rfl
    exact ⟨fun h => absurd h hfirst, fun _ => by omega⟩

/-- What a connected block has passed. -/
theorem connectBlock_eq_some {cenv : ConnectEnv} {base : CCoinsView} {pprev : Option CBlockIndex}
    {c : CCoinsViewCache} {r : CCoinsViewCache × CBlockUndo}
    (h : env.connectBlock cenv base block pprev c = some r)
    (hgenesis : block.hash ≠ cenv.params.hashGenesisBlock) :
    ∃ pay amounts coinbase valueOut out,
      env.notaryPay block (CBlockIndex.ofBlock block pprev).nHeight = some pay ∧
      env.amountsLoop base (CBlockIndex.ofBlock block pprev) block.vtx c = some amounts ∧
      block.vtx.head? = some coinbase ∧ env.txEnv.getValueOut coinbase = some valueOut ∧
      coinbase.vout.head? = some out ∧
      env.coinbaseOk (CBlockIndex.ofBlock block pprev).nHeight
        (env.blockReward block (CBlockIndex.ofBlock block pprev).nHeight pay
          (amounts.foldl RewardSums.add {})) valueOut out.nValue = true := by
  unfold connectBlock at h
  obtain ⟨connected, _, h⟩ := Option.bind_eq_some_iff.1 h
  rw [if_neg hgenesis] at h
  obtain ⟨_, hreward, _⟩ := Option.bind_eq_some_iff.1 h
  unfold rewardOk at hreward
  obtain ⟨pay, hpay, hreward⟩ := Option.bind_eq_some_iff.1 hreward
  obtain ⟨amounts, hamounts, hreward⟩ := Option.bind_eq_some_iff.1 hreward
  obtain ⟨coinbase, hcoinbase, hreward⟩ := Option.bind_eq_some_iff.1 hreward
  obtain ⟨valueOut, hvalue, hreward⟩ := Option.bind_eq_some_iff.1 hreward
  obtain ⟨out, hout, hreward⟩ := Option.bind_eq_some_iff.1 hreward
  refine ⟨pay, amounts, coinbase, valueOut, out, hpay, hamounts, hcoinbase, hvalue, hout, ?_⟩
  unfold ensure at hreward
  split at hreward
  · assumption
  · cases hreward

/-- In the context of a block other than the genesis block, the amounts that a coinbase may
pay are within the exact reward, with each interest counted once, exactly when the height is
not exempt and the double interest is covered. Then so is the coinbase of a connected block. -/
theorem coinbase_bound_iff (env : RewardEnv) (cenv : ConnectEnv) (base : CCoinsView)
    (block : CBlock) (pprev : Option CBlockIndex) (c : CCoinsViewCache)
    (amounts : List TxAmounts) (pay : Int)
    (hgenesis : block.hash ≠ cenv.params.hashGenesisBlock)
    (hpay : env.notaryPay block (CBlockIndex.ofBlock block pprev).nHeight = some pay)
    (hamounts : env.amountsLoop base (CBlockIndex.ofBlock block pprev) block.vtx c =
      some amounts) :
    let nHeight := (CBlockIndex.ofBlock block pprev).nHeight
    let reward := env.exactReward block nHeight pay amounts
    let covered := ¬ env.Grandfathered nHeight ∧
      env.InterestCovered nHeight reward (interestTotal amounts)
    ((∀ valueOut vout0, vout0 ≤ valueOut →
      env.coinbaseOk nHeight (env.blockReward block nHeight pay (amounts.foldl RewardSums.add {}))
        valueOut vout0 = true → valueOut ≤ reward + env.extrasatoshi) ↔ covered) ∧
    ∀ r, env.connectBlock cenv base block pprev c = some r → covered →
      ∃ coinbase valueOut, block.vtx.head? = some coinbase ∧
        env.txEnv.getValueOut coinbase = some valueOut ∧ valueOut ≤ reward + env.extrasatoshi := by
  intro nHeight reward covered
  constructor
  · rw [blockReward_eq]
    exact coinbaseOk_bound_iff
  · intro r hr hcovered
    obtain ⟨pay', amounts', coinbase, valueOut, out, hpay', hamounts', hcoinbase, hvalue, -, hok⟩ :=
      connectBlock_eq_some hr hgenesis
    obtain rfl : pay' = pay := Option.some.inj (hpay'.symm.trans hpay)
    obtain rfl : amounts' = amounts := Option.some.inj (hamounts'.symm.trans hamounts)
    rw [blockReward_eq] at hok
    obtain ⟨hbound, hexact⟩ := le_of_coinbaseOk hcovered.1 hok
    refine ⟨coinbase, valueOut, hcoinbase, hvalue, ?_⟩
    by_cases hfirst : env.FirstBlock nHeight
    · rw [hexact hfirst]
      exact hcovered.2.1 hfirst
    · have hle : toInt64 (reward + interestTotal amounts') ≤ reward := hcovered.2.2 hfirst
      exact hbound.trans (Int.add_le_add_right hle _)

end RewardEnv

namespace DoubleInterest

open RewardEnv

/-- The main chain at height 900000, where every old output of 10 coins or more has accrued
one coin. -/
def env : RewardEnv where
  mainChain := true
  accruedInterest := fun _ _ _ => 100000000
  getCoinImportValue := fun _ => 0
  getBlockSubsidy := fun _ => 300000000
  notaryPay := fun _ _ => some 0
  commissionOn := false
  commission := fun _ _ => 0
  extrasatoshi := 0
  txEnv := SampleChain.env.checks.txEnv

/-- The tip. -/
def tip : CBlockIndex :=
  { phashBlock := 2, nHeight := 900000, nTime := 1540000000, hashFinalSaplingRoot := 0 }

/-- A view with an output of 100 coins. -/
def base : CCoinsView :=
  { SampleChain.db with
    getCoins := fun id => if id = 5 then
      some { vout := [{ nValue := 10000000000, scriptPubKey := [0x51] }], nHeight := 1 } else none
    getBestBlock := 2 }

/-- A transaction that spends the output and leaves the interest as its fee. -/
def spend : CTransaction :=
  { hash := 0x61
    vin := [{ prevout := { hash := 5, n := 0 } }]
    vout := [{ nValue := 10000000000, scriptPubKey := [0x51] }] }

/-- A coinbase of 5 coins: the subsidy and the interest twice. -/
def coinbase : CTransaction :=
  { SampleChain.coinbase 0x60 with
    vout := [{ nValue := 500000000, scriptPubKey := [0x51] }] }

theorem four_ne_null : (4 : Uint256) ≠ 0 := by decide

/-- The block with both. -/
def block : CBlock := SampleChain.blockOf 4 four_ne_null [coinbase, spend]

/-- What the transaction contributes. -/
def amounts : List TxAmounts :=
  [{ inputs := [(10000000000, 100000000)], shielded := 0, valueout := 10000000000 }]

theorem amountsLoop_eq : env.amountsLoop base (CBlockIndex.ofBlock block (some tip)) block.vtx {} =
    some amounts := by
  decide +kernel

theorem connected :
    (env.connectBlock SampleChain.env base block (some tip) {}).isSome = true := by
  decide +kernel

/-- The block is connected and its coinbase pays the interest a second time. -/
theorem coinbase_exceeds_reward :
    ¬ ((env.connectBlock SampleChain.env base block (some tip) {}).isSome = true →
      ∀ amounts pay valueOut,
        env.amountsLoop base (CBlockIndex.ofBlock block (some tip)) block.vtx {} = some amounts →
        env.notaryPay block 900001 = some pay → env.txEnv.getValueOut coinbase = some valueOut →
        valueOut ≤ env.exactReward block 900001 pay amounts + env.extrasatoshi) := by
  intro h
  have hle := h connected amounts 0 500000000 amountsLoop_eq rfl (by decide +kernel)
  revert hle
  decide +kernel

/-- The condition at the block. -/
theorem coinbase_bound_iff_connected :
    env.amountsLoop base (CBlockIndex.ofBlock block (some tip)) block.vtx {} = some amounts ∧
      ((∀ valueOut vout0, vout0 ≤ valueOut →
        env.coinbaseOk 900001 (env.blockReward block 900001 0 (amounts.foldl RewardSums.add {}))
          valueOut vout0 = true →
        valueOut ≤ env.exactReward block 900001 0 amounts + env.extrasatoshi) ↔
      ¬ env.Grandfathered 900001 ∧
        env.InterestCovered 900001 (env.exactReward block 900001 0 amounts)
          (interestTotal amounts)) :=
  ⟨amountsLoop_eq, (coinbase_bound_iff env SampleChain.env base block (some tip) {} amounts 0
    (by decide) rfl amountsLoop_eq).1⟩

end DoubleInterest

end IndexChain
