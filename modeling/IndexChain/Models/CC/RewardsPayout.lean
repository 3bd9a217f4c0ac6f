import IndexChain.Models.CC.History
import IndexChain.Models.CC.Rewards

/-!
# What an unlock pays

An unlock that spends the first output of a lock, and has the three outputs that are
looked at, pays the locked amount and its reward at most, and the outputs that count for
the pool lose no more than that and the fee (`unlock_paysAtMost`). An unlock that spends
another output of the lock transaction is paid for the first one all the same, and the
shorter way back reads outputs that the transaction may not have.
-/

namespace IndexChain

open IndexChain.Core

/-- An output is read that the transaction does not have. -/
def Failure.ReadsBeyond (err : Failure) : Prop :=
  ∃ v, err = .outOfBounds v ∨ err = .spentOutOfBounds v

theorem Failure.not_readsBeyond_invalid (reason : String) :
    ¬ (Failure.invalid reason).ReadsBeyond := by
  rintro ⟨v, h | h⟩
  · cases h
  · cases h

/-- A check that fails gives a reason. -/
theorem check_readsWithin {α : Type} {b : Bool} {reason : String} {k : Unit → Except Failure α}
    (hk : b = true → Avoids Failure.ReadsBeyond (k ())) :
    Avoids Failure.ReadsBeyond (require b (.invalid reason) >>= k) :=
  Avoids.require_bind (Failure.not_readsBeyond_invalid reason) hk

theorem CTransaction.out_readsWithin {tx : CTransaction} {v : Nat} (h : v < tx.vout.length) :
    Avoids Failure.ReadsBeyond (tx.out v) := by
  rw [CTransaction.out_eq_ok.2 (List.getElem?_eq_getElem h)]
  exact Avoids.ok _

theorem CTransaction.spent_readsWithin {tx : CTransaction} {v : Nat} (h : v < tx.vout.length) :
    Avoids Failure.ReadsBeyond (tx.spent v) := by
  rw [CTransaction.spent_eq_ok.2 (List.getElem?_eq_getElem h)]
  exact Avoids.ok _

/-- The reward is at most the amount. -/
theorem rewardsCalc_nonneg {amount : Int} {APR minseconds maxseconds duration : Nat}
    (h0 : 0 ≤ amount) (h63 : amount < 2 ^ 63) :
    0 ≤ rewardsCalc amount APR minseconds maxseconds duration := by
  have hself : toUint64 amount = amount := toUint64_of_range h0 (by omega)
  unfold rewardsCalc
  split
  · exact le_rfl
  · dsimp only
    rw [hself]
    generalize hreward : toUint64 (toUint64 _ / (365 * 24 * 3600) * _) / 10000 = reward
    have hpos : 0 ≤ reward := by
      have := (toUint64_range (toUint64 (amount * ((if maxseconds < duration then maxseconds
        else duration : Nat) : Int)) / (365 * 24 * 3600) * ((APR / 1000000 : Nat) : Int))).1
      omega
    rw [toInt64_of_range]
    · split <;> omega
    · split <;> omega
    · split <;> omega

namespace RewardsEnv

variable (env : RewardsEnv)

/-! ## The pool -/

/-- What an input takes out of the pool of a plan, when its output is found. -/
def poolInput (sbits : UInt64) (fundingtxid : Uint256) (txin : CTxIn) : Int :=
  if env.isMyVin evalRewards txin.scriptSig then
    match env.getTransaction txin.prevout.hash with
    | none => 0
    | some vinTx => match vinTx.vout[txin.prevout.n.toNat]? with
      | none => 0
      | some out => env.isRewardsvout vinTx out sbits fundingtxid
  else 0

/-- What the pool of a plan loses by a transaction. -/
def poolLoss (tx : CTransaction) (sbits : UInt64) (fundingtxid : Uint256) : Int :=
  (tx.vin.map (env.poolInput sbits fundingtxid)).sum -
    (tx.vout.map fun out => env.isRewardsvout tx out sbits fundingtxid).sum

theorem poolInput_of_rewardsvin {sbits : UInt64} {fundingtxid : Uint256} {txin : CTxIn} {x : Int}
    (h : env.rewardsvin sbits fundingtxid txin = .ok x) :
    x = env.poolInput sbits fundingtxid txin := by
  unfold rewardsvin at h
  unfold poolInput
  split at h
  · rename_i hmine
    rw [if_pos hmine]
    cases hvinTx : env.getTransaction txin.prevout.hash with
    | none =>
      rw [hvinTx] at h
      cases h
    | some vinTx =>
      rw [hvinTx] at h
      obtain ⟨-, h⟩ := require_bind_eq_ok.1 h
      obtain ⟨out, hout, h⟩ := except_bind_eq_ok.1 h
      dsimp only
      rw [CTransaction.spent_eq_ok.1 hout]
      exact (Except.ok.inj h).symm
  · rename_i hmine
    rw [if_neg hmine]
    exact (Except.ok.inj h).symm

/-- An output counts for its value or for nothing. -/
theorem isRewardsvout_range {maxMoney : Int} {tx : CTransaction} {out : CTxOut}
    (h : MoneyRange maxMoney out.nValue) (sbits : UInt64) (fundingtxid : Uint256) :
    0 ≤ env.isRewardsvout tx out sbits fundingtxid ∧
      env.isRewardsvout tx out sbits fundingtxid ≤ out.nValue := by
  unfold isRewardsvout
  split
  · exact ⟨h.1, le_rfl⟩
  · exact ⟨le_rfl, h.1⟩

/-- The value of the output an input spends. -/
def spentValue (txin : CTxIn) : Int := ((env.spentOutput txin).map CTxOut.nValue).getD 0

/-- Amounts are in the range that the consensus rules keep them in. -/
structure InRange (maxMoney : Int) (tx : CTransaction) : Prop where
  /-- `MAX_MONEY` is an amount. -/
  bound : maxMoney < 2 ^ 63
  /-- Every earlier output. -/
  found : ∀ txid t, env.getTransaction txid = some t → ∀ out ∈ t.vout,
    MoneyRange maxMoney out.nValue
  /-- Every output. -/
  outputs : ∀ out ∈ tx.vout, MoneyRange maxMoney out.nValue
  /-- All inputs together. -/
  inputs : (tx.vin.map env.spentValue).sum ≤ maxMoney
  /-- The inputs spend outputs that there are. -/
  spent : ∀ txin ∈ tx.vin, ∀ t, env.getTransaction txin.prevout.hash = some t →
    txin.prevout.n.toNat < t.vout.length

section Range

variable {env} {maxMoney : Int} {tx : CTransaction}

/-- The pool counts an input at no more than its value. -/
theorem poolInput_range (h : env.InRange maxMoney tx) (sbits : UInt64) (fundingtxid : Uint256)
    (txin : CTxIn) : 0 ≤ env.poolInput sbits fundingtxid txin ∧
      env.poolInput sbits fundingtxid txin ≤ env.spentValue txin := by
  have hspent : 0 ≤ env.spentValue txin := by
    unfold spentValue CCEnv.spentOutput
    cases ht : env.getTransaction txin.prevout.hash with
    | none => exact le_rfl
    | some t =>
      cases hout : t.vout[txin.prevout.n.toNat]? with
      | none => simp [hout]
      | some out => simpa [hout] using (h.found _ t ht out (List.mem_of_getElem? hout)).1
  unfold poolInput
  split
  · split
    · exact ⟨le_rfl, hspent⟩
    · rename_i t ht
      split
      · exact ⟨le_rfl, hspent⟩
      · rename_i out hout
        have hvalue : env.spentValue txin = out.nValue := by
          simp [spentValue, CCEnv.spentOutput, ht, hout]
        rw [hvalue]
        exact env.isRewardsvout_range (h.found _ t ht out (List.mem_of_getElem? hout)) _ _
  · exact ⟨le_rfl, hspent⟩

/-- The pool inputs are an amount. -/
theorem poolInputs_range (h : env.InRange maxMoney tx) (sbits : UInt64) (fundingtxid : Uint256) :
    0 ≤ (tx.vin.map (env.poolInput sbits fundingtxid)).sum ∧
      (tx.vin.map (env.poolInput sbits fundingtxid)).sum ≤ maxMoney := by
  refine ⟨List.sum_nonneg ?_, ?_⟩
  · intro x hx
    obtain ⟨txin, -, rfl⟩ := List.mem_map.1 hx
    exact (poolInput_range h sbits fundingtxid txin).1
  · refine le_trans (List.sum_le_sum ?_) h.inputs
    intro txin _
    exact (poolInput_range h sbits fundingtxid txin).2

theorem poolOutputs_nonneg (h : env.InRange maxMoney tx) (sbits : UInt64)
    (fundingtxid : Uint256) :
    0 ≤ (tx.vout.map fun out => env.isRewardsvout tx out sbits fundingtxid).sum := by
  refine List.sum_nonneg ?_
  intro x hx
  obtain ⟨out, hout, rfl⟩ := List.mem_map.1 hx
  exact (env.isRewardsvout_range (h.outputs out hout) sbits fundingtxid).1

/-- When the amounts match, the pool loses what is paid, and the fee. -/
theorem poolLoss_le (h : env.InRange maxMoney tx) {sbits : UInt64} {fundingtxid : Uint256}
    {txfee : Int} (hfee : 0 ≤ txfee)
    (hok : env.rewardsExactAmounts tx txfee sbits fundingtxid = .ok ()) :
    env.poolLoss tx sbits fundingtxid ≤ txfee := by
  obtain ⟨inputs, hinputs, hok⟩ := except_bind_eq_ok.1 hok
  have hmap : inputs = tx.vin.map (env.poolInput sbits fundingtxid) :=
    mapM_eq_ok (fun _ _ _ hx => env.poolInput_of_rewardsvin hx) hinputs
  have heq := require_eq_ok.1 hok
  rw [beq_iff_eq, hmap] at heq
  obtain ⟨hlow, hhigh⟩ := poolInputs_range h sbits fundingtxid
  have houtputs := poolOutputs_nonneg h sbits fundingtxid
  have hbound := h.bound
  unfold poolLoss
  generalize (tx.vin.map (env.poolInput sbits fundingtxid)).sum = ins at heq hlow hhigh
  generalize (tx.vout.map fun out => env.isRewardsvout tx out sbits fundingtxid).sum = outs
    at heq houtputs
  rw [toUint64_of_range hlow (by omega)] at heq
  unfold toUint64 at heq
  omega

end Range

/-! ## Unlocks -/

/-- An unlock that spends output 0 of a lock transaction, and has the outputs that are
looked at. -/
structure SpendsLock (tx : CTransaction) (o : RewardsOpret) (lockTx : CTransaction) : Prop where
  /-- The op_return says so. -/
  opret : rewardsOpretOf tx = some o
  /-- It is an unlock. -/
  unlocks : o.funcid = .unlock
  /-- Input 0 spends output 0 of the lock transaction. -/
  spends : ∃ txin, tx.vin[0]? = some txin ∧ txin.prevout.n = 0 ∧
    env.getTransaction txin.prevout.hash = some lockTx
  /-- The unlock has its three outputs. -/
  outputs : 3 ≤ tx.vout.length
  /-- The lock has an output that says where it is paid. -/
  lockOutputs : 2 ≤ lockTx.vout.length

/-- What an unlock may do: take the locked amount back and leave a marker, or pay the
amount with its reward. The pool loses the lock, the reward and the fee at most. -/
def PaysAtMost (tx : CTransaction) (o : RewardsOpret) (lockTx : CTransaction) : Prop :=
  ∃ txin plan lock vout0 vout1, tx.vin[0]? = some txin ∧ env.planOf o = .ok plan ∧
    lockTx.vout[0]? = some lock ∧ tx.vout[0]? = some vout0 ∧ tx.vout[1]? = some vout1 ∧
    ((tx.vin.length = 1 ∧ CScript.isPayToCryptoCondition vout0.scriptPubKey = false ∧
        vout0.nValue ≤ lock.nValue ∧ vout1.nValue = 10000) ∨
      vout1.nValue ≤ lock.nValue + env.rewardOf plan txin.prevout.hash lock.nValue) ∧
    env.poolLoss tx plan.sbits o.fundingtxid ≤
      lock.nValue + env.rewardOf plan txin.prevout.hash lock.nValue + rewardsTxfee

section Unlock

variable {env} {maxMoney : Int} {tx lockTx : CTransaction} {o : RewardsOpret}

/-- An accepted unlock has found its lock and its reward. -/
theorem unlock_cases {plan : RewardsPlan} (h : env.unlock tx o plan = .ok ()) :
    ∃ txin lockTx lock vout0, tx.vin[0]? = some txin ∧
      env.getTransaction txin.prevout.hash = some lockTx ∧ lockTx.vout[0]? = some lock ∧
      tx.vout[0]? = some vout0 ∧
      ((tx.vin.length = 1 ∧ CScript.isPayToCryptoCondition vout0.scriptPubKey = false ∧
          unlockRecover tx lockTx = .ok ()) ∨
        env.unlockPay tx lockTx plan o.fundingtxid lock.nValue
          (env.rewardOf plan txin.prevout.hash lock.nValue) = .ok ()) := by
  unfold unlock at h
  obtain ⟨⟨locktxid, lockTx⟩, hlock, h⟩ := except_bind_eq_ok.1 h
  dsimp only at h
  obtain ⟨lock, hlock0, h⟩ := except_bind_eq_ok.1 h
  obtain ⟨-, h⟩ := require_bind_eq_ok.1 h
  obtain ⟨vout0, h0, h⟩ := CTransaction.out_bind_eq_ok.1 h
  unfold unlockLock at hlock
  obtain ⟨txin, hvin, hlock⟩ := except_bind_eq_ok.1 hlock
  obtain ⟨-, hlock⟩ := require_bind_eq_ok.1 hlock
  split at hlock
  · cases hlock
  · rename_i vinTx hvinTx
    simp only [except_bind_eq_ok, require_eq_ok] at hlock
    obtain ⟨-, -, -, -, -, -, -, -, -, -, hlock⟩ := hlock
    obtain ⟨rfl, rfl⟩ := Prod.mk.inj (Except.ok.inj hlock)
    refine ⟨txin, vinTx, lock, vout0, CTransaction.inp_eq_ok.1 hvin, hvinTx,
      CTransaction.spent_eq_ok.1 hlock0, h0, ?_⟩
    split at h
    · rename_i hcond
      simp only [Bool.and_eq_true, beq_iff_eq, Bool.not_eq_true'] at hcond
      exact Or.inl ⟨hcond.1, hcond.2, h⟩
    · exact Or.inr h

/-- What is taken back without a reward. -/
theorem recover_cases (h : unlockRecover tx lockTx = .ok ()) :
    ∃ lock vout0 vout1, lockTx.vout[0]? = some lock ∧ tx.vout[0]? = some vout0 ∧
      tx.vout[1]? = some vout1 ∧ vout0.nValue ≤ lock.nValue ∧ vout1.nValue = 10000 := by
  unfold unlockRecover at h
  simp only [except_bind_eq_ok, require_eq_ok, CTransaction.out_eq_ok,
    CTransaction.spent_eq_ok] at h
  obtain ⟨vout1, h1, -, hmarker, vout0, h0, -, -, -, -, -, -, lock, hlock, -, hle, -⟩ := h
  exact ⟨lock, vout0, vout1, hlock, h0, h1, of_decide_eq_true hle, by simpa using hmarker⟩

/-- What is paid with a reward. -/
theorem pay_cases {plan : RewardsPlan} {fundingtxid : Uint256} {amount reward : Int}
    (h : env.unlockPay tx lockTx plan fundingtxid amount reward = .ok ()) :
    ∃ vout1, tx.vout[1]? = some vout1 ∧
      env.rewardsExactAmounts tx (rewardsTxfee + vout1.nValue) plan.sbits fundingtxid = .ok () ∧
      toUint64 vout1.nValue ≤ toUint64 (amount + reward) := by
  unfold unlockPay at h
  simp only [except_bind_eq_ok, require_eq_ok, CTransaction.out_eq_ok,
    CTransaction.spent_eq_ok] at h
  obtain ⟨-, -, -, -, -, -, -, -, -, -, vout1, h1, -, -, -, -, -, -, _, hexact, -, hle, -⟩ := h
  exact ⟨vout1, h1, hexact, of_decide_eq_true hle⟩

theorem rewardsValidate_eq (hlen : 3 ≤ tx.vout.length) (hop : rewardsOpretOf tx = some o)
    (hf : o.funcid = .unlock) :
    env.rewardsValidate tx = (do
      let plan ← env.planOf o
      require (decide (plan.APR.toNat ≤ rewardsccMaxapr)) (.invalid "excessive APR")
      env.unlock tx o plan) := by
  have hne : (!tx.vout.isEmpty) = true := by
    cases hv : tx.vout with
    | nil => simp [hv] at hlen
    | cons out rest => rfl
  unfold rewardsValidate
  rw [hne, hop]
  dsimp only
  rw [hf]
  rfl

/-- An accepted unlock pays the lock and its reward at most. -/
theorem paysAtMost_of_accepted (hspends : SpendsLock env tx o lockTx)
    (hrange : env.InRange maxMoney tx) (h : env.rewardsValidate tx = .ok ()) :
    env.PaysAtMost tx o lockTx := by
  obtain ⟨txin, hvin, hn, hfound⟩ := hspends.spends
  rw [rewardsValidate_eq hspends.outputs hspends.opret hspends.unlocks] at h
  obtain ⟨plan, hplan, h⟩ := except_bind_eq_ok.1 h
  obtain ⟨-, h⟩ := require_bind_eq_ok.1 h
  obtain ⟨txin', lockTx', lock, vout0, hvin', hfound', hlock, h0, hcase⟩ := unlock_cases h
  obtain rfl : txin = txin' := Option.some.inj (hvin.symm.trans hvin')
  obtain rfl : lockTx = lockTx' := Option.some.inj (hfound.symm.trans hfound')
  have hlockRange := hrange.found _ lockTx hfound lock (List.mem_of_getElem? hlock)
  have hbound := hrange.bound
  have hreward : 0 ≤ env.rewardOf plan txin.prevout.hash lock.nValue :=
    rewardsCalc_nonneg hlockRange.1 (lt_of_le_of_lt hlockRange.2 hbound)
  rcases hcase with ⟨hone, hnormal, hrecover⟩ | hpay
  · obtain ⟨lock', vout0', vout1, hlock', h0', h1, hle, hmarker⟩ := recover_cases hrecover
    obtain rfl : lock = lock' := Option.some.inj (hlock.symm.trans hlock')
    obtain rfl : vout0 = vout0' := Option.some.inj (h0.symm.trans h0')
    refine ⟨txin, plan, lock, vout0, vout1, hvin, hplan, hlock, h0, h1,
      Or.inl ⟨hone, hnormal, hle, hmarker⟩, ?_⟩
    -- the only input is the lock
    have hvins : tx.vin = [txin] := by
      cases hv : tx.vin with
      | nil => simp [hv] at hvin
      | cons a rest =>
        rw [hv] at hvin hone
        obtain rfl : a = txin := Option.some.inj hvin
        obtain rfl : rest = [] := List.length_eq_zero_iff.1 (by simpa using hone)
        rfl
    have hinput : env.poolInput plan.sbits o.fundingtxid txin ≤ lock.nValue := by
      have hvalue : env.spentValue txin = lock.nValue := by
        have hout : lockTx.vout[txin.prevout.n.toNat]? = some lock := by rw [hn]; exact hlock
        simp [spentValue, CCEnv.spentOutput, hfound, hout]
      rw [← hvalue]
      exact (poolInput_range hrange plan.sbits o.fundingtxid txin).2
    have houtputs := poolOutputs_nonneg hrange plan.sbits o.fundingtxid
    unfold poolLoss rewardsTxfee
    rw [hvins, List.map_singleton, List.sum_singleton]
    omega
  · obtain ⟨vout1, h1, hexact, hle⟩ := pay_cases hpay
    have hvout1 := hrange.outputs vout1 (List.mem_of_getElem? h1)
    have hpaid : vout1.nValue ≤ lock.nValue + env.rewardOf plan txin.prevout.hash lock.nValue := by
      rw [toUint64_of_range hvout1.1 (by have := hvout1.2; omega)] at hle
      refine le_trans hle ?_
      unfold toUint64
      have hlow := hlockRange.1
      omega
    refine ⟨txin, plan, lock, vout0, vout1, hvin, hplan, hlock, h0, h1, Or.inr hpaid, ?_⟩
    have hloss := poolLoss_le hrange (by unfold rewardsTxfee; have := hvout1.1; omega) hexact
    omega

/-! ## Reading outputs -/

theorem rewardsvin_readsWithin {sbits : UInt64} {fundingtxid : Uint256} {txin : CTxIn}
    (hspent : ∀ t, env.getTransaction txin.prevout.hash = some t →
      txin.prevout.n.toNat < t.vout.length) :
    Avoids Failure.ReadsBeyond (env.rewardsvin sbits fundingtxid txin) := by
  unfold rewardsvin
  split
  · split
    · exact Avoids.error (Failure.not_readsBeyond_invalid _)
    · rename_i t ht
      refine check_readsWithin fun _ => ?_
      exact Avoids.bind (CTransaction.spent_readsWithin (hspent t ht)) fun out _ => Avoids.ok _
  · exact Avoids.ok _

theorem rewardsExactAmounts_readsWithin (hrange : env.InRange maxMoney tx) (txfee : Int)
    (sbits : UInt64) (fundingtxid : Uint256) :
    Avoids Failure.ReadsBeyond (env.rewardsExactAmounts tx txfee sbits fundingtxid) := by
  unfold rewardsExactAmounts
  refine Avoids.bind (Avoids.mapM fun txin hmem => ?_) fun inputs _ =>
    Avoids.require (Failure.not_readsBeyond_invalid _)
  exact rewardsvin_readsWithin (hrange.spent txin hmem)

theorem planOf_readsWithin : Avoids Failure.ReadsBeyond (env.planOf o) := by
  unfold planOf
  split
  · exact Avoids.error (Failure.not_readsBeyond_invalid _)
  · split
    · exact Avoids.ok _
    · split
      · exact Avoids.error (Failure.not_readsBeyond_invalid _)
      · exact Avoids.ok _

theorem unlockLock_readsWithin (hspends : SpendsLock env tx o lockTx) :
    Avoids Failure.ReadsBeyond (env.unlockLock tx o) := by
  obtain ⟨txin, hvin, -, hfound⟩ := hspends.spends
  have hlen := hspends.lockOutputs
  unfold unlockLock
  rw [CTransaction.inp_eq_ok.2 hvin]
  refine check_readsWithin fun _ => ?_
  rw [hfound]
  refine Avoids.bind ?_ fun lock _ => ?_
  · exact Avoids.bind (CTransaction.spent_readsWithin (by omega)) fun out _ => Avoids.ok _
  · refine check_readsWithin fun _ => ?_
    refine check_readsWithin fun _ => ?_
    refine check_readsWithin fun _ => ?_
    exact check_readsWithin fun _ => Avoids.ok _

/-- The lock that is found is the one that input 0 spends. -/
theorem eq_of_unlockLock (hspends : SpendsLock env tx o lockTx) {r : Uint256 × CTransaction}
    (h : env.unlockLock tx o = .ok r) : r.2 = lockTx := by
  obtain ⟨txin, hvin, -, hfound⟩ := hspends.spends
  unfold unlockLock at h
  rw [CTransaction.inp_eq_ok.2 hvin] at h
  obtain ⟨-, h⟩ := require_bind_eq_ok.1 h
  rw [hfound] at h
  simp only [except_bind_eq_ok, require_eq_ok] at h
  obtain ⟨-, -, -, -, -, -, -, -, -, -, h⟩ := h
  exact (congrArg Prod.snd (Except.ok.inj h)).symm

theorem unlockRecover_readsWithin (hspends : SpendsLock env tx o lockTx) :
    Avoids Failure.ReadsBeyond (unlockRecover tx lockTx) := by
  have hlen := hspends.outputs
  have hlock := hspends.lockOutputs
  unfold unlockRecover
  refine Avoids.bind (CTransaction.out_readsWithin (by omega)) fun vout1 _ => ?_
  refine check_readsWithin fun _ => ?_
  refine Avoids.bind (CTransaction.out_readsWithin (by omega)) fun vout0 _ => ?_
  refine check_readsWithin fun _ => ?_
  refine Avoids.bind (CTransaction.spent_readsWithin (by omega)) fun lock1 _ => ?_
  refine check_readsWithin fun _ => ?_
  refine Avoids.bind (CTransaction.spent_readsWithin (by omega)) fun lock0 _ => ?_
  refine check_readsWithin fun _ => ?_
  refine Avoids.bind (CTransaction.out_readsWithin (by omega)) fun vout2 _ => ?_
  exact Avoids.require (Failure.not_readsBeyond_invalid _)

theorem unlockPay_readsWithin (hspends : SpendsLock env tx o lockTx)
    (hrange : env.InRange maxMoney tx) (plan : RewardsPlan) (fundingtxid : Uint256)
    (amount reward : Int) :
    Avoids Failure.ReadsBeyond (env.unlockPay tx lockTx plan fundingtxid amount reward) := by
  have hlen := hspends.outputs
  have hlock := hspends.lockOutputs
  unfold unlockPay
  refine Avoids.bind (CTransaction.spent_readsWithin (by omega)) fun lock0 _ => ?_
  refine check_readsWithin fun _ => ?_
  refine check_readsWithin fun _ => ?_
  refine Avoids.bind (CTransaction.out_readsWithin (by omega)) fun vout0 _ => ?_
  refine check_readsWithin fun _ => ?_
  refine Avoids.bind (CTransaction.out_readsWithin (by omega)) fun vout1 _ => ?_
  refine check_readsWithin fun _ => ?_
  refine Avoids.bind (CTransaction.spent_readsWithin (by omega)) fun lock1 _ => ?_
  refine check_readsWithin fun _ => ?_
  refine Avoids.bind (rewardsExactAmounts_readsWithin hrange _ _ _) fun _ _ => ?_
  refine check_readsWithin fun _ => ?_
  refine Avoids.bind (CTransaction.out_readsWithin (by omega)) fun vout2 _ => ?_
  refine check_readsWithin fun _ => ?_
  unfold CCLib.preventCC
  exact check_readsWithin fun _ =>
    Avoids.require (Failure.not_readsBeyond_invalid _)

theorem rewardsValidate_readsWithin (hspends : SpendsLock env tx o lockTx)
    (hrange : env.InRange maxMoney tx) :
    Avoids Failure.ReadsBeyond (env.rewardsValidate tx) := by
  have hlen := hspends.outputs
  have hlock := hspends.lockOutputs
  rw [rewardsValidate_eq hspends.outputs hspends.opret hspends.unlocks]
  refine Avoids.bind planOf_readsWithin fun plan _ => ?_
  refine check_readsWithin fun _ => ?_
  unfold unlock
  refine Avoids.bind (unlockLock_readsWithin hspends) fun r hr => ?_
  obtain rfl := eq_of_unlockLock hspends hr
  dsimp only
  refine Avoids.bind (CTransaction.spent_readsWithin (by omega)) fun lock0 _ => ?_
  refine check_readsWithin fun _ => ?_
  refine Avoids.bind (CTransaction.out_readsWithin (by omega)) fun vout0 _ => ?_
  split
  · exact unlockRecover_readsWithin hspends
  · exact unlockPay_readsWithin hspends hrange _ _ _ _

/-- An unlock that spends the first output of a lock is judged by outputs there are. When it
is accepted, it pays the lock and its reward at most, and so does the pool. -/
theorem unlock_paysAtMost (hspends : SpendsLock env tx o lockTx)
    (hrange : env.InRange maxMoney tx) :
    Avoids Failure.ReadsBeyond (env.rewardsValidate tx) ∧
      (env.rewardsValidate tx = .ok () → env.PaysAtMost tx o lockTx) :=
  ⟨rewardsValidate_readsWithin hspends hrange, paysAtMost_of_accepted hspends hrange⟩

end Unlock

end RewardsEnv

/-! ## A plan with a lock -/

namespace SampleRewards

/-- An output of the pool. -/
def pool (nValue : Int) : CTxOut where
  nValue := nValue
  scriptPubKey := CCLib.plain.cc1 evalRewards (CCLib.plain.unspendable evalRewards)

/-- A normal output of the owner of the lock. -/
def normal (nValue : Int) : CTxOut where
  nValue := nValue
  scriptPubKey := CScript.payToPubkey (CCLib.plainKey 1)

/-- A quarter of the amount for a year. -/
def plan : RewardsPlan where
  sbits := 7
  APR := 2500000000
  minseconds := 0
  maxseconds := 31536000
  mindeposit := 0

/-- The op_return of the plan. -/
def fundingOpret : CTxOut where
  nValue := 0
  scriptPubKey := 0x6a :: CScript.pushBytes ([evalRewards, 0x46] ++ leBytes 8 plan.sbits.toNat ++
    leBytes 8 plan.APR.toNat ++ leBytes 8 plan.minseconds.toNat ++
    leBytes 8 plan.maxseconds.toNat ++ leBytes 8 plan.mindeposit.toNat)

/-- Another op_return of the plan. -/
def opret (funcid : RewardsFuncId) (nValue : Int) : CTxOut where
  nValue := nValue
  scriptPubKey := 0x6a :: CScript.pushBytes ([evalRewards, funcid.byte] ++
    leBytes 8 plan.sbits.toNat ++ leBytes 32 1)

/-- The funding of the plan. -/
def fundingTx : CTransaction where
  hash := 1
  vout := [pool 100000000, fundingOpret]

/-- A lock, and beside it a small output of the same kind. -/
def lockTx : CTransaction where
  hash := 2
  vout := [pool 1000000, normal 10000, pool 20000, opret .lock 0]

/-- An input that fulfils a condition of the contract. -/
def input (hash : Uint256) (n : UInt32) : CTxIn where
  prevout := { hash := hash, n := n }
  scriptSig := [0, evalRewards] ++ CCLib.plain.unspendable evalRewards

/-- An unlock with its three outputs. -/
def unlockTx (n : UInt32) (change paid : Int) : CTransaction where
  hash := 3
  vin := [input 2 n, input 1 0]
  vout := [pool change, normal paid, opret .unlock 0]

/-- An unlock of the lock for its amount and reward. -/
def honest : CTransaction := unlockTx 0 99740000 1250000

/-- An unlock that spends the small output and is paid for the lock. -/
def theft : CTransaction := unlockTx 2 98760000 1250000

/-- An unlock with a single output. -/
def short : CTransaction where
  hash := 4
  vin := [input 2 0]
  vout := [opret .unlock 990000]

/-- A year after the lock. -/
def env : RewardsEnv :=
  let base := CCLib.plain.envAt "" [lockTx, fundingTx]
  { base with
    txBlock := fun txid => if txid = 1 ∨ txid = 2 then some (10, 1500000000) else none
    tip := (20, 1531536000)
    getValueIn := fun tx =>
      (tx.vin.map fun txin => ((base.spentOutput txin).map CTxOut.nValue).getD 0).sum
    uninitPlan := plan }

/-- The op_return of the unlocks. -/
def unlockOpret : RewardsOpret where
  funcid := .unlock
  sbits := 7
  fundingtxid := 1

theorem spendsLock_honest : env.SpendsLock honest unlockOpret lockTx where
  opret := by decide
  unlocks := rfl
  spends := ⟨input 2 0, rfl, rfl, by decide⟩
  outputs := by decide
  lockOutputs := by decide

theorem inRange_honest : env.InRange 20000000000000000 honest where
  bound := by decide
  found := by
    intro txid t ht out hout
    have hall : ∀ t ∈ [lockTx, fundingTx], ∀ out ∈ t.vout,
        MoneyRange 20000000000000000 out.nValue := by decide
    exact hall t (mem_of_lookupTx ht).1 out hout
  outputs := by decide
  inputs := by decide
  spent := by
    intro txin hmem t ht
    rcases List.mem_cons.1 hmem with rfl | hmem
    · have hlock : env.getTransaction 2 = some lockTx := by decide
      obtain rfl := Option.some.inj (hlock.symm.trans ht)
      decide
    · obtain rfl := List.mem_singleton.1 hmem
      have hfunding : env.getTransaction 1 = some fundingTx := by decide
      obtain rfl := Option.some.inj (hfunding.symm.trans ht)
      decide

end SampleRewards

/-- The honest unlock is accepted and takes no more than its lock, reward and fee. -/
theorem unlock_honest :
    SampleRewards.env.rewardsValidate SampleRewards.honest = .ok () ∧
    Avoids Failure.ReadsBeyond (SampleRewards.env.rewardsValidate SampleRewards.honest) ∧
    (SampleRewards.env.rewardsValidate SampleRewards.honest = .ok () →
      SampleRewards.env.PaysAtMost SampleRewards.honest SampleRewards.unlockOpret
        SampleRewards.lockTx) := by
  refine ⟨eq_ok_of_isOk (by decide +kernel), ?_⟩
  exact RewardsEnv.unlock_paysAtMost SampleRewards.spendsLock_honest SampleRewards.inRange_honest

/-- The owner of a lock is paid for it when he spends an output of a fiftieth of its value,
an unlock is judged by outputs it does not have, and an honest unlock takes the lock and the
fee from the pool besides the reward. -/
theorem unlock_cheats :
    (SampleRewards.env.rewardsValidate SampleRewards.theft = .ok () ∧
      SampleRewards.env.spentValue (SampleRewards.input 2 2) = 20000 ∧
      SampleRewards.env.rewardOf SampleRewards.plan 2 20000 = 5000 ∧
      SampleRewards.theft.vout[1]? = some (SampleRewards.normal 1250000)) ∧
    SampleRewards.env.rewardsValidate SampleRewards.short = .error (.outOfBounds 1) ∧
    (SampleRewards.env.rewardsValidate SampleRewards.honest = .ok () ∧
      SampleRewards.env.rewardOf SampleRewards.plan 2 1000000 = 250000 ∧
      SampleRewards.env.poolLoss SampleRewards.honest 7 1 = 1260000) := by
  refine ⟨⟨eq_ok_of_isOk (by decide +kernel), by decide +kernel, by decide +kernel, rfl⟩,
    by decide +kernel, eq_ok_of_isOk (by decide +kernel), by decide +kernel, by decide +kernel⟩

end IndexChain
