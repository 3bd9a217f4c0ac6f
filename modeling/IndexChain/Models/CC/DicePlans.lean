import IndexChain.Models.CC.DiceFinish
import Mathlib.Algebra.Order.Ring.Int

/-!
# Several dice plans

All plans keep their funds in one address. `DiceAmounts` counts what belongs to the
plan of a transaction and passes over the rest, so an output of another plan can be
spent along with the others and its value taken. A transaction that ends a bet takes from
its plan alone exactly when nothing that it spends is passed over (`finish_planKept_iff`).
-/

namespace IndexChain

open IndexChain.Core

namespace DiceEnv

variable (env : DiceEnv)

/-! ## Funds of plans -/

/-- An output in the address that all plans share. -/
def isDiceAddress (out : CTxOut) : Bool :=
  CScript.isPayToCryptoCondition out.scriptPubKey &&
    env.scriptAddress out.scriptPubKey == some (env.unspendableCCaddr evalDice)

/-- The outputs of a transaction belong to a plan. -/
def belongsTo (tx : CTransaction) (sbits : UInt64) (fundingtxid : Uint256) : Bool :=
  match diceOpretOf tx with
  | some o => o.sbits == sbits &&
      ((o.funcid == .createFunding && tx.hash == fundingtxid) || o.fundingtxid == fundingtxid)
  | none => false

/-- The output that a dice input spends, with its transaction. -/
def spentDice (txin : CTxIn) : Option (CTransaction × CTxOut) :=
  if env.isMyVin evalDice txin.scriptSig then
    (env.getTransaction txin.prevout.hash).bind fun t =>
      t.vout[txin.prevout.n.toNat]?.map fun out => (t, out)
  else none

theorem spentDice_eq_some {txin : CTxIn} {t : CTransaction} {out : CTxOut} :
    env.spentDice txin = some (t, out) ↔ env.isMyVin evalDice txin.scriptSig = true ∧
      env.getTransaction txin.prevout.hash = some t ∧
      t.vout[txin.prevout.n.toNat]? = some out := by
  unfold spentDice
  split
  · rename_i hvin
    rw [Option.bind_eq_some_iff]
    simp only [hvin, Option.map_eq_some_iff, Prod.mk.injEq, true_and]
    constructor
    · rintro ⟨t', ht, out', hout, rfl, rfl⟩
      exact ⟨ht, hout⟩
    · rintro ⟨ht, hout⟩
      exact ⟨t, ht, out, hout, rfl, rfl⟩
  · rename_i hvin
    simp [hvin]

/-- What an input spends from the address of the plans. -/
def diceValue (txin : CTxIn) : Int :=
  match env.spentDice txin with
  | some (_, out) => if env.isDiceAddress out then out.nValue else 0
  | none => 0

/-- What a transaction spends from the address of the plans. -/
def diceInputs (tx : CTransaction) : Int := (tx.vin.map env.diceValue).sum

/-- What a transaction leaves to a plan. -/
def planOutputs (tx : CTransaction) (sbits : UInt64) (fundingtxid : Uint256) : Int :=
  (tx.vout.map fun out => env.isDicevout tx out sbits fundingtxid).sum

/-- What the bettor gets. -/
def payout (funcid : DiceFuncId) (tx : CTransaction) : Int :=
  if funcid = .loss then 0 else (tx.vout[2]?.map CTxOut.nValue).getD 0

/-- The value of output 0. -/
def firstValue (tx : CTransaction) : Int := (tx.vout[0]?.map CTxOut.nValue).getD 0

/-- A transaction takes from the plan it names only, and what it takes stays there or goes
to the bettor. The consensus rules keep the sum of the inputs in the range of an amount. -/
structure PlanKept (tx : CTransaction) (o : DiceOpret) : Prop where
  /-- What it spends belongs to the plan. -/
  own : ∀ txin ∈ tx.vin, ∀ t out, env.spentDice txin = some (t, out) →
    env.isDiceAddress out = true → belongsTo t o.sbits o.fundingtxid = true
  /-- The amounts agree up to the fee. -/
  funds : env.diceInputs tx < 2 ^ 63 →
    env.diceInputs tx = env.planOutputs tx o.sbits o.fundingtxid + payout o.funcid tx ∨
    env.diceInputs tx = env.planOutputs tx o.sbits o.fundingtxid + payout o.funcid tx + diceTxfee

/-- No output that the transaction spends from the address of the plans is passed over by
`IsDicevout`. -/
def NonePassedOver (tx : CTransaction) (sbits : UInt64) (fundingtxid : Uint256) : Prop :=
  ∀ txin ∈ tx.vin, ∀ t out, env.spentDice txin = some (t, out) →
    env.isDiceAddress out = true → belongsTo t sbits fundingtxid = true

theorem isDicevout_eq_ite (tx : CTransaction) (out : CTxOut) (sbits : UInt64)
    (fundingtxid : Uint256) : env.isDicevout tx out sbits fundingtxid =
      if env.isDiceAddress out && belongsTo tx sbits fundingtxid then out.nValue else 0 := by
  unfold isDicevout isDiceAddress belongsTo
  cases diceOpretOf tx with
  | none => simp
  | some o =>
    simp only [Bool.and_eq_true, beq_iff_eq, Bool.or_eq_true]
    split
    · rename_i haddr
      simp only [haddr, and_self, true_and]
    · rename_i haddr
      simp only [haddr, false_and, if_false]

/-- What `DiceAmounts` counts for an input. -/
def planValue (sbits : UInt64) (fundingtxid : Uint256) (txin : CTxIn) : Int :=
  match env.spentDice txin with
  | some (t, out) => env.isDicevout t out sbits fundingtxid
  | none => 0

theorem planValue_of_dicevin {sbits : UInt64} {fundingtxid : Uint256} {txin : CTxIn} {v : Int}
    (h : env.dicevin sbits fundingtxid txin = .ok v) :
    env.planValue sbits fundingtxid txin = v := by
  unfold dicevin at h
  unfold planValue spentDice
  split at h
  · rename_i hvin
    rw [if_pos hvin]
    split at h
    · cases h
    · rename_i t ht
      obtain ⟨out, hout, h⟩ := except_bind_eq_ok.1 h
      rw [CTransaction.spent_eq_ok] at hout
      simp only [ht, hout, Option.bind_some, Option.map_some]
      exact Except.ok.inj h
  · rename_i hvin
    rw [if_neg hvin]
    exact Except.ok.inj h

/-- Where an input spends the address, its value counts if it belongs to the plan. -/
theorem planValue_eq_diceValue {sbits : UInt64} {fundingtxid : Uint256} {txin : CTxIn}
    (h : ∀ t out, env.spentDice txin = some (t, out) → env.isDiceAddress out = true →
      belongsTo t sbits fundingtxid = true) :
    env.planValue sbits fundingtxid txin = env.diceValue txin := by
  unfold planValue diceValue
  cases hspent : env.spentDice txin with
  | none => rfl
  | some r =>
    obtain ⟨t, out⟩ := r
    dsimp only
    rw [isDicevout_eq_ite]
    by_cases haddr : env.isDiceAddress out = true
    · simp [haddr, h t out hspent haddr]
    · simp [haddr]

/-! ## Amounts -/

variable {env} {tx : CTransaction} {o : DiceOpret} {plan : DicePlan}

theorem ne_createFunding {f : DiceFuncId} (hf : f = .win ∨ f = .loss ∨ f = .timeout) :
    f ≠ .createFunding := by
  rcases hf with rfl | rfl | rfl
  · decide
  · decide
  · decide

/-- What belongs to a plan other than by its creation. -/
theorem belongsTo_eq (hop : diceOpretOf tx = some o) (hf : o.funcid ≠ .createFunding)
    (sbits : UInt64) (fundingtxid : Uint256) : belongsTo tx sbits fundingtxid =
      (o.sbits == sbits && o.fundingtxid == fundingtxid) := by
  have hne : (o.funcid == .createFunding) = false := by simpa using hf
  unfold belongsTo
  rw [hop]
  simp only [hne, Bool.false_and, Bool.false_or]

/-- The amounts are sums of what each input and output counts for. -/
theorem diceAmounts_eq {sbits : UInt64} {fundingtxid : Uint256} {amounts : Int × Int}
    (h : env.diceAmounts tx sbits fundingtxid = .ok amounts) :
    amounts = (toUint64 (tx.vin.map (env.planValue sbits fundingtxid)).sum,
      toUint64 (env.planOutputs tx sbits fundingtxid)) := by
  obtain ⟨vs, hvs, h⟩ := except_bind_eq_ok.1 h
  have hmap : vs = tx.vin.map (env.planValue sbits fundingtxid) :=
    mapM_eq_ok (fun txin _ v hv => (env.planValue_of_dicevin hv).symm) hvs
  rw [← hmap]
  exact (Except.ok.inj h).symm

/-! ## The balance of a plan -/

/-- Where the funds of a plan go when a bet ends. -/
structure Balanced (env : DiceEnv) (plan : DicePlan) (tx : CTransaction) (o : DiceOpret)
    (vout0 : CTxOut) : Prop where
  /-- Output 0 is in the address of the plans. -/
  vout0_eq : tx.vout[0]? = some vout0
  vout0_addr : env.isDiceAddress vout0 = true
  /-- No other output is. -/
  others : ∀ i out, i ≠ 0 → tx.vout[i]? = some out → env.isDiceAddress out = false
  /-- The outputs agree with what is counted. -/
  balance : let inputs := toUint64 (tx.vin.map (env.planValue plan.sbits o.fundingtxid)).sum
    let outputs := toUint64 (env.planOutputs tx plan.sbits o.fundingtxid)
    if o.funcid = .loss then toInt64 inputs = 0 ∨ toInt64 inputs = vout0.nValue
    else inputs = toUint64 (outputs + payout o.funcid tx) ∨
      inputs = toUint64 (outputs + payout o.funcid tx + diceTxfee)

theorem isDiceAddress_of_constrainVout {vout : CTxOut} {nValue : Int}
    (h : env.constrainVout vout true (some (env.unspendableCCaddr evalDice)) nValue = true) :
    env.isDiceAddress vout = true := by
  unfold CCLib.constrainVout at h
  simp only [Option.all_some, Bool.and_eq_true, beq_iff_eq] at h
  unfold isDiceAddress
  simp [h.1.1, h.1.2]

/-- The outputs after output 0 are not conditions. -/
theorem isDiceAddress_of_preventCC (h : env.preventCC tx none (some 1) = .ok ()) :
    ∀ i out, i ≠ 0 → tx.vout[i]? = some out → env.isDiceAddress out = false := by
  intro i out hi hout
  simp only [CCLib.preventCC, require_bind_eq_ok, require_eq_ok, Option.all_none,
    Option.all_some, true_and, List.all_eq_true, Bool.not_eq_true'] at h
  have hmem : out ∈ tx.vout.drop 1 := by
    apply List.mem_of_getElem? (i := i - 1)
    rw [List.getElem?_drop, show 1 + (i - 1) = i by omega, hout]
  unfold isDiceAddress
  rw [h out hmem, Bool.false_and]

/-- What a loss leaves in output 0. -/
theorem exists_vout0_of_checkLoss {fundingPubKey : CScript} {inputs : Int}
    (h : env.checkLoss fundingPubKey tx inputs = .ok ()) :
    ∃ vout0, tx.vout[0]? = some vout0 ∧ env.isDiceAddress vout0 = true ∧
      (toInt64 inputs = 0 ∨ toInt64 inputs = vout0.nValue) := by
  simp only [checkLoss, CTransaction.out_bind_eq_ok, require_bind_eq_ok] at h
  obtain ⟨vout0, h0, hvout0, -⟩ := h
  refine ⟨vout0, h0, isDiceAddress_of_constrainVout hvout0, ?_⟩
  unfold CCLib.constrainVout at hvout0
  simp only [Bool.and_eq_true, Bool.or_eq_true, beq_iff_eq] at hvout0
  exact hvout0.2

/-- What a win or a timeout leaves in output 0 and pays to the bettor. -/
theorem exists_vout0_of_checkWin {fundingPubKey : CScript} {betTx : CTransaction}
    {inputs outputs : Int} {funcid : DiceFuncId} (hne : funcid ≠ .loss)
    (h : env.checkWin fundingPubKey tx betTx inputs outputs = .ok ()) :
    ∃ vout0, tx.vout[0]? = some vout0 ∧ env.isDiceAddress vout0 = true ∧
      (inputs = toUint64 (outputs + payout funcid tx) ∨
        inputs = toUint64 (outputs + payout funcid tx + diceTxfee)) := by
  unfold checkWin at h
  obtain ⟨betOut1, -, h⟩ := except_bind_eq_ok.1 h
  obtain ⟨betOut2, -, h⟩ := except_bind_eq_ok.1 h
  simp only [CTransaction.out_bind_eq_ok, require_bind_eq_ok, Bool.or_eq_true, beq_iff_eq] at h
  obtain ⟨vout0, h0, hvout0, vout2, h2, -, -, hfunds, -⟩ := h
  have hpayout : payout funcid tx = vout2.nValue := by
    unfold payout
    rw [if_neg hne, h2]
    rfl
  rw [hpayout]
  exact ⟨vout0, h0, isDiceAddress_of_constrainVout hvout0, hfunds⟩

/-- Every transaction that ends a bet is balanced in what is counted. -/
theorem exists_balanced {fundingTx : CTransaction} (hop : diceOpretOf tx = some o)
    (hf : o.funcid = .win ∨ o.funcid = .loss ∨ o.funcid = .timeout)
    (hfund : env.getTransaction o.fundingtxid = some fundingTx)
    (hplan : planOf fundingTx = .ok plan) (hok : env.diceValidate tx = .ok ()) :
    ∃ vout0, Balanced env plan tx o vout0 := by
  rw [diceValidate_finish hfund hplan hop hf] at hok
  obtain ⟨-, fundingOut, -, hfinish⟩ := hok
  unfold checkFinish at hfinish
  obtain ⟨amounts, hamounts, hfinish⟩ := except_bind_eq_ok.1 hfinish
  obtain ⟨betTx, -, hfinish⟩ := except_bind_eq_ok.1 hfinish
  simp only [CTransaction.out_bind_eq_ok, unit_bind_eq_ok, require_eq_ok] at hfinish
  obtain ⟨vout1, -, -, hend, hprevent⟩ := hfinish
  have hothers := isDiceAddress_of_preventCC hprevent
  obtain rfl := diceAmounts_eq hamounts
  unfold checkEnd at hend
  by_cases hloss : o.funcid = .loss
  · simp only [hloss, unit_bind_eq_ok] at hend
    obtain ⟨vout0, h0, haddr, hfunds⟩ := exists_vout0_of_checkLoss hend.1
    refine ⟨vout0, h0, haddr, hothers, ?_⟩
    dsimp only
    rw [if_pos hloss]
    exact hfunds
  · have hcheck : env.checkWin fundingOut.scriptPubKey tx betTx
        (toUint64 (tx.vin.map (env.planValue plan.sbits o.fundingtxid)).sum)
        (toUint64 (env.planOutputs tx plan.sbits o.fundingtxid)) = .ok () := by
      rcases hf with hf | hf | hf
      · simp only [hf, unit_bind_eq_ok] at hend
        exact hend.1
      · exact absurd hf hloss
      · simp only [hf, unit_bind_eq_ok] at hend
        exact hend.1
    obtain ⟨vout0, h0, haddr, hfunds⟩ := exists_vout0_of_checkWin hloss hcheck
    refine ⟨vout0, h0, haddr, hothers, ?_⟩
    dsimp only
    rw [if_neg hloss]
    exact hfunds

/-- What is left to a plan is output 0. -/
theorem Balanced.planOutputs_eq {vout0 : CTxOut} (h : Balanced env plan tx o vout0)
    (sbits : UInt64) (fundingtxid : Uint256) : env.planOutputs tx sbits fundingtxid =
      if belongsTo tx sbits fundingtxid then vout0.nValue else 0 := by
  unfold planOutputs
  rw [sum_map_eq_single h.vout0_eq]
  · rw [isDicevout_eq_ite, h.vout0_addr, Bool.true_and]
  · intro i out hi hout
    rw [isDicevout_eq_ite, h.others i out hi hout, Bool.false_and]
    rfl

/-- Output 0 is left to the plan that the transaction names. -/
theorem Balanced.planOutputs_self {vout0 : CTxOut} (h : Balanced env plan tx o vout0)
    (hop : diceOpretOf tx = some o) (hf : o.funcid ≠ .createFunding) :
    env.planOutputs tx o.sbits o.fundingtxid = vout0.nValue := by
  rw [h.planOutputs_eq, belongsTo_eq hop hf]
  simp

theorem Balanced.firstValue_eq {vout0 : CTxOut} (h : Balanced env plan tx o vout0) :
    firstValue tx = vout0.nValue := by
  unfold firstValue
  rw [h.vout0_eq]
  rfl

/-- Amounts are in the range that the consensus rules keep them in. -/
structure InRange (env : DiceEnv) (maxMoney : Int) (tx : CTransaction) : Prop where
  bound : 4 * maxMoney < 2 ^ 63
  /-- Every earlier output. -/
  found : ∀ txid t out, env.getTransaction txid = some t → out ∈ t.vout →
    0 ≤ out.nValue ∧ out.nValue ≤ maxMoney
  /-- The inputs and outputs of the transaction. -/
  inputs : env.diceInputs tx ≤ maxMoney
  outputs : ∀ out ∈ tx.vout, 0 ≤ out.nValue
  total : (tx.vout.map CTxOut.nValue).sum ≤ maxMoney

section Kept

variable {maxMoney : Int} {vout0 : CTxOut}

theorem InRange.diceValue_range (h : InRange env maxMoney tx) (txin : CTxIn) :
    0 ≤ env.diceValue txin := by
  unfold diceValue
  split
  · rename_i t out hspent
    obtain ⟨-, ht, hout⟩ := env.spentDice_eq_some.1 hspent
    split
    · exact (h.found _ t out ht (List.mem_of_getElem? hout)).1
    · exact le_refl 0
  · exact le_refl 0

theorem InRange.diceInputs_nonneg (h : InRange env maxMoney tx) (vin : List CTxIn) :
    0 ≤ (vin.map env.diceValue).sum := by
  apply List.sum_nonneg
  intro v hv
  obtain ⟨txin, -, rfl⟩ := List.mem_map.1 hv
  exact h.diceValue_range txin

/-- What stays and what is paid is part of the outputs. -/
theorem InRange.payout_range (h : InRange env maxMoney tx) (h0 : tx.vout[0]? = some vout0)
    (funcid : DiceFuncId) : 0 ≤ vout0.nValue ∧ 0 ≤ payout funcid tx ∧
      vout0.nValue + payout funcid tx ≤ maxMoney := by
  have hnonneg : ∀ outs : List CTxOut, (∀ out ∈ outs, out ∈ tx.vout) →
      0 ≤ (outs.map CTxOut.nValue).sum := by
    intro outs hsub
    apply List.sum_nonneg
    intro v hv
    obtain ⟨out, hout, rfl⟩ := List.mem_map.1 hv
    exact h.outputs out (hsub out hout)
  have htotal := h.total
  have houts := h.outputs
  cases hv : tx.vout with
  | nil => simp [hv] at h0
  | cons a rest =>
    rw [hv] at h0 htotal houts hnonneg
    obtain rfl : a = vout0 := by simpa using h0
    have ha : 0 ≤ a.nValue := houts a (List.mem_cons_self ..)
    rw [List.map_cons, List.sum_cons] at htotal
    have hpay : 0 ≤ payout funcid tx ∧ payout funcid tx ≤ (rest.map CTxOut.nValue).sum := by
      have hrest := hnonneg rest fun out hout => List.mem_cons_of_mem a hout
      unfold payout
      rw [hv]
      split
      · exact ⟨le_refl 0, hrest⟩
      · cases h2 : (a :: rest)[2]? with
        | none => exact ⟨le_refl 0, hrest⟩
        | some vout2 =>
          rw [List.getElem?_cons_succ] at h2
          have hmem := List.mem_of_getElem? h2
          refine ⟨houts vout2 (List.mem_cons_of_mem a hmem), ?_⟩
          apply List.single_le_sum
          · intro v hv'
            obtain ⟨out, hout, rfl⟩ := List.mem_map.1 hv'
            exact houts out (List.mem_cons_of_mem a hout)
          · exact List.mem_map_of_mem hmem
    omega

/-- If nothing is passed over, all that is spent is counted. -/
theorem NonePassedOver.sum_planValue_eq {sbits : UInt64} {fundingtxid : Uint256}
    (h : env.NonePassedOver tx sbits fundingtxid) :
    (tx.vin.map (env.planValue sbits fundingtxid)).sum = env.diceInputs tx := by
  unfold diceInputs
  congr 1
  apply List.map_congr_left
  intro txin hmem
  exact planValue_eq_diceValue env (h txin hmem)

/-- Where nothing is passed over, what is counted is what is spent. -/
theorem Balanced.funds (hbal : Balanced env plan tx o vout0) (hop : diceOpretOf tx = some o)
    (hf : o.funcid ≠ .createFunding) (hsbits : o.sbits = plan.sbits)
    (hnone : env.NonePassedOver tx plan.sbits o.fundingtxid)
    (hin : 0 ≤ env.diceInputs tx) (hlt : env.diceInputs tx < 2 ^ 63)
    (h0 : 0 ≤ vout0.nValue) (hpay : 0 ≤ payout o.funcid tx)
    (hmax : vout0.nValue + payout o.funcid tx + diceTxfee < 2 ^ 63)
    (hloss : o.funcid = .loss → env.diceInputs tx ≠ 0 ∨ vout0.nValue = 0) :
    env.diceInputs tx = vout0.nValue + payout o.funcid tx ∨
      env.diceInputs tx = vout0.nValue + payout o.funcid tx + diceTxfee := by
  have hbalance := hbal.balance
  dsimp only at hbalance
  rw [hnone.sum_planValue_eq, ← hsbits, hbal.planOutputs_self hop hf] at hbalance
  unfold toUint64 toInt64 at hbalance
  by_cases hl : o.funcid = .loss
  · have hzero : payout o.funcid tx = 0 := if_pos hl
    have hcond := hloss hl
    rw [if_pos hl, Int.bmod_def] at hbalance
    omega
  · rw [if_neg hl] at hbalance
    unfold diceTxfee at hbalance hmax ⊢
    omega

/-- A transaction that ends a bet takes from the plan it names only, and balances, when it
names the plan of its bet, nothing that it spends is passed over, and a loss puts nothing in
that was not there before; and when it names the plan of its bet, only then. -/
theorem finish_planKept_iff {fundingTx : CTransaction} (hop : diceOpretOf tx = some o)
    (hf : o.funcid = .win ∨ o.funcid = .loss ∨ o.funcid = .timeout)
    (hfund : env.getTransaction o.fundingtxid = some fundingTx)
    (hplan : planOf fundingTx = .ok plan) (hrange : InRange env maxMoney tx)
    (hok : env.diceValidate tx = .ok ()) :
    let counted := env.NonePassedOver tx plan.sbits o.fundingtxid ∧
      (o.funcid = .loss → env.diceInputs tx ≠ 0 ∨ firstValue tx = 0)
    (o.sbits = plan.sbits ∧ counted → env.PlanKept tx o) ∧
      (o.sbits = plan.sbits → env.PlanKept tx o → counted) := by
  have hf' := ne_createFunding hf
  obtain ⟨vout0, hbal⟩ := exists_balanced hop hf hfund hplan hok
  obtain ⟨h0, hpay, htotal⟩ := hrange.payout_range hbal.vout0_eq o.funcid
  have hbound := hrange.bound
  have hin := hrange.inputs
  rw [hbal.firstValue_eq]
  constructor
  · rintro ⟨hsbits, hnone, hloss⟩
    refine ⟨hsbits ▸ hnone, fun hlt => ?_⟩
    rw [hbal.planOutputs_self hop hf']
    apply hbal.funds hop hf' hsbits hnone (hrange.diceInputs_nonneg tx.vin) hlt h0 hpay
    · unfold diceTxfee
      omega
    · exact hloss
  · intro hsbits hkept
    refine ⟨hsbits ▸ hkept.own, fun hloss => ?_⟩
    have hfunds := hkept.funds
    have hzero : payout o.funcid tx = 0 := if_pos hloss
    rw [hbal.planOutputs_self hop hf'] at hfunds
    unfold diceTxfee at hfunds
    omega

end Kept

end DiceEnv

/-! ## Two plans -/

namespace SampleDice

/-- An entropy transaction of another plan, with funds of 1000. -/
def otherTx : CTransaction where
  hash := 61
  vin := [{ prevout := { hash := 60, n := 1 } }]
  vout := [funds 1000, pay 3 10000,
    opretOut { funcid := .entropy, sbits := 6, fundingtxid := 60, hash := 8, proof := 0 }]

/-- A view of the bet with the funds of the other plan. -/
def envBoth : DiceEnv where
  toCCEnv := CCLib.plain.envAt "" [otherTx, betTx, entropyTx, fundingTx]
  height := 105
  txHeight _ := some 100
  notarizedHeight := 0
  txTime _ := 1
  tipTime := 2

/-- The input that spends them. -/
def otherVin : CTxIn where
  prevout := { hash := 61, n := 0 }
  scriptSig := [0, evalDice] ++ CCLib.plainKey 1

/-- The bet is won, and the funds of the other plan go to the owner of this one. -/
def takeTx : CTransaction where
  hash := 55
  vin := vins ++ [otherVin]
  vout := [funds 900, pay 1 10000, pay 2 200, pay 1 1000, opretOut winOpret]

theorem inRange : DiceEnv.InRange envBoth 2100000000000000 winTx := by
  have hfound : ∀ t ∈ [otherTx, betTx, entropyTx, fundingTx], ∀ out ∈ t.vout,
      0 ≤ out.nValue ∧ out.nValue ≤ 2100000000000000 := by
    decide
  refine ⟨by decide, ?_, by decide, by decide, by decide⟩
  intro txid t out ht hout
  exact hfound t (mem_of_lookupTx ht).1 out hout

/-- The win spends the outputs of its bet. -/
theorem nonePassedOver : envBoth.NonePassedOver winTx 5 50 := by
  intro txin hmem t out hspent _
  have hall : ∀ txin ∈ winTx.vin, (envBoth.spentDice txin).all (fun r =>
      DiceEnv.belongsTo r.1 5 50) = true := by
    decide +kernel
  have hbelongs := hall txin hmem
  rwa [hspent, Option.all_some] at hbelongs

end SampleDice

open SampleDice

/-- A win that spends the outputs of its bet keeps the funds of both plans. -/
theorem win_keeps_plan :
    envBoth.diceValidate winTx = .ok () ∧ envBoth.PlanKept winTx winOpret := by
  have hok : envBoth.diceValidate winTx = .ok () := eq_ok_of_isOk (by decide +kernel)
  have hop : diceOpretOf winTx = some winOpret := by decide +kernel
  have hfund : envBoth.getTransaction winOpret.fundingtxid = some fundingTx := by decide +kernel
  have hplan : DiceEnv.planOf fundingTx = .ok plan := eq_ok_of_toOption (by decide +kernel)
  have hsbits : winOpret.sbits = plan.sbits := rfl
  have hloss : winOpret.funcid = .loss →
      envBoth.diceInputs winTx ≠ 0 ∨ DiceEnv.firstValue winTx = 0 := by
    decide +kernel
  obtain ⟨hkept, -⟩ := DiceEnv.finish_planKept_iff hop (Or.inl rfl) hfund hplan inRange hok
  exact ⟨hok, hkept ⟨hsbits, nonePassedOver, hloss⟩⟩

/-- A transaction of one plan takes the funds of another. -/
theorem take_other_funds :
    envBoth.diceValidate takeTx = .ok () ∧ diceOpretOf takeTx = some winOpret ∧
    envBoth.diceInputs takeTx = 2100 ∧ envBoth.planOutputs takeTx 5 50 = 900 ∧
    DiceEnv.payout .win takeTx = 200 ∧ ¬ envBoth.PlanKept takeTx winOpret := by
  refine ⟨eq_ok_of_isOk (by decide +kernel), by decide +kernel, by decide +kernel,
    by decide +kernel, by decide +kernel, ?_⟩
  intro hkept
  have hmem : otherVin ∈ takeTx.vin := by decide +kernel
  have hspent : envBoth.spentDice otherVin = some (otherTx, funds 1000) := by decide +kernel
  have hown := hkept.own _ hmem otherTx (funds 1000) hspent (by decide +kernel)
  exact absurd hown (by decide +kernel)

end IndexChain
