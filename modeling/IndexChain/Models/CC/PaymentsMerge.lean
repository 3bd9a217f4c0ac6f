import Mathlib.Algebra.BigOperators.Group.List.Basic
import IndexChain.Models.CC.History
import IndexChain.Models.CC.Payments

/-!
# Merging the funds of a plan

The validator checks output 0 of a merge and none of the others, so what the inputs
hold can be paid to anyone. A merge keeps the funds in the plan exactly when the
other outputs are worth nothing and nothing goes to the shielded pool
(`merge_keepsFunds_iff`).
-/

namespace IndexChain

open IndexChain.Core

/-- Transactions that differ in the scripts after output 0 at most. -/
structure SameMerge (tx tx' : CTransaction) : Prop where
  /-- Only outputs differ. -/
  outputs_only : tx' = { tx with vout := tx'.vout }
  /-- Output 0 is the same. -/
  head_eq : tx'.vout.head? = tx.vout.head?
  /-- The values are the same. -/
  values_eq : tx'.vout.map CTxOut.nValue = tx.vout.map CTxOut.nValue

namespace PaymentsEnv

variable (env : PaymentsEnv)

/-- An output at the address of a plan. -/
def paysPlan (createtxid : Uint256) (out : CTxOut) : Bool :=
  (CScript.getCCopret out.scriptPubKey).isSome &&
    env.scriptAddress out.scriptPubKey == some (env.planAddr createtxid)

/-- What the transparent inputs hold. -/
def inputValue (tx : CTransaction) : Int :=
  (tx.vin.map fun txin => ((env.spentOutput txin).map CTxOut.nValue).getD 0).sum

/-- A merge gives the funds back to the plan. -/
structure KeepsFunds (createtxid : Uint256) (tx : CTransaction) : Prop where
  /-- The inputs, except the fee, are in outputs of the plan. -/
  total : env.inputValue tx - env.actualTxfee tx ≤
    ((tx.vout.filter (env.paysPlan createtxid)).map CTxOut.nValue).sum
  /-- No output pays anyone else. -/
  only : ∀ out ∈ tx.vout, out.nValue = 0 ∨ env.paysPlan createtxid out = true

/-! ## What the validator looks at -/

/-- An accepted merge. -/
structure MergeAccepted (createtxid : Uint256) (tx : CTransaction) (plan : PaymentsPlan) :
    Prop where
  /-- Output 0 names the plan. -/
  change : env.decodeChange tx = .ok (createtxid, none)
  /-- The plan is found. -/
  plan_eq : env.planOf createtxid = .ok plan
  /-- The shared checks pass. -/
  checked : env.checkPlan createtxid plan tx = .ok ()
  /-- The inputs belong to the plan, and there are enough of them. -/
  vins : ∃ dust, env.checkPaymentsVins createtxid plan.lockedblocks true tx.vin = .ok dust ∧
    checkMergeVins tx dust true = .ok ()

theorem paymentsValidate_merge_iff {tx : CTransaction} {createtxid : Uint256}
    (hchange : env.decodeChange tx = .ok (createtxid, none)) :
    env.paymentsValidate tx = .ok () ↔ ∃ plan, env.MergeAccepted createtxid tx plan := by
  unfold paymentsValidate
  rw [hchange]
  change (env.planOf createtxid >>= fun plan => env.checkPlan createtxid plan tx >>= fun _ =>
    env.checkVouts plan none tx >>= fun _ =>
    env.checkPaymentsVins createtxid plan.lockedblocks true tx.vin >>= fun dust =>
    checkMergeVins tx dust true) = .ok () ↔ _
  simp only [except_bind_eq_ok, checkVouts]
  constructor
  · rintro ⟨plan, hplan, u, hcheck, -, -, dust, hdust, hmerge⟩
    exact ⟨plan, hchange, hplan, hcheck, dust, hdust, hmerge⟩
  · rintro ⟨plan, -, hplan, hcheck, dust, hdust, hmerge⟩
    exact ⟨plan, hplan, (), hcheck, (), trivial, dust, hdust, hmerge⟩

/-- A merge is no minting transaction. -/
theorem MergeAccepted.two_le {createtxid : Uint256} {tx : CTransaction} {plan : PaymentsPlan}
    (h : env.MergeAccepted createtxid tx plan) : 2 ≤ tx.vin.length := by
  obtain ⟨dust, -, hmerge⟩ := h.vins
  unfold checkMergeVins at hmerge
  simpa using (require_bind_eq_ok.1 hmerge).1

theorem getValueIn_of_two_le {tx : CTransaction} (h : 2 ≤ tx.vin.length) :
    env.getValueIn tx = env.inputValue tx + tx.getShieldedValueIn := by
  have himport : tx.isCoinImport = false := by
    unfold CTransaction.isCoinImport
    split
    · rename_i i hv
      rw [hv] at h
      simp at h
    · rfl
  have hbase : tx.isCoinBase = false := by
    unfold CTransaction.isCoinBase
    split
    · rename_i i hv
      rw [hv] at h
      simp at h
    · rfl
  unfold getValueIn inputValue
  rw [himport, hbase]
  rfl

end PaymentsEnv

namespace SameMerge

variable {tx tx' : CTransaction} (h : SameMerge tx tx')
include h

theorem vin_eq : tx'.vin = tx.vin := by
  rw [h.outputs_only]

theorem out_zero_eq : tx'.out 0 = tx.out 0 := by
  unfold CTransaction.out
  rw [← List.head?_eq_getElem?, ← List.head?_eq_getElem?, h.head_eq]

theorem shieldedValueOut_eq : tx'.shieldedValueOut = tx.shieldedValueOut := by
  rw [h.outputs_only]
  rfl

theorem getShieldedValueIn_eq : tx'.getShieldedValueIn = tx.getShieldedValueIn := by
  rw [h.outputs_only]
  rfl

theorem getValueOut_eq : tx'.getValueOut = tx.getValueOut := by
  unfold CTransaction.getValueOut
  rw [h.values_eq, h.shieldedValueOut_eq]

variable (env : PaymentsEnv)

theorem inputValue_eq : env.inputValue tx' = env.inputValue tx := by
  unfold PaymentsEnv.inputValue
  rw [h.vin_eq]

theorem actualTxfee_eq (hlen : 2 ≤ tx.vin.length) : env.actualTxfee tx' = env.actualTxfee tx := by
  have hlen' : 2 ≤ tx'.vin.length := by
    rw [h.vin_eq]
    exact hlen
  unfold PaymentsEnv.actualTxfee
  rw [env.getValueIn_of_two_le hlen, env.getValueIn_of_two_le hlen', h.inputValue_eq,
    h.getShieldedValueIn_eq, h.getValueOut_eq]

/-- Merges that differ in the scripts after output 0 are accepted together. -/
theorem mergeAccepted {createtxid : Uint256} {plan : PaymentsPlan}
    (hacc : env.MergeAccepted createtxid tx plan) : env.MergeAccepted createtxid tx' plan where
  change := by
    have := hacc.change
    unfold PaymentsEnv.decodeChange at this ⊢
    rw [h.out_zero_eq]
    exact this
  plan_eq := hacc.plan_eq
  checked := by
    have := hacc.checked
    unfold PaymentsEnv.checkPlan PaymentsEnv.checkTxFee at this ⊢
    rw [h.out_zero_eq, h.actualTxfee_eq env hacc.two_le]
    exact this
  vins := by
    obtain ⟨dust, hdust, hmerge⟩ := hacc.vins
    refine ⟨dust, ?_, ?_⟩
    · rw [h.vin_eq]
      exact hdust
    · unfold PaymentsEnv.checkMergeVins at hmerge ⊢
      rw [h.vin_eq]
      exact hmerge

end SameMerge

/-- The transaction with empty scripts after output 0. -/
def CTransaction.withEmptyTail (tx : CTransaction) : CTransaction :=
  { tx with vout := match tx.vout with
      | [] => []
      | vout0 :: rest => vout0 :: rest.map fun out => { out with scriptPubKey := [] } }

theorem SameMerge.withEmptyTail (tx : CTransaction) : SameMerge tx tx.withEmptyTail where
  outputs_only := rfl
  head_eq := by
    unfold CTransaction.withEmptyTail
    cases tx.vout with
    | nil => rfl
    | cons vout0 rest => rfl
  values_eq := by
    unfold CTransaction.withEmptyTail
    cases tx.vout with
    | nil => rfl
    | cons vout0 rest => simp

namespace PaymentsEnv

variable (env : PaymentsEnv)

/-! ## Where the funds go -/

theorem paysPlan_of_isPaymentsvout {createtxid : Uint256} {out : CTxOut}
    (hplan : env.planAddr createtxid ≠ [])
    (h : (env.isPaymentsvout out (env.planAddr createtxid)).1 ≠ 0) :
    env.paysPlan createtxid out = true := by
  unfold isPaymentsvout at h
  unfold paysPlan
  split at h
  · exact absurd rfl h
  · rename_i ccopret hcc
    split at h
    · exact absurd rfl h
    · rename_i destaddr haddr
      split at h
      · rename_i hor
        rw [hcc, haddr, hor.resolve_left hplan]
        simp
      · exact absurd rfl h

theorem paysPlan_nil (createtxid : Uint256) (n : Int) :
    env.paysPlan createtxid { nValue := n, scriptPubKey := [] } = false := by
  rfl

/-- An accepted merge has an output 0, at the address of the plan. -/
theorem MergeAccepted.vout_eq {createtxid : Uint256} {tx : CTransaction} {plan : PaymentsPlan}
    (hplan : env.planAddr createtxid ≠ []) (h : env.MergeAccepted createtxid tx plan) :
    ∃ vout0 rest, tx.vout = vout0 :: rest ∧ env.paysPlan createtxid vout0 = true := by
  have hchecked := h.checked
  unfold checkPlan at hchecked
  simp only [require_bind_eq_ok, CTransaction.out_bind_eq_ok, require_eq_ok, bne_iff_ne]
    at hchecked
  obtain ⟨-, -, -, vout0, hout, hpays⟩ := hchecked
  cases hv : tx.vout with
  | nil =>
    rw [hv] at hout
    cases hout
  | cons out rest =>
    rw [hv] at hout
    cases hout
    exact ⟨vout0, rest, rfl, env.paysPlan_of_isPaymentsvout hplan hpays⟩

/-- The inputs without the fee are the outputs and what enters the shielded pool. -/
theorem inputValue_sub_fee {tx : CTransaction} (hlen : 2 ≤ tx.vin.length) :
    env.inputValue tx - env.actualTxfee tx =
      (tx.vout.map CTxOut.nValue).sum + tx.shieldedValueOut - tx.getShieldedValueIn := by
  unfold actualTxfee CTransaction.getValueOut
  rw [env.getValueIn_of_two_le hlen]
  omega

theorem sum_eq_zero_of_forall {l : List CTxOut} (h : ∀ out ∈ l, out.nValue = 0) :
    (l.map CTxOut.nValue).sum = 0 := by
  apply List.sum_eq_zero
  intro v hv
  obtain ⟨out, hout, rfl⟩ := List.mem_map.1 hv
  exact h out hout

/-- The value of outputs that are worth nothing after the first. -/
theorem sum_filter_cons {createtxid : Uint256} {vout0 : CTxOut} {rest : List CTxOut}
    (hpays : env.paysPlan createtxid vout0 = true) (hrest : ∀ out ∈ rest, out.nValue = 0) :
    (((vout0 :: rest).filter (env.paysPlan createtxid)).map CTxOut.nValue).sum = vout0.nValue := by
  have hzero := sum_eq_zero_of_forall (l := rest.filter (env.paysPlan createtxid))
    fun out hout => hrest out (List.mem_filter.1 hout).1
  rw [List.filter_cons_of_pos hpays, List.map_cons, List.sum_cons, hzero]
  omega

/-- Merges that differ from an accepted one in the scripts after output 0 all keep the
funds in the plan exactly when the other outputs are worth nothing and no value enters
the shielded pool. -/
theorem merge_keepsFunds_iff {tx : CTransaction} {createtxid : Uint256}
    (hplan : env.planAddr createtxid ≠ [])
    (hmerge : env.decodeChange tx = .ok (createtxid, none))
    (haccept : env.paymentsValidate tx = .ok ()) :
    (∀ tx', SameMerge tx tx' → env.paymentsValidate tx' = .ok () → env.KeepsFunds createtxid tx') ↔
    (∀ out ∈ tx.vout.tail, out.nValue = 0) ∧ tx.shieldedValueOut ≤ tx.getShieldedValueIn := by
  obtain ⟨plan, hacc⟩ := (env.paymentsValidate_merge_iff hmerge).1 haccept
  obtain ⟨vout0, rest, hvout, hpays⟩ := hacc.vout_eq env hplan
  rw [hvout, List.tail_cons]
  constructor
  · intro hall
    have hsame := SameMerge.withEmptyTail tx
    have hacc' := hsame.mergeAccepted env hacc
    have hkeeps := hall _ hsame ((env.paymentsValidate_merge_iff hacc'.change).2 ⟨plan, hacc'⟩)
    have hvout' : tx.withEmptyTail.vout =
        vout0 :: rest.map fun out => { out with scriptPubKey := [] } := by
      simp [CTransaction.withEmptyTail, hvout]
    -- an output without a script pays no plan, so it must be worth nothing
    have hzero : ∀ out ∈ rest, out.nValue = 0 := by
      intro out hout
      have hmem : { out with scriptPubKey := [] } ∈ tx.withEmptyTail.vout := by
        rw [hvout']
        exact List.mem_cons_of_mem _ (List.mem_map.2 ⟨out, hout, rfl⟩)
      rcases hkeeps.only _ hmem with hval | hpay
      · exact hval
      · rw [env.paysPlan_nil] at hpay
        cases hpay
    refine ⟨hzero, ?_⟩
    have htotal := hkeeps.total
    rw [hsame.inputValue_eq env, hsame.actualTxfee_eq env hacc.two_le,
      env.inputValue_sub_fee hacc.two_le, hvout', env.sum_filter_cons hpays, hvout, List.map_cons,
      List.sum_cons, sum_eq_zero_of_forall hzero] at htotal
    · omega
    · intro out hout
      obtain ⟨o, ho, rfl⟩ := List.mem_map.1 hout
      exact hzero o ho
  · rintro ⟨hzero, hshield⟩ tx' hsame haccept'
    have hacc' := hsame.mergeAccepted env hacc
    obtain ⟨vout0', rest', hvout', hpays'⟩ := hacc'.vout_eq env hplan
    have hvalues := hsame.values_eq
    rw [hvout, hvout', List.map_cons, List.map_cons, List.cons.injEq] at hvalues
    have hzero' : ∀ out ∈ rest', out.nValue = 0 := by
      intro out hout
      have hmem : out.nValue ∈ rest.map CTxOut.nValue := by
        rw [← hvalues.2]
        exact List.mem_map.2 ⟨out, hout, rfl⟩
      obtain ⟨o, ho, heq⟩ := List.mem_map.1 hmem
      rw [← heq]
      exact hzero o ho
    refine ⟨?_, ?_⟩
    · rw [env.inputValue_sub_fee hacc'.two_le, hvout', env.sum_filter_cons hpays' hzero',
        List.map_cons, List.sum_cons, sum_eq_zero_of_forall hzero', hsame.shieldedValueOut_eq,
        hsame.getShieldedValueIn_eq]
      omega
    · intro out hout
      rw [hvout'] at hout
      rcases List.mem_cons.1 hout with rfl | hmem
      · exact Or.inr hpays'
      · exact Or.inl (hzero' out hmem)

end PaymentsEnv

/-! ## A plan and its merges -/

namespace SamplePayments

/-- An address that is not the plan's. -/
def stranger : CScript := CScript.payToPubkey (0x02 :: List.replicate 32 7)

/-- A plan with two allocations. -/
def planTx : CTransaction where
  hash := 20
  vout := [{ nValue := 0
             scriptPubKey := [0x6a, 0x4c, 83, 0xf0, 0x43] ++ leBytes 4 0 ++ leBytes 4 0 ++
              leBytes 8 1 ++ [2] ++ leBytes 32 30 ++ leBytes 32 31 }]

/-- The script of the plan's address. -/
def planScript : CScript :=
  CCLib.plain.cc1of2 evalPayments (CCLib.plain.unspendable evalPayments) (PaymentsEnv.ccTxidPk 20)

/-- The plan's script with the op_return of a merge attached. -/
def mergeScript : CScript :=
  planScript ++ [42, 4, 1, 0xf0, 1, 2, 36, 0x6a, 34, 0xf0, 0x4d] ++ leBytes 32 20 ++ [0x75]

/-- Funds of two coins in the plan's address. -/
def fund (hash : Uint256) : CTransaction where
  hash := hash
  vout := [{ nValue := 200000000, scriptPubKey := planScript }]

/-- A merge of both funds with given outputs after the first. -/
def merge (kept : Int) (rest : List CTxOut) : CTransaction where
  hash := 23
  vin := [{ prevout := { hash := 21, n := 0 } }, { prevout := { hash := 22, n := 0 } }]
  vout := { nValue := kept, scriptPubKey := mergeScript } :: rest

/-- A merge that keeps the funds. -/
def honest : CTransaction := merge 399990000 []

/-- A merge that pays most of the funds to a stranger. -/
def theft : CTransaction := merge 1000 [{ nValue := 399989000, scriptPubKey := stranger }]

/-- The plan and its funds, a hundred blocks deep. -/
def env : PaymentsEnv where
  toCCEnv := CCLib.plain.envAt "" [fund 21, fund 22, planTx]
  height := 105
  txHeight _ := some 5
  notarizedHeight := 0
  coinImportValue _ := 0
  snapshotInterval := 0
  addressSnapshot := []
  snapshotHash := 0
  uninitTop := 0

end SamplePayments

/-- A merge that keeps the funds. -/
theorem keepsFunds_honest :
    SamplePayments.env.paymentsValidate SamplePayments.honest = .ok () ∧
    ∀ tx', SameMerge SamplePayments.honest tx' →
      SamplePayments.env.paymentsValidate tx' = .ok () → SamplePayments.env.KeepsFunds 20 tx' :=
  ⟨eq_ok_of_isOk (by decide +kernel),
    (SamplePayments.env.merge_keepsFunds_iff (by decide +kernel)
      (eq_ok_of_toOption (by decide +kernel)) (eq_ok_of_isOk (by decide +kernel))).2
      ⟨by decide +kernel, by decide +kernel⟩⟩

/-- An accepted merge that pays a stranger. -/
theorem merge_pays_stranger :
    SamplePayments.env.decodeChange SamplePayments.theft = .ok (20, none) ∧
    SamplePayments.env.paymentsValidate SamplePayments.theft = .ok () ∧
    ¬ SamplePayments.env.KeepsFunds 20 SamplePayments.theft := by
  refine ⟨eq_ok_of_toOption (by decide +kernel), eq_ok_of_isOk (by decide +kernel), ?_⟩
  intro h
  have hmem : { nValue := 399989000, scriptPubKey := SamplePayments.stranger } ∈
      SamplePayments.theft.vout := by decide +kernel
  exact absurd (h.only _ hmem) (by decide +kernel)

end IndexChain
