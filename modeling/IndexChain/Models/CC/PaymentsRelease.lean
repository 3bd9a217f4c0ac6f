import IndexChain.Models.CC.PaymentsMerge

/-!
# Releasing the funds of a plan

`PaymentsValidate` walks the outputs of a release and the allocations of the plan side by
side. It refuses every plan with an op_return, reads behind the allocations when a release
has more outputs, and judges a truncated release by the second unpaid allocation in place
of the first (`release_settles_iff`).
-/

namespace IndexChain

open IndexChain.Core

/-! ## Quotients -/

/-- Rounding towards zero and downwards differ in negative quotients only. -/
theorem tdiv_eq_fdiv_or (a b : Int) :
    a.tdiv b = a.fdiv b ∨ a.fdiv b < 0 ∧ a.tdiv b ≤ 0 := by
  have h := Int.fdiv_eq_tdiv (a := a) (b := b)
  by_cases hdvd : b ∣ a
  · rw [if_pos hdvd] at h
    omega
  rw [if_neg hdvd] at h
  by_cases ha : 0 ≤ a
  · by_cases hb : 0 ≤ b
    · rw [if_pos ha, if_pos hb] at h
      omega
    · rw [if_pos ha, if_neg hb] at h
      have := Int.tdiv_nonpos_of_nonneg_of_nonpos ha (Int.le_of_not_le hb)
      omega
  · by_cases hb : 0 ≤ b
    · rw [if_neg ha, if_pos hb] at h
      have hneg : (-a).tdiv b ≥ 0 := Int.tdiv_nonneg (by omega) hb
      rw [Int.neg_tdiv] at hneg
      have hsign := Int.sign_eq_one_iff_pos (a := b)
      by_cases hzero : b = 0
      · subst hzero
        simp
      · have := hsign.2 (by omega)
        omega
    · rw [if_neg ha, if_neg hb] at h
      have := (Int.sign_eq_neg_one_iff_neg (a := b)).2 (by omega)
      omega

theorem mpzGetSi_of_lt {z : Int} (h : 0 ≤ z) (hlt : z < 2 ^ 63) : mpzGetSi z = z := by
  unfold mpzGetSi
  rw [if_pos h, Int.emod_eq_of_lt h hlt]

/-- A number that is read as a positive one is at least that. -/
theorem mpzGetSi_le {z : Int} (h : 0 ≤ z) : mpzGetSi z ≤ z := by
  unfold mpzGetSi
  rw [if_pos h]
  have hmod := Int.mul_ediv_add_emod z (2 ^ 63)
  have hdiv := Int.ediv_nonneg h (show (0 : Int) ≤ 2 ^ 63 by decide)
  omega

theorem mpzGetSi_neg {z : Int} (h : z < 0) : mpzGetSi z < 0 := by
  unfold mpzGetSi
  rw [if_neg (by omega)]
  have := Int.emod_nonneg (-z - 1) (b := 2 ^ 63) (by decide)
  omega

namespace PaymentsEnv

/-! ## What a release has to pay -/

/-- An allocation with its script and its op_return. -/
abbrev Allocation : Type := Int × List UInt8 × List UInt8

/-- The share of an allocation, rounded down. -/
def share (amountReleased total : Int) (a : Allocation) : Int :=
  (a.1 * amountReleased).fdiv total

/-- The output of an allocation. -/
def payment (amountReleased total : Int) (a : Allocation) : CTxOut :=
  { nValue := share amountReleased total a, scriptPubKey := a.2.1 }

/-- The op_returns of a plan. -/
def opretsOf (found : List Allocation) : List (List UInt8) :=
  (found.map fun a => a.2.2).filter fun opret => !opret.isEmpty

/-- What follows the payments: the op_return of the plan, if it has one. -/
def IsOpretTail (found : List Allocation) (tail : List CTxOut) : Prop :=
  if opretsOf found = [] then tail = []
  else ∃ out, tail = [out] ∧ ∀ opret ∈ opretsOf found, out.scriptPubKey = opret

/-- The outputs after the change pay the plan: its allocations in order, up to those that
are below the minimum, and the op_return. -/
structure PaysPlan (found : List Allocation) (amountReleased total minimum : Int)
    (outs : List CTxOut) : Prop where
  /-- The shares exist. -/
  total_ne : total ≠ 0
  /-- The allocations are paid in order. -/
  outs_eq : ∃ paid unpaid tail, found = paid ++ unpaid ∧
    outs = paid.map (payment amountReleased total) ++ tail ∧ IsOpretTail found tail ∧
    (∀ a ∈ paid, minimum ≤ share amountReleased total a) ∧
    ∀ a ∈ unpaid, share amountReleased total a < minimum

variable (env : PaymentsEnv)

/-- A release that passes the other checks. -/
structure ReleaseChecked (tx : CTransaction) (createtxid : Uint256) (amountReleased : Int)
    (plan : PaymentsPlan) (found : List Allocation) : Prop where
  /-- Output 0 names the plan and the amount. -/
  change : env.decodeChange tx = .ok (createtxid, some amountReleased)
  /-- The plan is found. -/
  plan_eq : env.planOf createtxid = .ok plan
  /-- Its allocations are fixed. -/
  kind_eq : ∃ txidoprets, plan.kind = .allocations txidoprets ∧
    txidoprets.filterMap env.allocationOf = found
  /-- There are two allocations at least. -/
  two_le : 2 ≤ found.length
  /-- They have the right sum. -/
  total_eq : plan.totalallocations = toInt64 (found.map fun a => a.1).sum
  /-- The shared checks pass. -/
  checked : env.checkPlan createtxid plan tx = .ok ()
  /-- The amount is large enough. -/
  amount_le : plan.minrelease * COIN ≤ amountReleased
  /-- The inputs belong to the plan. -/
  vins : ∃ dust, env.checkPaymentsVins createtxid plan.lockedblocks false tx.vin = .ok dust
  /-- The amounts are numbers of 64 bits. -/
  amounts : ∀ out ∈ tx.vout, out.nValue < 2 ^ 63

/-- The validator accepts exactly the releases that pay the plan, and refuses the others
without a read outside of the lists or a division by zero. -/
structure Settles (tx : CTransaction) (amountReleased : Int) (plan : PaymentsPlan)
    (found : List Allocation) : Prop where
  /-- What is accepted. -/
  accepts_iff : env.paymentsValidate tx = .ok () ↔
    PaysPlan found amountReleased plan.totalallocations plan.minimum tx.vout.tail
  /-- There is a verdict. -/
  verdict : ∀ err, env.paymentsValidate tx = .error err → ∃ reason, err = .invalid reason

/-! ## What the validator compares -/

/-- The share as the validator computes it. -/
def computedShare (amountReleased total : Int) (a : Allocation) : Int :=
  mpzGetSi ((a.1 * amountReleased).tdiv total)

/-- The outputs match the allocations, as far as there are both. -/
def InOrder (found : List Allocation) (amountReleased total minimum : Int)
    (outs : List CTxOut) : Prop :=
  ∀ p ∈ outs.zip found, p.1.scriptPubKey = p.2.2.1 ∧
    p.1.nValue = computedShare amountReleased total p.2 ∧ minimum ≤ p.1.nValue

/-- The shares of some allocations are numbers of 64 bits. -/
def Exact (amountReleased total : Int) (as : List Allocation) : Prop :=
  ∀ a ∈ as, computedShare amountReleased total a = share amountReleased total a

/-- When the validator is right about a release of a plan without op_returns. -/
structure RightWithoutOpret (found : List Allocation) (amountReleased total minimum : Int)
    (outs : List CTxOut) : Prop where
  /-- A plan whose total is zero is refused before a division. -/
  stops : total = 0 → ∃ out a, outs.head? = some out ∧ found.head? = some a ∧
    out.scriptPubKey ≠ a.2.1
  /-- If the outputs match, all allocations are paid, or the one after the first unpaid
  one tells about all unpaid ones. -/
  next : InOrder found amountReleased total minimum outs →
    outs.length = found.length ∧ Exact amountReleased total found ∨
    ∃ a, found[outs.length + 1]? = some a ∧
      (computedShare amountReleased total a ≤ minimum →
        Exact amountReleased total (found.take outs.length) ∧
        ∀ b ∈ found.drop outs.length, share amountReleased total b < minimum)

section Shares

variable {found : List Allocation} {amountReleased total minimum : Int} {outs : List CTxOut}

theorem computedShare_eq_share {a : Allocation} (hnonneg : 0 ≤ share amountReleased total a)
    (hlt : share amountReleased total a < 2 ^ 63) :
    computedShare amountReleased total a = share amountReleased total a := by
  unfold share at hnonneg hlt ⊢
  unfold computedShare
  have htdiv : (a.1 * amountReleased).tdiv total = (a.1 * amountReleased).fdiv total := by
    rcases tdiv_eq_fdiv_or (a.1 * amountReleased) total with heq | ⟨hneg, -⟩
    · exact heq
    · omega
  rw [htdiv, mpzGetSi_of_lt hnonneg hlt]

/-- The computed share of an allocation below the minimum is not above it. -/
theorem computedShare_le {a : Allocation} (hmin : 0 < minimum)
    (h : share amountReleased total a < minimum) :
    computedShare amountReleased total a ≤ minimum := by
  unfold share at h
  unfold computedShare
  have hz : (a.1 * amountReleased).tdiv total ≤ minimum := by
    rcases tdiv_eq_fdiv_or (a.1 * amountReleased) total with heq | ⟨-, hle⟩
    · omega
    · omega
  by_cases hnonneg : 0 ≤ (a.1 * amountReleased).tdiv total
  · exact (mpzGetSi_le hnonneg).trans hz
  · have := mpzGetSi_neg (Int.lt_of_not_ge hnonneg)
    omega

theorem inOrder_cons {a : Allocation} {as : List Allocation} {out : CTxOut} :
    InOrder (a :: as) amountReleased total minimum (out :: outs) ↔
      (out.scriptPubKey = a.2.1 ∧ out.nValue = computedShare amountReleased total a ∧
        minimum ≤ out.nValue) ∧ InOrder as amountReleased total minimum outs := by
  simp [InOrder]

theorem inOrder_nil_right : InOrder [] amountReleased total minimum outs := by
  simp [InOrder]

theorem inOrder_nil_left : InOrder found amountReleased total minimum [] := by
  simp [InOrder]

/-- Outputs in order, with exact shares, are the payments of the first allocations. -/
theorem InOrder.eq_map (h : InOrder found amountReleased total minimum outs)
    (hlen : outs.length ≤ found.length)
    (hexact : Exact amountReleased total (found.take outs.length)) :
    outs = (found.take outs.length).map (payment amountReleased total) ∧
      ∀ a ∈ found.take outs.length, minimum ≤ share amountReleased total a := by
  induction outs generalizing found with
  | nil => simp
  | cons out outs ih =>
    cases found with
    | nil => simp at hlen
    | cons a as =>
      obtain ⟨⟨hscript, hvalue, hmin⟩, hrest⟩ := inOrder_cons.1 h
      rw [List.length_cons, List.take_succ_cons] at hexact ⊢
      have hshare := hexact a List.mem_cons_self
      obtain ⟨houts, hmins⟩ := ih hrest (Nat.le_of_succ_le_succ hlen)
        fun b hb => hexact b (List.mem_cons_of_mem a hb)
      have hout : out = payment amountReleased total a := by
        unfold payment
        rw [← hshare, ← hvalue, ← hscript]
      refine ⟨?_, ?_⟩
      · rw [List.map_cons, ← hout, ← houts]
      · intro b hb
        rcases List.mem_cons.1 hb with rfl | hb
        · omega
        · exact hmins b hb

/-- The payments of some allocations are in order. -/
theorem inOrder_map {paid unpaid : List Allocation} (hmin : 0 < minimum)
    (hpaid : ∀ a ∈ paid, minimum ≤ share amountReleased total a)
    (hlt : ∀ out ∈ paid.map (payment amountReleased total), out.nValue < 2 ^ 63) :
    InOrder (paid ++ unpaid) amountReleased total minimum
      (paid.map (payment amountReleased total)) := by
  induction paid with
  | nil => exact inOrder_nil_left
  | cons a paid ih =>
    have hle := hpaid a List.mem_cons_self
    have hshare := computedShare_eq_share (a := a) (by omega) (hlt _ List.mem_cons_self)
    rw [List.cons_append, List.map_cons, inOrder_cons, hshare]
    exact ⟨⟨rfl, rfl, hle⟩, ih (fun b hb => hpaid b (List.mem_cons_of_mem a hb))
      fun out hout => hlt out (List.mem_cons_of_mem _ hout)⟩

/-- Payments that are in order have exact shares. -/
theorem exact_of_inOrder_map {paid unpaid : List Allocation}
    (h : InOrder (paid ++ unpaid) amountReleased total minimum
      (paid.map (payment amountReleased total))) : Exact amountReleased total paid := by
  induction paid with
  | nil =>
    intro a ha
    cases ha
  | cons a paid ih =>
    rw [List.cons_append, List.map_cons, inOrder_cons] at h
    intro b hb
    rcases List.mem_cons.1 hb with rfl | hb
    · exact h.1.2.1.symm
    · exact ih h.2 b hb

/-- Without an op_return the outputs are payments only. -/
theorem PaysPlan.outs_eq_map (h : PaysPlan found amountReleased total minimum outs)
    (hopret : opretsOf found = []) :
    ∃ paid unpaid, found = paid ++ unpaid ∧ outs = paid.map (payment amountReleased total) ∧
      (∀ a ∈ paid, minimum ≤ share amountReleased total a) ∧
      ∀ a ∈ unpaid, share amountReleased total a < minimum := by
  obtain ⟨paid, unpaid, tail, hfound, houts, htail, hpaid, hunpaid⟩ := h.outs_eq
  unfold IsOpretTail at htail
  rw [if_pos hopret] at htail
  rw [htail, List.append_nil] at houts
  exact ⟨paid, unpaid, hfound, houts, hpaid, hunpaid⟩

theorem PaysPlan.inOrder (h : PaysPlan found amountReleased total minimum outs)
    (hopret : opretsOf found = []) (hmin : 0 < minimum)
    (hlt : ∀ out ∈ outs, out.nValue < 2 ^ 63) :
    InOrder found amountReleased total minimum outs := by
  obtain ⟨paid, unpaid, rfl, rfl, hpaid, -⟩ := h.outs_eq_map hopret
  exact inOrder_map hmin hpaid hlt

/-- Outputs in order pay the plan when the shares are exact and the unpaid ones are below
the minimum. -/
theorem paysPlan_iff (hopret : opretsOf found = []) (htotal : total ≠ 0)
    (h : InOrder found amountReleased total minimum outs) (hlen : outs.length ≤ found.length) :
    PaysPlan found amountReleased total minimum outs ↔
      Exact amountReleased total (found.take outs.length) ∧
      ∀ b ∈ found.drop outs.length, share amountReleased total b < minimum := by
  constructor
  · intro hpays
    obtain ⟨paid, unpaid, rfl, rfl, hpaid, hunpaid⟩ := hpays.outs_eq_map hopret
    rw [List.length_map, List.take_left, List.drop_left]
    exact ⟨exact_of_inOrder_map h, hunpaid⟩
  · rintro ⟨hexact, hunpaid⟩
    obtain ⟨houts, hpaid⟩ := h.eq_map hlen hexact
    refine ⟨htotal, _, _, [], (List.take_append_drop outs.length found).symm, ?_, ?_, hpaid,
      hunpaid⟩
    · rw [List.append_nil]
      exact houts
    · unfold IsOpretTail
      rw [if_pos hopret]

end Shares

/-! ## The walk -/

/-- What a release of a plan with fixed allocations pays. -/
def fixedPlan (found : List Allocation) (total : Int) : ReleasePlan where
  shares := found.map fun a => (a.2.1, a.1)
  total := total
  fixedShare := none

section Walk

variable {found : List Allocation} {amountReleased total minimum : Int} {outs : List CTxOut}
  {n : Nat}

theorem checkReleaseVouts_none (hn : found.length ≤ n) (out : CTxOut) :
    checkReleaseVouts (fixedPlan found total) amountReleased minimum (out :: outs) n =
      .error (.listOutOfBounds n) := by
  have hget : (fixedPlan found total).shares[n]? = none := by
    simp [fixedPlan, hn]
  simp [checkReleaseVouts, hget]

theorem checkReleaseVouts_some {a : Allocation} (hget : found[n]? = some a) (out : CTxOut) :
    checkReleaseVouts (fixedPlan found total) amountReleased minimum (out :: outs) n =
      (require (a.2.1 == out.scriptPubKey) (.invalid "pays wrong address") >>= fun _ =>
        shareOf amountReleased a.1 total >>= fun test =>
        require (test == out.nValue) (.invalid "amounts do not match") >>= fun _ =>
        require (decide (minimum ≤ test)) (.invalid "under minimum size") >>= fun _ =>
        checkReleaseVouts (fixedPlan found total) amountReleased minimum outs (n + 1)) := by
  have hget' : (fixedPlan found total).shares[n]? = some (a.2.1, a.1) := by
    simp [fixedPlan, hget]
  simp only [checkReleaseVouts, hget']
  rfl

theorem shareOf_of_ne (htotal : total ≠ 0) (a : Allocation) :
    shareOf amountReleased a.1 total = .ok (computedShare amountReleased total a) := by
  unfold shareOf computedShare
  rw [if_neg htotal]

/-- The walk over outputs in order ends with them, or behind the allocations. -/
theorem checkReleaseVouts_of_inOrder (htotal : total ≠ 0) (hn : n ≤ found.length)
    (h : InOrder (found.drop n) amountReleased total minimum outs) :
    checkReleaseVouts (fixedPlan found total) amountReleased minimum outs n =
      if n + outs.length ≤ found.length then .ok (n + outs.length)
      else .error (.listOutOfBounds found.length) := by
  induction outs generalizing n with
  | nil =>
    rw [List.length_nil, Nat.add_zero, if_pos hn]
    rfl
  | cons out outs ih =>
    rcases Nat.eq_or_lt_of_le hn with rfl | hlt
    · rw [checkReleaseVouts_none (Nat.le_refl _), if_neg (by simp)]
    · have hget : found[n]? = some found[n] := List.getElem?_eq_getElem hlt
      rw [List.drop_eq_getElem_cons hlt, inOrder_cons] at h
      obtain ⟨⟨hscript, hvalue, hmin⟩, hrest⟩ := h
      rw [checkReleaseVouts_some hget, shareOf_of_ne htotal, ← hscript, ← hvalue]
      have hrun := ih hlt hrest
      have hlen : n + 1 + outs.length = n + (out :: outs).length := by
        simp
        omega
      rw [hlen] at hrun
      simp [require, hmin, hrun, bind, Except.bind]

/-- The walk over other outputs ends with a verdict. -/
theorem checkReleaseVouts_of_not_inOrder (htotal : total ≠ 0) (hn : n ≤ found.length)
    (h : ¬ InOrder (found.drop n) amountReleased total minimum outs) :
    ∃ reason, checkReleaseVouts (fixedPlan found total) amountReleased minimum outs n =
      .error (.invalid reason) := by
  induction outs generalizing n with
  | nil => exact absurd inOrder_nil_left h
  | cons out outs ih =>
    rcases Nat.eq_or_lt_of_le hn with rfl | hlt
    · rw [List.drop_length] at h
      exact absurd inOrder_nil_right h
    · have hget : found[n]? = some found[n] := List.getElem?_eq_getElem hlt
      rw [List.drop_eq_getElem_cons hlt, inOrder_cons] at h
      rw [checkReleaseVouts_some hget, shareOf_of_ne htotal, except_ok_bind]
      by_cases hscript : out.scriptPubKey = found[n].2.1
      · by_cases hvalue : out.nValue = computedShare amountReleased total found[n]
        · by_cases hmin : minimum ≤ out.nValue
          · obtain ⟨reason, hrun⟩ := ih hlt fun hrest => h ⟨⟨hscript, hvalue, hmin⟩, hrest⟩
            refine ⟨reason, ?_⟩
            rw [← hscript, ← hvalue, hrun]
            simp [require, hmin, bind, Except.bind]
          · refine ⟨"under minimum size", ?_⟩
            rw [← hscript, ← hvalue]
            simp [require, hmin, bind, Except.bind]
        · refine ⟨"amounts do not match", ?_⟩
          rw [← hscript]
          simp [require, Ne.symm hvalue, bind, Except.bind]
      · refine ⟨"pays wrong address", ?_⟩
        simp [require, Ne.symm hscript, bind, Except.bind]

theorem checkNextShare_of_le (h : found.length ≤ n) :
    checkNextShare (fixedPlan found total) amountReleased minimum n = .ok () := by
  unfold checkNextShare
  rw [if_neg (by simpa [fixedPlan] using h)]

theorem checkNextShare_of_eq (h : n + 1 = found.length) :
    checkNextShare (fixedPlan found total) amountReleased minimum n =
      .error (.listOutOfBounds (n + 1)) := by
  have hget : (fixedPlan found total).shares[n + 1]? = none := by
    simp [fixedPlan, h]
  unfold checkNextShare
  rw [if_pos (by simp [fixedPlan, ← h]), hget]

theorem checkNextShare_of_some {a : Allocation} (hget : found[n + 1]? = some a) :
    checkNextShare (fixedPlan found total) amountReleased minimum n =
      (shareOf amountReleased a.1 total >>= fun test =>
        require (decide (test ≤ minimum)) (.invalid "next allocation was not under minimum")) := by
  have hget' : (fixedPlan found total).shares[n + 1]? = some (a.2.1, a.1) := by
    simp [fixedPlan, hget]
  have hlt : n + 1 < found.length := (List.getElem?_eq_some_iff.1 hget).1
  have hlt' : n < (fixedPlan found total).shares.length := by
    simp [fixedPlan]
    omega
  unfold checkNextShare
  rw [if_pos hlt', hget']
  rfl

end Walk

/-! ## The verdict -/

theorem all_isEmpty_eq (found : List Allocation) :
    (found.all fun a => a.2.2.isEmpty) = (opretsOf found).isEmpty := by
  rw [Bool.eq_iff_iff]
  simp only [opretsOf, List.all_eq_true, List.isEmpty_iff, List.filter_eq_nil_iff, List.mem_map,
    forall_exists_index, and_imp, forall_apply_eq_imp_iff₂, Bool.not_eq_true', Bool.not_eq_false]

/-- The op_returns are looked at before anything else. -/
theorem releasePlan_eq {plan : PaymentsPlan} {txidoprets : List Uint256}
    (hkind : plan.kind = .allocations txidoprets)
    (htotal : plan.totalallocations =
      toInt64 ((txidoprets.filterMap env.allocationOf).map fun a => a.1).sum) :
    env.releasePlan plan =
      (require (opretsOf (txidoprets.filterMap env.allocationOf)).isEmpty
        (.invalid "missing opret in payments release") >>= fun _ =>
        .ok (fixedPlan (txidoprets.filterMap env.allocationOf) plan.totalallocations)) := by
  unfold releasePlan
  rw [hkind]
  simp only [fixedAllocations, all_isEmpty_eq]
  cases (opretsOf (txidoprets.filterMap env.allocationOf)).isEmpty with
  | false => rfl
  | true =>
    have hbeq : (plan.totalallocations ==
        toInt64 ((txidoprets.filterMap env.allocationOf).map fun a => a.1).sum) = true := by
      rw [← htotal, beq_self_eq_true]
    rw [hbeq]
    rfl

variable {env} {tx : CTransaction} {createtxid : Uint256} {amountReleased : Int}
  {plan : PaymentsPlan} {found : List Allocation}

/-- What is left of the validation of a release that passes the other checks. -/
theorem ReleaseChecked.paymentsValidate_eq
    (h : env.ReleaseChecked tx createtxid amountReleased plan found) :
    env.paymentsValidate tx =
      (require (opretsOf found).isEmpty (.invalid "missing opret in payments release") >>= fun _ =>
        checkReleaseVouts (fixedPlan found plan.totalallocations) amountReleased plan.minimum
          tx.vout.tail 0 >>= fun n =>
        checkNextShare (fixedPlan found plan.totalallocations) amountReleased plan.minimum n) := by
  obtain ⟨txidoprets, hkind, rfl⟩ := h.kind_eq
  obtain ⟨dust, hdust⟩ := h.vins
  have hnonempty : (fixedPlan (txidoprets.filterMap env.allocationOf)
      plan.totalallocations).shares.isEmpty = false := by
    have hlen := h.two_le
    cases hfound : txidoprets.filterMap env.allocationOf with
    | nil =>
      rw [hfound] at hlen
      simp at hlen
    | cons a as => rfl
  have hrelease : env.checkRelease plan amountReleased tx =
      (require (opretsOf (txidoprets.filterMap env.allocationOf)).isEmpty
        (.invalid "missing opret in payments release") >>= fun _ =>
        checkReleaseVouts (fixedPlan (txidoprets.filterMap env.allocationOf)
          plan.totalallocations) amountReleased plan.minimum tx.vout.tail 0 >>= fun n =>
        checkNextShare (fixedPlan (txidoprets.filterMap env.allocationOf)
          plan.totalallocations) amountReleased plan.minimum n) := by
    unfold checkRelease
    rw [env.releasePlan_eq hkind h.total_eq, decide_eq_true h.amount_le]
    cases (opretsOf (txidoprets.filterMap env.allocationOf)).isEmpty with
    | false => rfl
    | true =>
      simp only [require, if_true, except_ok_bind, hnonempty, Bool.not_false]
  unfold paymentsValidate
  rw [h.change]
  simp only [except_ok_bind, h.plan_eq, h.checked, checkVouts, hrelease, Option.isNone_some, hdust]
  cases require (opretsOf (txidoprets.filterMap env.allocationOf)).isEmpty
      (Failure.invalid "missing opret in payments release") >>= fun _ =>
        checkReleaseVouts (fixedPlan (txidoprets.filterMap env.allocationOf)
          plan.totalallocations) amountReleased plan.minimum tx.vout.tail 0 >>= fun n =>
        checkNextShare (fixedPlan (txidoprets.filterMap env.allocationOf)
          plan.totalallocations) amountReleased plan.minimum n with
  | error err => rfl
  | ok u => rfl

theorem ReleaseChecked.minimum_pos
    (h : env.ReleaseChecked tx createtxid amountReleased plan found) : 0 < plan.minimum := by
  have hchecked := h.checked
  unfold checkPlan at hchecked
  simp only [require_bind_eq_ok, decide_eq_true_eq] at hchecked
  have := hchecked.2.1
  omega

theorem ReleaseChecked.tail_lt
    (h : env.ReleaseChecked tx createtxid amountReleased plan found) :
    ∀ out ∈ tx.vout.tail, out.nValue < 2 ^ 63 :=
  fun out hout => h.amounts out (List.mem_of_mem_tail hout)

/-- A release that is refused for a reason settles when it does not pay the plan. -/
theorem settles_of_invalid {reason : String}
    (hinvalid : env.paymentsValidate tx = .error (.invalid reason)) :
    env.Settles tx amountReleased plan found ↔
      ¬ PaysPlan found amountReleased plan.totalallocations plan.minimum tx.vout.tail := by
  constructor
  · intro hsettles hpays
    have hok := hsettles.accepts_iff.2 hpays
    rw [hinvalid] at hok
    cases hok
  · intro hpays
    refine ⟨⟨?_, fun h => absurd h hpays⟩, ?_⟩
    · intro hok
      rw [hinvalid] at hok
      cases hok
    · intro err herr
      rw [hinvalid] at herr
      cases herr
      exact ⟨reason, rfl⟩

/-- A release whose validation fails does not settle. -/
theorem not_settles_of_error {err : Failure} (herr : env.paymentsValidate tx = .error err)
    (hne : ∀ reason, err ≠ .invalid reason) : ¬ env.Settles tx amountReleased plan found := by
  intro hsettles
  obtain ⟨reason, hreason⟩ := hsettles.verdict err herr
  exact hne reason hreason

theorem settles_of_ok (hok : env.paymentsValidate tx = .ok ()) :
    env.Settles tx amountReleased plan found ↔
      PaysPlan found amountReleased plan.totalallocations plan.minimum tx.vout.tail := by
  constructor
  · intro hsettles
    exact hsettles.accepts_iff.1 hok
  · intro hpays
    refine ⟨⟨fun _ => hpays, fun _ => hok⟩, ?_⟩
    intro err herr
    rw [hok] at herr
    cases herr

/-- A plan whose total is zero: the first output is compared with the first script, then
comes the division. -/
theorem settles_iff_of_total_zero (h : env.ReleaseChecked tx createtxid amountReleased plan found)
    (hopret : opretsOf found = []) (hzero : plan.totalallocations = 0) :
    env.Settles tx amountReleased plan found ↔
      ∃ out a, tx.vout.tail.head? = some out ∧ found.head? = some a ∧
        out.scriptPubKey ≠ a.2.1 := by
  have heq := h.paymentsValidate_eq
  have hlen := h.two_le
  rw [hopret] at heq
  match found, hlen with
  | a :: b :: as, hlen =>
    have hdiv : ∀ c : Allocation, shareOf amountReleased c.1 plan.totalallocations =
        .error .divisionByZero := by
      intro c
      unfold shareOf
      rw [if_pos hzero]
    cases hv : tx.vout.tail with
    | nil =>
      rw [hv] at heq
      have hnext : checkNextShare (fixedPlan (a :: b :: as) plan.totalallocations) amountReleased
          plan.minimum 0 = _ := checkNextShare_of_some rfl
      rw [hdiv] at hnext
      have herr : env.paymentsValidate tx = .error .divisionByZero := heq.trans hnext
      refine ⟨fun hs => absurd hs (not_settles_of_error herr fun _ => by simp), ?_⟩
      rintro ⟨out, c, hout, -⟩
      cases hout
    | cons out rest =>
      rw [hv] at heq
      have hwalk : checkReleaseVouts (fixedPlan (a :: b :: as) plan.totalallocations)
          amountReleased plan.minimum (out :: rest) 0 = _ := checkReleaseVouts_some rfl out
      rw [hdiv] at hwalk
      by_cases hscript : out.scriptPubKey = a.2.1
      · have herr : env.paymentsValidate tx = .error .divisionByZero := by
          rw [heq, hwalk, hscript]
          simp [require, bind, Except.bind]
        refine ⟨fun hs => absurd hs (not_settles_of_error herr fun _ => by simp), ?_⟩
        rintro ⟨out', c, hout, hc, hne⟩
        cases hout
        cases hc
        exact absurd hscript hne
      · have herr : env.paymentsValidate tx = .error (.invalid "pays wrong address") := by
          rw [heq, hwalk]
          simp [require, Ne.symm hscript, bind, Except.bind]
        refine ⟨fun _ => ⟨out, a, rfl, rfl, hscript⟩, fun _ => ?_⟩
        exact (settles_of_invalid herr).2 fun hpays => hpays.total_ne hzero

/-- Where the outputs match, the number of allocations that are paid is right. -/
theorem RightWithoutOpret.length_cases {total minimum : Int} {outs : List CTxOut}
    (h : RightWithoutOpret found amountReleased total minimum outs)
    (horder : InOrder found amountReleased total minimum outs) :
    outs.length = found.length ∨ outs.length + 1 < found.length := by
  rcases h.next horder with ⟨hlen, -⟩ | ⟨a, hget, -⟩
  · exact Or.inl hlen
  · exact Or.inr (List.getElem?_eq_some_iff.1 hget).1

/-- A plan whose total is not zero. -/
theorem settles_iff_of_total_ne (h : env.ReleaseChecked tx createtxid amountReleased plan found)
    (hopret : opretsOf found = []) (hne : plan.totalallocations ≠ 0) :
    env.Settles tx amountReleased plan found ↔
      RightWithoutOpret found amountReleased plan.totalallocations plan.minimum tx.vout.tail := by
  have heq := h.paymentsValidate_eq
  have hpos := h.minimum_pos
  rw [hopret] at heq
  change env.paymentsValidate tx = (checkReleaseVouts (fixedPlan found plan.totalallocations)
    amountReleased plan.minimum tx.vout.tail 0 >>= fun n =>
    checkNextShare (fixedPlan found plan.totalallocations) amountReleased plan.minimum n) at heq
  by_cases horder : InOrder found amountReleased plan.totalallocations plan.minimum tx.vout.tail
  case neg =>
    obtain ⟨reason, hwalk⟩ := checkReleaseVouts_of_not_inOrder hne
      (Nat.zero_le found.length) horder
    rw [hwalk] at heq
    refine ⟨fun _ => ⟨fun hzero => absurd hzero hne, fun ho => absurd ho horder⟩, fun _ => ?_⟩
    exact (settles_of_invalid heq).2 fun hpays => horder (hpays.inOrder hopret hpos h.tail_lt)
  case pos =>
    have hwalk := checkReleaseVouts_of_inOrder hne (Nat.zero_le found.length) horder
    rw [Nat.zero_add] at hwalk
    rw [hwalk] at heq
    rcases Nat.lt_or_ge found.length tx.vout.tail.length with hmore | hle
    · rw [if_neg (by omega)] at heq
      refine ⟨fun hs => absurd hs (not_settles_of_error heq fun _ => by simp), fun hright => ?_⟩
      have hcases := hright.length_cases horder
      omega
    rw [if_pos hle, except_ok_bind] at heq
    have hpays := paysPlan_iff hopret hne horder hle
    rcases Nat.lt_trichotomy (tx.vout.tail.length + 1) found.length with htwo | hone | hall
    · have hget := List.getElem?_eq_getElem htwo
      have hmem : found[tx.vout.tail.length + 1] ∈ found.drop tx.vout.tail.length := by
        apply List.mem_of_getElem? (i := 1)
        rw [List.getElem?_drop, hget]
      rw [checkNextShare_of_some hget, shareOf_of_ne hne, except_ok_bind] at heq
      by_cases hnext : computedShare amountReleased plan.totalallocations
          found[tx.vout.tail.length + 1] ≤ plan.minimum
      · rw [decide_eq_true hnext] at heq
        rw [settles_of_ok heq, hpays]
        refine ⟨fun hexact => ⟨fun hzero => absurd hzero hne,
          fun _ => Or.inr ⟨_, hget, fun _ => hexact⟩⟩, fun hright => ?_⟩
        rcases hright.next horder with ⟨hlen, -⟩ | ⟨a, hget', hexact⟩
        · omega
        · cases Option.some.inj (hget'.symm.trans hget)
          exact hexact hnext
      · rw [decide_eq_false hnext] at heq
        rw [settles_of_invalid heq]
        refine ⟨fun _ => ⟨fun hzero => absurd hzero hne,
          fun _ => Or.inr ⟨_, hget, fun hle' => absurd hle' hnext⟩⟩, fun _ hpay => ?_⟩
        exact hnext (computedShare_le hpos ((hpays.1 hpay).2 _ hmem))
    · rw [checkNextShare_of_eq hone] at heq
      refine ⟨fun hs => absurd hs (not_settles_of_error heq fun _ => by simp), fun hright => ?_⟩
      have hcases := hright.length_cases horder
      omega
    · have hlen : tx.vout.tail.length = found.length := by omega
      rw [checkNextShare_of_le (by omega)] at heq
      rw [settles_of_ok heq, hpays, hlen, List.take_length, List.drop_length]
      refine ⟨fun hexact => ⟨fun hzero => absurd hzero hne,
        fun _ => Or.inl ⟨hlen, hexact.1⟩⟩, fun hright => ?_⟩
      rcases hright.next horder with ⟨-, hexact⟩ | ⟨a, hget, -⟩
      · exact ⟨hexact, fun b hb => by cases hb⟩
      · have := (List.getElem?_eq_some_iff.1 hget).1
        omega

/-- A release that passes the other checks settles exactly when the plan has no op_return
and its next allocation is judged right, or when it has one and is not paid out. -/
theorem release_settles_iff (h : env.ReleaseChecked tx createtxid amountReleased plan found) :
    env.Settles tx amountReleased plan found ↔
      (opretsOf found ≠ [] →
        ¬ PaysPlan found amountReleased plan.totalallocations plan.minimum tx.vout.tail) ∧
      (opretsOf found = [] →
        RightWithoutOpret found amountReleased plan.totalallocations plan.minimum
          tx.vout.tail) := by
  by_cases hopret : opretsOf found = []
  case neg =>
    have herr : env.paymentsValidate tx =
        .error (.invalid "missing opret in payments release") := by
      have hempty : (opretsOf found).isEmpty = false := by simpa using hopret
      rw [h.paymentsValidate_eq, hempty]
      rfl
    rw [settles_of_invalid herr]
    exact ⟨fun hpays => ⟨fun _ => hpays, fun heq => absurd heq hopret⟩,
      fun hright => hright.1 hopret⟩
  case pos =>
    have hright : env.Settles tx amountReleased plan found ↔
        RightWithoutOpret found amountReleased plan.totalallocations plan.minimum
          tx.vout.tail := by
      by_cases hzero : plan.totalallocations = 0
      · rw [settles_iff_of_total_zero h hopret hzero]
        refine ⟨fun hstops => ⟨fun _ => hstops, fun horder => ?_⟩, fun hright => hright.stops hzero⟩
        obtain ⟨out, a, hout, ha, hscript⟩ := hstops
        obtain ⟨outs, houts⟩ := List.head?_eq_some_iff.1 hout
        obtain ⟨as, has⟩ := List.head?_eq_some_iff.1 ha
        rw [houts, has, inOrder_cons] at horder
        exact absurd horder.1.1 hscript
      · exact settles_iff_of_total_ne h hopret hzero
    rw [hright]
    exact ⟨fun hr => ⟨fun hne => absurd hopret hne, fun _ => hr⟩, fun hr => hr.2 hopret⟩

end PaymentsEnv

/-! ## A plan and its releases -/

namespace SamplePayments

/-- The transaction of an allocation. -/
def allocationTx (hash : Uint256) (script : UInt8) (allocation : Nat) : CTransaction where
  hash := hash
  vout := [{ nValue := 0, scriptPubKey := [] },
           { nValue := 0
             scriptPubKey := [0x6a, 13, 0xf0, 0x54] ++ leBytes 8 allocation ++ [1, script, 0] }]

/-- A plan that pays two thirds and one third. -/
def thirdsTx : CTransaction where
  hash := 20
  vout := [{ nValue := 0
             scriptPubKey := [0x6a, 0x4c, 83, 0xf0, 0x43] ++ leBytes 4 0 ++ leBytes 4 0 ++
              leBytes 8 3 ++ [2] ++ leBytes 32 30 ++ leBytes 32 31 }]

/-- The plan as it is decoded. -/
def thirds : PaymentsPlan where
  kind := .allocations [30, 31]
  lockedblocks := 0
  minrelease := 0
  totalallocations := 3
  top := 0
  minimum := 10000
  bottom := 0
  fixedAmount := 0
  excludeScriptPubKeys := []

/-- Its allocations. -/
def thirdsFound : List PaymentsEnv.Allocation := [(2, [0x51], []), (1, [0x52], [])]

/-- A release of an amount with given outputs after the change. -/
def release (amount change : Nat) (outs : List CTxOut) : CTransaction where
  hash := 23
  vin := [{ prevout := { hash := 21, n := 0 } }]
  vout := { nValue := change
            scriptPubKey := planScript ++ [50, 4, 1, 0xf0, 1, 2, 44, 0x6a, 42, 0xf0, 0x52] ++
              leBytes 32 20 ++ leBytes 8 amount ++ [0x75] } :: outs

/-- A release that pays both shares. -/
def full : CTransaction :=
  release 30000 199960000
    [{ nValue := 20000, scriptPubKey := [0x51] }, { nValue := 10000, scriptPubKey := [0x52] }]

/-- A release whose second share is below the minimum. -/
def truncated : CTransaction :=
  release 27000 199972000 [{ nValue := 18000, scriptPubKey := [0x51] }]

/-- The plan, its allocations and its funds. -/
def thirdsEnv : PaymentsEnv where
  toCCEnv := CCLib.plain.envAt "" [fund 21, thirdsTx, allocationTx 30 0x51 2,
    allocationTx 31 0x52 1]
  height := 105
  txHeight _ := some 5
  notarizedHeight := 0
  coinImportValue _ := 0
  snapshotInterval := 0
  addressSnapshot := []
  snapshotHash := 0
  uninitTop := 0

theorem full_checked : thirdsEnv.ReleaseChecked full 20 30000 thirds thirdsFound where
  change := eq_ok_of_toOption (by decide +kernel)
  plan_eq := eq_ok_of_toOption (by decide +kernel)
  kind_eq := ⟨[30, 31], rfl, by decide +kernel⟩
  two_le := by decide
  total_eq := by decide
  checked := eq_ok_of_isOk (by decide +kernel)
  amount_le := by decide
  vins := ⟨0, eq_ok_of_toOption (by decide +kernel)⟩
  amounts := by decide +kernel

theorem truncated_checked : thirdsEnv.ReleaseChecked truncated 20 27000 thirds thirdsFound where
  change := eq_ok_of_toOption (by decide +kernel)
  plan_eq := eq_ok_of_toOption (by decide +kernel)
  kind_eq := ⟨[30, 31], rfl, by decide +kernel⟩
  two_le := by decide
  total_eq := by decide
  checked := eq_ok_of_isOk (by decide +kernel)
  amount_le := by decide
  vins := ⟨0, eq_ok_of_toOption (by decide +kernel)⟩
  amounts := by decide +kernel

/-- The first share is paid, the second is below the minimum. -/
theorem truncated_paysPlan :
    PaymentsEnv.PaysPlan thirdsFound 27000 3 10000 truncated.vout.tail where
  total_ne := by decide
  outs_eq := ⟨[(2, [0x51], [])], [(1, [0x52], [])], [], rfl, by decide, rfl, by decide, by decide⟩

end SamplePayments

/-- A release that pays both shares. -/
theorem full_settles :
    SamplePayments.thirdsEnv.Settles SamplePayments.full 30000 SamplePayments.thirds
      SamplePayments.thirdsFound :=
  (PaymentsEnv.release_settles_iff SamplePayments.full_checked).2
    ⟨fun h => absurd (by decide) h, fun _ =>
      ⟨fun h => absurd h (by decide), fun _ => Or.inl ⟨by decide, by
        unfold PaymentsEnv.Exact
        decide⟩⟩⟩

/-- A release that pays the plan: its validation reads the allocation after the last. -/
theorem truncated_not_settled :
    SamplePayments.thirdsEnv.ReleaseChecked SamplePayments.truncated 20 27000
      SamplePayments.thirds SamplePayments.thirdsFound ∧
    PaymentsEnv.PaysPlan SamplePayments.thirdsFound 27000 3 10000
      SamplePayments.truncated.vout.tail ∧
    SamplePayments.thirdsEnv.paymentsValidate SamplePayments.truncated =
      .error (.listOutOfBounds 2) ∧
    ¬ SamplePayments.thirdsEnv.Settles SamplePayments.truncated 27000 SamplePayments.thirds
      SamplePayments.thirdsFound := by
  have herr : SamplePayments.thirdsEnv.paymentsValidate SamplePayments.truncated =
      .error (.listOutOfBounds 2) := by
    rw [SamplePayments.truncated_checked.paymentsValidate_eq]
    rfl
  exact ⟨SamplePayments.truncated_checked, SamplePayments.truncated_paysPlan, herr,
    PaymentsEnv.not_settles_of_error herr fun _ => by simp⟩

end IndexChain
