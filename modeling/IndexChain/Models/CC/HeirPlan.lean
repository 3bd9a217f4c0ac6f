import IndexChain.Core.Runs
import IndexChain.Models.CC.History

/-!
# Input validation plans

`CInputValidationPlan::validate` of `cc/heir_validate.h`. A plan is a list of rows; the
inputs are walked once, each row claiming the inputs its identifier recognises and running
its validators on them. The walk ends when the rows are used up, whether or not there are
inputs left: every input is claimed exactly when the longest runs of the rows, taken one
after the other, reach the end of the inputs (`validate_claimsAll_iff`).
-/

namespace IndexChain

open IndexChain.Core

/-- `CInputIdentifierBase`. -/
structure CInputIdentifier where
  /-- The name in the reject reason. -/
  inputName : String
  /-- Whether an input is of this kind. -/
  identifyInput : CTxIn → Bool

/-- `CValidatorBase`. A validator that returns false leaves its `message`. -/
structure CValidator where
  /-- The validator looks at the input rather than at the output it spends. -/
  isVinValidator : Bool
  /-- The check of an input, with the outputs of its transaction and the index spent. -/
  validateVin : CTxIn → List CTxOut → Int → Option String
  /-- The check of the output that is spent, with its index. -/
  validateVout : CTxOut → Int → Option String

/-- A row of a plan. -/
structure ValidatorsRow where
  /-- Which inputs the row is for. -/
  identifier : CInputIdentifier
  /-- What is checked of them. -/
  validators : List CValidator

/-- One validator of `execValidatorsInRow`. -/
def CValidator.exec (v : CValidator) (prevTx : CTransaction) (txin : CTxIn) :
    Except Failure (Option String) :=
  if v.isVinValidator then .ok (v.validateVin txin prevTx.vout (toInt32 txin.prevout.n.toNat))
  else do
    let out ← prevTx.spent txin.prevout.n.toNat
    return v.validateVout out (toInt32 txin.prevout.n.toNat)

/-- `execValidatorsInRow`: the message of the first validator that returns false. -/
def execValidatorsInRow (prevTx : CTransaction) (txin : CTxIn) :
    List CValidator → Except Failure (Option String)
  | [] => .ok none
  | v :: validators => do
    match ← v.exec prevTx txin with
    | some message => return some message
    | none => execValidatorsInRow prevTx txin validators

namespace CCLib

variable (lib : CCLib)

/-- `CNormalInputIdentifier`. -/
def normalInputIdentifier : CInputIdentifier where
  inputName := "normal input"
  identifyInput txin := !lib.isCCInput txin.scriptSig

/-- `CCCInputIdentifier`. -/
def ccInputIdentifier : CInputIdentifier where
  inputName := "CC input"
  identifyInput txin := lib.isCCInput txin.scriptSig

end CCLib

namespace CCEnv

variable (env : CCEnv)

/-- The validators of a row on input `iv`. -/
def validateInput (row : ValidatorsRow) (iv : Nat) (txin : CTxIn) : Except Failure Unit :=
  match env.getTransaction txin.prevout.hash with
  | none => .error (.invalid ("can't find vinTx for vin=" ++ toString iv ++ "."))
  | some prevTx => do
    match ← execValidatorsInRow prevTx txin row.validators with
    | some message => .error (.invalid ("invalid tx vin[" ++ toString iv ++ "]:" ++ message))
    | none => return ()

/-- The inner loop of `validate` from input `iv` on: `iv` and the inputs after it. -/
def claimInputs (row : ValidatorsRow) : Nat → List CTxIn → Except Failure (Nat × List CTxIn)
  | iv, [] => .ok (iv, [])
  | iv, txin :: vins =>
    if row.identifier.identifyInput txin then do
      env.validateInput row iv txin
      claimInputs row (iv + 1) vins
    else .ok (iv, txin :: vins)

/-- The outer loop of `validate`, and the test after it. -/
def validateRows : List ValidatorsRow → Nat → List CTxIn → Except Failure Unit
  | [], _, _ => .ok ()
  | _ :: _, _, [] =>
    .error (.invalid "incorrect tx structure: not all required vins are present.")
  | row :: rows, iv, txin :: vins => do
    let (iv', rest) ← env.claimInputs row iv (txin :: vins)
    require (iv' != iv)
      (.invalid ("can't find required vins for " ++ row.identifier.inputName ++ "."))
    validateRows rows iv' rest

/-- `CInputValidationPlan::validate`. -/
def validatePlan (plan : List ValidatorsRow) (tx : CTransaction) : Except Failure Unit :=
  env.validateRows plan 0 tx.vin

/-! ## What an accepted plan has checked -/

/-- An input is claimed by a row and passes its validators. -/
structure ClaimedBy (row : ValidatorsRow) (txin : CTxIn) : Prop where
  /-- The identifier recognises the input. -/
  identified : row.identifier.identifyInput txin = true
  /-- The transaction it spends from is found, and no validator returns false. -/
  passes : ∃ prevTx, env.getTransaction txin.prevout.hash = some prevTx ∧
    ∀ v ∈ row.validators, v.exec prevTx txin = .ok none

/-- Every input is claimed by a row and passes its validators, the rows being used in
order with at least one input each. -/
def ClaimsAll (plan : List ValidatorsRow) (tx : CTransaction) : Prop :=
  Runs env.ClaimedBy plan tx.vin []

/-- The inputs after the longest run of each row. -/
def unclaimed (plan : List ValidatorsRow) (tx : CTransaction) : List CTxIn :=
  leftover (fun row txin => row.identifier.identifyInput txin) plan tx.vin

theorem exec_of_execValidatorsInRow {prevTx : CTransaction} {txin : CTxIn}
    {validators : List CValidator} (h : execValidatorsInRow prevTx txin validators = .ok none) :
    ∀ v ∈ validators, v.exec prevTx txin = .ok none := by
  induction validators with
  | nil => simp
  | cons v validators ih =>
    rw [execValidatorsInRow, except_bind_eq_ok] at h
    obtain ⟨verdict, hv, hrest⟩ := h
    cases verdict with
    | some message => cases hrest
    | none =>
      intro w hw
      rcases List.mem_cons.1 hw with rfl | hmem
      · exact hv
      · exact ih hrest w hmem

theorem passes_of_validateInput {row : ValidatorsRow} {iv : Nat} {txin : CTxIn}
    (h : env.validateInput row iv txin = .ok ()) :
    ∃ prevTx, env.getTransaction txin.prevout.hash = some prevTx ∧
      ∀ v ∈ row.validators, v.exec prevTx txin = .ok none := by
  unfold validateInput at h
  split at h
  · cases h
  · rename_i prevTx htx
    obtain ⟨verdict, hexec, hrest⟩ := except_bind_eq_ok.1 h
    cases verdict with
    | some message => cases hrest
    | none => exact ⟨prevTx, htx, exec_of_execValidatorsInRow hexec⟩

/-- The inner loop goes through the longest run of the row. -/
theorem claimInputs_spec {row : ValidatorsRow} {iv iv' : Nat} {vins rest : List CTxIn}
    (h : env.claimInputs row iv vins = .ok (iv', rest)) :
    rest = vins.dropWhile row.identifier.identifyInput ∧
      ∃ run, vins = run ++ rest ∧ iv' = iv + run.length ∧ ∀ txin ∈ run, env.ClaimedBy row txin := by
  induction vins generalizing iv with
  | nil =>
    cases h
    exact ⟨rfl, [], rfl, rfl, by simp⟩
  | cons txin vins ih =>
    rw [claimInputs] at h
    by_cases hid : row.identifier.identifyInput txin = true
    · rw [if_pos hid] at h
      obtain ⟨u, hinput, hloop⟩ := except_bind_eq_ok.1 h
      obtain ⟨hrest, run, hrun, hcount, hclaimed⟩ := ih hloop
      refine ⟨by rw [List.dropWhile_cons_of_pos hid]; exact hrest, txin :: run, ?_, ?_, ?_⟩
      · rw [hrun, List.cons_append]
      · rw [hcount, List.length_cons]
        omega
      · intro i hi
        rcases List.mem_cons.1 hi with rfl | hmem
        · exact ⟨hid, env.passes_of_validateInput hinput⟩
        · exact hclaimed i hmem
    · rw [if_neg hid] at h
      cases h
      exact ⟨by rw [List.dropWhile_cons_of_neg hid], [], rfl, rfl, by simp⟩

/-- The loops claim a run for each row and leave the rest of the inputs alone. -/
theorem runs_of_validateRows {rows : List ValidatorsRow} {iv : Nat} {vins : List CTxIn}
    (h : env.validateRows rows iv vins = .ok ()) :
    Runs env.ClaimedBy rows vins
      (leftover (fun row txin => row.identifier.identifyInput txin) rows vins) := by
  induction rows generalizing iv vins with
  | nil => exact .done vins
  | cons row rows ih =>
    cases vins with
    | nil => cases h
    | cons txin vins =>
      rw [validateRows] at h
      obtain ⟨⟨iv', rest⟩, hclaim, h⟩ := except_bind_eq_ok.1 h
      obtain ⟨hcount, hrows⟩ := require_bind_eq_ok.1 h
      obtain ⟨hrest, run, hrun, hlen, hclaimed⟩ := env.claimInputs_spec hclaim
      have hne : run ≠ [] := by
        rintro rfl
        simp [hlen] at hcount
      rw [leftover, ← hrest, hrun]
      exact .run hne hclaimed (ih hrows)

/-- In an accepted transaction every input is claimed and checked exactly when the longest
runs of the rows reach the end of the inputs. -/
theorem validate_claimsAll_iff {plan : List ValidatorsRow} {tx : CTransaction}
    (h : env.validatePlan plan tx = .ok ()) :
    env.ClaimsAll plan tx ↔ unclaimed plan tx = [] := by
  have hruns := env.runs_of_validateRows h
  constructor
  · intro hall
    have hsuffix := hall.leftover_suffix (fun row txin => row.identifier.identifyInput txin)
      (fun hclaim => hclaim.identified) (List.suffix_refl tx.vin)
    exact List.suffix_nil.1 hsuffix
  · intro hnone
    simp only [unclaimed] at hnone
    rw [hnone] at hruns
    exact hruns

end CCEnv

/-! ## Claims of an heir -/

namespace SampleHeir

/-- The script of the address that holds the funds of an owner and an heir. -/
def funding : CScript := CCLib.plain.cc1of2 0xea (CCLib.plainKey 1) (CCLib.plainKey 2)

/-- The funds of somebody else. -/
def otherFunding : CScript := CCLib.plain.cc1of2 0xea (CCLib.plainKey 3) (CCLib.plainKey 4)

/-- `CNullValidator`. -/
def nullValidator : CValidator where
  isVinValidator := false
  validateVin _ _ _ := none
  validateVout _ _ := none

/-- The output that is spent holds the funds of this owner and this heir. -/
def fundingValidator : CValidator where
  isVinValidator := false
  validateVin _ _ _ := some ""
  validateVout out _ := if out.scriptPubKey = funding then none
    else some "checking this tx opreturn: incorrect heir funding address: incorrect pubkey(s)"

/-- The plan of a claim: a fee, then inputs from the funds. -/
def plan : List ValidatorsRow :=
  [{ identifier := CCLib.plain.normalInputIdentifier, validators := [nullValidator] },
   { identifier := CCLib.plain.ccInputIdentifier, validators := [fundingValidator] }]

/-- The spent transaction: a fee, the funds and those of somebody else. -/
def fund : CTransaction where
  hash := 40
  vout := [{ nValue := 10000, scriptPubKey := CScript.payToPubkey (CCLib.plainKey 2) },
    { nValue := 50000, scriptPubKey := funding },
    { nValue := 90000, scriptPubKey := otherFunding },
    { nValue := 20000, scriptPubKey := CScript.payToPubkey (CCLib.plainKey 2) }]

/-- An input that spends an output of `fund`. -/
def spend (n : UInt32) (scriptSig : CScript) : CTxIn :=
  { prevout := { hash := 40, n := n }, scriptSig := scriptSig }

/-- A claim as the plan has it. -/
def claim : CTransaction where
  hash := 41
  vin := [spend 0 [], spend 1 [0xea]]

/-- A claim with two more inputs, the last from the funds of somebody else. -/
def grab : CTransaction where
  hash := 42
  vin := [spend 0 [], spend 1 [0xea], spend 3 [], spend 2 [0xea]]

/-- The chain. -/
def env : CCEnv := CCLib.plain.envAt "" [fund]

end SampleHeir

/-- A claim that spends everything. -/
theorem claimsAll_claim :
    SampleHeir.env.validatePlan SampleHeir.plan SampleHeir.claim = .ok () ∧
    SampleHeir.env.ClaimsAll SampleHeir.plan SampleHeir.claim :=
  have haccept := eq_ok_of_isOk (e := SampleHeir.env.validatePlan SampleHeir.plan SampleHeir.claim)
    (by decide +kernel)
  ⟨haccept, (SampleHeir.env.validate_claimsAll_iff haccept).2 (by decide +kernel)⟩

/-- An accepted transaction with an input that no row of the plan claims. -/
theorem input_not_claimed :
    SampleHeir.env.validatePlan SampleHeir.plan SampleHeir.grab = .ok () ∧
    ¬ SampleHeir.env.ClaimsAll SampleHeir.plan SampleHeir.grab ∧
    ∀ row ∈ SampleHeir.plan, ¬ SampleHeir.env.ClaimedBy row (SampleHeir.spend 2 [0xea]) := by
  refine ⟨eq_ok_of_isOk (by decide +kernel), ?_, ?_⟩
  · intro hall
    have hsuffix := hall.leftover_suffix (fun row txin => row.identifier.identifyInput txin)
      (fun hclaim => hclaim.identified) (List.suffix_refl _)
    exact absurd (List.suffix_nil.1 hsuffix) (by decide +kernel)
  · intro row hrow hclaim
    rcases List.mem_cons.1 hrow with rfl | hrow
    · exact absurd hclaim.identified (by decide +kernel)
    · obtain rfl := List.mem_singleton.1 hrow
      obtain ⟨prevTx, htx, hpasses⟩ := hclaim.passes
      obtain rfl : SampleHeir.fund = prevTx := Option.some.inj htx
      have hvalid := hpasses SampleHeir.fundingValidator List.mem_cons_self
      exact absurd (congrArg Except.toOption hvalid) (by decide +kernel)

end IndexChain
