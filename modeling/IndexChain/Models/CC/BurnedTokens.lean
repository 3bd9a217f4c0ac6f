import Mathlib.Algebra.BigOperators.Group.List.Basic
import Mathlib.Data.List.Sort
import IndexChain.Core.Words
import IndexChain.Models.CC.History
import IndexChain.Models.CC.Tokens

/-!
# Burned tokens

`HasBurnedTokensvouts` compares every condition output with the test outputs made for it
and for all condition outputs before it, and adds its value once for each that is equal.
The result is the value of the burned outputs exactly when none of them is matched twice:
its script is one of the recognised forms once only, and no condition output before it has
the same value (`hasBurnedTokensvouts_eq_iff`); beyond 2^63 the 64-bit sum can come round to
the value again.
-/

namespace IndexChain

open IndexChain.Core

/-- The condition outputs of a transaction, in order. -/
def CTransaction.ccVouts (tx : CTransaction) : List CTxOut :=
  tx.vout.filter fun out => CScript.isPayToCryptoCondition out.scriptPubKey

/-- The value of the outputs with one of the given scripts, each counted once. -/
def valueIn (forms : List CScript) (outs : List CTxOut) : Int :=
  ((outs.filter fun out => forms.contains out.scriptPubKey).map CTxOut.nValue).sum

/-- The outputs with one of the given scripts that are worth something are matched by one
test output each. -/
structure MatchedOnce (forms : List CScript) (outs : List CTxOut) : Prop where
  /-- The script is one of the forms once. -/
  form : ∀ out ∈ outs, out.scriptPubKey ∈ forms → out.nValue ≠ 0 →
    forms.count out.scriptPubKey = 1
  /-- No output before has the same value. -/
  value : outs.Pairwise fun earlier out =>
    out.scriptPubKey ∈ forms → out.nValue ≠ 0 → earlier.nValue ≠ out.nValue

instance (forms : List CScript) (outs : List CTxOut) : Decidable (MatchedOnce forms outs) :=
  decidable_of_iff (_ ∧ _) ⟨fun h => ⟨h.1, h.2⟩, fun h => ⟨h.form, h.value⟩⟩

namespace CCEnv

variable (env : CCEnv)

/-- The scripts that the op_return and the token allow for burned tokens. -/
def burnForms (oprets : Oprets) (tokenid : Uint256) : List CScript :=
  env.cc1 evalTokens ccBurnpubkey ::
    CCLib.threeEval (env.evalCodes oprets tokenid) fun e1 e2 => env.tokensCC1 e1 e2 ccBurnpubkey

/-- What a transaction burns of a token: the value of its condition outputs to the burn
key, each counted once. -/
def burnedValue (tx : CTransaction) (tokenid : Uint256) : Int :=
  match tokenOpretOf tx with
  | none => 0
  | some opret => valueIn (env.burnForms opret.oprets tokenid) tx.ccVouts

end CCEnv

namespace CCLib

/-! ## The loop -/

/-- The test outputs after a number of condition outputs. -/
def testVoutsOf (forms : List CScript) (outs : List CTxOut) : List (Int × CScript) :=
  outs.flatMap fun out => forms.map fun s => (out.nValue, s)

theorem testVoutsOf_append (forms : List CScript) (outs : List CTxOut) (out : CTxOut) :
    testVoutsOf forms outs ++ forms.map (fun s => (out.nValue, s)) =
      testVoutsOf forms (outs ++ [out]) := by
  simp [testVoutsOf]

/-- An output matches the test outputs of those with its value, in each form it has. -/
theorem countP_testVoutsOf (forms : List CScript) (outs : List CTxOut) (out : CTxOut) :
    (testVoutsOf forms outs).countP
        (fun t => t.1 == out.nValue && t.2 == out.scriptPubKey) =
      outs.countP (fun o => o.nValue == out.nValue) * forms.count out.scriptPubKey := by
  induction outs with
  | nil => simp [testVoutsOf]
  | cons o outs ih =>
    have hcons : testVoutsOf forms (o :: outs) =
        forms.map (fun s => (o.nValue, s)) ++ testVoutsOf forms outs := rfl
    rw [hcons, List.countP_append, ih, List.countP_map, List.countP_cons]
    by_cases hval : o.nValue = out.nValue
    · simp [hval, Function.comp_def, List.count, Nat.add_mul, Nat.add_comm]
    · simp [hval, Function.comp_def]

/-- How often an output is counted beyond once. -/
def surplus (forms : List CScript) (earlier : List CTxOut) (out : CTxOut) : Nat :=
  (earlier.countP (fun o => o.nValue == out.nValue) + 1) * forms.count out.scriptPubKey -
    if forms.contains out.scriptPubKey then 1 else 0

/-- What an output adds: its value, if it is burned, and the surplus. -/
theorem matched_eq (forms : List CScript) (earlier : List CTxOut) (out : CTxOut) :
    (((testVoutsOf forms (earlier ++ [out])).countP
        (fun t => t.1 == out.nValue && t.2 == out.scriptPubKey) : Nat) : Int) * out.nValue =
      (if forms.contains out.scriptPubKey then out.nValue else 0) +
        surplus forms earlier out * out.nValue := by
  rw [countP_testVoutsOf, List.countP_append, List.countP_singleton, if_pos (beq_self_eq_true _)]
  by_cases hform : forms.contains out.scriptPubKey = true
  · have hpos : 0 < (earlier.countP (fun o => o.nValue == out.nValue) + 1) *
        forms.count out.scriptPubKey :=
      Nat.mul_pos (Nat.succ_pos _) (List.count_pos_iff.2 (List.contains_iff_mem.1 hform))
    simp only [surplus, if_pos hform]
    rw [Int.natCast_sub hpos, Int.sub_mul, Nat.cast_one, Int.one_mul]
    omega
  · have hzero : forms.count out.scriptPubKey = 0 :=
      List.count_eq_zero.2 fun hmem => hform (List.contains_iff_mem.2 hmem)
    have hmem : out.scriptPubKey ∉ forms := List.count_eq_zero.1 hzero
    simp [surplus, hmem, hzero]

theorem surplus_eq_zero_iff {forms : List CScript} {earlier : List CTxOut} {out : CTxOut} :
    surplus forms earlier out = 0 ↔ (out.scriptPubKey ∈ forms →
      forms.count out.scriptPubKey = 1 ∧ ∀ o ∈ earlier, o.nValue ≠ out.nValue) := by
  by_cases hform : out.scriptPubKey ∈ forms
  · have hpos : 0 < forms.count out.scriptPubKey := List.count_pos_iff.2 hform
    have hnone : (∀ o ∈ earlier, o.nValue ≠ out.nValue) ↔
        earlier.countP (fun o => o.nValue == out.nValue) = 0 := by
      simp [List.countP_eq_zero]
    rw [hnone, surplus, if_pos (List.contains_iff_mem.2 hform), Nat.sub_eq_zero_iff_le]
    constructor
    · intro hle _
      have hone := Nat.eq_one_of_mul_eq_one_left
        (Nat.le_antisymm hle (Nat.mul_pos (Nat.succ_pos _) hpos))
      rw [hone] at hle
      exact ⟨hone, by omega⟩
    · intro h
      rw [(h hform).1, (h hform).2]
  · simp [surplus, hform, List.count_eq_zero.2 hform]

/-- What the loop adds beyond the values of the burned outputs. -/
def overcount (forms : List CScript) : List CTxOut → List CTxOut → Int
  | _, [] => 0
  | earlier, out :: rest =>
    surplus forms earlier out * out.nValue + overcount forms (earlier ++ [out]) rest

theorem burnLoop_eq (forms : List CScript) (earlier outs : List CTxOut) :
    burnLoop forms (testVoutsOf forms earlier) outs =
      valueIn forms outs + overcount forms earlier outs := by
  induction outs generalizing earlier with
  | nil => rfl
  | cons out outs ih =>
    have hvalue : valueIn forms (out :: outs) =
        (if forms.contains out.scriptPubKey then out.nValue else 0) + valueIn forms outs := by
      simp only [valueIn, List.filter_cons]
      split
      · rw [List.map_cons, List.sum_cons]
      · rw [Int.zero_add]
    rw [burnLoop, testVoutsOf_append, matched_eq, ih, overcount, hvalue]
    omega

theorem overcount_nonneg (forms : List CScript) {outs : List CTxOut}
    (hvalues : ∀ out ∈ outs, 0 ≤ out.nValue) (earlier : List CTxOut) :
    0 ≤ overcount forms earlier outs := by
  induction outs generalizing earlier with
  | nil => exact Int.le_refl 0
  | cons out outs ih =>
    have hout := Int.mul_nonneg (Int.natCast_nonneg (surplus forms earlier out))
      (hvalues out List.mem_cons_self)
    have hrest := ih (fun o ho => hvalues o (List.mem_cons_of_mem _ ho)) (earlier ++ [out])
    rw [overcount]
    omega

/-- Nothing is added beyond the values exactly when every output that is worth something
is matched once. -/
theorem overcount_eq_zero_iff (forms : List CScript) {outs : List CTxOut}
    (hvalues : ∀ out ∈ outs, 0 ≤ out.nValue) (earlier : List CTxOut) :
    overcount forms earlier outs = 0 ↔ MatchedOnce forms outs ∧
      ∀ out ∈ outs, out.scriptPubKey ∈ forms → out.nValue ≠ 0 →
        ∀ o ∈ earlier, o.nValue ≠ out.nValue := by
  induction outs generalizing earlier with
  | nil => exact ⟨fun _ => ⟨⟨by simp, .nil⟩, by simp⟩, fun _ => rfl⟩
  | cons out outs ih =>
    have hrest : ∀ o ∈ outs, 0 ≤ o.nValue := fun o ho => hvalues o (List.mem_cons_of_mem _ ho)
    have hnonneg := overcount_nonneg forms hrest (earlier ++ [out])
    have hmul := Int.mul_nonneg (Int.natCast_nonneg (surplus forms earlier out))
      (hvalues out List.mem_cons_self)
    have hzero : overcount forms earlier (out :: outs) = 0 ↔
        (out.nValue ≠ 0 → surplus forms earlier out = 0) ∧
          overcount forms (earlier ++ [out]) outs = 0 := by
      rw [overcount]
      constructor
      · intro h
        have hprod : (surplus forms earlier out : Int) * out.nValue = 0 := by omega
        exact ⟨fun hne => by simpa [hne] using hprod, by omega⟩
      · rintro ⟨hsurplus, htail⟩
        by_cases hne : out.nValue = 0
        · simp [hne, htail]
        · simp [hsurplus hne, htail]
    rw [hzero, ih hrest, surplus_eq_zero_iff]
    constructor
    · rintro ⟨hout, ⟨hform, hvalue⟩, hearlier⟩
      refine ⟨⟨?_, ?_⟩, ?_⟩
      · intro o ho hmem hne
        rcases List.mem_cons.1 ho with rfl | ho
        · exact (hout hne hmem).1
        · exact hform o ho hmem hne
      · refine List.pairwise_cons.2 ⟨fun o ho hmem hne => ?_, hvalue⟩
        exact hearlier o ho hmem hne out (by simp)
      · intro o ho hmem hne
        rcases List.mem_cons.1 ho with rfl | ho
        · exact (hout hne hmem).2
        · exact fun e he => hearlier o ho hmem hne e (List.mem_append_left _ he)
    · rintro ⟨⟨hform, hvalue⟩, hearlier⟩
      obtain ⟨hfirst, hvalue⟩ := List.pairwise_cons.1 hvalue
      refine ⟨fun hne hmem => ⟨hform out List.mem_cons_self hmem hne,
        hearlier out List.mem_cons_self hmem hne⟩,
        ⟨fun o ho => hform o (List.mem_cons_of_mem _ ho), hvalue⟩, ?_⟩
      intro o ho hmem hne e he
      rcases List.mem_append.1 he with he | he
      · exact hearlier o (List.mem_cons_of_mem _ ho) hmem hne e he
      · obtain rfl := List.mem_singleton.1 he
        exact hfirst o ho hmem hne

end CCLib

namespace CCEnv

variable (env : CCEnv)

/-! ## The result -/

theorem countedValue_eq (tx : CTransaction) (tokenid : Uint256) (opret : TokenOpret)
    (hopret : tokenOpretOf tx = some opret) :
    env.countedValue tx tokenid = env.burnedValue tx tokenid +
      CCLib.overcount (env.burnForms opret.oprets tokenid) [] tx.ccVouts := by
  simp only [countedValue, burnedValue, hopret]
  exact CCLib.burnLoop_eq _ [] _

/-- The exact sum is the value of the burned outputs exactly when none of them is matched
twice. -/
theorem countedValue_eq_iff {tx : CTransaction} (tokenid : Uint256)
    (hvalues : ∀ out ∈ tx.vout, 0 ≤ out.nValue) :
    env.countedValue tx tokenid = env.burnedValue tx tokenid ↔
      ∀ opret, tokenOpretOf tx = some opret →
        MatchedOnce (env.burnForms opret.oprets tokenid) tx.ccVouts := by
  have hcc : ∀ out ∈ tx.ccVouts, 0 ≤ out.nValue :=
    fun out hout => hvalues out (List.mem_of_mem_filter hout)
  cases hopret : tokenOpretOf tx with
  | none => simp [countedValue, burnedValue, hopret]
  | some opret =>
    have hzero := CCLib.overcount_eq_zero_iff (env.burnForms opret.oprets tokenid) hcc []
    rw [env.countedValue_eq tx tokenid opret hopret]
    constructor
    · rintro h _ ⟨⟩
      exact (hzero.1 (by omega)).1
    · intro h
      rw [hzero.2 ⟨h opret rfl, by simp⟩, Int.add_zero]

/-- The value of the burned outputs is between zero and the value of all outputs. -/
theorem burnedValue_range {tx : CTransaction} (tokenid : Uint256)
    (hvalues : ∀ out ∈ tx.vout, 0 ≤ out.nValue) :
    0 ≤ env.burnedValue tx tokenid ∧
      env.burnedValue tx tokenid ≤ (tx.vout.map CTxOut.nValue).sum := by
  have hnonneg : ∀ v ∈ tx.vout.map CTxOut.nValue, 0 ≤ v := by simpa using hvalues
  cases hopret : tokenOpretOf tx with
  | none => simpa [burnedValue, hopret] using List.sum_nonneg hnonneg
  | some opret =>
    have hsub : ((tx.ccVouts.filter fun out =>
        (env.burnForms opret.oprets tokenid).contains out.scriptPubKey).map CTxOut.nValue).Sublist
          (tx.vout.map CTxOut.nValue) :=
      (List.filter_sublist.trans List.filter_sublist).map _
    rw [burnedValue, hopret]
    exact ⟨List.sum_nonneg fun v hv => hnonneg v (hsub.subset hv),
      hsub.sum_le_sum hnonneg⟩

/-- The result is the value of the burned outputs when none of them is matched twice, and
only then as long as the sum of what is counted stays in range. -/
theorem hasBurnedTokensvouts_eq_iff {tx : CTransaction} (tokenid : Uint256)
    (hvalues : ∀ out ∈ tx.vout, 0 ≤ out.nValue)
    (htotal : (tx.vout.map CTxOut.nValue).sum < 2 ^ 63) :
    ((∀ opret, tokenOpretOf tx = some opret →
        MatchedOnce (env.burnForms opret.oprets tokenid) tx.ccVouts) →
      env.hasBurnedTokensvouts tx tokenid = env.burnedValue tx tokenid) ∧
    (env.countedValue tx tokenid < 2 ^ 63 →
      env.hasBurnedTokensvouts tx tokenid = env.burnedValue tx tokenid →
      ∀ opret, tokenOpretOf tx = some opret →
        MatchedOnce (env.burnForms opret.oprets tokenid) tx.ccVouts) := by
  obtain ⟨hlow, hhigh⟩ := env.burnedValue_range tokenid hvalues
  constructor
  · intro hmatched
    rw [hasBurnedTokensvouts, (env.countedValue_eq_iff tokenid hvalues).2 hmatched]
    exact toInt64_of_range (by omega) (by omega)
  · intro hcounted heq opret hopret
    have hcc : ∀ out ∈ tx.ccVouts, 0 ≤ out.nValue :=
      fun out hout => hvalues out (List.mem_of_mem_filter hout)
    have hover := CCLib.overcount_nonneg (env.burnForms opret.oprets tokenid) hcc []
    have hexact := env.countedValue_eq tx tokenid opret hopret
    rw [hasBurnedTokensvouts, toInt64_of_range (by omega) hcounted] at heq
    exact (env.countedValue_eq_iff tokenid hvalues).1 heq opret hopret

end CCEnv

/-! ## Burning tokens of the sample library -/

namespace SampleBurn

/-- The codes in the condition of `MakeTokensCCcond1`. -/
def codes (evalcode evalcode2 : UInt8) : List UInt8 :=
  [evalcode] ++ (if evalcode ≠ evalTokens then [evalTokens] else []) ++
    (if evalcode2 ≠ 0 then [evalcode2] else [])

/-- The sample library with the codes of a condition in their order, in which a threshold
has its conditions. -/
def lib : CCLib :=
  { CCLib.plain with
    cc1 := fun e pk => CCLib.plainScript [e] pk []
    tokensCC1 := fun e1 e2 pk =>
      CCLib.plainScript ((codes e1 e2).insertionSort (· ≤ ·)) pk [] }

/-- The op_return of a transfer of token 9 to the burn key with the given payloads. -/
def opret (payloads : List UInt8) : CTxOut where
  nValue := 0
  scriptPubKey := 0x6a :: CScript.pushBytes
    ([evalTokens, 0x74] ++ (leBytes 32 9).reverse ++ [1, 33] ++ CCEnv.ccBurnpubkey ++ payloads)

/-- The library without transactions. -/
def env : CCEnv := lib.envAt "" []

/-- Two burned outputs of a token that the assets contract holds. -/
def assetsBurn : CTransaction where
  hash := 50
  vout := [{ nValue := 5, scriptPubKey := env.tokensCC1 evalAssets 0 CCEnv.ccBurnpubkey },
    { nValue := 7, scriptPubKey := env.tokensCC1 evalAssets 0 CCEnv.ccBurnpubkey },
    opret [opretidAssetsdata, 1, evalAssets]]

/-- One burned output of a fungible token: with no code besides `EVAL_TOKENS` both forms
are one script. -/
def plainBurn : CTransaction where
  hash := 51
  vout := [{ nValue := 5, scriptPubKey := env.cc1 evalTokens CCEnv.ccBurnpubkey }, opret []]

end SampleBurn

/-- An output of the assets contract is counted once. -/
theorem assetsBurn_once :
    SampleBurn.env.hasBurnedTokensvouts SampleBurn.assetsBurn 9 =
      SampleBurn.env.burnedValue SampleBurn.assetsBurn 9 ∧
    SampleBurn.env.burnedValue SampleBurn.assetsBurn 9 = 12 := by
  have hvalue : SampleBurn.env.burnedValue SampleBurn.assetsBurn 9 = 12 := by decide +kernel
  refine ⟨(SampleBurn.env.hasBurnedTokensvouts_eq_iff 9 (by decide) (by decide)).1 ?_, hvalue⟩
  intro opret hopret
  have hall : (tokenOpretOf SampleBurn.assetsBurn).all (fun opret =>
      decide (MatchedOnce (SampleBurn.env.burnForms opret.oprets 9) SampleBurn.assetsBurn.ccVouts))
      = true := by decide +kernel
  rw [hopret] at hall
  exact of_decide_eq_true hall

/-- A burned output is counted twice. -/
theorem plainBurn_twice :
    SampleBurn.env.hasBurnedTokensvouts SampleBurn.plainBurn 9 = 10 ∧
    SampleBurn.env.burnedValue SampleBurn.plainBurn 9 = 5 := by
  decide +kernel

end IndexChain
