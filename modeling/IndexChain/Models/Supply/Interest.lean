import IndexChain.Core.Words
import Mathlib.Tactic.NormNum

/-!
# Interest on coins with a lock time

`komodo_interest` of `komodo_interest.h`. The formulas are written for any product: the
program multiplies 64-bit numbers, the exact value is what the same formulas give over the
natural numbers, and the checked one has no value when a product does not fit. Which of
the formulas is used, and in which order it multiplies, depends on the height and the
value; `interestExact_iff` says for which inputs every product fits.
-/

namespace IndexChain.Supply

/-! ## Constants -/

/-- `SATOSHIDEN`: `COIN` as an unsigned number. -/
def satoshiden : Nat := 100000000

/-- `KOMODO_ENDOFERA`. -/
def komodoEndofera : Int := 7777777

/-- `KOMODO_INTEREST`: five percent of a coin. -/
def komodoInterestRate : Nat := 5000000

/-- `LOCKTIME_THRESHOLD`. -/
def locktimeThreshold : Nat := 500000000

/-- `KOMODO_MAXMEMPOOLTIME`. -/
def komodoMaxmempooltime : Nat := 3600

/-- `activation`: 5 April 2017. -/
def interestActivation : Nat := 1491350400

/-- The minutes of a year. -/
def minutesPerYear : Nat := 365 * 24 * 60

/-- Coins of a large value that keep the old formula, by height and value. -/
def interestExceptions : List (Int × Nat) :=
  [(116607, 2502721100000), (126891, 2879650000000), (129510, 3000000000000),
    (141549, 3500000000000), (154473, 3983399350000), (154736, 3983406748175),
    (155013, 3983414006565), (155492, 3983427592291), (155613, 9997409999999797),
    (157927, 9997410667451072), (155613, 2590000000000), (155949, 4000000000000)]

/-! ## The formulas -/

/-- `exception`. -/
def isInterestException (txheight : Int) (nValue : Nat) : Bool :=
  decide (txheight ≤ 155949) && interestExceptions.contains (txheight, nValue)

/-- The guards of `komodo_interest`: interest is due. -/
def interestDue (symbolEmpty : Bool) (txheight : Int) (nValue nLockTime tiptime : Nat) : Bool :=
  symbolEmpty && !decide (komodoEndofera ≤ txheight) &&
    (decide (locktimeThreshold ≤ nLockTime) && tiptime != 0 && decide (nLockTime < tiptime) &&
      decide (10 * satoshiden ≤ nValue)) && decide (60 ≤ (tiptime - nLockTime) / 60)

/-- `minutes` of `komodo_interest`: at most a year, and one hour less from height 250000 on. -/
def interestMinutes (txheight : Int) (nLockTime tiptime : Nat) : Nat :=
  let minutes := min ((tiptime - nLockTime) / 60) minutesPerYear
  if 250000 ≤ txheight then minutes - 59 else minutes

section

variable {m : Type → Type} [Monad m] (mul : Nat → Nat → m Nat) (txheight : Int)
  (nValue nLockTime tiptime minutes denominator : Nat)

/-- `_komodo_interestnew`. -/
def komodoInterestnew : m Nat :=
  if locktimeThreshold ≤ nLockTime ∧ nLockTime < tiptime ∧
      komodoMaxmempooltime / 60 ≤ (tiptime - nLockTime) / 60 then
    let minutes := min ((tiptime - nLockTime) / 60) minutesPerYear
    let minutes :=
      if 1000000 ≤ txheight ∧ 31 * 24 * 60 < minutes then 31 * 24 * 60 else minutes
    mul (nValue / 10512000) (minutes - (komodoMaxmempooltime / 60 - 1))
  else pure 0

/-- The interest on more than 25000 coins. `interestnew` is only printed below height
1000000. -/
def largeInterest : m Nat :=
  if isInterestException txheight nValue then
    if txheight < 1000000 then do
      let numerator ← mul nValue komodoInterestRate
      let _interestnew ← komodoInterestnew mul txheight nValue nLockTime tiptime
      pure (numerator / denominator / satoshiden)
    else komodoInterestnew mul txheight nValue nLockTime tiptime
  else if txheight < 250000 then pure (nValue / 20 / denominator)
  else if txheight < 1000000 then do
    let product ← mul (nValue / 20) minutes
    let _interestnew ← komodoInterestnew mul txheight nValue nLockTime tiptime
    pure (product / minutesPerYear)
  else komodoInterestnew mul txheight nValue nLockTime tiptime

/-- The interest on at most 25000 coins. -/
def smallInterest : m Nat := do
  let numerator ← mul nValue komodoInterestRate
  if txheight < 250000 then pure (numerator / denominator / satoshiden)
  else if tiptime < interestActivation then do
    let product ← mul numerator minutes
    if product < minutesPerYear then pure (numerator / denominator / satoshiden)
    else pure (product / minutesPerYear / satoshiden)
  else if txheight < 1000000 then do
    let product ← mul (nValue / 20) minutes
    let _interestnew ← komodoInterestnew mul txheight nValue nLockTime tiptime
    pure (product / minutesPerYear)
  else komodoInterestnew mul txheight nValue nLockTime tiptime

variable (symbolEmpty : Bool)

/-- `komodo_interest`, for any product. -/
def interestFormula : m Nat :=
  if interestDue symbolEmpty txheight nValue nLockTime tiptime then
    let minutes := interestMinutes txheight nLockTime tiptime
    let denominator := minutesPerYear / minutes
    let denominator := if denominator = 0 then 1 else denominator
    if 25000 * satoshiden < nValue then
      largeInterest mul txheight nValue nLockTime tiptime minutes denominator
    else smallInterest mul txheight nValue nLockTime tiptime minutes denominator
  else pure 0

end

/-- A product of `uint64_t`. -/
def mulUint64 (a b : Nat) : Id Nat :=
  pure (a * b % 2 ^ 64)

/-- The product. -/
def mulExact (a b : Nat) : Id Nat :=
  pure (a * b)

/-- A product that fits into 64 bits. -/
def mulChecked (a b : Nat) : Option Nat :=
  if a * b < 2 ^ 64 then some (a * b) else none

/-- `komodo_interest`. -/
def komodoInterest (symbolEmpty : Bool) (txheight : Int) (nValue : UInt64)
    (nLockTime tiptime : UInt32) : Nat :=
  (interestFormula mulUint64 txheight nValue.toNat nLockTime.toNat tiptime.toNat symbolEmpty).run

/-- The value of its formula in exact arithmetic. -/
def exactInterest (symbolEmpty : Bool) (txheight : Int) (nValue : UInt64)
    (nLockTime tiptime : UInt32) : Nat :=
  (interestFormula mulExact txheight nValue.toNat nLockTime.toNat tiptime.toNat symbolEmpty).run

/-- No product of the formula wraps. -/
def NoProductWraps (symbolEmpty : Bool) (txheight : Int) (nValue : UInt64)
    (nLockTime tiptime : UInt32) : Prop :=
  (interestFormula mulChecked txheight nValue.toNat nLockTime.toNat tiptime.toNat
    symbolEmpty).isSome = true

/-! ## Formulas whose products fit -/

/-- Wherever the checked formula has a value, the other two have it. -/
def Agree (checked : Option Nat) (wrapped exact : Id Nat) : Prop :=
  ∀ r, checked = some r → wrapped = r ∧ exact = r

namespace Agree

theorem pure (r : Nat) : Agree (some r) (Pure.pure r) (Pure.pure r) := by
  intro r' h
  cases h
  exact ⟨rfl, rfl⟩

theorem mul (a b : Nat) : Agree (mulChecked a b) (mulUint64 a b) (mulExact a b) := by
  intro r h
  unfold mulChecked at h
  split at h
  · rename_i hfits
    cases h
    exact ⟨Nat.mod_eq_of_lt hfits, rfl⟩
  · cases h

theorem bind {c : Option Nat} {w e : Id Nat} {kc : Nat → Option Nat} {kw ke : Nat → Id Nat}
    (h : Agree c w e) (hk : ∀ r, Agree (kc r) (kw r) (ke r)) :
    Agree (c >>= kc) (w >>= kw) (e >>= ke) := by
  intro r hr
  obtain ⟨a, ha, hrest⟩ := Option.bind_eq_some_iff.1 hr
  obtain ⟨hw, he⟩ := h a ha
  rw [hw, he]
  exact hk a r hrest

theorem ite {p : Prop} [Decidable p] {c c' : Option Nat} {w w' e e' : Id Nat}
    (h : p → Agree c w e) (h' : ¬ p → Agree c' w' e') :
    Agree (if p then c else c') (if p then w else w') (if p then e else e') := by
  by_cases hp : p
  · rw [if_pos hp, if_pos hp, if_pos hp]
    exact h hp
  · rw [if_neg hp, if_neg hp, if_neg hp]
    exact h' hp

variable {txheight : Int} {nValue nLockTime tiptime minutes denominator : Nat}
  {symbolEmpty : Bool}

theorem interestnew : Agree (komodoInterestnew mulChecked txheight nValue nLockTime tiptime)
    (komodoInterestnew mulUint64 txheight nValue nLockTime tiptime)
    (komodoInterestnew mulExact txheight nValue nLockTime tiptime) :=
  ite (fun _ => mul _ _) fun _ => pure 0

theorem large :
    Agree (largeInterest mulChecked txheight nValue nLockTime tiptime minutes denominator)
      (largeInterest mulUint64 txheight nValue nLockTime tiptime minutes denominator)
      (largeInterest mulExact txheight nValue nLockTime tiptime minutes denominator) := by
  refine ite (fun _ => ite (fun _ => ?_) fun _ => interestnew) fun _ =>
    ite (fun _ => pure _) fun _ => ite (fun _ => ?_) fun _ => interestnew
  · exact bind (mul _ _) fun _ => bind interestnew fun _ => pure _
  · exact bind (mul _ _) fun _ => bind interestnew fun _ => pure _

theorem small :
    Agree (smallInterest mulChecked txheight nValue nLockTime tiptime minutes denominator)
      (smallInterest mulUint64 txheight nValue nLockTime tiptime minutes denominator)
      (smallInterest mulExact txheight nValue nLockTime tiptime minutes denominator) := by
  refine bind (mul _ _) fun _ => ite (fun _ => pure _) fun _ => ite (fun _ => ?_) fun _ =>
    ite (fun _ => ?_) fun _ => interestnew
  · exact bind (mul _ _) fun _ => ite (fun _ => pure _) fun _ => pure _
  · exact bind (mul _ _) fun _ => bind interestnew fun _ => pure _

theorem formula : Agree
    (interestFormula mulChecked txheight nValue nLockTime tiptime symbolEmpty)
    (interestFormula mulUint64 txheight nValue nLockTime tiptime symbolEmpty)
    (interestFormula mulExact txheight nValue nLockTime tiptime symbolEmpty) :=
  ite (fun _ => ite (fun _ => large) fun _ => small) fun _ => pure 0

end Agree

/-- The program computes the exact value when no product wraps. -/
theorem komodoInterest_eq_exact {symbolEmpty : Bool} {txheight : Int} {nValue : UInt64}
    {nLockTime tiptime : UInt32}
    (h : NoProductWraps symbolEmpty txheight nValue nLockTime tiptime) :
    komodoInterest symbolEmpty txheight nValue nLockTime tiptime =
      exactInterest symbolEmpty txheight nValue nLockTime tiptime := by
  obtain ⟨r, hr⟩ := Option.isSome_iff_exists.1 h
  obtain ⟨hwrapped, hexact⟩ := Agree.formula r hr
  exact hwrapped.trans hexact.symm

/-! ## Five percent -/

section

variable {txheight : Int} {nValue nLockTime tiptime minutes denominator : Nat}
  {symbolEmpty : Bool}

/-- The minutes that earn interest are no more than a year has. -/
theorem newMinutes_le :
    (if 1000000 ≤ txheight ∧ 31 * 24 * 60 < min ((tiptime - nLockTime) / 60) minutesPerYear then
      31 * 24 * 60 else min ((tiptime - nLockTime) / 60) minutesPerYear) -
        (komodoMaxmempooltime / 60 - 1) ≤ 525600 := by
  unfold minutesPerYear
  split <;> omega

/-- The new formula gives at most five percent. -/
theorem interestnew_le :
    (komodoInterestnew mulExact txheight nValue nLockTime tiptime).run ≤ nValue / 20 := by
  unfold komodoInterestnew
  split
  · dsimp only [mulExact]
    rw [Id.run_pure, Nat.le_div_iff_mul_le (by decide)]
    calc _ ≤ nValue / 10512000 * 525600 * 20 :=
          Nat.mul_le_mul_right _ (Nat.mul_le_mul_left _ newMinutes_le)
      _ = nValue / 10512000 * 10512000 := by rw [Nat.mul_assoc]
      _ ≤ nValue := Nat.div_mul_le_self _ _
  · exact Nat.zero_le _

/-- Five percent, computed from parts of a coin. -/
theorem rate_le (a b : Nat) (h : a ≤ nValue * komodoInterestRate) :
    a / b / satoshiden ≤ nValue / 20 := by
  calc a / b / satoshiden ≤ nValue * komodoInterestRate / satoshiden :=
        Nat.div_le_div_right ((Nat.div_le_self _ _).trans h)
    _ = nValue * komodoInterestRate / (20 * komodoInterestRate) := rfl
    _ = nValue / 20 := Nat.mul_div_mul_right _ _ (by decide)

/-- The part of a year. -/
theorem year_le {a : Nat} (h : minutes ≤ minutesPerYear) : a * minutes / minutesPerYear ≤ a := by
  apply Nat.div_le_of_le_mul
  rw [Nat.mul_comm minutesPerYear]
  exact Nat.mul_le_mul_left _ h

theorem large_le (h : minutes ≤ minutesPerYear) :
    (largeInterest mulExact txheight nValue nLockTime tiptime minutes denominator).run ≤
      nValue / 20 := by
  unfold largeInterest
  simp only [mulExact, pure_bind]
  split
  · split
    · rw [Id.run_bind, Id.run_pure]
      exact rate_le _ _ le_rfl
    · exact interestnew_le
  · split
    · rw [Id.run_pure]
      exact Nat.div_le_self _ _
    · split
      · rw [Id.run_bind, Id.run_pure]
        exact year_le h
      · exact interestnew_le

theorem small_le (h : minutes ≤ minutesPerYear) :
    (smallInterest mulExact txheight nValue nLockTime tiptime minutes denominator).run ≤
      nValue / 20 := by
  unfold smallInterest
  simp only [mulExact, pure_bind]
  split
  · rw [Id.run_pure]
    exact rate_le _ _ le_rfl
  · split
    · split
      · rw [Id.run_pure]
        exact rate_le _ _ le_rfl
      · have hyear := year_le (a := nValue * komodoInterestRate) h
        have hrate := rate_le _ 1 hyear
        rw [Nat.div_one] at hrate
        rw [Id.run_pure]
        exact hrate
    · split
      · simp only [Id.run_bind, Id.run_pure]
        exact year_le h
      · exact interestnew_le

theorem interestMinutes_le : interestMinutes txheight nLockTime tiptime ≤ minutesPerYear := by
  unfold interestMinutes
  dsimp only
  split <;> omega

end

/-- The exact value is at most five percent, rounded down. -/
theorem exactInterest_le (symbolEmpty : Bool) (txheight : Int) (nValue : UInt64)
    (nLockTime tiptime : UInt32) :
    exactInterest symbolEmpty txheight nValue nLockTime tiptime ≤ nValue.toNat / 20 := by
  unfold exactInterest interestFormula
  split
  · dsimp only
    split
    · exact large_le interestMinutes_le
    · exact small_le interestMinutes_le
  · exact Nat.zero_le _

/-! ## Which products fit -/

/-- Bounds on the value under which every product fits: with the minutes that count from
height 250000 to 999999, and for the exceptions. -/
structure ProductsFit (txheight : Int) (nValue nLockTime tiptime : Nat) : Prop where
  /-- More than 25000 coins, once the minutes are counted one by one. -/
  large : 25000 * satoshiden < nValue → 250000 ≤ txheight → txheight < 1000000 →
    nValue / 20 * interestMinutes txheight nLockTime tiptime < 2 ^ 64
  /-- More than 25000 coins that keep the old formula. -/
  exception : 25000 * satoshiden < nValue → isInterestException txheight nValue = true →
    nValue ≤ 3689348814741
  /-- At most 25000 coins, before April 2017. -/
  small : nValue ≤ 25000 * satoshiden → 250000 ≤ txheight → tiptime < interestActivation →
    nValue * interestMinutes txheight nLockTime tiptime ≤ 3689348814741

section

variable {txheight : Int} {nValue nLockTime tiptime minutes denominator a b : Nat}
  {symbolEmpty : Bool}

theorem bind_mulChecked_isSome {k : Nat → Option Nat} :
    (mulChecked a b >>= k).isSome = true ↔ a * b < 2 ^ 64 ∧ (k (a * b)).isSome = true := by
  unfold mulChecked
  split
  · rename_i hfits
    exact ⟨fun h => ⟨hfits, h⟩, And.right⟩
  · rename_i hwraps
    exact ⟨fun h => (by cases h), fun h => absurd h.1 hwraps⟩

/-- The product of the new formula always fits. -/
theorem interestnew_isSome (h : nValue < 2 ^ 64) :
    (komodoInterestnew mulChecked txheight nValue nLockTime tiptime).isSome = true := by
  unfold komodoInterestnew
  split
  · dsimp only
    rw [mulChecked, if_pos]
    · rfl
    · calc _ ≤ nValue / 10512000 * 525600 := Nat.mul_le_mul_left _ newMinutes_le
        _ < 2 ^ 64 := by omega
  · rfl

theorem bind_interestnew_isSome (h : nValue < 2 ^ 64) (r : Nat) :
    (komodoInterestnew mulChecked txheight nValue nLockTime tiptime >>= fun _ =>
      pure r).isSome = true := by
  have hsome : (komodoInterestnew mulChecked txheight nValue nLockTime tiptime).isSome = true :=
    interestnew_isSome h
  obtain ⟨x, hx⟩ := Option.isSome_iff_exists.1 hsome
  rw [hx]
  rfl

/-- Exceptions are below height 250000. -/
theorem lt_of_isInterestException (h : isInterestException txheight nValue = true) :
    txheight < 250000 := by
  obtain ⟨hheight, -⟩ := Bool.and_eq_true_iff.1 h
  have hle := of_decide_eq_true hheight
  omega

/-- When no product for a large amount wraps. -/
theorem large_isSome_iff (h : nValue < 2 ^ 64) :
    (largeInterest mulChecked txheight nValue nLockTime tiptime minutes
        denominator).isSome = true ↔
      (isInterestException txheight nValue = true → nValue ≤ 3689348814741) ∧
      (250000 ≤ txheight → txheight < 1000000 → nValue / 20 * minutes < 2 ^ 64) := by
  unfold largeInterest
  split
  · rename_i hexception
    have hlow := lt_of_isInterestException hexception
    rw [if_pos (by omega), bind_mulChecked_isSome, komodoInterestRate]
    simp only [bind_interestnew_isSome h, and_true, hexception, true_imp_iff]
    omega
  · rename_i hexception
    simp only [hexception, Bool.false_eq_true, false_imp_iff, true_and]
    split
    · rename_i hlow
      exact ⟨fun _ hhigh => by omega, fun _ => rfl⟩
    · rename_i hhigh
      split
      · rename_i hmid
        rw [bind_mulChecked_isSome]
        simp only [bind_interestnew_isSome h, and_true]
        exact ⟨fun hfits _ _ => hfits, fun hfits => hfits (by omega) hmid⟩
      · rename_i hlate
        exact ⟨fun _ _ hmid => absurd hmid hlate, fun _ => interestnew_isSome h⟩

/-- The products of a small amount fit below a bound. -/
theorem small_isSome_iff (hsmall : nValue ≤ 25000 * satoshiden)
    (hminutes : minutes ≤ minutesPerYear) :
    (smallInterest mulChecked txheight nValue nLockTime tiptime minutes
        denominator).isSome = true ↔
      (250000 ≤ txheight → tiptime < interestActivation →
        nValue * minutes ≤ 3689348814741) := by
  unfold satoshiden at hsmall
  have h : nValue < 2 ^ 64 := by omega
  unfold smallInterest
  rw [bind_mulChecked_isSome, and_iff_right (by unfold komodoInterestRate; omega)]
  split
  · rename_i hlow
    exact ⟨fun _ hhigh => by omega, fun _ => rfl⟩
  · rename_i hhigh
    split
    · rename_i hearly
      rw [bind_mulChecked_isSome]
      have hsome : ∀ p r s : Nat,
          (if p < minutesPerYear then pure r else pure s : Option Nat).isSome = true := by
        intro p r s
        split <;> rfl
      have hswap : nValue * komodoInterestRate * minutes = nValue * minutes * komodoInterestRate :=
        Nat.mul_right_comm _ _ _
      have hfits : nValue * komodoInterestRate * minutes < 2 ^ 64 ↔
          nValue * minutes ≤ 3689348814741 := by
        rw [hswap, komodoInterestRate]
        omega
      rw [and_iff_left (hsome _ _ _), hfits]
      exact ⟨fun hle _ _ => hle, fun hle => hle (by omega) hearly⟩
    · rename_i hlate
      refine ⟨fun _ _ hearly => absurd hearly hlate, fun _ => ?_⟩
      split
      · rw [bind_mulChecked_isSome]
        refine ⟨?_, bind_interestnew_isSome h _⟩
        unfold minutesPerYear at hminutes
        calc nValue / 20 * minutes ≤ nValue / 20 * 525600 := Nat.mul_le_mul_left _ hminutes
          _ < 2 ^ 64 := by omega
      · exact interestnew_isSome h

end

/-- No product wraps exactly when no interest is due or the bounds hold. -/
theorem noProductWraps_iff {symbolEmpty : Bool} {txheight : Int} {nValue : UInt64}
    {nLockTime tiptime : UInt32} :
    NoProductWraps symbolEmpty txheight nValue nLockTime tiptime ↔
      (interestDue symbolEmpty txheight nValue.toNat nLockTime.toNat tiptime.toNat = true →
        ProductsFit txheight nValue.toNat nLockTime.toNat tiptime.toNat) := by
  have h := nValue.toNat_lt
  unfold NoProductWraps interestFormula
  split
  · rename_i hdue
    simp only [hdue, true_imp_iff]
    split
    · rename_i hlarge
      rw [large_isSome_iff h]
      exact ⟨fun hfits => ⟨fun _ => hfits.2, fun _ => hfits.1, fun hsmall => by omega⟩,
        fun hfits => ⟨hfits.exception hlarge, hfits.large hlarge⟩⟩
    · rename_i hsmall
      have hle := Nat.le_of_not_lt hsmall
      rw [small_isSome_iff hle interestMinutes_le]
      exact ⟨fun hfits => ⟨fun hlarge => by omega, fun hlarge => by omega, fun _ => hfits⟩,
        fun hfits => hfits.small hle⟩
  · rename_i hdue
    exact ⟨fun _ h => absurd h hdue, fun _ => rfl⟩

/-! ## The interest of the program -/

/-- The interest is that of the formula, no product wraps, and it is at most five percent. -/
structure InterestExact (symbolEmpty : Bool) (txheight : Int) (nValue : UInt64)
    (nLockTime tiptime : UInt32) : Prop where
  /-- The value is the exact one. -/
  exact : komodoInterest symbolEmpty txheight nValue nLockTime tiptime =
    exactInterest symbolEmpty txheight nValue nLockTime tiptime
  /-- No product wraps. -/
  noWrap : NoProductWraps symbolEmpty txheight nValue nLockTime tiptime
  /-- Five percent, rounded down. -/
  bound : komodoInterest symbolEmpty txheight nValue nLockTime tiptime ≤ nValue.toNat / 20

/-- The interest is computed exactly if and only if none is due or the value is within the
bounds for its height and minutes. -/
theorem interestExact_iff (symbolEmpty : Bool) (txheight : Int) (nValue : UInt64)
    (nLockTime tiptime : UInt32) :
    InterestExact symbolEmpty txheight nValue nLockTime tiptime ↔
      (interestDue symbolEmpty txheight nValue.toNat nLockTime.toNat tiptime.toNat = true →
        ProductsFit txheight nValue.toNat nLockTime.toNat tiptime.toNat) := by
  rw [← noProductWraps_iff]
  constructor
  · exact InterestExact.noWrap
  · intro h
    have hexact := komodoInterest_eq_exact h
    exact ⟨hexact, h, hexact ▸ exactInterest_le symbolEmpty txheight nValue nLockTime tiptime⟩

/-- Interest that is not the one of the formula: on 20000 coins at height 250000 before April
2017, and on twenty million coins at height 300000. -/
theorem interestExact_fails :
    (komodoInterest true 250000 2000000000000 1480000000 1490000000 = 293293 ∧
      exactInterest true 250000 2000000000000 1480000000 1490000000 = 31698439878 ∧
      ¬ InterestExact true 250000 2000000000000 1480000000 1490000000) ∧
    komodoInterest true 300000 2000000000000000 1470000000 1510000000 = 29795684651029 ∧
      exactInterest true 300000 2000000000000000 1470000000 1510000000 = 99988774733637 ∧
      ¬ InterestExact true 300000 2000000000000000 1470000000 1510000000 := by
  have hearly : komodoInterest true 250000 2000000000000 1480000000 1490000000 = 293293 := by
    decide +kernel
  have hearly' : exactInterest true 250000 2000000000000 1480000000 1490000000 = 31698439878 := by
    decide +kernel
  have hlarge : komodoInterest true 300000 2000000000000000 1470000000 1510000000 =
      29795684651029 := by
    decide +kernel
  have hlarge' : exactInterest true 300000 2000000000000000 1470000000 1510000000 =
      99988774733637 := by
    decide +kernel
  refine ⟨⟨hearly, hearly', ?_⟩, hlarge, hlarge', ?_⟩
  · intro h
    have hexact := h.exact
    rw [hearly, hearly'] at hexact
    exact absurd hexact (by decide)
  · intro h
    have hexact := h.exact
    rw [hlarge, hlarge'] at hexact
    exact absurd hexact (by decide)

end IndexChain.Supply
