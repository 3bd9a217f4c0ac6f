import IndexChain.Core.Words
import IndexChain.Models.CC.AssetFill
import Mathlib.Algebra.Order.Ring.Int
import Mathlib.Tactic.Push
import Mathlib.Tactic.Ring

/-!
# Prices of partial fills

A fill of a bid is refused when it pays the seller too little, never when it pays too
much: who delivers all units but two may take all the coins (`bidFills_iff`). A fill of
an ask is judged by two truncated quotients, and a third one, computed for a log line,
divides by the tokens that remain. The seller is paid the price whenever some tokens
remain and the price is a whole number of satoshis (`askFills_iff`).
-/

namespace IndexChain

open IndexChain.Core

/-- A sum of two amounts that is an amount did not wrap. -/
theorem eq_add_of_eq_toInt64 {maxMoney x y s : Int} (hmax : maxMoney < 2 ^ 63)
    (hx : MoneyRange maxMoney x) (hy : MoneyRange maxMoney y) (hs : MoneyRange maxMoney s)
    (h : s = toInt64 (x + y)) : s = x + y := by
  unfold MoneyRange at hx hy hs
  obtain ⟨k, hk⟩ := toInt64_eq_sub (x + y)
  omega

/-- A truncated quotient is at most another one exactly when its multiple fits. -/
theorem le_tdiv_iff {x y q : Int} (hx : 0 ≤ x) (hy : 0 < y) : q ≤ x.tdiv y ↔ q * y ≤ x := by
  rw [Int.tdiv_eq_ediv_of_nonneg hx]
  exact Int.le_ediv_iff_mul_le hy

/-! ## Bids -/

/-- The seller receives at most the price of the bid for the units delivered, and what
remains is at least the price of the units that remain, up to the price of one unit. -/
structure BidPriceKept (origNValue receivedNValue remainingNValue paidunits remainingUnits
    totalunits : Int) : Prop where
  /-- The seller is not paid more than the bid offers. -/
  received : receivedNValue * totalunits ≤ origNValue * paidunits + origNValue
  /-- The rest of the bid can be filled at its price. -/
  remaining : origNValue * remainingUnits ≤ remainingNValue * totalunits + origNValue

/-- An accepted fill adds up. -/
theorem sums_of_validateBidRemainder {maxMoney orig received remaining paid rest total : Int}
    (hmax : maxMoney < 2 ^ 63) (horig : MoneyRange maxMoney orig)
    (hreceived : MoneyRange maxMoney received) (hremaining : MoneyRange maxMoney remaining)
    (hpaid : MoneyRange maxMoney paid) (hrest : MoneyRange maxMoney rest)
    (htotal : MoneyRange maxMoney total)
    (h : validateBidRemainder rest remaining orig received paid total = true) :
    (orig ≠ 0 ∧ received ≠ 0 ∧ paid ≠ 0 ∧ total ≠ 0) ∧ total = rest + paid ∧
      orig = remaining + received := by
  unfold validateBidRemainder at h
  split at h
  · cases h
  · rename_i hne
    split at h
    · cases h
    · rename_i hunits
      split at h
      · cases h
      · rename_i hcoins
        refine ⟨by tauto, ?_, ?_⟩
        · exact eq_add_of_eq_toInt64 hmax hrest hpaid htotal (not_not.1 hunits)
        · exact eq_add_of_eq_toInt64 hmax hremaining hreceived horig (not_not.1 hcoins)

/-- Whoever delivers some of the units may take all the coins. -/
theorem validateBidRemainder_all {maxMoney orig paid rest : Int} (hmax : maxMoney < 2 ^ 63)
    (horig : MoneyRange maxMoney orig) (horig0 : orig ≠ 0) (hpaid0 : paid ≠ 0)
    (hpaid : MoneyRange maxMoney paid) (hrest : MoneyRange maxMoney rest)
    (htotal : MoneyRange maxMoney (rest + paid)) :
    validateBidRemainder rest 0 orig orig paid (rest + paid) = true := by
  unfold MoneyRange at horig hpaid hrest htotal
  have hunits : rest + paid = toInt64 (rest + paid) :=
    (toInt64_of_range (by omega) (by omega)).symm
  have hcoins : orig = toInt64 (0 + orig) := by
    rw [zero_add, toInt64_of_range (by omega) (by omega)]
  have htest : orig.tdiv (rest + paid) ≤ orig.tdiv paid := by
    rw [le_tdiv_iff horig.1 (by omega)]
    have hq := (le_tdiv_iff (q := orig.tdiv (rest + paid)) horig.1 (by omega)).1 le_rfl
    have hq0 : 0 ≤ orig.tdiv (rest + paid) := Int.tdiv_nonneg horig.1 (by omega)
    calc orig.tdiv (rest + paid) * paid ≤ orig.tdiv (rest + paid) * (rest + paid) :=
          mul_le_mul_of_nonneg_left (by omega) hq0
      _ ≤ orig := hq
  unfold validateBidRemainder
  rw [if_neg (by omega), if_neg (not_not.2 hunits), if_neg (not_not.2 hcoins)]
  exact decide_eq_true htest

/-- A fill that leaves at most one unit keeps the price of the bid. -/
theorem bidPriceKept_of_rest_le {orig received remaining paid rest : Int}
    (hremaining : 0 ≤ remaining) (hreceived : 0 ≤ received) (hpaid : 0 ≤ paid) (hrest : 0 ≤ rest)
    (hle : rest ≤ 1) (hcoins : orig = remaining + received) :
    BidPriceKept orig received remaining paid rest (rest + paid) := by
  have horig : 0 ≤ orig := by omega
  have hrestOrig : orig * rest ≤ orig := mul_le_of_le_one_right horig hle
  have htotal : 0 ≤ rest + paid := by omega
  refine ⟨?_, ?_⟩
  · calc received * (rest + paid) ≤ orig * (rest + paid) :=
          mul_le_mul_of_nonneg_right (by omega) htotal
      _ = orig * rest + orig * paid := mul_add _ _ _
      _ ≤ orig * paid + orig := by omega
  · have hnonneg : 0 ≤ remaining * (rest + paid) := mul_nonneg hremaining htotal
    omega

/-- Every accepted fill of a bid that delivers given units keeps the price of the bid
exactly when it leaves at most one unit, or no fill is accepted at all. -/
theorem bidFills_iff {maxMoney orig paid rest total : Int} (hmax : maxMoney < 2 ^ 63)
    (horig : MoneyRange maxMoney orig) (hpaid : MoneyRange maxMoney paid)
    (hrest : MoneyRange maxMoney rest) (htotal : MoneyRange maxMoney total) :
    (∀ received remaining, MoneyRange maxMoney received → MoneyRange maxMoney remaining →
      validateBidRemainder rest remaining orig received paid total = true →
      BidPriceKept orig received remaining paid rest total) ↔
    rest ≤ 1 ∨ orig = 0 ∨ paid = 0 ∨ total ≠ rest + paid := by
  constructor
  · intro hall
    by_contra hnot
    push Not at hnot
    obtain ⟨hmany, horig0, hpaid0, rfl⟩ := hnot
    have hzero : MoneyRange maxMoney 0 := ⟨le_rfl, horig.1.trans horig.2⟩
    have hkept := (hall orig 0 horig hzero
      (validateBidRemainder_all hmax horig horig0 hpaid0 hpaid hrest htotal)).remaining
    rw [zero_mul, zero_add] at hkept
    have hpos : 0 < orig := lt_of_le_of_ne horig.1 (Ne.symm horig0)
    have hrest1 : rest ≤ 1 := le_of_mul_le_mul_left (by omega) hpos
    omega
  · intro hcase received remaining hreceived hremaining haccept
    obtain ⟨⟨horig0, -, hpaid0, -⟩, hunits, hcoins⟩ :=
      sums_of_validateBidRemainder hmax horig hreceived hremaining hpaid hrest htotal haccept
    have hle : rest ≤ 1 := by tauto
    rw [hunits]
    exact bidPriceKept_of_rest_le hremaining.1 hreceived.1 hpaid.1 hrest.1 hle hcoins

/-- All units but one are paid for with all coins but the price of one. -/
theorem bidFills_lastUnit : BidPriceKept 1000 990 10 99 1 100 :=
  (bidFills_iff (by decide : (2100000000000000 : Int) < 2 ^ 63) (by decide) (by decide)
    (by decide) (by decide)).2 (.inl le_rfl) 990 10 (by decide) (by decide) (by decide)

/-- One token takes the coins of a bid for a hundred. -/
theorem bidFill_overpaid :
    MoneyRange 2100000000000000 1000 ∧ validateBidRemainder 99 0 1000 1000 1 100 = true ∧
      ¬ BidPriceKept 1000 1000 0 1 99 100 := by
  refine ⟨by decide, by decide, fun h => ?_⟩
  have hreceived := h.received
  omega

/-! ## Asks -/

/-- What a fill of an ask is about: the tokens and the price of the ask, and the tokens
that are taken. -/
structure AskFill (maxMoney : Int) where
  /-- The tokens of the ask. -/
  origAssetoshis : Int
  /-- The coins it asks for, as an op_return states them. -/
  totalNValue : Int
  /-- The tokens that are taken. -/
  receivedAssetoshis : Int
  /-- There are tokens. -/
  orig_pos : 0 < origAssetoshis
  /-- As many as an output can hold. -/
  orig_le : origAssetoshis ≤ maxMoney
  /-- Some of them are taken. -/
  received_nonneg : 0 ≤ receivedAssetoshis
  /-- No others are. -/
  received_le : receivedAssetoshis ≤ origAssetoshis
  /-- The price is a signed 64-bit number. -/
  total_int64 : toInt64 totalNValue = totalNValue

namespace AskFill

variable {maxMoney : Int} (f : AskFill maxMoney)

/-- The tokens that remain. -/
def remainingAssetoshis : Int := f.origAssetoshis - f.receivedAssetoshis

/-- The verdict on a payment and on the price that is stated for the rest. -/
def validate (remainingNValue paidNValue : Int) : Except Failure Bool :=
  validateAskRemainder remainingNValue f.remainingAssetoshis f.origAssetoshis
    f.receivedAssetoshis paidNValue f.totalNValue

/-- The verdict is reached without a division by zero, and a payment that is accepted is
at least the price of the tokens taken. -/
def Fair (remainingNValue paidNValue : Int) : Prop :=
  f.validate remainingNValue paidNValue ≠ .error .divisionByZero ∧
    (f.validate remainingNValue paidNValue = .ok true →
      f.receivedAssetoshis * f.totalNValue ≤ paidNValue * f.origAssetoshis)

/-- The truncated price of a token keeps the exact one: it is a whole number of satoshis,
or the least payment covers the tokens taken, or no payment passes the test. -/
def PriceExact : Prop :=
  f.totalNValue < 0 ∨ f.origAssetoshis ∣ f.totalNValue ∨
    f.receivedAssetoshis * f.totalNValue ≤ f.origAssetoshis ∨
    maxMoney < f.totalNValue / f.origAssetoshis * f.receivedAssetoshis

/-- The stated rest that makes the price add up. -/
def restOf (paidNValue : Int) : Int := toInt64 (f.totalNValue - paidNValue)

theorem validate_eq (hmax : maxMoney < 2 ^ 63) (rest paid : Int) :
    f.validate rest paid =
      if f.receivedAssetoshis = 0 ∨ paid = 0 ∨ f.totalNValue = 0 then .ok false
      else if f.totalNValue ≠ toInt64 (rest + paid) then .ok false
      else if rest ≠ 0 ∧ f.receivedAssetoshis = f.origAssetoshis then .error .divisionByZero
      else .ok (decide (f.totalNValue.tdiv f.origAssetoshis ≤ paid.tdiv f.receivedAssetoshis)) := by
  have hpos := f.orig_pos
  have hle := f.orig_le
  have hsum : f.origAssetoshis = toInt64 (f.remainingAssetoshis + f.receivedAssetoshis) := by
    rw [remainingAssetoshis, Int.sub_add_cancel, toInt64_of_range (by omega) (by omega)]
  have hrem : f.remainingAssetoshis = 0 ↔ f.receivedAssetoshis = f.origAssetoshis := by
    unfold remainingAssetoshis
    omega
  have hzero : (f.origAssetoshis = 0 ∨ f.receivedAssetoshis = 0 ∨ paid = 0 ∨ f.totalNValue = 0) ↔
      (f.receivedAssetoshis = 0 ∨ paid = 0 ∨ f.totalNValue = 0) := by
    omega
  unfold validate validateAskRemainder
  simp only [hzero, hrem]
  rw [if_neg (not_not.2 hsum)]

theorem total_eq_restOf (paid : Int) : f.totalNValue = toInt64 (f.restOf paid + paid) := by
  rw [restOf, toInt64_add_left, Int.sub_add_cancel, f.total_int64]

/-- A rest is stated exactly when the payment is not the price. -/
theorem restOf_eq_zero_iff {paid : Int} (hmax : maxMoney < 2 ^ 63)
    (hpaid : MoneyRange maxMoney paid) (hpos : 0 < paid) :
    f.restOf paid = 0 ↔ f.totalNValue = paid := by
  obtain ⟨k, hk⟩ := toInt64_eq_sub (f.totalNValue - paid)
  have htotal := toInt64_range f.totalNValue
  rw [f.total_int64] at htotal
  have hle := hpaid.2
  unfold restOf
  constructor
  · intro hzero
    omega
  · intro heq
    rw [heq, Int.sub_self]
    rfl

/-- Who states no rest pays the whole price. -/
theorem fair_zero (hmax : maxMoney < 2 ^ 63) {paid : Int} (hpaid : MoneyRange maxMoney paid) :
    f.Fair 0 paid := by
  have hle := f.received_le
  unfold Fair
  rw [f.validate_eq hmax]
  split
  · exact ⟨by simp, by simp⟩
  · split
    · exact ⟨by simp, by simp⟩
    · rename_i hsum
      rw [not_not, Int.zero_add, toInt64_of_range (by have := hpaid.1; omega)
        (by have := hpaid.2; omega)] at hsum
      rw [if_neg (by simp), hsum, Int.mul_comm paid]
      exact ⟨by simp, fun _ => Int.mul_le_mul_of_nonneg_right hle hpaid.1⟩

/-- Whoever takes all the tokens and does not pay the price exactly divides by zero. -/
theorem exists_divisionByZero (hcoin : COIN ≤ maxMoney) (hmax : maxMoney < 2 ^ 63)
    (hall : f.receivedAssetoshis = f.origAssetoshis) (htotal : f.totalNValue ≠ 0) :
    ∃ paid, MoneyRange maxMoney paid ∧
      f.validate (f.restOf paid) paid = .error .divisionByZero := by
  have hpos := f.orig_pos
  have key : ∀ paid, MoneyRange maxMoney paid → 0 < paid → f.totalNValue ≠ paid →
      f.validate (f.restOf paid) paid = .error .divisionByZero := by
    intro paid hpaid hpaidPos hne
    have hrest : f.restOf paid ≠ 0 := fun h => hne ((f.restOf_eq_zero_iff hmax hpaid hpaidPos).1 h)
    rw [f.validate_eq hmax, if_neg (by omega), if_neg (not_not.2 (f.total_eq_restOf paid)),
      if_pos ⟨hrest, hall⟩]
  unfold COIN at hcoin
  by_cases hone : f.totalNValue = 1
  · have htwo : MoneyRange maxMoney 2 := ⟨by omega, by omega⟩
    exact ⟨2, htwo, key 2 htwo (by omega) (by omega)⟩
  · have hone' : MoneyRange maxMoney 1 := ⟨by omega, by omega⟩
    exact ⟨1, hone', key 1 hone' (by omega) hone⟩

/-- When some tokens remain and the truncated price loses something, the least payment
with the truncated price is accepted, and it is too little. -/
theorem exists_underpaid (hcoin : COIN ≤ maxMoney) (hmax : maxMoney < 2 ^ 63)
    (hsome : 0 < f.receivedAssetoshis) (hrest : f.receivedAssetoshis ≠ f.origAssetoshis)
    (htotal : f.totalNValue ≠ 0) (hprice : ¬ f.PriceExact) :
    ∃ paid, MoneyRange maxMoney paid ∧ f.validate (f.restOf paid) paid = .ok true ∧
      paid * f.origAssetoshis < f.receivedAssetoshis * f.totalNValue := by
  have hpos := f.orig_pos
  unfold PriceExact at hprice
  push Not at hprice
  obtain ⟨hnonneg, hdvd, hleast, hin⟩ := hprice
  set q := f.totalNValue / f.origAssetoshis with hq
  have hq0 : 0 ≤ q := Int.ediv_nonneg hnonneg hpos.le
  have haccept : ∀ paid, 0 < paid → q * f.receivedAssetoshis ≤ paid →
      f.validate (f.restOf paid) paid = .ok true := by
    intro paid hpaidPos hle
    rw [f.validate_eq hmax, if_neg (by omega), if_neg (not_not.2 (f.total_eq_restOf paid)),
      if_neg (fun h => hrest h.2), Int.tdiv_eq_ediv_of_nonneg hnonneg, ← hq,
      decide_eq_true ((le_tdiv_iff hpaidPos.le hsome).2 hle)]
  by_cases hq1 : q = 0
  · -- a token costs less than a satoshi
    unfold COIN at hcoin
    refine ⟨1, ⟨by omega, by omega⟩, haccept 1 (by omega) (by rw [hq1]; omega), ?_⟩
    omega
  · have hqpos : 0 < q := by omega
    have hlt : q * f.origAssetoshis < f.totalNValue := by
      refine lt_of_le_of_ne (Int.ediv_mul_le _ hpos.ne') fun heq => hdvd ?_
      exact ⟨q, by rw [← heq, mul_comm]⟩
    have hpaidPos : 0 < q * f.receivedAssetoshis := mul_pos hqpos hsome
    refine ⟨q * f.receivedAssetoshis, ⟨hpaidPos.le, hin⟩, haccept _ hpaidPos le_rfl, ?_⟩
    calc q * f.receivedAssetoshis * f.origAssetoshis =
          f.receivedAssetoshis * (q * f.origAssetoshis) := by ring
      _ < f.receivedAssetoshis * f.totalNValue := mul_lt_mul_of_pos_left hlt hsome

/-- With an exact price, what is accepted is enough. -/
theorem paid_of_priceExact (hprice : f.PriceExact) {paid : Int} (hpaid : MoneyRange maxMoney paid)
    (hpos : 0 < paid) (hsome : 0 < f.receivedAssetoshis)
    (htest : f.totalNValue.tdiv f.origAssetoshis ≤ paid.tdiv f.receivedAssetoshis) :
    f.receivedAssetoshis * f.totalNValue ≤ paid * f.origAssetoshis := by
  have horig := f.orig_pos
  rw [le_tdiv_iff hpaid.1 hsome] at htest
  by_cases hneg : f.totalNValue < 0
  · calc f.receivedAssetoshis * f.totalNValue ≤ 0 :=
          mul_nonpos_of_nonneg_of_nonpos hsome.le hneg.le
      _ ≤ paid * f.origAssetoshis := mul_nonneg hpos.le horig.le
  · rw [Int.tdiv_eq_ediv_of_nonneg (by omega)] at htest
    rcases hprice with h | hdvd | hleast | hout
    · exact absurd h hneg
    · calc f.receivedAssetoshis * f.totalNValue =
            f.totalNValue / f.origAssetoshis * f.receivedAssetoshis * f.origAssetoshis := by
            conv_lhs => rw [← Int.ediv_mul_cancel hdvd]
            ring
        _ ≤ paid * f.origAssetoshis := mul_le_mul_of_nonneg_right htest horig.le
    · calc f.receivedAssetoshis * f.totalNValue ≤ f.origAssetoshis := hleast
        _ ≤ paid * f.origAssetoshis := le_mul_of_one_le_left horig.le (by omega)
    · have hle := hpaid.2
      omega

end AskFill

/-! ## The amounts of a fill -/

/-- A number that is read from eight bytes is a signed 64-bit number. -/
theorem toInt64_int {bs rest : List UInt8} {x : Int} (h : Reader.int 8 bs = some (x, rest)) :
    toInt64 x = x := by
  have hsize : 256 ^ 8 = 2 ^ 64 := by decide
  unfold Reader.int at h
  rw [hsize] at h
  obtain ⟨v, rest', -, h⟩ := Reader.bind_eq_some.1 h
  have hx := congrArg Prod.fst (Reader.pure_eq_some.1 h)
  dsimp only at hx
  rw [← hx]
  exact Int.bmod_bmod

/-- A price that was read has 64 bits. -/
theorem toInt64_price_of_read {funcid : AssetFuncId} {bs key rest : List UInt8} {a : Uint256}
    {price : Int} (h : readAssetFields funcid bs = some ((a, price, key), rest)) :
    toInt64 price = price := by
  have hpure : ∀ {v : Uint256 × Int × List UInt8} {bs : List UInt8},
      (pure v : Reader _) bs = some ((a, price, key), rest) → v.2.1 = price := by
    intro v bs hv
    exact congrArg (fun r => r.1.2.1) (Reader.pure_eq_some.1 hv)
  unfold readAssetFields at h
  obtain ⟨_, _, -, h⟩ := Reader.bind_eq_some.1 h
  split at h
  · rw [← hpure h]
    rfl
  · rw [← hpure h]
    rfl
  · obtain ⟨_, _, -, h⟩ := Reader.bind_eq_some.1 h
    obtain ⟨price', _, hprice, h⟩ := Reader.bind_eq_some.1 h
    obtain ⟨_, _, -, h⟩ := Reader.bind_eq_some.1 h
    rw [← hpure h]
    exact toInt64_int hprice
  · obtain ⟨_, _, -, h⟩ := Reader.bind_eq_some.1 h
    obtain ⟨price', _, hprice, h⟩ := Reader.bind_eq_some.1 h
    obtain ⟨_, _, -, h⟩ := Reader.bind_eq_some.1 h
    rw [← hpure h]
    exact toInt64_int hprice
  · obtain ⟨price', _, hprice, h⟩ := Reader.bind_eq_some.1 h
    obtain ⟨_, _, -, h⟩ := Reader.bind_eq_some.1 h
    rw [← hpure h]
    exact toInt64_int hprice

/-- The price of an op_return is a signed 64-bit number. -/
theorem toInt64_price {tx : CTransaction} {opret : AssetOpret}
    (h : assetOpretOf tx = some opret) : toInt64 opret.price = opret.price := by
  unfold assetOpretOf at h
  obtain ⟨out, -, h⟩ := Option.bind_eq_some_iff.1 h
  unfold decodeAssetTokenOpRet at h
  obtain ⟨token, -, h⟩ := Option.bind_eq_some_iff.1 h
  dsimp only at h
  split at h
  · split at h
    · obtain ⟨funcid, -, h⟩ := Option.bind_eq_some_iff.1 h
      obtain ⟨⟨a, price, key⟩, hread, rfl⟩ := Option.map_eq_some_iff.1 h
      exact toInt64_price_of_read (Reader.exists_of_unmarshal hread)
    · cases h
  · cases h

/-- The ask of a fill is an output of an earlier transaction, and its price is stated in an
op_return. -/
theorem CCEnv.ask_of_assetValidateSellvin {env : CCEnv} {evalcode2 : UInt8} {tx : CTransaction}
    {assetid : Uint256} {ask : OfferVin}
    (h : env.assetValidateSellvin evalcode2 tx assetid = .ok ask) :
    ask.nValue ≠ 0 ∧ toInt64 ask.totalunits = ask.totalunits ∧
      ∃ txid vinTx out, env.getTransaction txid = some vinTx ∧ out ∈ vinTx.vout ∧
        ask.nValue = out.nValue := by
  unfold assetValidateSellvin at h
  obtain ⟨⟨vinTx, ccAddr, normalAddr⟩, hvin, h⟩ := except_bind_eq_ok.1 h
  have hfound : ∃ txid, env.getTransaction txid = some vinTx := by
    unfold assetValidateCCvin at hvin
    split at hvin
    · cases hvin
    · rename_i txin _
      obtain ⟨-, hvin⟩ := require_bind_eq_ok.1 hvin
      split at hvin
      · cases hvin
      · rename_i prev hprev
        simp only [except_bind_eq_ok, require_eq_ok] at hvin
        obtain ⟨vout0, -, -, -, -, -, hvin⟩ := hvin
        split at hvin
        · cases hvin
        · obtain ⟨-, hok⟩ := require_bind_eq_ok.1 hvin
          cases hok
          exact ⟨_, hprev⟩
  dsimp only at h
  split at h
  · cases h
  · rename_i assetoshis opret hvout
    obtain ⟨hne, hok⟩ := require_bind_eq_ok.1 h
    cases hok
    unfold isAssetvout at hvout
    split at hvout
    · obtain ⟨out, hout, hvout⟩ := Option.bind_eq_some_iff.1 hvout
      split at hvout
      · obtain ⟨opret', hopret, heq⟩ := Option.map_eq_some_iff.1 hvout
        cases heq
        have hopret := (Option.filter_eq_some_iff.1 hopret).1
        obtain ⟨txid, htxid⟩ := hfound
        exact ⟨by simpa using hne, toInt64_price hopret, txid, vinTx, out, htxid,
          List.mem_of_getElem? hout, rfl⟩
      · cases hvout
    · cases hvout

/-- What case `'S'` judges is the fill of an ask: its amounts are those of outputs. -/
theorem CCEnv.exists_askFill {env : CCEnv} {maxMoney : Int} {evalcode2 : UInt8}
    {tx : CTransaction} {assetid : Uint256} {ask : OfferVin} {vout0 vout1 : CTxOut}
    (hmax : maxMoney < 2 ^ 63) (hask : env.assetValidateSellvin evalcode2 tx assetid = .ok ask)
    (h0 : tx.vout[0]? = some vout0) (h1 : tx.vout[1]? = some vout1)
    (hsum : ask.nValue = toInt64 (vout0.nValue + vout1.nValue))
    (htx : ∀ out ∈ tx.vout, MoneyRange maxMoney out.nValue)
    (hfound : ∀ txid vinTx, env.getTransaction txid = some vinTx →
      ∀ out ∈ vinTx.vout, MoneyRange maxMoney out.nValue) :
    ∃ f : AskFill maxMoney, ∀ price paid,
      validateAskRemainder price vout0.nValue ask.nValue vout1.nValue paid ask.totalunits =
        f.validate price paid := by
  obtain ⟨hne, htotal, txid, vinTx, out, hprev, hout, hnValue⟩ := ask_of_assetValidateSellvin hask
  have hrange : MoneyRange maxMoney ask.nValue := hnValue ▸ hfound txid vinTx hprev out hout
  have hrange0 := htx vout0 (List.mem_of_getElem? h0)
  have hrange1 := htx vout1 (List.mem_of_getElem? h1)
  have hadd := eq_add_of_eq_toInt64 hmax hrange0 hrange1 hrange hsum
  refine ⟨{ origAssetoshis := ask.nValue, totalNValue := ask.totalunits
            receivedAssetoshis := vout1.nValue, orig_pos := ?_, orig_le := hrange.2
            received_nonneg := hrange1.1, received_le := ?_, total_int64 := htotal }, ?_⟩
  · exact lt_of_le_of_ne hrange.1 (Ne.symm hne)
  · have := hrange0.1
    omega
  · intro price paid
    have hrem : ask.nValue - vout1.nValue = vout0.nValue := by omega
    unfold AskFill.validate AskFill.remainingAssetoshis
    dsimp only
    rw [hrem]

/-- Every payment for given tokens of an ask is judged fairly where no rest is stated. With a
rest it is exactly when some tokens remain and the truncated price is exact, or no payment is
accepted at all. -/
theorem askFills_iff {maxMoney : Int} (hcoin : COIN ≤ maxMoney) (hmax : maxMoney < 2 ^ 63)
    (f : AskFill maxMoney) :
    (∀ paidNValue, MoneyRange maxMoney paidNValue → f.Fair 0 paidNValue) ∧
    ((∀ remainingNValue paidNValue, remainingNValue ≠ 0 →
      toInt64 remainingNValue = remainingNValue → MoneyRange maxMoney paidNValue →
      f.Fair remainingNValue paidNValue) ↔
    f.receivedAssetoshis = 0 ∨ f.totalNValue = 0 ∨
      (f.receivedAssetoshis < f.origAssetoshis ∧ f.PriceExact)) := by
  refine ⟨fun paid => f.fair_zero hmax, ?_⟩
  have hreceived := f.received_nonneg
  have hle := f.received_le
  have hint : ∀ paid, toInt64 (f.restOf paid) = f.restOf paid := by
    intro paid
    have hrange := toInt64_range (f.totalNValue - paid)
    exact toInt64_of_range hrange.1 hrange.2
  constructor
  · intro hstated
    have hfair : ∀ paid, MoneyRange maxMoney paid → f.Fair (f.restOf paid) paid := by
      intro paid hpaid
      by_cases hrest : f.restOf paid = 0
      · rw [hrest]
        exact f.fair_zero hmax hpaid
      · exact hstated _ paid hrest (hint paid) hpaid
    by_contra hnot
    push Not at hnot
    obtain ⟨hsome, htotal, hcase⟩ := hnot
    by_cases hall : f.receivedAssetoshis = f.origAssetoshis
    · obtain ⟨paid, hpaid, herr⟩ := f.exists_divisionByZero hcoin hmax hall htotal
      exact (hfair paid hpaid).1 herr
    · obtain ⟨paid, hpaid, hok, hlt⟩ :=
        f.exists_underpaid hcoin hmax (by omega) hall htotal (hcase (by omega))
      have hpaidEnough := (hfair paid hpaid).2 hok
      omega
  · intro hcase remainingNValue paidNValue _ _ hpaid
    unfold AskFill.Fair
    rw [f.validate_eq hmax]
    split
    · exact ⟨by simp, by simp⟩
    · rename_i hne
      push Not at hne
      obtain ⟨hsome, hpaid0, htotal⟩ := hne
      obtain ⟨hlt, hprice⟩ : f.receivedAssetoshis < f.origAssetoshis ∧ f.PriceExact := by tauto
      have hpaidPos : 0 < paidNValue := lt_of_le_of_ne hpaid.1 (Ne.symm hpaid0)
      split
      · exact ⟨by simp, by simp⟩
      · rw [if_neg (by omega)]
        refine ⟨by simp, fun hok => ?_⟩
        have htest := of_decide_eq_true (Except.ok.inj hok)
        exact f.paid_of_priceExact hprice hpaid hpaidPos (by omega) htest

/-! ## An ask and its fills -/

namespace SampleAsks

open SampleTokens SampleAssets

/-- Tokens in the address of the contract. -/
def offered (amount : Int) : CTxOut where
  nValue := amount
  scriptPubKey := CCLib.plain.tokensCC1 evalAssets 0 (CCLib.plain.unspendable evalAssets)

/-- An ask of 15 satoshis for 10 tokens. -/
def askTx : CTransaction where
  hash := 10
  vin := [{ prevout := { hash := 7, n := 0 } }]
  vout := [offered 10,
    { nValue := 10000, scriptPubKey := CCLib.plain.cc1 evalAssets (CCLib.plainKey 2) },
    assetsOpret 0x73 15]

/-- A fill that takes some tokens, pays an amount and states the rest of the price. -/
def fill (taken paid : Int) (rest : Nat) : CTransaction where
  hash := 11
  vin := [{ prevout := { hash := 8, n := 0 } },
    { prevout := { hash := 10, n := 0 },
      scriptSig := [0, evalAssets] ++ CCLib.plain.unspendable evalAssets }]
  vout := [offered (10 - taken),
    { nValue := taken, scriptPubKey := CCLib.plain.tokensCC1 evalTokens 0 (CCLib.plainKey 1) },
    { nValue := paid, scriptPubKey := CScript.payToPubkey (CCLib.plainKey 2) },
    { nValue := 10000, scriptPubKey := CCLib.plain.cc1 evalAssets (CCLib.plainKey 2) },
    assetsOpret 0x53 rest]

/-- The transactions before the fills. -/
def env : CCEnv := CCLib.plain.envAt "" [askTx, base, funding]

/-- Two of the tokens. -/
def two : AskFill 2100000000000000 where
  origAssetoshis := 10
  totalNValue := 20
  receivedAssetoshis := 2
  orig_pos := by decide
  orig_le := by decide
  received_nonneg := by decide
  received_le := by decide
  total_int64 := by decide

end SampleAsks

/-- A fill at a price that is a whole number of satoshis is fair. -/
theorem askFills_two : SampleAsks.two.Fair 16 4 := by
  refine (askFills_iff (by decide) (by decide) SampleAsks.two).2.2 (.inr (.inr ⟨by decide, ?_⟩))
    16 4 (by decide) (by decide) (by decide)
  exact .inr (.inl (by decide))

/-- Who takes all the tokens and states a rest divides by zero, and who takes four of ten
tokens for 15 satoshis pays four. -/
theorem askFill_unfair :
    SampleAsks.env.assetsValidate 1 0 (SampleAsks.fill 10 4 11) = .error .divisionByZero ∧
    SampleAsks.env.assetsValidate 1 0 (SampleAsks.fill 4 4 11) = .ok () ∧
    validateAskRemainder 11 0 10 10 4 15 = .error .divisionByZero ∧
    validateAskRemainder 11 6 10 4 4 15 = .ok true ∧ ¬ (4 * 15 ≤ 4 * 10) := by
  refine ⟨?_, eq_ok_of_isOk (by decide +kernel), rfl, rfl, by decide⟩
  decide +kernel

end IndexChain
