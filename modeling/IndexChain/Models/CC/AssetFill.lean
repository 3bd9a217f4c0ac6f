import IndexChain.Models.CC.Assets
import IndexChain.Models.CC.TokenHistory

/-!
# Filling a bid

A fill of a bid whose output 4 is token change is not checked any further: neither
its price nor the destinations of the outputs 0, 1 and 3. A fill with exactly four
outputs is judged by an output that it does not have. `fillBuy_meetsBid_iff` states
that nothing else goes wrong.
-/

namespace IndexChain

open IndexChain.Core

/-- The transaction with another output. -/
def CTransaction.setVout (tx : CTransaction) (v : Nat) (out : CTxOut) : CTransaction :=
  { tx with vout := tx.vout.set v out }

/-- Fills with one op_return that differ in the marker output at most. -/
structure SameFill (tx tx' : CTransaction) : Prop where
  /-- The op_returns say the same. -/
  opret_eq : assetOpretOf tx' = assetOpretOf tx
  /-- Only output 3 differs. -/
  marker_only : ∃ marker, tx' = tx.setVout 3 marker

namespace CCEnv

variable (env : CCEnv)

/-- What the owner of a bid is promised: the price, a normal output 1 for the seller, the
marker for the owner and the rest of the bid in the contract's address. -/
def BidFilled (evalcode2 : UInt8) (tx : CTransaction) (opret : AssetOpret) : Prop :=
  ∃ bid vout0 vout1 vout2 vout3,
    env.assetValidateBuyvin (env.assetsEvalcode2 evalcode2 opret) tx opret.tokenid = .ok bid ∧
    tx.vout[0]? = some vout0 ∧ tx.vout[1]? = some vout1 ∧ tx.vout[2]? = some vout2 ∧
    tx.vout[3]? = some vout3 ∧
    validateBidRemainder opret.price vout0.nValue bid.nValue vout1.nValue vout2.nValue
      bid.totalunits = true ∧
    env.constrainVout vout1 false none 0 = true ∧
    env.constrainVout vout3 true
      (some (env.getCCaddress evalAssets (CPubKey.set opret.origpubkey))) 10000 = true ∧
    (opret.price ≠ 0 →
      env.constrainVout vout0 true (some (env.unspendableCCaddr evalAssets)) 0 = true)

/-- A fill reads only outputs it has, and when it is accepted the bid is filled. -/
structure MeetsBid (height : Int) (evalcode2 : UInt8) (tx : CTransaction) (opret : AssetOpret) :
    Prop where
  /-- No output beyond the last one is read. -/
  inBounds : Avoids Failure.IsOutOfBounds (env.assetsValidate height evalcode2 tx)
  /-- An accepted fill pays what the bid asks for. -/
  filled : env.assetsValidate height evalcode2 tx = .ok () → env.BidFilled evalcode2 tx opret

/-- What is checked of a fill with token change: output 2 goes to the owner of the bid,
outputs 2 and 4 are the tokens of the inputs and no condition output follows. -/
def ChangePasses (tx : CTransaction) (tokenid : Uint256) (bid : OfferVin) (vout4 : CTxOut) : Prop :=
  CScript.isPayToCryptoCondition vout4.scriptPubKey = true ∧
  (∃ vout2, tx.vout[2]? = some vout2 ∧
    env.constrainVout vout2 true (some bid.ccAddr) 0 = true ∧
    env.inputSum env.isTokensvoutShallow tx tokenid = toInt64 (vout2.nValue + vout4.nValue)) ∧
  (tx.vout.drop 5).all (fun out => !CScript.isPayToCryptoCondition out.scriptPubKey) = true

/-! ## Reading outputs -/

/-- A check that fails gives a reason. -/
theorem avoids_check {α : Type} {b : Bool} {reason : String} {k : Unit → Except Failure α}
    (hk : b = true → Avoids Failure.IsOutOfBounds (k ())) :
    Avoids Failure.IsOutOfBounds (require b (.invalid reason) >>= k) :=
  Avoids.require_bind (Failure.not_isOutOfBounds_invalid reason) hk

theorem avoids_assetValidateCCvin (evalcode2 : UInt8) (tx : CTransaction) :
    Avoids Failure.IsOutOfBounds (env.assetValidateCCvin evalcode2 tx) := by
  unfold assetValidateCCvin
  split
  · exact Avoids.error (Failure.not_isOutOfBounds_invalid _)
  · refine avoids_check fun _ => ?_
    split
    · exact Avoids.error (Failure.not_isOutOfBounds_invalid _)
    · refine Avoids.bind (CTransaction.avoids_spent _ _) fun vout0 _ => ?_
      refine avoids_check fun _ => ?_
      refine avoids_check fun _ => ?_
      split
      · exact Avoids.error (Failure.not_isOutOfBounds_invalid _)
      · exact avoids_check fun _ => Avoids.ok _

theorem avoids_assetValidateBuyvin (evalcode2 : UInt8) (tx : CTransaction) (refassetid : Uint256) :
    Avoids Failure.IsOutOfBounds (env.assetValidateBuyvin evalcode2 tx refassetid) := by
  unfold assetValidateBuyvin
  refine Avoids.bind (env.avoids_assetValidateCCvin evalcode2 tx) fun r _ => ?_
  refine Avoids.bind (CTransaction.avoids_spent _ _) fun vout0 _ => ?_
  refine avoids_check fun _ => ?_
  split
  · exact Avoids.error (Failure.not_isOutOfBounds_invalid _)
  · refine Avoids.bind ?_ fun _ _ => ?_
    · unfold bidMarker
      split
      · refine Avoids.bind (CTransaction.avoids_spent _ _) fun vout1 _ => ?_
        exact Avoids.require (Failure.not_isOutOfBounds_invalid _)
      · exact Avoids.ok _
    · refine avoids_check fun _ => ?_
      exact avoids_check fun _ => Avoids.ok _

theorem avoids_fillBuyBid (evalcode2 : UInt8) (tx : CTransaction) (opret : AssetOpret) :
    Avoids Failure.IsOutOfBounds (env.fillBuyBid evalcode2 tx opret) := by
  unfold fillBuyBid
  refine Avoids.bind (env.avoids_assetValidateBuyvin _ _ _) fun bid _ => ?_
  refine avoids_check fun hlen => ?_
  have hlen : 4 ≤ tx.vout.length := of_decide_eq_true hlen
  refine avoids_check fun _ => ?_
  refine Avoids.bind (CTransaction.avoids_out (by omega)) fun vout0 _ => ?_
  refine Avoids.bind (CTransaction.avoids_out (by omega)) fun vout1 _ => ?_
  exact avoids_check fun _ => Avoids.ok _

theorem avoids_preventCC (tx : CTransaction) (vins vouts : Option Nat) :
    Avoids Failure.IsOutOfBounds (env.preventCC tx vins vouts) := by
  unfold CCLib.preventCC
  exact avoids_check fun _ =>
    Avoids.require (Failure.not_isOutOfBounds_invalid _)

theorem avoids_fillBuyChange {tx : CTransaction} (hlen : 4 ≤ tx.vout.length) (inputs : Int)
    (bid : OfferVin) (vout4 : CTxOut) :
    Avoids Failure.IsOutOfBounds (env.fillBuyChange tx inputs bid vout4) := by
  unfold fillBuyChange
  refine Avoids.bind (CTransaction.avoids_out (by omega)) fun vout2 _ => ?_
  refine avoids_check fun _ => ?_
  exact avoids_check fun _ => Avoids.ok _

theorem avoids_fillBuyWhole {tx : CTransaction} (hlen : 4 ≤ tx.vout.length) (opret : AssetOpret)
    (inputs : Int) (bid : OfferVin) :
    Avoids Failure.IsOutOfBounds (env.fillBuyWhole tx opret inputs bid) := by
  unfold fillBuyWhole
  refine Avoids.bind (CTransaction.avoids_out (by omega)) fun vout0 _ => ?_
  refine Avoids.bind (CTransaction.avoids_out (by omega)) fun vout1 _ => ?_
  refine Avoids.bind (CTransaction.avoids_out (by omega)) fun vout2 _ => ?_
  refine Avoids.bind (CTransaction.avoids_out (by omega)) fun vout3 _ => ?_
  refine avoids_check fun _ => ?_
  refine avoids_check fun _ => ?_
  refine avoids_check fun _ => ?_
  refine avoids_check fun _ => ?_
  exact avoids_check fun _ => Avoids.ok _

end CCEnv

/-! ## Fills that differ in the marker -/

namespace SameFill

variable (env : CCEnv) {tx tx' : CTransaction} (h : SameFill tx tx')
include h

theorem vin_eq : tx'.vin = tx.vin := by
  obtain ⟨marker, rfl⟩ := h.marker_only
  rfl

theorem length_eq : tx'.vout.length = tx.vout.length := by
  obtain ⟨marker, rfl⟩ := h.marker_only
  exact List.length_set

theorem getElem?_eq {v : Nat} (hv : v ≠ 3) : tx'.vout[v]? = tx.vout[v]? := by
  obtain ⟨marker, rfl⟩ := h.marker_only
  exact List.getElem?_set_ne (Ne.symm hv)

theorem out_eq {v : Nat} (hv : v ≠ 3) : tx'.out v = tx.out v := by
  unfold CTransaction.out
  rw [h.getElem?_eq hv]

theorem drop_eq : tx'.vout.drop 5 = tx.vout.drop 5 := by
  obtain ⟨marker, rfl⟩ := h.marker_only
  exact List.drop_set_of_lt (by omega)

theorem isEmpty_eq : tx'.vout.isEmpty = tx.vout.isEmpty := by
  rw [Bool.eq_iff_iff, List.isEmpty_iff_length_eq_zero, List.isEmpty_iff_length_eq_zero,
    h.length_eq]

theorem assetsHead_eq : env.assetsHead tx' = env.assetsHead tx := by
  unfold CCEnv.assetsHead CCEnv.vinTxsFound
  rw [h.isEmpty_eq, h.opret_eq, h.vin_eq, h.length_eq]

theorem assetValidateBuyvin_eq (evalcode2 : UInt8) (refassetid : Uint256) :
    env.assetValidateBuyvin evalcode2 tx' refassetid =
      env.assetValidateBuyvin evalcode2 tx refassetid := by
  unfold CCEnv.assetValidateBuyvin CCEnv.assetValidateCCvin
  rw [h.opret_eq, h.vin_eq]

theorem fillBuyBid_eq (evalcode2 : UInt8) (opret : AssetOpret) :
    env.fillBuyBid evalcode2 tx' opret = env.fillBuyBid evalcode2 tx opret := by
  unfold CCEnv.fillBuyBid
  rw [h.assetValidateBuyvin_eq env, h.length_eq, h.out_eq (by omega), h.out_eq (by omega)]

theorem inputSum_eq (tokenid : Uint256) :
    env.inputSum env.isTokensvoutShallow tx' tokenid =
      env.inputSum env.isTokensvoutShallow tx tokenid := by
  unfold CCEnv.inputSum
  rw [h.vin_eq]

theorem changePasses_iff (tokenid : Uint256) (bid : OfferVin) (vout4 : CTxOut) :
    env.ChangePasses tx' tokenid bid vout4 ↔ env.ChangePasses tx tokenid bid vout4 := by
  unfold CCEnv.ChangePasses
  rw [h.getElem?_eq (by omega), h.inputSum_eq env, h.drop_eq]

omit h in
theorem refl (hlen : 4 ≤ tx.vout.length) : SameFill tx tx where
  opret_eq := rfl
  marker_only := by
    refine ⟨tx.vout.get ⟨3, by omega⟩, ?_⟩
    simp [CTransaction.setVout]

omit h in
/-- With an output after the marker, the marker is not the op_return. -/
theorem setVout (hlen : 5 ≤ tx.vout.length) (marker : CTxOut) :
    SameFill tx (tx.setVout 3 marker) where
  opret_eq := by
    have hlast : (tx.vout.set 3 marker).getLast? = tx.vout.getLast? := by
      rw [List.getLast?_eq_getElem?, List.getLast?_eq_getElem?, List.length_set]
      exact List.getElem?_set_ne (by omega)
    unfold assetOpretOf CTransaction.setVout
    rw [hlast]
  marker_only := ⟨marker, rfl⟩

end SameFill

namespace CCEnv

variable (env : CCEnv)

/-! ## The cases of a fill -/

/-- The validator on a transaction that says it is a fill of a bid. -/
theorem assetsValidate_fillBuy {height : Int} {evalcode2 : UInt8} {tx : CTransaction}
    {opret : AssetOpret} (hex : ¬ env.assetsExempt height) (hhead : env.assetsHead tx = .ok opret)
    (hf : opret.funcid = .fillBuy) :
    env.assetsValidate height evalcode2 tx =
      (env.fillBuy (env.assetsEvalcode2 evalcode2 opret) tx opret
        (env.inputSum env.isTokensvoutShallow tx opret.tokenid)) >>=
        fun prevent => env.preventCC tx prevent.vins prevent.vouts := by
  unfold assetsValidate
  rw [if_neg hex, hhead]
  have hcase : ∀ ev inputs, env.assetsCase ev tx opret inputs = env.fillBuy ev tx opret inputs := by
    intro ev inputs
    unfold assetsCase
    rw [hf]
  change env.assetsCase _ tx opret _ >>= _ = _
  rw [hcase]

/-- The part of a fill that follows the look at output 4. -/
theorem fillBuy_of_bid {evalcode2 : UInt8} {tx : CTransaction} {opret : AssetOpret} {inputs : Int}
    {bid : OfferVin} {vout4 : CTxOut} (hbid : env.fillBuyBid evalcode2 tx opret = .ok bid)
    (hout : tx.vout[4]? = some vout4) :
    env.fillBuy evalcode2 tx opret inputs =
      if CScript.isPayToCryptoCondition vout4.scriptPubKey then
        env.fillBuyChange tx inputs bid vout4
      else env.fillBuyWhole tx opret inputs bid := by
  unfold fillBuy
  rw [hbid, CTransaction.out_eq_ok.2 hout]
  rfl

/-- A fill without token change is checked completely. -/
theorem bidFilled_of_fillBuyWhole {evalcode2 : UInt8} {tx : CTransaction} {opret : AssetOpret}
    {inputs : Int} {bid : OfferVin} {prevent : Prevent}
    (hbid : env.assetValidateBuyvin (env.assetsEvalcode2 evalcode2 opret) tx opret.tokenid =
      .ok bid)
    (hok : env.fillBuyWhole tx opret inputs bid = .ok prevent) :
    env.BidFilled evalcode2 tx opret := by
  unfold fillBuyWhole at hok
  simp only [CTransaction.out_bind_eq_ok, require_bind_eq_ok] at hok
  obtain ⟨vout0, h0, vout1, h1, vout2, h2, vout3, h3, -, hnormal, hmarker, hprice, hrest, -⟩ := hok
  refine ⟨bid, vout0, vout1, vout2, vout3, hbid, h0, h1, h2, h3, hprice, hnormal, hmarker, ?_⟩
  intro hne
  simpa [hne] using hrest

/-- The checks of a fill with token change. -/
theorem fillBuyChange_eq_ok_iff {tx : CTransaction} {inputs : Int} {bid : OfferVin}
    {vout4 : CTxOut} {prevent : Prevent} :
    env.fillBuyChange tx inputs bid vout4 = .ok prevent ↔
      (∃ vout2, tx.vout[2]? = some vout2 ∧
        env.constrainVout vout2 true (some bid.ccAddr) 0 = true ∧
        inputs = toInt64 (vout2.nValue + vout4.nValue)) ∧ prevent = { vouts := some 5 } := by
  unfold fillBuyChange
  simp only [CTransaction.out_bind_eq_ok, require_bind_eq_ok, beq_iff_eq]
  constructor
  · rintro ⟨vout2, h2, haddr, hsum, hok⟩
    exact ⟨⟨vout2, h2, haddr, hsum⟩, (Except.ok.inj hok).symm⟩
  · rintro ⟨⟨vout2, h2, haddr, hsum⟩, rfl⟩
    exact ⟨vout2, h2, haddr, hsum, rfl⟩

theorem preventCC_eq_ok_iff {tx : CTransaction} {vouts : Nat} :
    env.preventCC tx none (some vouts) = .ok () ↔
      (tx.vout.drop vouts).all (fun out => !CScript.isPayToCryptoCondition out.scriptPubKey) =
        true := by
  unfold CCLib.preventCC
  rw [require_bind_eq_ok, require_eq_ok]
  simp

/-- A fill whose output 4 passes as token change is accepted. -/
theorem accepted_of_changePasses {height : Int} {evalcode2 : UInt8} {tx : CTransaction}
    {opret : AssetOpret} {bid : OfferVin} {vout4 : CTxOut} (hex : ¬ env.assetsExempt height)
    (hhead : env.assetsHead tx = .ok opret) (hf : opret.funcid = .fillBuy)
    (hbid : env.fillBuyBid (env.assetsEvalcode2 evalcode2 opret) tx opret = .ok bid)
    (hout : tx.vout[4]? = some vout4) (hpass : env.ChangePasses tx opret.tokenid bid vout4) :
    env.assetsValidate height evalcode2 tx = .ok () := by
  obtain ⟨hcc, hvout2, hrest⟩ := hpass
  rw [env.assetsValidate_fillBuy hex hhead hf, env.fillBuy_of_bid hbid hout, if_pos hcc,
    except_bind_eq_ok]
  exact ⟨_, env.fillBuyChange_eq_ok_iff.2 ⟨hvout2, rfl⟩, env.preventCC_eq_ok_iff.2 hrest⟩

/-- A bid that is found is the one that `AssetValidateBuyvin` found. -/
theorem buyvin_of_fillBuyBid {evalcode2 : UInt8} {tx : CTransaction} {opret : AssetOpret}
    {bid : OfferVin} (hbid : env.fillBuyBid evalcode2 tx opret = .ok bid) :
    env.assetValidateBuyvin evalcode2 tx opret.tokenid = .ok bid ∧ 4 ≤ tx.vout.length := by
  unfold fillBuyBid at hbid
  obtain ⟨bid', hbuy, hbid⟩ := except_bind_eq_ok.1 hbid
  simp only [CTransaction.out_bind_eq_ok, require_bind_eq_ok, decide_eq_true_eq] at hbid
  obtain ⟨hlen, -, vout0, -, vout1, -, -, hok⟩ := hbid
  cases hok
  exact ⟨hbuy, hlen⟩

/-- A fill is fine as long as output 4 is there and does not pass as token change. -/
theorem meetsBid_of_whole {height : Int} {evalcode2 : UInt8} {tx : CTransaction}
    {opret : AssetOpret} (hex : ¬ env.assetsExempt height)
    (hhead : env.assetsHead tx = .ok opret) (hf : opret.funcid = .fillBuy)
    (hwhole : ∀ bid, env.fillBuyBid (env.assetsEvalcode2 evalcode2 opret) tx opret = .ok bid →
      ∃ vout4, tx.vout[4]? = some vout4 ∧ ¬ env.ChangePasses tx opret.tokenid bid vout4) :
    env.MeetsBid height evalcode2 tx opret := by
  have hval : env.assetsValidate height evalcode2 tx = _ :=
    env.assetsValidate_fillBuy hex hhead hf
  cases hbid : env.fillBuyBid (env.assetsEvalcode2 evalcode2 opret) tx opret with
  | error err =>
    have herr : env.assetsValidate height evalcode2 tx = .error err := by
      rw [hval, fillBuy, hbid]
      rfl
    refine ⟨?_, fun hok => ?_⟩
    · rw [herr]
      exact Avoids.error (env.avoids_fillBuyBid _ _ _ err hbid)
    · rw [herr] at hok
      cases hok
  | ok bid =>
    obtain ⟨hbuy, hlen⟩ := env.buyvin_of_fillBuyBid hbid
    obtain ⟨vout4, hout, hpass⟩ := hwhole bid hbid
    rw [env.fillBuy_of_bid hbid hout] at hval
    cases hcc : CScript.isPayToCryptoCondition vout4.scriptPubKey with
    | true =>
      rw [if_pos hcc] at hval
      refine ⟨?_, fun hok => ?_⟩
      · rw [hval]
        exact Avoids.bind (env.avoids_fillBuyChange hlen _ _ _)
          fun prevent _ => env.avoids_preventCC _ _ _
      · rw [hval] at hok
        obtain ⟨prevent, hchange, hprevent⟩ := except_bind_eq_ok.1 hok
        obtain ⟨hvout2, rfl⟩ := env.fillBuyChange_eq_ok_iff.1 hchange
        exact absurd ⟨hcc, hvout2, env.preventCC_eq_ok_iff.1 hprevent⟩ hpass
    | false =>
      rw [if_neg (by simp [hcc])] at hval
      refine ⟨?_, fun hok => ?_⟩
      · rw [hval]
        exact Avoids.bind (env.avoids_fillBuyWhole hlen _ _ _)
          fun prevent _ => env.avoids_preventCC _ _ _
      · rw [hval] at hok
        obtain ⟨prevent, hfill, -⟩ := except_bind_eq_ok.1 hok
        exact env.bidFilled_of_fillBuyWhole hbuy hfill

/-- A fill that is judged by output 4 without having one. -/
theorem outOfBounds_of_none {height : Int} {evalcode2 : UInt8} {tx : CTransaction}
    {opret : AssetOpret} {bid : OfferVin} (hex : ¬ env.assetsExempt height)
    (hhead : env.assetsHead tx = .ok opret) (hf : opret.funcid = .fillBuy)
    (hbid : env.fillBuyBid (env.assetsEvalcode2 evalcode2 opret) tx opret = .ok bid)
    (hnone : tx.vout[4]? = none) :
    env.assetsValidate height evalcode2 tx = .error (.outOfBounds 4) := by
  rw [env.assetsValidate_fillBuy hex hhead hf, fillBuy, hbid]
  unfold CTransaction.out
  rw [hnone]
  rfl

/-- A fill of a bid meets it, whatever its marker output is, exactly when it is rejected
before output 4 is looked at, or has an output 4 that does not pass as token change. -/
theorem fillBuy_meetsBid_iff {height : Int} {evalcode2 : UInt8} {tx : CTransaction}
    {opret : AssetOpret} (hex : ¬ env.assetsExempt height)
    (hhead : env.assetsHead tx = .ok opret) (hf : opret.funcid = .fillBuy) :
    (∀ tx', SameFill tx tx' → env.MeetsBid height evalcode2 tx' opret) ↔
    ∀ bid, env.fillBuyBid (env.assetsEvalcode2 evalcode2 opret) tx opret = .ok bid →
      ∃ vout4, tx.vout[4]? = some vout4 ∧ ¬ env.ChangePasses tx opret.tokenid bid vout4 := by
  constructor
  · intro hall bid hbid
    obtain ⟨-, hlen⟩ := env.buyvin_of_fillBuyBid hbid
    cases hout : tx.vout[4]? with
    | none =>
      have hoob := env.outOfBounds_of_none hex hhead hf hbid hout
      exact absurd ⟨4, rfl⟩ ((hall tx (SameFill.refl hlen)).inBounds _ hoob)
    | some vout4 =>
      refine ⟨vout4, rfl, fun hpass => ?_⟩
      have hlen5 : 5 ≤ tx.vout.length := (List.getElem?_eq_some_iff.1 hout).1
      -- the marker is not looked at, so it may as well be an empty normal output
      have hsame := SameFill.setVout hlen5 { nValue := 0, scriptPubKey := [] }
      have haccepted : env.assetsValidate height evalcode2 (tx.setVout 3 _) = .ok () :=
        env.accepted_of_changePasses hex ((hsame.assetsHead_eq env).trans hhead) hf
          ((hsame.fillBuyBid_eq env _ _).trans hbid) ((hsame.getElem?_eq (by omega)).trans hout)
          ((hsame.changePasses_iff env _ _ _).2 hpass)
      obtain ⟨-, -, -, -, vout3, -, -, -, -, hvout3, -, -, hmarker, -⟩ :=
        (hall _ hsame).filled haccepted
      have hempty : vout3 = { nValue := 0, scriptPubKey := [] } := by
        have := List.getElem?_set_self (show 3 < tx.vout.length by omega)
          (a := ({ nValue := 0, scriptPubKey := [] } : CTxOut))
        exact Option.some.inj (hvout3.symm.trans this)
      rw [hempty] at hmarker
      simp [CCLib.constrainVout, CScript.isPayToCryptoCondition, CScript.payToCryptoCondition,
        CScript.getOp] at hmarker
  · intro hwhole tx' hsame
    refine env.meetsBid_of_whole hex ((hsame.assetsHead_eq env).trans hhead) hf ?_
    intro bid hbid
    obtain ⟨vout4, hout, hpass⟩ := hwhole bid ((hsame.fillBuyBid_eq env _ _).symm.trans hbid)
    exact ⟨vout4, (hsame.getElem?_eq (by omega)).trans hout,
      fun h => hpass ((hsame.changePasses_iff env _ _ _).1 h)⟩

end CCEnv

/-! ## A bid and its fills -/

namespace SampleAssets

open SampleTokens

/-- A token op_return with an assets payload of the owner of the bid. -/
def assetsOpret (funcid : UInt8) (price : Nat) : CTxOut where
  nValue := 0
  scriptPubKey := [0x6a, 0x4c, 81, 0xf2, 0x74] ++ (leBytes 32 2).reverse ++
    [0, 0x12, 44, 0xe3, funcid] ++ leBytes 8 price ++ [33] ++ CCLib.plainKey 2

/-- A bid of 1000 coins for 100 tokens. -/
def bidTx : CTransaction where
  hash := 10
  vin := [{ prevout := { hash := 7, n := 0 } }]
  vout := [{ nValue := 1000,
             scriptPubKey := CCLib.plain.cc1 evalAssets (CCLib.plain.unspendable evalAssets) },
    { nValue := 10000, scriptPubKey := CCLib.plain.cc1 evalAssets (CCLib.plainKey 2) },
    assetsOpret 0x62 100]

/-- A complete fill of the bid with given outputs 2, 3 and 4. -/
def fill (vout2 vout3 : CTxOut) (vout4 : List CTxOut) : CTransaction where
  hash := 11
  vin := [{ prevout := { hash := 8, n := 0 } },
    { prevout := { hash := 10, n := 0 },
      scriptSig := [0, evalAssets] ++ CCLib.plain.unspendable evalAssets }, tokenIn 2 1]
  vout := [{ nValue := 0, scriptPubKey := CScript.payToPubkey (CCLib.plainKey 1) },
    { nValue := 1000, scriptPubKey := CScript.payToPubkey (CCLib.plainKey 1) }, vout2, vout3] ++
    vout4 ++ [assetsOpret 0x42 0]

/-- Tokens for the owner of the bid. -/
def toOwner (amount : Int) : CTxOut where
  nValue := amount
  scriptPubKey := CCLib.plain.tokensCC1 evalTokens 0 (CCLib.plainKey 2)

/-- A fill that delivers all tokens. -/
def fairFill : CTransaction :=
  fill (toOwner 100)
    { nValue := 10000, scriptPubKey := CCLib.plain.cc1 evalAssets (CCLib.plainKey 2) }
    [{ nValue := 500, scriptPubKey := CScript.payToPubkey (CCLib.plainKey 1) }]

/-- A fill that takes the coins of the bid for one token and keeps the others. -/
def unfairFill : CTransaction :=
  fill (toOwner 1) { nValue := 500, scriptPubKey := CScript.payToPubkey (CCLib.plainKey 1) }
    [{ nValue := 99, scriptPubKey := CCLib.plain.cc1 evalTokens (CCLib.plainKey 1) }]

/-- A fill with four outputs. -/
def shortFill : CTransaction where
  hash := 12
  vin := fairFill.vin
  vout := fairFill.vout.take 3 ++ [assetsOpret 0x42 0]

/-- The transactions before the fills. -/
def env : CCEnv := CCLib.plain.envAt "" [bidTx, base, funding]

/-- The op_return of the fills. -/
def fillOpret : AssetOpret where
  funcid := .fillBuy
  tokenid := 2
  assetid2 := 0
  price := 0
  origpubkey := CCLib.plainKey 2

/-- The bid as the fills find it. -/
def bid : OfferVin where
  nValue := 1000
  totalunits := 100
  origpubkey := CCLib.plainKey 2
  ccAddr := CCLib.plain.getTokensCCaddress evalTokens 0 (CCLib.plainKey 2)
  normalAddr := CScript.payToPubkey (CCLib.plainKey 2)

theorem notExempt (height : Int) : ¬ env.assetsExempt height := by
  rintro (⟨h, -⟩ | ⟨h, -⟩)
  · exact absurd h (by decide)
  · exact absurd h (by decide)

theorem head_shortFill : env.assetsHead shortFill = .ok fillOpret :=
  eq_ok_of_toOption (by decide)

theorem bid_shortFill : env.fillBuyBid (env.assetsEvalcode2 0 fillOpret) shortFill fillOpret =
    .ok bid :=
  eq_ok_of_toOption (by decide)

end SampleAssets

/-- A fill that pays what the bid asks. -/
theorem meetsBid_fairFill :
    SampleAssets.env.assetsValidate 1 0 SampleAssets.fairFill = .ok () ∧
    ∀ tx', SameFill SampleAssets.fairFill tx' →
      SampleAssets.env.MeetsBid 1 0 tx' SampleAssets.fillOpret := by
  refine ⟨eq_ok_of_isOk (by decide +kernel), ?_⟩
  refine (SampleAssets.env.fillBuy_meetsBid_iff (SampleAssets.notExempt 1)
    (eq_ok_of_toOption (by decide +kernel)) rfl).2 ?_
  intro bid _
  exact ⟨_, rfl, fun hpass => absurd hpass.1 (by decide +kernel)⟩

/-- One token takes a bid for a hundred, and a short fill is judged by memory after its
outputs. -/
theorem unfairFill_accepted :
    SampleAssets.env.assetsHead SampleAssets.unfairFill = .ok SampleAssets.fillOpret ∧
    SampleAssets.env.assetsValidate 1 0 SampleAssets.unfairFill = .ok () ∧
    ¬ SampleAssets.env.BidFilled 0 SampleAssets.unfairFill SampleAssets.fillOpret ∧
    SampleAssets.env.assetsHead SampleAssets.shortFill = .ok SampleAssets.fillOpret ∧
    SampleAssets.env.assetsValidate 1 0 SampleAssets.shortFill = .error (.outOfBounds 4) := by
  refine ⟨eq_ok_of_toOption (by decide +kernel), eq_ok_of_isOk (by decide +kernel),
    ?_, SampleAssets.head_shortFill, ?_⟩
  · rintro ⟨bid, vout0, vout1, vout2, vout3, hbid, h0, h1, h2, -, hprice, -⟩
    have hfound : SampleAssets.env.assetValidateBuyvin 0 SampleAssets.unfairFill 2 =
        .ok SampleAssets.bid := eq_ok_of_toOption (by decide +kernel)
    obtain rfl : SampleAssets.bid = bid := Except.ok.inj (hfound.symm.trans hbid)
    obtain rfl := Option.some.inj h0
    obtain rfl := Option.some.inj h1
    obtain rfl := Option.some.inj h2
    exact absurd hprice (by decide +kernel)
  · exact SampleAssets.env.outOfBounds_of_none (SampleAssets.notExempt 1)
      SampleAssets.head_shortFill rfl SampleAssets.bid_shortFill rfl

end IndexChain
