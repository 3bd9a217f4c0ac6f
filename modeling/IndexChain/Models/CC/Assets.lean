import IndexChain.Models.CC.Tokens

/-!
# The assets contract

`AssetsValidate` of `cc/assets.cpp` with the functions of `cc/CCassetsCore.cpp` it
rests on: offers of coins for tokens and of tokens for coins, their cancellation and
their partial or complete fill.
-/

namespace IndexChain

open IndexChain.Core

/-! ## Prices -/

/-- `ValidateBidRemainder`. -/
def validateBidRemainder (remainingUnits remainingNValue origNValue receivedNValue paidunits
    totalunits : Int) : Bool :=
  if origNValue = 0 ∨ receivedNValue = 0 ∨ paidunits = 0 ∨ totalunits = 0 then false
  else if totalunits ≠ toInt64 (remainingUnits + paidunits) then false
  else if origNValue ≠ toInt64 (remainingNValue + receivedNValue) then false
  else decide (origNValue.tdiv totalunits ≤ receivedNValue.tdiv paidunits)

/-- `ValidateAskRemainder`. The new unit price is computed for a log line only. -/
def validateAskRemainder (remainingNValue remainingAssetoshis origAssetoshis receivedAssetoshis
    paidNValue totalNValue : Int) : Except Failure Bool :=
  if origAssetoshis = 0 ∨ receivedAssetoshis = 0 ∨ paidNValue = 0 ∨ totalNValue = 0 then .ok false
  else if totalNValue ≠ toInt64 (remainingNValue + paidNValue) then .ok false
  else if origAssetoshis ≠ toInt64 (remainingAssetoshis + receivedAssetoshis) then .ok false
  else if remainingNValue ≠ 0 ∧ remainingAssetoshis = 0 then .error .divisionByZero
  else .ok (decide (totalNValue.tdiv origAssetoshis ≤ paidNValue.tdiv receivedAssetoshis))

/-! ## Op_returns -/

/-- The functions of an assets payload. -/
inductive AssetFuncId where
  | cancelBuy
  | cancelSell
  | buyOffer
  | fillBuy
  | sellOffer
  | fillSell
  | exchange
  | fillExchange
  deriving DecidableEq, Repr

namespace AssetFuncId

/-- The letter of a function. -/
def ofByte : UInt8 → Option AssetFuncId
  | 0x6f => some cancelBuy
  | 0x78 => some cancelSell
  | 0x62 => some buyOffer
  | 0x42 => some fillBuy
  | 0x73 => some sellOffer
  | 0x53 => some fillSell
  | 0x65 => some exchange
  | 0x45 => some fillExchange
  | _ => none

/-- The two cancellations. -/
def isCancel (f : AssetFuncId) : Bool := f == cancelBuy || f == cancelSell

end AssetFuncId

/-- What an assets op_return says. -/
structure AssetOpret where
  /-- The function. -/
  funcid : AssetFuncId
  /-- The token of the enclosing token op_return. -/
  tokenid : Uint256
  /-- The other token of an exchange. -/
  assetid2 : Uint256
  /-- The units or coins that are (still) required. -/
  price : Int
  /-- The key of the offer's owner. -/
  origpubkey : List UInt8
  deriving DecidableEq, Repr

/-- The fields after the function of an assets payload. -/
def readAssetFields (funcid : AssetFuncId) : Reader (Uint256 × Int × List UInt8) := do
  let _ ← Reader.bytes 2
  match funcid with
  | .cancelBuy | .cancelSell => return (0, 0, [])
  | .exchange | .fillExchange => do
    let assetid2 ← readUint256
    let price ← Reader.int 8
    let origpubkey ← Reader.vector
    return (revuint256 assetid2, price, origpubkey)
  | _ => do
    let price ← Reader.int 8
    let origpubkey ← Reader.vector
    return (0, price, origpubkey)

/-- `DecodeAssetTokenOpRet`. -/
def decodeAssetTokenOpRet (scriptPubKey : CScript) : Option AssetOpret :=
  (decodeTokenOpRet scriptPubKey).bind fun token =>
    let vopretAssets := getOpretBlob token.oprets opretidAssetsdata
    match vopretAssets with
    | assetsEvalCode :: assetsFuncId :: _ =>
      if assetsEvalCode = evalAssets then
        (AssetFuncId.ofByte assetsFuncId).bind fun funcid =>
          (Reader.unmarshal (readAssetFields funcid) vopretAssets).map
            fun (assetid2, price, origpubkey) =>
              { funcid, tokenid := token.tokenid, assetid2, price, origpubkey }
      else none
    | _ => none

/-- The op_return of an assets transaction is its last output. -/
def assetOpretOf (tx : CTransaction) : Option AssetOpret :=
  tx.vout.getLast?.bind fun out => decodeAssetTokenOpRet out.scriptPubKey

/-- `ValidateAssetOpret`: the op_return, when output `v` is about the given token. -/
def validateAssetOpret (tx : CTransaction) (v : Nat) (assetid : Uint256) : Option AssetOpret :=
  (assetOpretOf tx).filter fun opret => assetid != 0 &&
    if opret.funcid = .fillExchange then
      (decide (v < 2) && opret.tokenid == assetid) || (v == 2 && opret.assetid2 == assetid)
    else opret.tokenid == assetid

/-- `IsAssetvout`: the value of an output and its op_return. -/
def isAssetvout (tx : CTransaction) (v : Nat) (refassetid : Uint256) : Option (Int × AssetOpret) :=
  if v < tx.vout.length - 1 then
    (tx.vout[v]?).bind fun out =>
      if CScript.isPayToCryptoCondition out.scriptPubKey then
        (validateAssetOpret tx v refassetid).map fun opret => (out.nValue, opret)
      else none
  else none

/-! ## Offers being spent -/

/-- The offer in input 1 of a fill or cancellation. -/
structure OfferVin where
  /-- The value that is locked. -/
  nValue : Int
  /-- The units or coins that the offer asks for. -/
  totalunits : Int
  /-- The key of the offer's owner. -/
  origpubkey : List UInt8
  /-- The token address of the owner. -/
  ccAddr : Address
  /-- The normal address of the owner. -/
  normalAddr : Address
  deriving DecidableEq, Repr

namespace CCLib

variable (lib : CCLib)

/-- `GetAssetorigaddrs`. -/
def getAssetorigaddrs (evalcode2 : UInt8) (vintx : CTransaction) : Option (Address × Address) :=
  (assetOpretOf vintx).bind fun opret =>
    if opret.funcid = .sellOffer ∨ opret.funcid = .fillSell ∨ opret.funcid = .buyOffer ∨
        opret.funcid = .fillBuy then
      let origCCaddr := lib.getTokensCCaddress evalTokens evalcode2
        (CPubKey.ofBytes opret.origpubkey)
      if origCCaddr = [] then none
      else (lib.scriptAddress (CScript.payToPubkey opret.origpubkey)).map fun addr =>
        (origCCaddr, addr)
    else none

end CCLib

namespace CCEnv

variable (env : CCEnv)

/-- `AssetValidateCCvin` for input 1: its transaction and the addresses of its owner. -/
def assetValidateCCvin (evalcode2 : UInt8) (tx : CTransaction) :
    Except Failure (CTransaction × Address × Address) :=
  match tx.vin[1]? with
  | none => .error (.invalid "not enough for CC vins")
  | some txin => do
    require (txin.prevout.n == 0) (.invalid "vin1 needs to be buyvin.vout[0]")
    match env.getTransaction txin.prevout.hash with
    | none => .error (.invalid "always should find CCvin, but didnt")
    | some vinTx => do
      let funcid := (assetOpretOf tx).map AssetOpret.funcid
      let vout0 ← vinTx.spent 0
      let destaddr := env.scriptAddress vout0.scriptPubKey
      let dual := env.getTokensCCaddress evalAssets evalcode2 (env.unspendable evalAssets)
      let single := env.getCCaddress evalAssets (env.unspendable evalAssets)
      require (!(funcid == some .fillSell || funcid == some .cancelSell) ||
        (dual != [] && destaddr == some dual)) (.invalid "invalid vin assets CCaddr")
      require (!(funcid == some .fillBuy || funcid == some .cancelBuy) ||
        (single != [] && destaddr == some single)) (.invalid "invalid vin assets CCaddr")
      match env.getAssetorigaddrs evalcode2 vinTx with
      | none => .error (.invalid "couldnt get origaddr for buyvin")
      | some (origCCaddr, origaddr) => do
        require (vout0.nValue != 0) (.invalid "null value CCvin")
        return (vinTx, origCCaddr, origaddr)

/-- Only a new bid has a marker in output 1. -/
def bidMarker (vinTx : CTransaction) (opret : AssetOpret) : Except Failure Unit :=
  if opret.funcid = .buyOffer then do
    let vout1 ← vinTx.spent 1
    require (CScript.isPayToCryptoCondition vout1.scriptPubKey)
      (.invalid "invalid normal vout1 for buyvin")
  else .ok ()

/-- `AssetValidateBuyvin`. -/
def assetValidateBuyvin (evalcode2 : UInt8) (tx : CTransaction) (refassetid : Uint256) :
    Except Failure OfferVin := do
  let (vinTx, ccAddr, normalAddr) ← env.assetValidateCCvin evalcode2 tx
  let vout0 ← vinTx.spent 0
  require (CScript.isPayToCryptoCondition vout0.scriptPubKey)
    (.invalid "invalid normal vout0 for buyvin")
  match assetOpretOf vinTx with
  | none => .error (.invalid "invalid opreturn for buyvin")
  | some opret => do
    bidMarker vinTx opret
    require (opret.funcid == .buyOffer || opret.funcid == .fillBuy)
      (.invalid "invalid opreturn for buyvin")
    require (refassetid == opret.tokenid) (.invalid "invalid assetid for buyvin")
    return { nValue := vout0.nValue, totalunits := opret.price, origpubkey := opret.origpubkey
             ccAddr, normalAddr }

/-- `AssetValidateSellvin`. -/
def assetValidateSellvin (evalcode2 : UInt8) (tx : CTransaction) (assetid : Uint256) :
    Except Failure OfferVin := do
  let (vinTx, ccAddr, normalAddr) ← env.assetValidateCCvin evalcode2 tx
  match isAssetvout vinTx 0 assetid with
  | none => .error (.invalid "invalid missing CC vout0 for sellvin")
  | some (assetoshis, opret) => do
    require (assetoshis != 0) (.invalid "invalid missing CC vout0 for sellvin")
    return { nValue := assetoshis, totalunits := opret.price, origpubkey := opret.origpubkey
             ccAddr, normalAddr }

/-! ## Validation -/

/-- What a case of the validator leaves to `PreventCC`. -/
structure Prevent where
  /-- `preventCCvins`. -/
  vins : Option Nat := none
  /-- `preventCCvouts`. -/
  vouts : Option Nat := none

/-- Case `'o'` of `AssetsValidate`. -/
def cancelBuy (evalcode2 : UInt8) (tx : CTransaction) (opret : AssetOpret) :
    Except Failure Prevent := do
  let bid ← env.assetValidateBuyvin evalcode2 tx opret.tokenid
  let vout0 ← tx.out 0
  require (env.constrainVout vout0 false (some bid.normalAddr) bid.nValue)
    (.invalid "invalid refund for cancelbuy")
  return { vins := some 3, vouts := some 0 }

/-- Case `'B'` up to the look at output 4: the bid, and its value in outputs 0 and 1. -/
def fillBuyBid (evalcode2 : UInt8) (tx : CTransaction) (opret : AssetOpret) :
    Except Failure OfferVin := do
  let bid ← env.assetValidateBuyvin evalcode2 tx opret.tokenid
  require (decide (4 ≤ tx.vout.length)) (.invalid "not enough vouts for fillbuy")
  require (bid.origpubkey == opret.origpubkey) (.invalid "mismatched origpubkeys for fillbuy")
  let vout0 ← tx.out 0
  let vout1 ← tx.out 1
  require (bid.nValue == toInt64 (vout0.nValue + vout1.nValue))
    (.invalid "locked value doesnt match vout0+1 fillbuy")
  return bid

/-- Case `'B'` when output 4 is token change. -/
def fillBuyChange (tx : CTransaction) (inputs : Int) (bid : OfferVin) (vout4 : CTxOut) :
    Except Failure Prevent := do
  let vout2 ← tx.out 2
  require (env.constrainVout vout2 true (some bid.ccAddr) 0)
    (.invalid "vout2 doesnt go to origpubkey fillbuy")
  require (inputs == toInt64 (vout2.nValue + vout4.nValue))
    (.invalid "asset inputs doesnt match vout2+3 fillbuy")
  return { vouts := some 5 }

/-- Case `'B'` when there is no token change. -/
def fillBuyWhole (tx : CTransaction) (opret : AssetOpret) (inputs : Int) (bid : OfferVin) :
    Except Failure Prevent := do
  let vout0 ← tx.out 0
  let vout1 ← tx.out 1
  let vout2 ← tx.out 2
  let vout3 ← tx.out 3
  require (env.constrainVout vout2 true (some bid.ccAddr) inputs)
    (.invalid "vout2 doesnt match inputs fillbuy")
  require (env.constrainVout vout1 false none 0) (.invalid "vout1 is CC for fillbuy")
  require (env.constrainVout vout3 true
    (some (env.getCCaddress evalAssets (CPubKey.set opret.origpubkey))) 10000)
    (.invalid "invalid marker for original pubkey")
  require (validateBidRemainder opret.price vout0.nValue bid.nValue vout1.nValue vout2.nValue
    bid.totalunits) (.invalid "mismatched remainder for fillbuy")
  require (opret.price == 0 ||
    env.constrainVout vout0 true (some (env.unspendableCCaddr evalAssets)) 0)
    (.invalid "mismatched vout0 AssetsCCaddr for fillbuy")
  return { vouts := some 4 }

/-- Case `'B'` of `AssetsValidate`. -/
def fillBuy (evalcode2 : UInt8) (tx : CTransaction) (opret : AssetOpret) (inputs : Int) :
    Except Failure Prevent := do
  let bid ← env.fillBuyBid evalcode2 tx opret
  let vout4 ← tx.out 4
  if CScript.isPayToCryptoCondition vout4.scriptPubKey then
    env.fillBuyChange tx inputs bid vout4
  else env.fillBuyWhole tx opret inputs bid

/-- Case `'x'` of `AssetsValidate`. -/
def cancelSell (evalcode2 : UInt8) (tx : CTransaction) (opret : AssetOpret) :
    Except Failure Prevent := do
  let ask ← env.assetValidateSellvin evalcode2 tx opret.tokenid
  let vout0 ← tx.out 0
  require (env.constrainVout vout0 true (some ask.ccAddr) ask.nValue)
    (.invalid "invalid vout for cancel")
  return { vins := some 3, vouts := some 1 }

/-- Case `'S'` of `AssetsValidate`. -/
def fillSell (evalcode2 : UInt8) (tx : CTransaction) (opret : AssetOpret) :
    Except Failure Prevent := do
  let ask ← env.assetValidateSellvin evalcode2 tx opret.tokenid
  require (decide (4 ≤ tx.vout.length)) (.invalid "not enough vouts for fillask")
  require (ask.origpubkey == opret.origpubkey) (.invalid "mismatched origpubkeys for fillask")
  let vout0 ← tx.out 0
  let vout1 ← tx.out 1
  let vout2 ← tx.out 2
  let vout3 ← tx.out 3
  require (ask.nValue == toInt64 (vout0.nValue + vout1.nValue))
    (.invalid "locked value doesnt match vout0+1 fillask")
  let fair ← validateAskRemainder opret.price vout0.nValue ask.nValue vout1.nValue vout2.nValue
    ask.totalunits
  require fair (.invalid "mismatched remainder for fillask")
  require (env.constrainVout vout1 true none 0) (.invalid "normal vout1 for fillask")
  require (env.constrainVout vout2 false (some ask.normalAddr) 0)
    (.invalid "normal vout1 for fillask")
  require (env.constrainVout vout3 true
    (some (env.getCCaddress evalAssets (CPubKey.set opret.origpubkey))) 10000)
    (.invalid "invalid marker for original pubkey")
  require (opret.price == 0 || env.constrainVout vout0 true
    (some (env.getTokensCCaddress evalAssets evalcode2 (env.unspendable evalAssets))) 0)
    (.invalid "mismatched vout0 assets dual unspendable CCaddr for fill sell")
  return {}

/-- Early blocks of two chains are exempt from validation. -/
def assetsExempt (height : Int) : Prop :=
  (env.assetchainsSymbol = "SEC" ∧ height ≤ 144073) ∨
  (env.assetchainsSymbol = "MGNX" ∧ height ≤ 210190)

instance (height : Int) : Decidable (env.assetsExempt height) :=
  inferInstanceAs (Decidable (_ ∨ _))

/-- The checks of `AssetsValidate` that come before its cases: the op_return. -/
def assetsHead (tx : CTransaction) : Except Failure AssetOpret := do
  require (!tx.vout.isEmpty) (.invalid "AssetValidate: no vouts")
  match assetOpretOf tx with
  | none => .error (.invalid "AssetValidate: invalid opreturn payload")
  | some opret => do
    require (opret.funcid.isCancel || (env.getTransaction opret.tokenid).isSome)
      (.invalid "cant find asset create txid")
    require (opret.funcid.isCancel || opret.assetid2 == 0 ||
      (env.getTransaction opret.assetid2).isSome) (.invalid "cant find asset2 create txid")
    require (!tx.vin.head?.any fun txin => env.isCCInput txin.scriptSig)
      (.invalid "illegal asset vin0")
    require (decide (2 ≤ tx.vout.length)) (.invalid "too few vouts")
    require (opret.tokenid != 0) (.invalid "illegal assetid")
    require (env.vinTxsFound tx) (.invalid "always should find vin tx, but didnt")
    return opret

/-- `additionalTokensEvalcode2` of the contract: the code of a non-fungible token, or else
what an earlier validation left there. It is never cleared. -/
def assetsEvalcode2 (evalcode2 : UInt8) (opret : AssetOpret) : UInt8 :=
  (env.getNonfungibleData opret.tokenid).headD evalcode2

/-- The cases of `AssetsValidate`. -/
def assetsCase (evalcode2 : UInt8) (tx : CTransaction) (opret : AssetOpret) (inputs : Int) :
    Except Failure Prevent :=
  match opret.funcid with
  | .cancelBuy => env.cancelBuy evalcode2 tx opret
  | .fillBuy => env.fillBuy evalcode2 tx opret inputs
  | .cancelSell => env.cancelSell evalcode2 tx opret
  | .fillSell => env.fillSell evalcode2 tx opret
  | .buyOffer => .error (.invalid "invalid asset funcid (b)")
  | .sellOffer => .error (.invalid "invalid asset funcid (s)")
  | .fillExchange => .error (.invalid "unexpected assets fillexchange funcid")
  | .exchange => .error (.invalid "unexpected assets funcid")

/-- `AssetsValidate` while the active chain has the given height. The inputs are those of
`AssetCalcAmounts`; the outputs it adds up are not used. -/
def assetsValidate (height : Int) (evalcode2 : UInt8) (tx : CTransaction) : Except Failure Unit :=
  if env.assetsExempt height then .ok ()
  else do
    let opret ← env.assetsHead tx
    let inputs := env.inputSum env.isTokensvoutShallow tx opret.tokenid
    let prevent ← env.assetsCase (env.assetsEvalcode2 evalcode2 opret) tx opret inputs
    env.preventCC tx prevent.vins prevent.vouts

end CCEnv

end IndexChain
