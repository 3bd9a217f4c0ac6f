import IndexChain.Models.CC.Tokens

/-!
# The channels contract

`ChannelsValidate` of `cc/channels.cpp`. The sender locks the funds of a channel in
an address that both parties can spend from. Payments reveal values of a hash chain
that ends in the value published when the channel was opened; a close announces that
the sender wants the rest back, and a refund returns it.
-/

namespace IndexChain

open IndexChain.Core

/-- `EVAL_CHANNELS`. -/
def evalChannels : UInt8 := 0xeb

/-- `CC_MARKER_VALUE`. -/
def ccMarkerValue : Int := 10000

/-- `CHANNELS_MAXPAYMENTS`. -/
def channelsMaxpayments : Int := 1000

/-- `OPRETID_CHANNELSDATA`. -/
def opretidChannelsdata : UInt8 := 0x14

/-! ## Op_returns -/

/-- The functions of a channels op_return. -/
inductive ChannelFuncId where
  | channelOpen
  | channelPayment
  | channelClose
  | channelRefund
  | illegal
  deriving DecidableEq, Repr

/-- The letter of a function; a zero byte is no op_return. -/
def ChannelFuncId.ofByte : UInt8 → Option ChannelFuncId
  | 0 => none
  | 0x4f => some channelOpen
  | 0x50 => some channelPayment
  | 0x43 => some channelClose
  | 0x52 => some channelRefund
  | _ => some illegal

/-- What a channels op_return says. The last three fields have another meaning for each
function. -/
structure ChannelOpret where
  /-- The function. -/
  funcid : ChannelFuncId
  /-- The token of a token channel, else zero. -/
  tokenid : Uint256
  /-- The transaction that opened the channel. -/
  opentxid : Uint256
  /-- The sender's key. -/
  srcpub : CPubKey
  /-- The receiver's key. -/
  destpub : CPubKey
  /-- The number of payments of a channel, or those that are left. -/
  param1 : Int
  /-- The amount of a payment, or the number of payments that are made. -/
  param2 : Int
  /-- The end of the hash chain, a value on it, or the close transaction. -/
  param3 : Uint256
  deriving DecidableEq, Repr

/-- The fields of a channels op_return, without the token. -/
def readChannelOpret : Reader (Option ChannelOpret) := do
  let _ ← Reader.byte
  let f ← Reader.byte
  let opentxid ← readUint256
  let srcpub ← CPubKey.read
  let destpub ← CPubKey.read
  let param1 ← Reader.int 4
  let param2 ← Reader.int 8
  let param3 ← readUint256
  return (ChannelFuncId.ofByte f).map fun funcid =>
    { funcid, tokenid := 0, opentxid, srcpub, destpub, param1, param2, param3 }

/-- `DecodeChannelsOpRet`. -/
def decodeChannelsOpRet (scriptPubKey : CScript) : Option ChannelOpret :=
  let token := decodeTokenOpRet scriptPubKey
  let extra := match token with
    | some t => getOpretBlob t.oprets opretidChannelsdata
    | none => []
  let vopret := if extra ≠ [] then extra else CScript.getOpReturnData scriptPubKey
  if 2 < vopret.length ∧ vopret[0]? = some evalChannels then
    match Reader.unmarshal readChannelOpret vopret with
    | some (some opret) =>
      some { opret with tokenid := match token with
        | some t => t.tokenid
        | none => 0 }
    | _ => none
  else none

/-- The op_return of a channels transaction is its last output. -/
def channelOpretOf (tx : CTransaction) : Option ChannelOpret :=
  tx.vout.getLast?.bind fun out => decodeChannelsOpRet out.scriptPubKey

/-! ## The hash chain -/

/-- One step of the hash chain. -/
def hashStep (x : Uint256) : Uint256 := vcalcSha256 x

/-! ## Channels -/

/-- What the op_return of the opening transaction says about a channel. -/
structure Channel where
  /-- The token of a token channel, else zero. -/
  tokenid : Uint256
  /-- The sender's key. -/
  srcpub : CPubKey
  /-- The receiver's key. -/
  destpub : CPubKey
  /-- The number of payments. -/
  numpayments : Int
  /-- The amount of a payment. -/
  payment : Int
  /-- The end of the hash chain. -/
  hashchain : Uint256
  deriving DecidableEq, Repr

/-- The channel that an op_return opens. -/
def ChannelOpret.channel (o : ChannelOpret) : Channel where
  tokenid := o.tokenid
  srcpub := o.srcpub
  destpub := o.destpub
  numpayments := o.param1
  payment := o.param2
  hashchain := o.param3

namespace CCLib

variable (lib : CCLib)

/-- The address that holds the funds. -/
def channeladdress (ch : Channel) : Address :=
  lib.getCCaddress1of2 evalChannels ch.srcpub ch.destpub

/-- The address of the sender's marker. -/
def srcmarker (ch : Channel) : Address := lib.getCCaddress evalChannels ch.srcpub

/-- The address of the receiver's marker. -/
def destmarker (ch : Channel) : Address := lib.getCCaddress evalChannels ch.destpub

/-- The normal address of a key. -/
def normalAddress (pk : CPubKey) : Address :=
  (lib.scriptAddress (CScript.payToPubkey pk)).getD []

/-- `_GetCCaddress` for the tokens contract. -/
def tokensAddress (pk : CPubKey) : Address :=
  (lib.scriptAddress (lib.cc1 evalTokens pk)).getD []

/-- A payment to one of the parties. -/
def constrainPayout (ch : Channel) (pk : CPubKey) (out : CTxOut) (nValue : Int) : Bool :=
  if ch.tokenid ≠ 0 then lib.constrainVout out true (some (lib.tokensAddress pk)) nValue
  else lib.constrainVout out false (some (lib.normalAddress pk)) nValue

end CCLib

/-- The environment of the channels contract. -/
structure ChannelsEnv extends CCChainEnv where
  /-- What is in `hashdest` before the first step of a hash chain. -/
  uninitHash : Uint256

namespace ChannelsEnv

variable (env : ChannelsEnv)

/-- The value that a number of steps leads to; without a step it is whatever is in the
memory of the result. -/
def genhashchain (secret : Uint256) (steps : Int) : Uint256 :=
  if steps ≤ 0 then env.uninitHash else hashStep^[steps.toNat] secret

/-! ## Amounts -/

/-- The value of the output that input 1 spends, when its transaction is found. -/
def vin1Value (tx : CTransaction) : Except Failure (Option Int) := do
  let vin1 ← tx.inp 1
  match env.getTransaction vin1.prevout.hash with
  | none => return none
  | some vinTx => do
    let out ← vinTx.spent vin1.prevout.n.toNat
    return some out.nValue

/-- The outputs that have to match input 1. -/
def matchedOutputs (tx : CTransaction) : ChannelFuncId → Except Failure Int
  | .channelPayment => do
    let vout0 ← tx.out 0
    let vout3 ← tx.out 3
    return vout0.nValue + vout3.nValue
  | .channelClose => do
    let vout0 ← tx.out 0
    return vout0.nValue
  | _ => do
    let vout2 ← tx.out 2
    return vout2.nValue

/-- `ChannelsExactAmounts`. -/
def channelsExactAmounts (tx : CTransaction) : Except Failure Bool :=
  match channelOpretOf tx with
  | none => .ok false
  | some opret => match opret.funcid with
    | .channelOpen => .ok true
    | .illegal => .ok false
    | funcid => do
      let inputs ← env.vin1Value tx
      match inputs with
      | none => .ok false
      | some inputs => do
        let outputs ← matchedOutputs tx funcid
        return inputs == outputs

/-! ## Validation -/

/-- The channel that a transaction names. Where the opening transaction has no outputs,
the fields of the transaction itself stay in place. -/
def channelOf (openTx : CTransaction) (opret : ChannelOpret) : Except Failure Channel :=
  if openTx.vout.isEmpty then
    .ok { tokenid := opret.tokenid, srcpub := opret.srcpub, destpub := opret.destpub
          numpayments := 0, payment := 0, hashchain := 0 }
  else match channelOpretOf openTx with
    | some o =>
      if o.funcid = .channelOpen then .ok o.channel
      else .error (.invalid "invalid channelopen OP_RETURN data!")
    | none => .error (.invalid "invalid channelopen OP_RETURN data!")

/-- The checks of the opening transaction. -/
def checkOpen (ch : Channel) (opentxid : Uint256) (openTx : CTransaction) : Except Failure Unit :=
  match openTx.vin[0]? with
  | none => .error (.spentOutOfBounds 0)
  | some vin0 => do
    require (!env.isCCInput vin0.scriptSig) (.invalid "vin.0 is normal for channelopen!")
    let vout0 ← openTx.spent 0
    require (env.constrainVout vout0 true (some (env.channeladdress ch))
      (toInt64 (ch.numpayments * ch.payment)))
      (.invalid "vout.0 is CC or invalid amount for channelopen!")
    let vout1 ← openTx.spent 1
    require (env.constrainVout vout1 true (some (env.srcmarker ch)) ccMarkerValue)
      (.invalid "vout.1 is CC marker to srcpub or invalid amount for channelopen!")
    let vout2 ← openTx.spent 2
    require (env.constrainVout vout2 true (some (env.destmarker ch)) ccMarkerValue)
      (.invalid "vout.2 is CC marker to destpub or invalid amount for channelopen!")
    require (env.txnotarizedconfirmed opentxid)
      (.invalid "channelopen is not yet confirmed(notarised)!")

/-- Input 0 is normal and the one before the last is a condition. -/
def checkVinKinds (tx : CTransaction) (name isCC : String) : Except Failure Unit := do
  let vin0 ← tx.inp 0
  require (!env.isCCInput vin0.scriptSig) (.invalid ("vin.0 is normal for " ++ name ++ "!"))
  let vin ← tx.inp (tx.vin.length - 2)
  require (env.isCCInput vin.scriptSig)
    (.invalid ("vin." ++ toString (tx.vin.length - 2) ++ isCC ++ name ++ "!"))

/-- Two outputs are markers for both parties. -/
def checkMarkers (ch : Channel) (tx : CTransaction) (v : Nat) (name : String) :
    Except Failure Unit := do
  let vsrc ← tx.out v
  require (env.constrainVout vsrc true (some (env.srcmarker ch)) ccMarkerValue)
    (.invalid ("vout." ++ toString v ++ " is CC marker to srcpub or invalid amount for " ++
      name ++ "!"))
  let vdest ← tx.out (v + 1)
  require (env.constrainVout vdest true (some (env.destmarker ch)) ccMarkerValue)
    (.invalid ("vout." ++ toString (v + 1) ++ " is CC marker to destpub or invalid amount for " ++
      name ++ "!"))

/-- The last input is a marker, judged by an output of the transaction that input 1 spends. -/
def checkLastVin (tx prevTx : CTransaction) (name : String) : Except Failure Unit := do
  let reason := Failure.invalid ("vin." ++ toString (tx.vin.length - 1) ++
    " is CC marker or invalid marker amount for " ++ name ++ "!")
  let vin ← tx.inp (tx.vin.length - 1)
  require (env.isMyVin evalChannels vin.scriptSig) reason
  let out ← prevTx.spent vin.prevout.n.toNat
  require (out.nValue == ccMarkerValue) reason

/-- Checks against the transaction that input 1 spends; none when it is not found. -/
def withPrev (tx : CTransaction) (check : CTransaction → Except Failure Unit) :
    Except Failure Unit := do
  let vin1 ← tx.inp 1
  match env.getTransaction vin1.prevout.hash with
  | none => .ok ()
  | some prevTx => check prevTx

/-- The op_return of the transaction that input 1 spends. -/
def prevOpret (prevTx : CTransaction) : Except Failure ChannelOpret :=
  match channelOpretOf prevTx with
  | some p => .ok p
  | none => .error (.invalid "invalid previous tx OP_RETURN data!")

/-- The checks of a payment against the transaction that input 1 spends. -/
def checkPaymentPrev (ch : Channel) (tx prevTx : CTransaction) (opret : ChannelOpret) :
    Except Failure Unit := do
  let p ← prevOpret prevTx
  let vout0 ← tx.out 0
  require (env.constrainVout vout0 true (some (env.channeladdress ch))
    (toInt64 ((p.param1 - opret.param2) * ch.payment)))
    (.invalid "vout.0 is CC or invalid CC change amount for channelpayment!")
  env.checkLastVin tx prevTx "channelpayment"
  require (toInt64 (opret.param1 + opret.param2) == p.param1) (.invalid "invalid payment depth!")
  let vout3 ← tx.out 3
  let prevVout0 ← prevTx.spent 0
  require (decide (vout3.nValue ≤ prevVout0.nValue))
    (.invalid "not enough funds in channel for that amount!")

/-- Case `'P'` of `ChannelsValidate`. -/
def checkPayment (ch : Channel) (openTx tx : CTransaction) (opret : ChannelOpret) :
    Except Failure Unit := do
  env.checkOpen ch opret.opentxid openTx
  env.checkVinKinds tx "channelpayment" " is CC for "
  env.checkMarkers ch tx 1 "channelpayment"
  let vout3 ← tx.out 3
  require (env.constrainPayout ch ch.destpub vout3 (toInt64 (opret.param2 * ch.payment)))
    (.invalid (if ch.tokenid ≠ 0
      then "vout.3 is CC or invalid amount or invalid receiver for channelpayment!"
      else "vout.3 is normal or invalid amount or invalid receiver for channelpayment!"))
  require (decide (opret.param1 ≤ channelsMaxpayments)) (.invalid "too many payment increments!")
  require (ch.hashchain ==
    env.genhashchain opret.param3 (toInt32 (ch.numpayments - opret.param1)))
    (.invalid "invalid secret for payment, does not reach final hashchain!")
  require (vout3.nValue == toInt64 (opret.param2 * ch.payment))
    (.invalid "vout amount does not match number_of_payments*payment!")
  env.withPrev tx fun prevTx => env.checkPaymentPrev ch tx prevTx opret

/-- Case `'C'` of `ChannelsValidate`. -/
def checkClose (ch : Channel) (openTx tx : CTransaction) (opret : ChannelOpret) :
    Except Failure Unit := do
  env.checkOpen ch opret.opentxid openTx
  env.checkVinKinds tx "channelclose" " is CC for "
  let vout0 ← tx.out 0
  require (env.constrainVout vout0 true (some (env.channeladdress ch)) 0)
    (.invalid "vout.0 is CC for channelclose!")
  env.checkMarkers ch tx 1 "channelclose"
  require (decide (opret.param1 ≤ channelsMaxpayments)) (.invalid "too many payment increments!")
  env.withPrev tx fun prevTx => do
    let _ ← prevOpret prevTx
    env.checkLastVin tx prevTx "channelclose"
    let prevVout0 ← prevTx.spent 0
    require (vout0.nValue == prevVout0.nValue)
      (.invalid "invalid CC amount, amount must match funds in channel")

/-- Case `'R'` of `ChannelsValidate`. Of the close transaction only its depth is checked. -/
def checkRefund (ch : Channel) (openTx tx : CTransaction) (opret : ChannelOpret) :
    Except Failure Unit := do
  env.checkOpen ch opret.opentxid openTx
  require (env.txnotarizedconfirmed opret.param3)
    (.invalid "channelClose is not yet confirmed(notarised)!")
  env.checkVinKinds tx "channelrefund" " CC for "
  env.checkMarkers ch tx 0 "channelrefund"
  let vout2 ← tx.out 2
  require (env.constrainPayout ch ch.srcpub vout2 (toInt64 (opret.param1 * ch.payment)))
    (.invalid (if ch.tokenid ≠ 0
      then "vout.2 is CC or invalid amount or invalid receiver for channelrefund!"
      else "vout.2 is normal or invalid amount or invalid receiver for channelrefund!"))
  require (decide (opret.param1 ≤ channelsMaxpayments)) (.invalid "too many payment increments!")
  env.withPrev tx fun prevTx => do
    let _ ← prevOpret prevTx
    env.checkLastVin tx prevTx "channelrefund"
    let prevVout0 ← prevTx.spent 0
    require (vout2.nValue == prevVout0.nValue)
      (.invalid "invalid amount, refund amount and funds in channel must match!")

/-- The cases of `ChannelsValidate`. -/
def channelsCase (ch : Channel) (openTx tx : CTransaction) (opret : ChannelOpret) :
    Except Failure Unit :=
  match opret.funcid with
  | .channelOpen => .error (.invalid "unexpected ChannelsValidate for channelsopen!")
  | .channelPayment => env.checkPayment ch openTx tx opret
  | .channelClose => env.checkClose ch openTx tx opret
  | .channelRefund => env.checkRefund ch openTx tx opret
  | .illegal => .error (.invalid "unexpected channels funcid")

/-- `ChannelsValidate`. -/
def channelsValidate (tx : CTransaction) : Except Failure Unit := do
  require (!tx.vout.isEmpty) (.invalid "no vouts")
  let exact ← env.channelsExactAmounts tx
  require exact (.invalid "invalid channel inputs vs. outputs!")
  match channelOpretOf tx with
  | none => .error (.invalid "unexpected channels missing funcid")
  | some opret => match env.getTransaction opret.opentxid with
    | none => .error (.invalid "invalid channelopen tx!")
    | some openTx => do
      let ch ← channelOf openTx opret
      env.channelsCase ch openTx tx opret

/-- What an accepted transaction has passed. -/
structure Accepted (tx : CTransaction) (opret : ChannelOpret) (openTx : CTransaction)
    (ch : Channel) : Prop where
  /-- The opening transaction is found. -/
  open_eq : env.getTransaction opret.opentxid = some openTx
  /-- It describes the channel. -/
  channel_eq : channelOf openTx opret = .ok ch
  /-- Input 1 matches the outputs. -/
  exact_eq : env.channelsExactAmounts tx = .ok true
  /-- The checks of the function pass. -/
  checked : env.channelsCase ch openTx tx opret = .ok ()

theorem accepted_of_ok {tx : CTransaction} {opret : ChannelOpret}
    (hop : channelOpretOf tx = some opret) (hok : env.channelsValidate tx = .ok ()) :
    ∃ openTx ch, env.Accepted tx opret openTx ch := by
  unfold channelsValidate at hok
  obtain ⟨-, hok⟩ := require_bind_eq_ok.1 hok
  obtain ⟨exact, hexact, hok⟩ := except_bind_eq_ok.1 hok
  obtain ⟨htrue, hok⟩ := require_bind_eq_ok.1 hok
  rw [htrue] at hexact
  rw [hop] at hok
  dsimp only at hok
  split at hok
  · cases hok
  · rename_i openTx hopen
    obtain ⟨ch, hch, hok⟩ := except_bind_eq_ok.1 hok
    exact ⟨openTx, ch, hopen, hch, hexact, hok⟩

end ChannelsEnv

end IndexChain
