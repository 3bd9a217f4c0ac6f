import IndexChain.Models.CC.Contract
import IndexChain.Models.Primitives.OpReturn

/-!
# The dice contract

`DiceValidate` of `cc/dice.cpp`. A house funds a plan and publishes entropy
transactions, each of which commits to a secret by its hash. A bet spends one of them
and adds the bettor's own entropy; the house ends the bet as won or lost and reveals
its secret, or the bet times out.
-/

namespace IndexChain

open IndexChain.Core

/-- `EVAL_DICE`. -/
def evalDice : UInt8 := 0xe6

/-- `txfee`. -/
def diceTxfee : Int := 10000

/-! ## Op_returns -/

/-- The functions of a dice op_return. -/
inductive DiceFuncId where
  | createFunding
  | entropy
  | bet
  | win
  | loss
  | timeout
  | refund
  deriving DecidableEq, Repr

/-- The letter of a function. -/
def DiceFuncId.byte : DiceFuncId → UInt8
  | createFunding => 0x46
  | entropy => 0x45
  | bet => 0x42
  | win => 0x57
  | loss => 0x4c
  | timeout => 0x54
  | refund => 0x52

/-- The function with a letter, for the op_returns that follow the creation of a plan. -/
def DiceFuncId.ofByte (b : UInt8) : Option DiceFuncId :=
  [refund, bet, win, loss, timeout, entropy].find? fun f => f.byte == b

/-- What the op_return of a plan says. -/
structure DicePlan where
  /-- The name of the plan. -/
  sbits : UInt64
  /-- The smallest bet. -/
  minbet : Int
  /-- The largest bet. -/
  maxbet : Int
  /-- The largest odds. -/
  maxodds : Int
  /-- After how many blocks a bet can be undone. -/
  timeoutblocks : Int
  deriving DecidableEq, Repr

/-- What the other dice op_returns say. -/
structure DiceOpret where
  /-- The function. -/
  funcid : DiceFuncId
  /-- The name of the plan. -/
  sbits : UInt64
  /-- The transaction that created the plan. -/
  fundingtxid : Uint256
  /-- The house's commitment, or the bettor's entropy. -/
  hash : Uint256
  /-- The house's entropy. -/
  proof : Uint256
  deriving DecidableEq, Repr

/-- The fields of a plan. -/
def readDicePlan : Reader (UInt8 × UInt8 × DicePlan) := do
  let e ← Reader.byte
  let f ← Reader.byte
  let sbits ← Reader.nat 8
  let minbet ← Reader.int 8
  let maxbet ← Reader.int 8
  let maxodds ← Reader.int 8
  let timeoutblocks ← Reader.int 8
  return (e, f, { sbits := UInt64.ofNat sbits, minbet, maxbet, maxodds, timeoutblocks })

/-- `DecodeDiceFundingOpRet`. -/
def decodeDiceFundingOpRet (scriptPubKey : CScript) : Option DicePlan :=
  let vopret := CScript.getOpReturnData scriptPubKey
  if 2 < vopret.length then
    match Reader.unmarshal readDicePlan vopret with
    | some (e, f, plan) =>
      if e = evalDice ∧ f = DiceFuncId.createFunding.byte then some plan else none
    | none => none
  else none

/-- The fields of the other op_returns. -/
def readDiceOpret : Reader (Option DiceOpret) := do
  let _ ← Reader.byte
  let f ← Reader.byte
  let sbits ← Reader.nat 8
  let fundingtxid ← readUint256
  let hash ← readUint256
  let proof ← readUint256
  return (DiceFuncId.ofByte f).map fun funcid =>
    { funcid, sbits := UInt64.ofNat sbits, fundingtxid, hash, proof }

/-- `DecodeDiceOpRet`. The creation of a plan has neither a commitment nor a proof. -/
def decodeDiceOpRet (txid : Uint256) (scriptPubKey : CScript) : Option DiceOpret :=
  let vopret := CScript.getOpReturnData scriptPubKey
  if 2 < vopret.length ∧ vopret[0]? = some evalDice then
    if vopret[1]? = some DiceFuncId.createFunding.byte then
      (Reader.unmarshal readDicePlan vopret).map fun r =>
        { funcid := .createFunding, sbits := r.2.2.sbits, fundingtxid := txid, hash := 0
          proof := 0 }
    else (Reader.unmarshal readDiceOpret vopret).join
  else none

/-- The op_return of a dice transaction is its last output. -/
def diceOpretOf (tx : CTransaction) : Option DiceOpret :=
  tx.vout.getLast?.bind fun out => decodeDiceOpRet tx.hash out.scriptPubKey

/-- `EncodeDiceOpRet`. -/
def encodeDiceOpRet (o : DiceOpret) : CScript :=
  0x6a :: CScript.pushBytes ([evalDice, o.funcid.byte] ++ leBytes 8 o.sbits.toNat ++
    leBytes 32 o.fundingtxid.toNat ++ leBytes 32 o.hash.toNat ++ leBytes 32 o.proof.toNat)

theorem DiceFuncId.ofByte_byte {f : DiceFuncId} (h : f ≠ .createFunding) :
    DiceFuncId.ofByte f.byte = some f := by
  cases f with
  | createFunding => exact absurd rfl h
  | _ => rfl

/-- The data of an encoded op_return. -/
theorem opReturnData_encode (o : DiceOpret) : CScript.getOpReturnData (encodeDiceOpRet o) =
    [evalDice, o.funcid.byte] ++ leBytes 8 o.sbits.toNat ++ leBytes 32 o.fundingtxid.toNat ++
      leBytes 32 o.hash.toNat ++ leBytes 32 o.proof.toNat := by
  apply CScript.getOpReturnData_opReturn_of_lt
  simp

/-- What is encoded is decoded. -/
theorem decodeDiceOpRet_encode (txid : Uint256) {o : DiceOpret} (h : o.funcid ≠ .createFunding) :
    decodeDiceOpRet txid (encodeDiceOpRet o) = some o := by
  have hne : o.funcid.byte ≠ DiceFuncId.createFunding.byte := by
    cases hf : o.funcid with
    | createFunding => exact absurd hf h
    | _ => decide
  have hread : readDiceOpret (evalDice :: o.funcid.byte :: (leBytes 8 o.sbits.toNat ++
      (leBytes 32 o.fundingtxid.toNat ++ (leBytes 32 o.hash.toNat ++
        (leBytes 32 o.proof.toNat ++ []))))) = some (some o, []) := by
    unfold readDiceOpret
    rw [Reader.bind_of_eq (Reader.byte_cons _ _), Reader.bind_of_eq (Reader.byte_cons _ _),
      Reader.bind_of_eq (Reader.nat_append o.sbits.toNat_lt _),
      Reader.bind_of_eq (readUint256_append _ _), Reader.bind_of_eq (readUint256_append _ _),
      Reader.bind_of_eq (readUint256_append _ _), DiceFuncId.ofByte_byte h, UInt64.ofNat_toNat]
    rfl
  unfold decodeDiceOpRet
  rw [opReturnData_encode]
  simp only [List.cons_append, List.nil_append, List.append_assoc]
  rw [if_pos (by simp), if_neg (by simpa using hne)]
  unfold Reader.unmarshal
  rw [List.append_nil] at hread
  rw [hread]
  rfl

/-- `DiceGetEntropy`. -/
def diceGetEntropy (tx : CTransaction) (reffuncid : DiceFuncId) : Uint256 :=
  match diceOpretOf tx with
  | some o => if o.funcid = reffuncid then o.hash else 0
  | none => 0

/-! ## The outcome of a bet -/

/-- `dice_5nibbles`. -/
def dice5nibbles (fivevals : List Nat) : Nat :=
  (fivevals.take 5).foldl (fun acc v => 16 * acc + v) 0

/-- The first group of five digits below a million, modulo 10000; the last group when there
is none. -/
def diceModval (hash16 : List Nat) : Nat → Nat → Nat → Nat
  | 0, _, modval => modval
  | n + 1, i, _ =>
    let modval := dice5nibbles (hash16.drop (i * 5))
    if modval < 1000000 then modval % 10000 else diceModval hash16 n (i + 1) modval

/-- `DiceCalc`: what a bet wins, as an unsigned number; zero for a bet that is lost or not
valid. -/
def diceCalc (plan : DicePlan) (bet vout2 : Int) (houseentropy bettorentropy : Uint256) : Int :=
  let odds := vout2 - diceTxfee
  if vout2 ≤ diceTxfee then 0
  else if bet < plan.minbet ∨ plan.maxbet < bet then 0
  else if toUint64 plan.maxodds < odds then 0
  else
    let house := sha256 (leBytes 32 houseentropy.toNat ++ leBytes 32 bettorentropy.toNat)
    let bettor := sha256 (leBytes 32 bettorentropy.toNat ++ leBytes 32 houseentropy.toNat)
    let winnings := toUint64 (bet * (odds + 1))
    if 1 < odds then
      if 9999 < odds then 0
      else
        let hash16 := (sha256 (house ++ bettor)).flatMap fun b => [b.toNat / 16, b.toNat % 16]
        if (diceModval hash16 12 0 0 : Int) < 10000 / (odds + 1) then winnings else 0
    else if leNat house ≤ leNat bettor then winnings else 0

/-! ## The house -/

/-- What a house node has besides: its key and the curve. -/
structure DiceHouse where
  /-- `DiceIsmine`. -/
  diceIsmine : CScript → Bool
  /-- The hash of the node's private key. -/
  mypriv : List UInt8
  /-- `curve25519` of a secret and a point. -/
  curve25519 : List UInt8 → List UInt8 → List UInt8
  /-- `curve25519_basepoint9`. -/
  basepoint9 : List UInt8

namespace DiceHouse

variable (house : DiceHouse)

/-- Make the bytes of a secret fit the curve. -/
def clamp (bs : List UInt8) : List UInt8 :=
  (bs.set 0 (bs.getD 0 0 &&& 0xf8)).set 31 ((bs.getD 31 0 &&& 0x7f) ||| 0x40)

/-- `DiceHashEntropy`: the entropy of an output and the commitment to it. Where the shared
secrets differ, the entropy keeps its value and the commitment is zero. -/
def diceHashEntropy (entropy txidpriv : Uint256) (vout : UInt32) (usevout : Bool) :
    Uint256 × Uint256 :=
  let bs := leBytes 32 txidpriv.toNat
  let bs := if usevout then
      (bs.set 1 (bs.getD 1 0 ^^^ vout.toUInt8)).set 2 (bs.getD 2 0 ^^^ (vout >>> 8).toUInt8)
    else bs
  let txidpriv := clamp bs
  let mypriv := clamp house.mypriv
  let ssecret := house.curve25519 mypriv (house.curve25519 txidpriv house.basepoint9)
  let ssecret2 := house.curve25519 txidpriv (house.curve25519 mypriv house.basepoint9)
  if ssecret = ssecret2 then
    let entropy := BitVec.ofNat 256 (leNat (sha256 ssecret))
    (entropy, vcalcSha256 entropy)
  else (entropy, 0)

/-- The entropy of an output, derived from its transaction or, if that does not give the
commitment, from its index too. -/
def tryEntropy (hentropy : Uint256) (prevout : COutPoint) : Uint256 × Uint256 :=
  let first := house.diceHashEntropy 0 prevout.hash prevout.n false
  if hentropy ≠ first.2 then house.diceHashEntropy first.1 prevout.hash prevout.n true else first

/-- `DiceIsWinner`: whether a bet is lost or won and the entropy that shows it, for bets on
the node's own entropy. -/
def diceIsWinner (plan : DicePlan) (fundingtxid txid : Uint256) (tx vinTx : CTransaction)
    (bettorentropy : Uint256) : Except Failure (Int × Uint256) :=
  match vinTx.vout with
  | vout0 :: vout1 :: _ =>
    if house.diceIsmine vout1.scriptPubKey ∧
        CScript.isPayToCryptoCondition vout0.scriptPubKey = true then
      match vinTx.vout.getLast?.bind fun out => decodeDiceOpRet txid out.scriptPubKey with
      | some o =>
        if (o.funcid = .entropy ∨ o.funcid = .win ∨ o.funcid = .loss) ∧ plan.sbits = o.sbits ∧
            fundingtxid = o.fundingtxid then
          match vinTx.vin[0]? with
          | none => .error (.listOutOfBounds 0)
          | some vin0 =>
            let r := house.tryEntropy o.hash vin0.prevout
            if o.hash = r.2 then do
              let vout1 ← tx.out 1
              let vout2 ← tx.out 2
              return (if diceCalc plan vout1.nValue vout2.nValue r.1 bettorentropy = 0 then -1
                else 1, r.1)
            else .ok (0, r.1)
        else .ok (0, 0)
      | none => .ok (0, 0)
    else .ok (0, 0)
  | _ => .ok (0, 0)

end DiceHouse

/-! ## Validation -/

/-- The environment of the dice contract. -/
structure DiceEnv extends CCChainEnv where
  /-- The time of the block of a transaction. -/
  txTime : Uint256 → Int
  /-- The time of the last block. -/
  tipTime : Int

namespace DiceEnv

variable (env : DiceEnv)

/-- `IsDicevout`. -/
def isDicevout (tx : CTransaction) (out : CTxOut) (refsbits : UInt64) (reffundingtxid : Uint256) :
    Int :=
  if CScript.isPayToCryptoCondition out.scriptPubKey = true ∧
      env.scriptAddress out.scriptPubKey = some (env.unspendableCCaddr evalDice) then
    match diceOpretOf tx with
    | some o =>
      if o.sbits = refsbits ∧ ((o.funcid = .createFunding ∧ tx.hash = reffundingtxid) ∨
          o.fundingtxid = reffundingtxid) then out.nValue else 0
    | none => 0
  else 0

/-- What an input spends from a plan. -/
def dicevin (refsbits : UInt64) (reffundingtxid : Uint256) (txin : CTxIn) : Except Failure Int :=
  if env.isMyVin evalDice txin.scriptSig then
    match env.getTransaction txin.prevout.hash with
    | none => .error (.invalid "always should find vin, but didnt")
    | some vinTx => do
      let out ← vinTx.spent txin.prevout.n.toNat
      return env.isDicevout vinTx out refsbits reffundingtxid
  else .ok 0

/-- `DiceAmounts`: the inputs and outputs of a plan. Its result is not looked at, but a
failure stays in the evaluation state. -/
def diceAmounts (tx : CTransaction) (refsbits : UInt64) (reffundingtxid : Uint256) :
    Except Failure (Int × Int) := do
  let inputs ← tx.vin.mapM (env.dicevin refsbits reffundingtxid)
  let outputs := tx.vout.map fun out => env.isDicevout tx out refsbits reffundingtxid
  return (toUint64 inputs.sum, toUint64 outputs.sum)

/-- `CCduration`: the blocks since a transaction, and the time. -/
def ccDuration (txid : Uint256) : Int × Int :=
  match env.getTransaction txid, env.txHeight txid with
  | some _, some txheight =>
    if env.txTime txid = 0 ∨ txheight ≤ 0 ∨ env.tipTime < env.txTime txid ∨
        env.height ≤ txheight then (0, 0)
    else (env.height - txheight, env.tipTime - env.txTime txid)
  | _, _ => (0, 0)

/-- `DiceVerifyTimeout`. -/
def diceVerifyTimeout (betTx : CTransaction) (timeoutblocks : Int) : Bool :=
  let r := env.ccDuration betTx.hash
  decide (0 < r.2) && decide (toInt32 timeoutblocks ≤ r.1)

/-- `GetTxUnconfirmed` with a reason for failure. -/
def findTx (txid : Uint256) (reason : String) : Except Failure CTransaction :=
  match env.getTransaction txid with
  | some tx => .ok tx
  | none => .error (.invalid reason)

/-- The address of the output that the entropy transaction of a bet spends is the owner's. -/
def checkEntropyOwner (fundingtxid : Uint256) (fundingPubKey : CScript) (vin0 : CTxIn)
    (vinofvinTx : CTransaction) : Except Failure Unit :=
  if vin0.prevout.hash = fundingtxid then .ok ()
  else do
    let out ← vinofvinTx.spent vin0.prevout.n.toNat
    require (out.scriptPubKey == fundingPubKey ||
      env.scriptAddress out.scriptPubKey == env.scriptAddress fundingPubKey)
      (.invalid "vin1 of entropy tx not fundingPubKey for bet")

/-- Read an input of an earlier transaction. -/
def vinOf (tx : CTransaction) (i : Nat) : Except Failure CTxIn :=
  match tx.vin[i]? with
  | some txin => .ok txin
  | none => .error (.listOutOfBounds i)

/-- Case `'B'` of `DiceValidate`. Whether the bet wins is only looked at to queue it. -/
def checkBet (plan : DicePlan) (fundingtxid : Uint256) (fundingPubKey : CScript)
    (tx : CTransaction) : Except Failure Unit := do
  let vin0 ← tx.inp 0
  require (env.isCCInput vin0.scriptSig) (.invalid "vin.0 is normal for bet")
  let vout0 ← tx.out 0
  require (CScript.isPayToCryptoCondition vout0.scriptPubKey) (.invalid "vout.0 is normal for bet")
  let vout1 ← tx.out 1
  require (CScript.isPayToCryptoCondition vout1.scriptPubKey) (.invalid "vout.1 is normal for bet")
  let vinTx ← env.findTx vin0.prevout.hash "always should find vin.0, but didnt for bet"
  let tag ← vinTx.spent 1
  require (tag.scriptPubKey == fundingPubKey) (.invalid "entropy tx not fundingPubKey for bet")
  let spent ← vinTx.spent vin0.prevout.n.toNat
  require (env.constrainVout vout0 true (some (env.unspendableCCaddr evalDice)) spent.nValue)
    (.invalid "vout[0] != entropy nValue for bet")
  require (env.constrainVout vout1 true (some (env.unspendableCCaddr evalDice)) 0)
    (.invalid "vout[1] constrain violation for bet")
  let vout2 ← tx.out 2
  require (decide (toUint64 vout2.nValue ≤ toUint64 (diceTxfee + plan.maxodds)) &&
    decide (diceTxfee < toUint64 vout2.nValue)) (.invalid "vout[2] nValue violation for bet")
  let vinvin0 ← vinOf vinTx 0
  let vinofvinTx ← env.findTx vinvin0.prevout.hash
    "always should find vinofvin.0, but didnt for bet"
  require (!vinofvinTx.vout.isEmpty)
    (.invalid "always should find vinofvin.0, but didnt for bet")
  env.checkEntropyOwner fundingtxid fundingPubKey vinvin0 vinofvinTx
  env.preventCC tx (some 1) (some 2)

/-- The bet that a transaction ends. -/
def betOf (plan : DicePlan) (fundingtxid : Uint256) (tx : CTransaction) :
    Except Failure CTransaction := do
  let vin1 ← tx.inp 1
  require (env.isCCInput vin1.scriptSig) (.invalid "vin0 or vin1 normal vin for bet")
  let vin2 ← tx.inp 2
  require (env.isCCInput vin2.scriptSig) (.invalid "vin0 or vin1 normal vin for bet")
  require (vin1.prevout.hash == vin2.prevout.hash) (.invalid "vin0 != vin1 prevout.hash for bet")
  let vinTx ← env.findTx vin1.prevout.hash "always should find vin.0, but didnt for wlt"
  require (decide (3 ≤ vinTx.vout.length)) (.invalid "not betTx for vin0/1 for wlt")
  match vinTx.vout.getLast?.bind fun out => decodeDiceOpRet vin1.prevout.hash out.scriptPubKey with
  | some b => do
    require (b.funcid == .bet) (.invalid "not betTx for vin0/1 for wlt")
    require (plan.sbits == b.sbits && fundingtxid == b.fundingtxid)
      (.invalid "sbits or fundingtxid mismatch for wlt")
    return vinTx
  | none => .error (.invalid "not betTx for vin0/1 for wlt")

/-- An output that goes to the owner, or an op_return. -/
def toOwner (fundingPubKey : CScript) (out : CTxOut) : Bool :=
  out.scriptPubKey == fundingPubKey || out.scriptPubKey.head? == some 0x6a

/-- The outputs of a loss. -/
def checkLoss (fundingPubKey : CScript) (tx : CTransaction) (inputs : Int) :
    Except Failure Unit := do
  let vout0 ← tx.out 0
  require (env.constrainVout vout0 true (some (env.unspendableCCaddr evalDice)) (toInt64 inputs))
    (.invalid "vout[0] != inputs-txfee for loss")
  let vout2 ← tx.out 2
  require (toOwner fundingPubKey vout2) (.invalid "vout[2] not send to fundingPubKey for loss")

/-- The outputs of a win or a timeout. -/
def checkWin (fundingPubKey : CScript) (tx betTx : CTransaction) (inputs outputs : Int) :
    Except Failure Unit := do
  let betOut1 ← betTx.spent 1
  let betOut2 ← betTx.spent 2
  let odds := toInt64 (betOut2.nValue - diceTxfee)
  let vout0 ← tx.out 0
  require (env.constrainVout vout0 true (some (env.unspendableCCaddr evalDice)) 0)
    (.invalid "vout[0] != inputs-txfee for win/timeout")
  let vout2 ← tx.out 2
  require (vout2.scriptPubKey == betOut2.scriptPubKey)
    (.invalid "vout[2] scriptPubKey mismatch for win/timeout")
  require (vout2.nValue == toInt64 ((odds + 1) * betOut1.nValue))
    (.invalid "vout[2] payut mismatch for win/timeout")
  require (inputs == toUint64 (outputs + vout2.nValue) ||
    inputs == toUint64 (outputs + vout2.nValue + diceTxfee))
    (.invalid "CC funds mismatch for win/timeout")
  let vout3 ← tx.out 3
  require (toOwner fundingPubKey vout3)
    (.invalid "vout[3] not send to fundingPubKey for win/timeout")

/-- What a bet wins with the entropy that the house reveals. -/
def betWinnings (plan : DicePlan) (betTx : CTransaction) (proof : Uint256) :
    Except Failure Int := do
  let betOut1 ← betTx.spent 1
  let betOut2 ← betTx.spent 2
  return toInt64 (diceCalc plan betOut1.nValue betOut2.nValue proof (diceGetEntropy betTx .bet))

/-- A win wins, and a loss does not. The hash of the revealed entropy is computed here, and
not compared with anything. -/
def checkOutcome (plan : DicePlan) (betTx : CTransaction) (proof : Uint256) (iswin : Int) :
    Except Failure Unit := do
  let winnings ← betWinnings plan betTx proof
  require (!((winnings == 0 && decide (0 < iswin)) ||
      (decide (0 < winnings) && decide (iswin < 0))))
    (.invalid "DiceCalc mismatch for win/loss")

/-- The outputs and the outcome of a loss, a win or a timeout. -/
def checkEnd (plan : DicePlan) (fundingPubKey : CScript) (tx betTx : CTransaction)
    (o : DiceOpret) (inputs outputs : Int) : Except Failure Unit :=
  match o.funcid with
  | .loss => do
    env.checkLoss fundingPubKey tx inputs
    checkOutcome plan betTx o.proof (-1)
  | .win => do
    env.checkWin fundingPubKey tx betTx inputs outputs
    checkOutcome plan betTx o.proof 1
  | _ => do
    env.checkWin fundingPubKey tx betTx inputs outputs
    require (env.diceVerifyTimeout betTx plan.timeoutblocks)
      (.invalid "invalid timeout claim for timeout")

/-- Cases `'L'`, `'W'` and `'T'` of `DiceValidate`. -/
def checkFinish (plan : DicePlan) (fundingPubKey : CScript) (tx : CTransaction)
    (o : DiceOpret) : Except Failure Unit := do
  let amounts ← env.diceAmounts tx plan.sbits o.fundingtxid
  let betTx ← env.betOf plan o.fundingtxid tx
  let vout1 ← tx.out 1
  require (fundingPubKey == vout1.scriptPubKey) (.invalid "tx.vout[1] != fundingPubKey for wlt")
  env.checkEnd plan fundingPubKey tx betTx o amounts.1 amounts.2
  env.preventCC tx none (some 1)

/-- Case `'R'` of `DiceValidate`. -/
def checkRefund (fundingPubKey : CScript) (tx : CTransaction) : Except Failure Unit := do
  let vin0 ← tx.inp 0
  let vinTx ← env.findTx vin0.prevout.hash "always should find vin.0, but didnt for refund"
  let out ← vinTx.spent vin0.prevout.n.toNat
  require (out.scriptPubKey == fundingPubKey ||
    env.scriptAddress out.scriptPubKey == env.scriptAddress fundingPubKey)
    (.invalid "vin.0 not from fundingPubKey for refund")

/-- The cases of `DiceValidate`. -/
def diceCase (plan : DicePlan) (fundingPubKey : CScript) (tx : CTransaction) (o : DiceOpret) :
    Except Failure Unit :=
  match o.funcid with
  | .createFunding => .error (.invalid "unexpected DiceValidate for createfunding")
  | .entropy => .error (.invalid "unexpected DiceValidate for addfunding entropy")
  | .bet => env.checkBet plan o.fundingtxid fundingPubKey tx
  | .win | .loss | .timeout => env.checkFinish plan fundingPubKey tx o
  | .refund => env.checkRefund fundingPubKey tx

/-- The plan that a transaction creates. -/
def planOf (fundingTx : CTransaction) : Except Failure DicePlan :=
  match fundingTx.vout.getLast? with
  | none => .error (.spentOutOfBounds 1)
  | some out => match decodeDiceFundingOpRet out.scriptPubKey with
    | none => .error (.invalid "fundingTx not valid")
    | some plan => .ok plan

/-- `DiceValidate`. -/
def diceValidate (tx : CTransaction) : Except Failure Unit :=
  if tx.vout.isEmpty then .error (.invalid "no vouts")
  else match diceOpretOf tx with
    | none => .error (.invalid "unexpected dice missing funcid")
    | some o => do
      let fundingTx ← env.findTx o.fundingtxid "cant find fundingtxid"
      let plan ← planOf fundingTx
      require (decide (plan.maxodds ≤ 9999)) (.invalid "maxodds too big")
      let fundingOut ← fundingTx.spent 1
      env.diceCase plan fundingOut.scriptPubKey tx o

end DiceEnv

end IndexChain
