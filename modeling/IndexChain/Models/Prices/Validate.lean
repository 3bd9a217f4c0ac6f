import IndexChain.Models.CC.Payments

/-!
# The prices contract

`PricesValidate` of `cc/prices.cpp`. A bet is placed without a condition input, so it is
validated only when funds are added to it or when it is settled; what such a transaction
spends is judged by the op_return of the transaction before.
-/

namespace IndexChain.Prices

open IndexChain.Core

/-- `EVAL_PRICES`. -/
def evalPrices : UInt8 := 0xed

/-- `PRICES_MAXLEVERAGE`. -/
def pricesMaxleverage : Int := 777

/-- `PRICES_SUBREVSHAREFEE`. -/
def pricesSubrevsharefee (amount : Int) : Int := (toInt64 (amount * 199)).tdiv 200

/-! ## Op_returns -/

/-- The letters of prices op_returns: `BACFR`. -/
def pricesFuncids : List UInt8 := [0x42, 0x41, 0x43, 0x46, 0x52]

/-- The letters of final transactions: `FR`. -/
def finalFuncids : List UInt8 := [0x46, 0x52]

/-- `PricesCheckOpret`: the function, or zero, and the data of the last output, which is
filled in even when the function is zero. -/
def pricesCheckOpret (tx : CTransaction) : UInt8 × List UInt8 :=
  match tx.vout.getLast? with
  | none => (0, [])
  | some out =>
    let (found, opret) := CScript.opReturnData out.scriptPubKey
    (if found = true ∧ 2 < opret.length ∧ opret.getD 0 0 = evalPrices ∧
        opret.getD 1 0 ∈ pricesFuncids then opret.getD 1 0 else 0, opret)

/-- A prices op_return with one of some functions and its fields. -/
def decodePrices {α : Type} (funcids : List UInt8) (fields : Reader α) (scriptPubKey : CScript) :
    Option α :=
  let vopret := CScript.getOpReturnData scriptPubKey
  if 2 < vopret.length then
    match Reader.unmarshal (do
      let e ← Reader.byte
      let f ← Reader.byte
      let a ← fields
      return (e, f, a)) vopret with
    | some (e, f, a) => if e = evalPrices ∧ f ∈ funcids then some a else none
    | none => none
  else none

/-- What a bet says. -/
structure BetOpret where
  /-- The owner. -/
  pk : CPubKey
  /-- The height of the bet. -/
  height : Int
  /-- The size of the position. -/
  amount : Int
  /-- The leverage. -/
  leverage : Int
  /-- The price at the height. -/
  firstprice : Int
  /-- The opcodes of the expression. -/
  vec : List UInt16
  /-- The token. -/
  tokenid : Uint256
  deriving DecidableEq, Repr

/-- `prices_betopretdecode`. -/
def pricesBetopretdecode : CScript → Option BetOpret :=
  decodePrices [0x42] do
    let pk ← CPubKey.read
    let height ← Reader.int 4
    let amount ← Reader.int 8
    let leverage ← Reader.int 2
    let firstprice ← Reader.int 8
    let vec ← readVector (Reader.nat 2)
    let tokenid ← readUint256
    return { pk, height, amount, leverage, firstprice, vec := vec.map UInt16.ofNat, tokenid }

/-- `prices_addopretdecode`: the bet, the owner and the amount. -/
def pricesAddopretdecode : CScript → Option (Uint256 × CPubKey × Int) :=
  decodePrices [0x41] do
    let bettxid ← readUint256
    let pk ← CPubKey.read
    let amount ← Reader.int 8
    return (bettxid, pk, amount)

/-- The nonce at the end of a final op_return, which may be missing. -/
def readNonce : Reader Nat := do
  let atEnd ← Reader.eof
  if atEnd then return 0 else Reader.nat 4

/-- `prices_finalopretdecode`: the bet and its owner. The other fields have to be there. -/
def pricesFinalopretdecode : CScript → Option (Uint256 × CPubKey) :=
  decodePrices finalFuncids do
    let bettxid ← readUint256
    let pk ← CPubKey.read
    let _lastheight ← Reader.int 4
    let _costbasis ← Reader.int 8
    let _lastprice ← Reader.int 8
    let _liquidationprice ← Reader.int 8
    let _equity ← Reader.int 8
    let _exitfee ← Reader.int 8
    let _nonce ← readNonce
    return (bettxid, pk)

/-- Read a byte of an op_return. -/
def opretByte (opret : List UInt8) (i : Nat) : Except Failure UInt8 :=
  match opret[i]? with
  | some b => .ok b
  | none => .error (.listOutOfBounds i)

/-! ## The environment -/

/-- What the prices contract reads besides transactions. -/
structure PricesEnv extends CCChainEnv where
  /-- `ASSETCHAINS_EARLYTXIDCONTRACT`. -/
  earlytxidcontract : Nat
  /-- `KOMODO_EARLYTXID`. -/
  earlytxid : Uint256
  /-- `KOMODO_EARLYTXID_SCRIPTPUB` before the validation. -/
  earlytxidScriptpub : CScript
  /-- `KOMODO_SNAPSHOT_INTERVAL`. -/
  snapshotInterval : Int

namespace PricesEnv

variable (env : PricesEnv)

/-- The script in the first op_return of some outputs, behind three bytes. -/
def scriptOfOpret : List CTxOut → Except Failure CScript
  | [] => .ok []
  | out :: rest => do
    let opcode ← opretByte out.scriptPubKey 0
    if opcode = 0x6a then
      if 3 ≤ out.scriptPubKey.length then return out.scriptPubKey.drop 3
      else throw (.listOutOfBounds 3)
    else scriptOfOpret rest

/-- `GetKomodoEarlytxidScriptPub`. The script stays empty when the node is told to stop. -/
def getKomodoEarlytxidScriptPub : Except Failure CScript :=
  if env.earlytxid = 0 then .ok []
  else if env.earlytxidcontract = evalPrices.toNat ∧ env.snapshotInterval = 0 then .ok []
  else if env.height < 100 then .ok []
  else match env.getTransaction env.earlytxid with
    | none => .ok []
    | some tx => match env.txHeight env.earlytxid with
      | none => .error .nullPointer
      | some height => if height < 100 then scriptOfOpret tx.vout else .ok []

/-- The script of the fees. -/
def feeScript : Except Failure CScript :=
  if env.earlytxidcontract = evalPrices.toNat ∧ env.earlytxidScriptpub = [] then
    env.getKomodoEarlytxidScriptPub
  else .ok env.earlytxidScriptpub

/-- `MakeCC1vout` makes the output. -/
def isCC1vout (out : CTxOut) (pk : CPubKey) : Bool := env.cc1 evalPrices pk == out.scriptPubKey

/-! ## Parts of the validation -/

/-- One iteration of `TotalPubkeyNormalInputs`. -/
def pubkeyNormalInput (pubkey : CPubKey) (txin : CTxIn) : Except Failure Int :=
  if env.isCCInput txin.scriptSig then .ok 0
  else match env.getTransaction txin.prevout.hash with
    | none => .ok 0
    | some vintx => do
      let out ← vintx.spent txin.prevout.n.toNat
      return if env.paysPubkey pubkey out.scriptPubKey then out.nValue else 0

/-- `TotalPubkeyNormalInputs` with its reads. -/
def totalPubkeyNormalInputs (tx : CTransaction) (pubkey : CPubKey) : Except Failure Int := do
  let values ← tx.vin.mapM (env.pubkeyNormalInput pubkey)
  return values.sum

/-- What the condition outputs of a transaction hold. -/
def ccOutputs (tx : CTransaction) : Int :=
  ((tx.vout.filter fun out => CScript.isPayToCryptoCondition out.scriptPubKey).map
    CTxOut.nValue).sum

/-- The outputs of a bet. -/
def checkBetVouts (bet : BetOpret) (feeScript : CScript) (bettx : CTransaction) :
    Except Failure Unit := do
  let vout0 ← bettx.spent 0
  require (env.isCC1vout vout0 bet.pk)
    (.invalid "cannot validate vout0 in bet tx with pk from opreturn")
  let vout1 ← bettx.spent 1
  require (env.isCC1vout vout1 (env.unspendable evalPrices))
    (.invalid "cannot validate vout1 in bet tx with global pk")
  let vout2 ← bettx.spent 2
  require (env.isCC1vout vout2 (env.unspendable evalPrices))
    (.invalid "cannot validate vout2 in bet tx with pk from opreturn")
  let vout4 ← bettx.spent 4
  require (vout4.scriptPubKey == feeScript) (.invalid "the fee was paid to wrong address.")
  require (vout2.nValue == pricesSubrevsharefee bet.amount)
    (.invalid "invalid position size in the opreturn")

/-- `ValidateBetTx`. -/
def validateBetTx (bettx : CTransaction) : Except Failure Unit := do
  let feeScript ← env.feeScript
  require (decide (6 ≤ bettx.vout.length) && decide (bettx.vout.length ≤ 7))
    (.invalid "incorrect vout number for bet tx")
  match bettx.vout.getLast?.bind fun out => pricesBetopretdecode out.scriptPubKey with
  | none => .error (.invalid "cannot decode opreturn for bet tx")
  | some bet => do
    env.checkBetVouts bet feeScript bettx
    let normalInputs ← env.totalPubkeyNormalInputs bettx bet.pk
    require (decide (ccOutputs bettx ≤ normalInputs))
      (.invalid "bettx normal inputs not signed with pubkey in opret")
    require (decide (-pricesMaxleverage ≤ bet.leverage) &&
      decide (bet.leverage ≤ pricesMaxleverage))
      (.invalid "invalid leverage")

/-- `ValidateAddFundingTx`. -/
def validateAddFundingTx (addfundingtx vintx : CTransaction) : Except Failure Unit := do
  let feeScript ← env.feeScript
  require (decide (4 ≤ addfundingtx.vout.length) && decide (addfundingtx.vout.length ≤ 5))
    (.invalid "incorrect vout number for add funding tx")
  match addfundingtx.vout.getLast?.bind fun out => pricesAddopretdecode out.scriptPubKey with
  | none => .error (.invalid "cannot decode opreturn for add funding tx")
  | some (bettxid, pk, amount) => do
    let vintxFuncId := (pricesCheckOpret vintx).1
    require (vintxFuncId == 0x41 || vintxFuncId == 0x42) (.invalid "incorrect vintx funcid")
    require (vintxFuncId != 0x42 || vintx.hash == bettxid)
      (.invalid "incorrect bet txid in opreturn")
    let vout0 ← addfundingtx.out 0
    require (env.isCC1vout vout0 pk)
      (.invalid "cannot validate vout0 in add funding tx with pk from opreturn")
    let vout1 ← addfundingtx.out 1
    require (env.isCC1vout vout1 (env.unspendable evalPrices))
      (.invalid "cannot validate vout1 in add funding tx with global pk")
    let vout2 ← addfundingtx.out 2
    require (vout2.scriptPubKey == feeScript) (.invalid "the fee was paid to wrong address.")
    require (vout1.nValue == pricesSubrevsharefee amount)
      (.invalid "invalid bet position size in the opreturn")

/-- `ValidateFinalTx`. -/
def validateFinalTx (finaltx bettx : CTransaction) : Except Failure Unit := do
  require (decide (3 ≤ finaltx.vout.length) && decide (finaltx.vout.length ≤ 4))
    (.invalid "incorrect vout number for final tx")
  match finaltx.vout.getLast?.bind fun out => pricesFinalopretdecode out.scriptPubKey with
  | none => .error (.invalid "cannot decode opreturn for final tx")
  | some (bettxid, pk) => do
    require (bettx.hash == bettxid) (.invalid "incorrect bettx id")
    let vout0 ← finaltx.out 0
    require (vout0.scriptPubKey == CScript.payToPubkey pk)
      (.invalid "cannot validate vout0 in final tx with pk from opreturn")
    if finaltx.vout.length = 3 then do
      let vout1 ← finaltx.out 1
      require (env.isCC1vout vout1 (env.unspendable evalPrices))
        (.invalid "cannot validate vout1 in final tx with global pk")
    else .ok ()

/-! ## Validation -/

/-- The first condition input: the number of the output it spends, the transaction of that
output and its op_return. -/
structure FirstVin where
  /-- `prevCCoutN`. -/
  prevCCoutN : UInt32
  /-- `firstVinTx`. -/
  firstVinTx : CTransaction
  /-- `firstVinTxOpret`. -/
  firstVinTxOpret : List UInt8

/-- The loop over the inputs. What is found wrong there is only logged. -/
def findFirstVin (funcId : UInt8) : List CTxIn → Option FirstVin → Except Failure (Option FirstVin)
  | [], first => .ok first
  | vin :: rest, first =>
    if env.isMyVin evalPrices vin.scriptSig then
      match env.getTransaction vin.prevout.hash with
      | none => .error (.invalid "cannot load vintx")
      | some vintx => do
        let vintxOpret := (pricesCheckOpret vintx).2
        if funcId ∉ finalFuncids then
          let _ ← opretByte vintxOpret 1
        findFirstVin funcId rest (first.or (some ⟨vin.prevout.n, vintx, vintxOpret⟩))
    else findFirstVin funcId rest first

/-- The cases of `PricesValidate`. -/
def pricesCase (funcId : UInt8) (first : FirstVin) (tx : CTransaction) : Except Failure Unit :=
  if funcId = 0x42 then .error (.invalid "unexpected validate for bet funcid")
  else if funcId = 0x41 then do
    env.validateAddFundingTx tx first.firstVinTx
    let f ← opretByte first.firstVinTxOpret 1
    if f = 0x42 then env.validateBetTx first.firstVinTx
    require (first.prevCCoutN == 0) (.invalid "incorrect vintx vout to spend")
  else if funcId ∈ finalFuncids then do
    env.validateFinalTx tx first.firstVinTx
    env.validateBetTx first.firstVinTx
    require (first.prevCCoutN == 1) (.invalid "incorrect vout to spend")
  else .error (.invalid "invalid funcid")

/-- `PricesValidate`. -/
def pricesValidate (tx : CTransaction) : Except Failure Unit :=
  if env.assetchainsSymbol = "REKT0" ∧ env.height < 5851 then .ok ()
  else do
    let funcId := (pricesCheckOpret tx).1
    require (funcId != 0) (.invalid "tx has no prices opreturn")
    match ← env.findFirstVin funcId tx.vin none with
    | none => .error (.invalid "prices cc vin not found")
    | some first => env.pricesCase funcId first tx

end PricesEnv

end IndexChain.Prices
