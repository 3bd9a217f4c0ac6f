import IndexChain.Models.CC.Contract

/-!
# The payments contract

`PaymentsValidate` of `cc/payments.cpp`. A plan collects funds in an address of its
own; a release pays them out by the plan's allocations, a merge gathers them in one
output. Both are told apart by the op_return that is attached to output 0.
-/

namespace IndexChain

open IndexChain.Core

/-- `EVAL_PAYMENTS`. -/
def evalPayments : UInt8 := 0xf0

/-- `PAYMENTS_TXFEE`. -/
def paymentsTxfee : Int := 10000

/-- `PAYMENTS_MERGEOFSET`. -/
def paymentsMergeofset : Int := 60

/-! ## Values -/

/-- What a transaction takes from the transparent pool besides its outputs. -/
def CTransaction.shieldedValueOut (tx : CTransaction) : Int :=
  (if tx.valueBalance ≤ 0 then -tx.valueBalance else 0) + (tx.vjoinsplit.map (·.vpubOld)).sum

/-- `GetValueOut`. -/
def CTransaction.getValueOut (tx : CTransaction) : Int :=
  (tx.vout.map CTxOut.nValue).sum + tx.shieldedValueOut

/-- `GetShieldedValueIn`. -/
def CTransaction.getShieldedValueIn (tx : CTransaction) : Int :=
  (if 0 ≤ tx.valueBalance then tx.valueBalance else 0) + (tx.vjoinsplit.map (·.vpubNew)).sum

/-- `mpz_get_si`. -/
def mpzGetSi (z : Int) : Int :=
  if 0 ≤ z then z % 2 ^ 63 else -1 - (-z - 1) % 2 ^ 63

/-! ## Op_returns -/

/-- A payments op_return with a function and its fields. -/
def decodePayments {α : Type} (funcid : UInt8) (fields : Reader α) (scriptPubKey : CScript) :
    Option α :=
  let vopret := CScript.getOpReturnData scriptPubKey
  if 2 < vopret.length then
    match Reader.unmarshal (do
      let e ← Reader.byte
      let f ← Reader.byte
      let a ← fields
      return (e, f, a)) vopret with
    | some (e, f, a) => if e = evalPayments ∧ f = funcid then some a else none
    | none => none
  else none

/-- `DecodePaymentsTxidOpRet`: allocation, script and op_return. -/
def decodePaymentsTxidOpRet : CScript → Option (Int × List UInt8 × List UInt8) :=
  decodePayments 0x54 do
    let allocation ← Reader.int 8
    let destscriptPubKey ← Reader.vector
    let destopret ← Reader.vector
    return (allocation, destscriptPubKey, destopret)

/-- `DecodePaymentsFundOpRet`. -/
def decodePaymentsFundOpRet : CScript → Option Uint256 :=
  decodePayments 0x46 readUint256

/-- `DecodePaymentsMergeOpRet`. -/
def decodePaymentsMergeOpRet : CScript → Option Uint256 :=
  decodePayments 0x4d readUint256

/-- `DecodePaymentsReleaseOpRet`: plan and amount. -/
def decodePaymentsReleaseOpRet : CScript → Option (Uint256 × Int) :=
  decodePayments 0x52 do
    let checktxid ← readUint256
    let amountReleased ← Reader.int 8
    return (checktxid, amountReleased)

/-- Read a vector of values. -/
def readVector {α : Type} (r : Reader α) : Reader (List α) := do
  let n ← Reader.compactSize
  Reader.repeated r n

/-- `DecodePaymentsOpRet`: locked blocks, minimal release, total and allocations. -/
def decodePaymentsOpRet (scriptPubKey : CScript) : Option (Int × Int × Int × List Uint256) :=
  (decodePayments 0x43 (do
    let lockedblocks ← Reader.int 4
    let minrelease ← Reader.int 4
    let totalallocations ← Reader.int 8
    let txidoprets ← readVector readUint256
    return (lockedblocks, minrelease, totalallocations, txidoprets)) scriptPubKey).filter
    fun r => decide (1 < r.2.2.2.length)

/-- The part of a snapshot plan that both kinds share. -/
structure SnapshotFields where
  /-- The least amount that is paid. -/
  minimum : Int
  /-- The last rank that is paid. -/
  top : Int
  /-- The first rank that is paid. -/
  bottom : Int
  /-- Everyone is paid the same amount. -/
  fixedAmount : Int
  /-- Scripts that are not paid. -/
  excludeScriptPubKeys : List (List UInt8)
  deriving DecidableEq, Repr

/-- Read the shared fields of a snapshot plan. -/
def SnapshotFields.read : Reader SnapshotFields := do
  let minimum ← Reader.int 4
  let top ← Reader.int 4
  let bottom ← Reader.int 4
  let fixedAmount ← Reader.int 1
  let excludeScriptPubKeys ← readVector Reader.vector
  return { minimum, top, bottom, fixedAmount, excludeScriptPubKeys }

/-- `DecodePaymentsSnapsShotOpRet`: locked blocks, minimal release and fields. -/
def decodePaymentsSnapsShotOpRet : CScript → Option (Int × Int × SnapshotFields) :=
  decodePayments 0x53 do
    let lockedblocks ← Reader.int 4
    let minrelease ← Reader.int 4
    let fields ← SnapshotFields.read
    return (lockedblocks, minrelease, fields)

/-- `DecodePaymentsTokensOpRet`: locked blocks, fields and token. The minimal release is
not read. -/
def decodePaymentsTokensOpRet : CScript → Option (Int × SnapshotFields × Uint256) :=
  decodePayments 0x4f do
    let lockedblocks ← Reader.int 4
    let fields ← SnapshotFields.read
    let tokenid ← readUint256
    return (lockedblocks, fields, tokenid)

/-- The kinds of plans. -/
inductive PlanKind where
  /-- Fixed allocations, each in a transaction of its own. -/
  | allocations (txidoprets : List Uint256)
  /-- The richest addresses. -/
  | snapshot
  /-- The holders of a token. -/
  | tokens (tokenid : Uint256)
  deriving DecidableEq, Repr

/-- A payments plan. -/
structure PaymentsPlan extends SnapshotFields where
  /-- The kind. -/
  kind : PlanKind
  /-- How many blocks funds stay locked. -/
  lockedblocks : Int
  /-- The least amount of a release, in coins. -/
  minrelease : Int
  /-- The sum of the allocations. -/
  totalallocations : Int
  deriving DecidableEq, Repr

/-- The plan of an op_return. The decoders share their variables: what one that fails
has read stays, and `top` is not initialised before. -/
def decodePlan (top : Int) (scriptPubKey : CScript) : Option PaymentsPlan :=
  let vopret := CScript.getOpReturnData scriptPubKey
  let totalallocations := ((leNat ((vopret.drop 10).take 8) : Nat) : Int).bmod (256 ^ 8)
  let minrelease := ((leNat ((vopret.drop 6).take 4) : Nat) : Int).bmod (256 ^ 4)
  match decodePaymentsOpRet scriptPubKey with
  | some (lockedblocks, minrelease, totalallocations, txidoprets) =>
    some { kind := .allocations txidoprets, lockedblocks, minrelease, totalallocations, top
           minimum := 10000, bottom := 0, fixedAmount := 0, excludeScriptPubKeys := [] }
  | none => match decodePaymentsSnapsShotOpRet scriptPubKey with
    | some (lockedblocks, minrelease, fields) =>
      some { fields with kind := .snapshot, lockedblocks, minrelease, totalallocations }
    | none => (decodePaymentsTokensOpRet scriptPubKey).map fun (lockedblocks, fields, tokenid) =>
      { fields with kind := .tokens tokenid, lockedblocks, minrelease, totalallocations }

/-! ## The environment -/

/-- What the payments contract reads besides transactions. -/
structure PaymentsEnv extends CCChainEnv where
  /-- `GetCoinImportValue`. -/
  coinImportValue : CTransaction → Int
  /-- `KOMODO_SNAPSHOT_INTERVAL`. -/
  snapshotInterval : Int
  /-- `vAddressSnapshot` with the script of each address. -/
  addressSnapshot : List (Int × CScript)
  /-- The hash of the block at `lastSnapShotHeight`. -/
  snapshotHash : Uint256
  /-- What is in `top` before a plan is decoded. -/
  uninitTop : Int

namespace PaymentsEnv

variable (env : PaymentsEnv)

/-- `GetValueIn`. -/
def getValueIn (tx : CTransaction) : Int :=
  if tx.isCoinImport then env.coinImportValue tx
  else if tx.isCoinBase then 0
  else (tx.vin.map fun txin => ((env.spentOutput txin).map CTxOut.nValue).getD 0).sum +
    tx.getShieldedValueIn

/-- The fee of a transaction. -/
def actualTxfee (tx : CTransaction) : Int := env.getValueIn tx - tx.getValueOut

/-- `CheckTxFee`. The comparison is between unsigned numbers. -/
def checkTxFee (tx : CTransaction) (txfee : Int) : Bool :=
  decide (0 ≤ env.actualTxfee tx) && decide (env.actualTxfee tx ≤ txfee)

/-- `IsPaymentsvout`: the value of an output and the op_return attached to it. An empty
address matches any. -/
def isPaymentsvout (out : CTxOut) (cmpaddr : Address) : Int × CScript :=
  match CScript.getCCopret out.scriptPubKey with
  | none => (0, [])
  | some ccopret => match env.scriptAddress out.scriptPubKey with
    | none => (0, ccopret)
    | some destaddr => if cmpaddr = [] ∨ destaddr = cmpaddr then (out.nValue, ccopret)
      else (0, ccopret)

/-- `CCtxidaddr`. -/
def ccTxidPk (txid : Uint256) : CPubKey := CPubKey.ofBytes (0x02 :: leBytes 32 txid.toNat)

/-- The address of a plan. -/
def planAddr (createtxid : Uint256) : Address :=
  env.getCCaddress1of2 evalPayments (env.unspendable evalPayments) (ccTxidPk createtxid)

/-! ## Releases -/

/-- Who is paid and how much of the total. -/
structure Allocations where
  /-- The scripts, each with its share. -/
  shares : List (CScript × Int)
  /-- What the shares are parts of. -/
  total : Int

/-- The transaction of an allocation; one that is missing or malformed is skipped. -/
def allocationOf (txidopret : Uint256) : Option (Int × List UInt8 × List UInt8) :=
  (env.getTransaction txidopret).bind fun tx0 =>
    if 1 < tx0.vout.length then
      tx0.vout.getLast?.bind fun out => decodePaymentsTxidOpRet out.scriptPubKey
    else none

/-- The allocations of a plan with fixed allocations. `fHasOpret` is never set, so an
allocation with an op_return is refused. -/
def fixedAllocations (txidoprets : List Uint256) (totalallocations : Int) :
    Except Failure Allocations := do
  let found := txidoprets.filterMap env.allocationOf
  require (found.all fun a => a.2.2.isEmpty) (.invalid "missing opret in payments release")
  require (totalallocations == toInt64 (found.map fun a => a.1).sum)
    (.invalid "allocation missmatch")
  return { shares := found.map fun a => (a.2.1, a.1), total := totalallocations }

/-- `payments_game`: new values of `top` and `bottom`. -/
def paymentsGame : Int × Int :=
  let x := env.snapshotHash.toNat
  let bottom := if x % 256 % 50 = 0 then 1 else x % 256 % 50
  let top := if x / 256 % 256 % 100 < 50 then x / 256 % 256 % 100 + 50 else x / 256 % 256 % 100
  (toInt32 (env.addressSnapshot.length * top / 100 : Nat),
    toInt32 (env.addressSnapshot.length * bottom / 100 : Nat))

/-- The loop of `payments_getallocations` with the number of addresses taken so far. -/
def snapshotShares (top bottom : Int) (exclude : List (List UInt8)) :
    List (Int × CScript) → Int → List (CScript × Int)
  | [], _ => []
  | (amount, script) :: rest, i =>
    let skip := exclude.contains script
    let i' := if skip then i else i + 1
    let tail := if i' + bottom = top then [] else snapshotShares top bottom exclude rest i'
    if skip then tail else (script, amount) :: tail

/-- `payments_getallocations`. A negative `bottom` is beyond the end of the snapshot. -/
def paymentsGetallocations (top bottom : Int) (exclude : List (List UInt8)) : Allocations :=
  let shares := if bottom < 0 then [] else
    snapshotShares top bottom exclude (env.addressSnapshot.drop bottom.toNat) 0
  { shares := shares, total := (shares.map Prod.snd).sum }

/-- The amount of a fixed payment, when the plan pays everyone the same. -/
structure ReleasePlan extends Allocations where
  /-- The number of addresses that share the amount. -/
  fixedShare : Option Int

/-- Everything a release pays, by the kind of the plan. -/
def releasePlan (plan : PaymentsPlan) : Except Failure ReleasePlan :=
  match plan.kind with
  | .allocations txidoprets => do
    let a ← env.fixedAllocations txidoprets plan.totalallocations
    return { a with fixedShare := none }
  | .snapshot => do
    require (env.snapshotInterval != 0) (.invalid "snapshots not activated on this chain")
    require (!env.addressSnapshot.isEmpty) (.invalid "need first snapshot")
    require (decide (plan.top ≤ 3999)) (.invalid "transaction too big")
    let (top, bottom) := if plan.fixedAmount = 7 then env.paymentsGame else (plan.top, plan.bottom)
    let a := env.paymentsGetallocations top bottom plan.excludeScriptPubKeys
    return { a with fixedShare := if plan.fixedAmount = 0 then none
                                  else some (toInt32 (top - bottom)) }
  | .tokens _ => do
    require (env.snapshotInterval != 0) (.invalid "snapshots not activated on this chain")
    require (!env.addressSnapshot.isEmpty) (.invalid "need first snapshot")
    require (decide (plan.top ≤ 3999)) (.invalid "transaction too big")
    .error (.invalid "tokens not yet implemented")

/-- The share of an allocation. -/
def shareOf (amountReleased allocation total : Int) : Except Failure Int :=
  if total = 0 then .error .divisionByZero
  else .ok (mpzGetSi ((allocation * amountReleased).tdiv total))

/-- What the next output of a release has to pay. -/
def expectedAmount (r : ReleasePlan) (amountReleased allocation : Int) : Except Failure Int :=
  match r.fixedShare with
  | some range => do
    require (decide (0 < range)) (.invalid "top/bottom range is illegal")
    return amountReleased.tdiv range
  | none => shareOf amountReleased allocation r.total

/-- The loop over the outputs of a release; the result is the number of outputs. -/
def checkReleaseVouts (r : ReleasePlan) (amountReleased minimum : Int) :
    List CTxOut → Nat → Except Failure Nat
  | [], n => .ok n
  | out :: rest, n => match r.shares[n]? with
    | none => .error (.listOutOfBounds n)
    | some (script, allocation) => do
      require (script == out.scriptPubKey) (.invalid "pays wrong address")
      let test ← expectedAmount r amountReleased allocation
      require (test == out.nValue) (.invalid "amounts do not match")
      require (decide (minimum ≤ test)) (.invalid "under minimum size")
      checkReleaseVouts r amountReleased minimum rest (n + 1)

/-- The share after the next one must not be above the minimum. -/
def checkNextShare (r : ReleasePlan) (amountReleased minimum : Int) (n : Nat) :
    Except Failure Unit :=
  if n < r.shares.length then
    match r.shares[n + 1]? with
    | none => .error (.listOutOfBounds (n + 1))
    | some (_, allocation) => do
      let test ← shareOf amountReleased allocation r.total
      require (decide (test ≤ minimum)) (.invalid "next allocation was not under minimum")
  else .ok ()

/-- The outputs of a release. -/
def checkRelease (plan : PaymentsPlan) (amountReleased : Int) (tx : CTransaction) :
    Except Failure Unit := do
  require (decide (plan.minrelease * COIN ≤ amountReleased)) (.invalid "amount is too small")
  let r ← env.releasePlan plan
  require (!r.shares.isEmpty) (.invalid "missing data cannot validate")
  let n ← checkReleaseVouts r amountReleased plan.minimum tx.vout.tail 0
  checkNextShare r amountReleased plan.minimum n

/-! ## Inputs -/

/-- `payments_lockedblocks`. -/
def paymentsLockedblocks (txid : Uint256) (lockedblocks : Int) : Except Failure Unit :=
  match env.txHeight txid with
  | none => .error .nullPointer
  | some ht => require (decide (toInt32 (ht + lockedblocks) ≤ env.height))
      (.invalid "vin not elegible")

/-- The blocks that are added to the lock of an input, when it belongs to the plan: by its
op_return in the global address, or by its address. -/
def mergeOffset (createtxid : Uint256) (fIsMerge : Bool) (out : CTxOut) : Except Failure Int :=
  let globalOut := env.isPaymentsvout out (env.unspendableCCaddr evalPayments)
  let planOut := env.isPaymentsvout out (env.planAddr createtxid)
  if globalOut.1 ≠ 0 then
    if 2 ≤ globalOut.2.length ∧ decodePaymentsFundOpRet globalOut.2 = some createtxid then .ok 0
    else .error (.invalid "vin is not paymentsCC type")
  else if planOut.1 ≠ 0 then
    .ok (if fIsMerge ∧ 2 < planOut.2.length ∧ (decodePaymentsMergeOpRet planOut.2).isSome
      then paymentsMergeofset else 0)
  else .error (.invalid "utxo comes from incorrect address")

/-- One iteration of the loop over the inputs; the result tells whether it is dust. -/
def checkPaymentsVin (createtxid : Uint256) (lockedblocks : Int) (fIsMerge : Bool) (txin : CTxIn) :
    Except Failure Bool :=
  match env.getTransaction txin.prevout.hash with
  | none => .error (.invalid "cant get vin transaction")
  | some txinTx => do
    let out ← txinTx.spent txin.prevout.n.toNat
    let mergeoffset ← env.mergeOffset createtxid fIsMerge out
    env.paymentsLockedblocks txin.prevout.hash (toInt32 (lockedblocks + mergeoffset))
    return fIsMerge && decide (out.nValue < COIN)

/-- The loop over the inputs; the result is the number of dust inputs. -/
def checkPaymentsVins (createtxid : Uint256) (lockedblocks : Int) (fIsMerge : Bool) :
    List CTxIn → Except Failure Nat
  | [] => .ok 0
  | txin :: rest => do
    let isDust ← env.checkPaymentsVin createtxid lockedblocks fIsMerge txin
    let dust ← checkPaymentsVins createtxid lockedblocks fIsMerge rest
    return (if isDust then 1 else 0) + dust

/-! ## Validation -/

/-- What output 0 says about a transaction: the plan, and the amount of a release. -/
def decodeChange (tx : CTransaction) : Except Failure (Uint256 × Option Int) := do
  let vout0 ← tx.out 0
  let change := env.isPaymentsvout vout0 []
  require (change.1 != 0 && decide (2 < change.2.length)) (.invalid "could not decode ccopret")
  match decodePaymentsMergeOpRet change.2 with
  | some createtxid => .ok (createtxid, none)
  | none => match decodePaymentsReleaseOpRet change.2 with
    | some (createtxid, amountReleased) => .ok (createtxid, some amountReleased)
    | none => .error (.invalid "could not decode ccopret")

/-- The plan of a transaction. -/
def planOf (createtxid : Uint256) : Except Failure PaymentsPlan :=
  match env.getTransaction createtxid with
  | none => .error (.invalid "could not get contract transaction")
  | some plantx => match plantx.vout.getLast? with
    | none => .error (.invalid "could not get contract transaction")
    | some out => match decodePlan env.uninitTop out.scriptPubKey with
      | none => .error (.invalid "cannot decode create transaction")
      | some plan => .ok plan

/-- The checks that merges and releases share, before their outputs and inputs. -/
def checkPlan (createtxid : Uint256) (plan : PaymentsPlan) (tx : CTransaction) :
    Except Failure Unit := do
  require (decide (0 ≤ plan.lockedblocks) && decide (0 ≤ plan.minrelease) &&
    (decide (0 < plan.totalallocations) || decide (0 < plan.top))) (.invalid "negative values")
  require (decide (10000 ≤ plan.minimum)) (.invalid "minimum must be over 10000")
  require (env.checkTxFee tx (paymentsTxfee + 1)) (.invalid "txfee is too high")
  let vout0 ← tx.out 0
  require ((env.isPaymentsvout vout0 (env.planAddr createtxid)).1 != 0)
    (.invalid "change pays wrong address")

/-- The outputs: those of a merge are not looked at. -/
def checkVouts (plan : PaymentsPlan) (amountReleased : Option Int) (tx : CTransaction) :
    Except Failure Unit :=
  match amountReleased with
  | none => .ok ()
  | some amountReleased => env.checkRelease plan amountReleased tx

/-- A merge needs two inputs, and more than one that is not dust. -/
def checkMergeVins (tx : CTransaction) (dust : Nat) (fIsMerge : Bool) : Except Failure Unit := do
  require (!fIsMerge || decide (2 ≤ tx.vin.length))
    (.invalid "must have at least 2 vins to carry out merge")
  require (!fIsMerge || tx.vin.length != dust + 1) (.invalid "cannot merge only dust")

/-- `PaymentsValidate`. -/
def paymentsValidate (tx : CTransaction) : Except Failure Unit := do
  let (createtxid, amountReleased) ← env.decodeChange tx
  let plan ← env.planOf createtxid
  env.checkPlan createtxid plan tx
  env.checkVouts plan amountReleased tx
  let dust ← env.checkPaymentsVins createtxid plan.lockedblocks amountReleased.isNone tx.vin
  checkMergeVins tx dust amountReleased.isNone

end PaymentsEnv

end IndexChain
