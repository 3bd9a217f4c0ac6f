import IndexChain.Models.CC.Contract

/-!
# The tokens contract

`TokensValidate` of `cc/CCtokens.cpp` with the functions it rests on. An output is
recognised as a token by rebuilding the scripts that the op_return allows;
`goDeeper` also re-validates the amounts of the transaction it belongs to, one
level deep.
-/

namespace IndexChain

open IndexChain.Core

/-- `EVAL_TOKENS`. -/
def evalTokens : UInt8 := 0xf2

/-- `EVAL_ASSETS`. -/
def evalAssets : UInt8 := 0xe3

/-- The payloads of other contracts in a token op_return, each with its id. -/
abbrev Oprets := List (UInt8 × List UInt8)

/-- `GetOpretBlob`: the first payload with an id; empty when there is none. -/
def getOpretBlob (oprets : Oprets) (id : UInt8) : List UInt8 :=
  match oprets.find? fun o => o.1 == id with
  | some o => o.2
  | none => []

/-- `OPRETID_NONFUNGIBLEDATA`. -/
def opretidNonfungibledata : UInt8 := 0x11

/-- `OPRETID_ASSETSDATA`. -/
def opretidAssetsdata : UInt8 := 0x12

/-- `OPRETID_ROGUEGAMEDATA`. -/
def opretidRoguegamedata : UInt8 := 0x16

/-- `OPRETID_FIRSTNONCCDATA`. -/
def opretidFirstnonccdata : UInt8 := 0x80

/-! ## Op_returns -/

/-- The payloads up to the end of an op_return; an id at its very end is dropped. -/
def readOprets : Nat → Reader Oprets
  | 0 => return []
  | fuel + 1 => do
    if ← Reader.eof then return []
    let opretId ← Reader.byte
    if ← Reader.eof then return []
    let vblob ← Reader.vector
    let rest ← readOprets fuel
    return (opretId, vblob) :: rest

/-- What a token creation op_return says. -/
structure TokenCreateOpret where
  /-- The creator's key. -/
  origpubkey : List UInt8
  /-- The name. -/
  name : List UInt8
  /-- The description. -/
  description : List UInt8
  /-- The payloads. -/
  oprets : Oprets

/-- `DecodeTokenCreateOpRet`. -/
def decodeTokenCreateOpRet (scriptPubKey : CScript) : Option TokenCreateOpret :=
  let vopret := CScript.getOpReturnData scriptPubKey
  if 2 < vopret.length ∧ vopret[0]? = some evalTokens ∧ vopret[1]? = some 0x63 then
    Reader.unmarshal (do
      let _ ← Reader.bytes 2
      let origpubkey ← Reader.vector
      let name ← Reader.vector
      let description ← Reader.vector
      let oprets ← readOprets vopret.length
      return { origpubkey, name, description, oprets }) vopret
  else none

/-- The functions of a token op_return. -/
inductive TokenFuncId where
  | create
  | transfer
  deriving DecidableEq, Repr

/-- What a token op_return says. -/
structure TokenOpret where
  /-- Creation or transfer. -/
  funcid : TokenFuncId
  /-- The token of a transfer; null for a creation. -/
  tokenid : Uint256
  /-- The valid keys of the token outputs. -/
  voutPubkeys : List CPubKey
  /-- The payloads. -/
  oprets : Oprets
  deriving DecidableEq, Repr

/-- The head of a transfer op_return: token, number of keys and keys. -/
def readTransferHead : Reader (Uint256 × UInt8 × List CPubKey) := do
  let _ ← Reader.bytes 2
  let tokenid ← readUint256
  let ccType ← Reader.byte
  let pk1 ← if 1 ≤ ccType then CPubKey.read else pure []
  let pk2 ← if ccType = 2 then CPubKey.read else pure []
  return (tokenid, ccType, [pk1, pk2].filter CPubKey.isValid)

/-- Payloads of the rogue and assets contracts without an id. -/
def isOldstyle (data : List UInt8) : Bool :=
  (data[0]? == some 0x11 && (data[1]?.any ([0x52, 0x48, 0x51, 0x4b, 0x47].contains ·))) ||
  (data[0]? == some evalAssets &&
    (data[1]?.any ([0x73, 0x62, 0x53, 0x42, 0x78, 0x6f].contains ·)))

/-- A transfer op_return in the old style. -/
def decodeOldstyle (vopret : List UInt8) : Option ((Uint256 × UInt8 × List CPubKey) × Oprets) :=
  match Reader.unmarshal (do
    let head ← readTransferHead
    if ← Reader.eof then return (head, ([] : List UInt8))
    let data ← Reader.vector
    return (head, data)) vopret with
  | none => none
  | some (head, data) =>
    if isOldstyle data then
      some (head, [(if data[0]? = some 0x11 then opretidRoguegamedata else opretidAssetsdata,
        data)])
    else none

/-- A transfer op_return with payload ids. -/
def decodeNewstyle (vopret : List UInt8) : Option ((Uint256 × UInt8 × List CPubKey) × Oprets) :=
  Reader.unmarshal (do
    let head ← readTransferHead
    let oprets ← readOprets vopret.length
    return (head, oprets)) vopret

/-- `DecodeTokenOpRet`. -/
def decodeTokenOpRet (scriptPubKey : CScript) : Option TokenOpret :=
  let vopret := CScript.getOpReturnData scriptPubKey
  if 2 < vopret.length ∧ vopret[0]? = some evalTokens then
    if vopret[1]? = some 0x63 then
      (decodeTokenCreateOpRet scriptPubKey).map fun c =>
        { funcid := .create, tokenid := 0, voutPubkeys := [], oprets := c.oprets }
    else if vopret[1]? = some 0x74 then
      match (decodeOldstyle vopret).orElse fun _ => decodeNewstyle vopret with
      | some ((tokenid, ccType, voutPubkeys), oprets) =>
        if ccType ≤ 2 then
          some { funcid := .transfer, tokenid := revuint256 tokenid, voutPubkeys := voutPubkeys
                 oprets := oprets }
        else none
      | none => none
    else none
  else none

/-- The op_return of a token transaction is its last output. -/
def tokenOpretOf (tx : CTransaction) : Option TokenOpret :=
  tx.vout.getLast?.bind fun out => decodeTokenOpRet out.scriptPubKey

/-- `ValidateTokenOpret`: the op_return, when it is about the given token. -/
def validateTokenOpret (tx : CTransaction) (tokenid : Uint256) : Option TokenOpret :=
  (tokenOpretOf tx).filter fun opret => tokenid != 0 && match opret.funcid with
    | .create => tokenid == tx.hash
    | .transfer => tokenid == opret.tokenid

/-- `FilterOutNonCCOprets`: the first payload of a contract. -/
def filterOutNonCCOprets (oprets : Oprets) : List UInt8 :=
  match oprets.find? fun o => o.1 < opretidFirstnonccdata with
  | some o => o.2
  | none => []

/-- The eval codes in the outputs of a token transaction. -/
structure EvalCodes where
  /-- The first code besides `EVAL_TOKENS`. -/
  evalCode1 : UInt8
  /-- The second code, or 0. -/
  evalCode2 : UInt8
  /-- The code of a non-fungible token, or 0. -/
  nonfungible : UInt8

namespace CCLib

variable (lib : CCLib)

/-! ## Token scripts -/

/-- An input fulfils a condition of the tokens contract. -/
def isTokenVin (txin : CTxIn) : Bool := lib.isMyVin evalTokens txin.scriptSig

/-- The loop of `ExtractTokensCCVinPubkeys`. The key of an input without one is left
over from the input before. -/
def extractLoop : List CTxIn → CPubKey → List CPubKey
  | [], _ => []
  | txin :: rest, pubkey =>
    if lib.isTokenVin txin then
      match lib.condition txin.scriptSig with
      | none => extractLoop rest pubkey
      | some found =>
        let pubkey := found.getD pubkey
        if pubkey.isValid then pubkey :: extractLoop rest pubkey else extractLoop rest pubkey
    else extractLoop rest pubkey

/-- `ExtractTokensCCVinPubkeys`. -/
def extractTokensCCVinPubkeys (tx : CTransaction) : List CPubKey :=
  lib.extractLoop tx.vin []

/-- `FilterOutTokensUnspendablePk`. -/
def filterOutTokensUnspendablePk (pubkeys : List CPubKey) : List CPubKey :=
  pubkeys.filter fun pk => pk != lib.unspendable evalTokens

/-- The scripts of an output with both codes, in either order. -/
def threeEval (c : EvalCodes) (script : UInt8 → UInt8 → CScript) : List CScript :=
  script c.evalCode1 c.evalCode2 :: if c.evalCode2 ≠ 0 then [script c.evalCode2 c.evalCode1] else []

/-- The scripts of an output with one code besides `EVAL_TOKENS`, or none. -/
def dualEval (c : EvalCodes) (pk : CPubKey) : List CScript :=
  (if c.nonfungible = 0 then [lib.cc1 evalTokens pk] else []) ++
  (if c.evalCode1 ≠ 0 then [lib.tokensCC1 c.evalCode1 0 pk] else []) ++
  (if c.evalCode2 ≠ 0 then [lib.tokensCC1 c.evalCode2 0 pk] else [])

/-- The scripts for the keys of the op_return. -/
def voutScripts (c : EvalCodes) : List CPubKey → List CScript
  | [pk] => threeEval c (fun e1 e2 => lib.tokensCC1 e1 e2 pk) ++ lib.dualEval c pk
  | [pk0, pk1] => threeEval c (fun e1 e2 => lib.tokensCC1 e1 e2 pk0) ++
      threeEval c (fun e1 e2 => lib.tokensCC1of2 e1 e2 pk0 pk1) ++
      threeEval c (fun e1 e2 => lib.tokensCC1 e1 e2 pk1) ++
      lib.dualEval c pk0 ++ lib.dualEval c pk1
  | _ => []

/-- The scripts of change to a key of the inputs. -/
def changeScripts (c : EvalCodes) (pk : CPubKey) : List CScript :=
  (if c.nonfungible = 0 then [lib.cc1 evalTokens pk] else []) ++
    threeEval c (fun e1 e2 => lib.tokensCC1 e1 e2 pk)

/-- `IsTokenMarkerVout`. -/
def isTokenMarkerVout (out : CTxOut) : Bool :=
  out.scriptPubKey == lib.cc1 evalTokens (lib.unspendable evalTokens)

/-- The value of the condition outputs of a token creation, without markers. -/
def createdOutputs (tx : CTransaction) : Int :=
  ((tx.vout.filter fun out => CScript.isPayToCryptoCondition out.scriptPubKey &&
    !lib.isTokenMarkerVout out).map CTxOut.nValue).sum

/-- The loop of `HasBurnedTokensvouts` over the condition outputs. A test output carries
the value of the output it was made for, and the list of them is never cleared. The sum
is the exact one. -/
def burnLoop (scripts : List CScript) : List (Int × CScript) → List CTxOut → Int
  | _, [] => 0
  | testVouts, out :: rest =>
    let testVouts := testVouts ++ scripts.map fun s => (out.nValue, s)
    (testVouts.countP fun t => t.1 == out.nValue && t.2 == out.scriptPubKey) * out.nValue +
      burnLoop scripts testVouts rest

end CCLib

namespace CCEnv

variable (env : CCEnv)

/-! ## Token outputs -/

/-- `GetNonfungibleData`. -/
def getNonfungibleData (tokenid : Uint256) : List UInt8 :=
  match (env.getTransaction tokenid).bind fun tx => tx.vout.getLast?.bind fun out =>
      decodeTokenCreateOpRet out.scriptPubKey with
  | some c => getOpretBlob c.oprets opretidNonfungibledata
  | none => []

/-- The eval codes that the op_return and the token ask for. -/
def evalCodes (oprets : Oprets) (tokenid : Uint256) : EvalCodes :=
  let nonfungible := (env.getNonfungibleData tokenid).headD 0
  let evalCode1 := (env.getNonfungibleData tokenid).headD evalTokens
  let evalCode2 := (filterOutNonCCOprets oprets).headD 0
  if evalCode1 = evalTokens ∧ evalCode2 ≠ 0 then
    { evalCode1 := evalCode2, evalCode2 := 0, nonfungible := nonfungible }
  else { evalCode1 := evalCode1, evalCode2 := evalCode2, nonfungible := nonfungible }

/-- The scripts that a transfer of a token allows for its outputs. -/
def testScripts (tx : CTransaction) (opret : TokenOpret) (tokenid : Uint256) : List CScript :=
  let c := env.evalCodes opret.oprets tokenid
  env.voutScripts c (env.filterOutTokensUnspendablePk opret.voutPubkeys) ++
    (env.filterOutTokensUnspendablePk (env.extractTokensCCVinPubkeys tx)).flatMap
      (env.changeScripts c)

/-- The outputs of a token creation count when its originator paid for them. -/
def isPaidCreation (tx : CTransaction) : Bool :=
  tx.isCoinImport ||
  match tx.vout.getLast?.bind fun out => decodeTokenCreateOpRet out.scriptPubKey with
  | none => false
  | some c => decide (env.createdOutputs tx ≤
      env.totalPubkeyNormalInputs tx (CPubKey.ofBytes c.origpubkey))

/-- The script and op_return checks of `IsTokensvout`. -/
def isTokenOutput (tx : CTransaction) (out : CTxOut) (tokenid : Uint256) : Bool :=
  match validateTokenOpret tx tokenid with
  | none => false
  | some opret => match opret.funcid with
    | .transfer => (env.testScripts tx opret tokenid).contains out.scriptPubKey
    | .create => env.isPaidCreation tx && !env.isTokenMarkerVout out

/-- `IsTokensvout` with `goDeeper = false`. -/
def isTokensvoutShallow (tx : CTransaction) (v : Nat) (tokenid : Uint256) : Int :=
  if v < tx.vout.length - 1 then
    match tx.vout[v]? with
    | none => 0
    | some out =>
      if CScript.isPayToCryptoCondition out.scriptPubKey && env.isTokenOutput tx out tokenid then
        out.nValue
      else 0
  else 0

/-- The transactions of all token inputs are found. -/
def vinTxsFound (tx : CTransaction) : Bool :=
  (tx.vin.filter env.isTokenVin).all fun txin => (env.getTransaction txin.prevout.hash).isSome

/-- What the token inputs add up to under a rule for the outputs they spend. -/
def inputSum (rule : CTransaction → Nat → Uint256 → Int) (tx : CTransaction)
    (tokenid : Uint256) : Int :=
  ((tx.vin.filter env.isTokenVin).map fun txin =>
    match env.getTransaction txin.prevout.hash with
    | some vinTx => rule vinTx txin.prevout.n.toNat tokenid
    | none => 0).sum

/-- What the outputs before the op_return add up to. -/
def outputSum (tx : CTransaction) (tokenid : Uint256) : Int :=
  ((List.range (tx.vout.length - 1)).map fun i => env.isTokensvoutShallow tx i tokenid).sum

/-- `TokensExactAmounts` with `goDeeper = false`. -/
def tokensExactAmountsShallow (tx : CTransaction) (tokenid : Uint256) : Bool :=
  env.vinTxsFound tx && env.inputSum env.isTokensvoutShallow tx tokenid == env.outputSum tx tokenid

/-- `IsTokensvout`. Only the token creation itself may have unequal amounts. -/
def isTokensvout (goDeeper : Bool) (tx : CTransaction) (v : Nat) (tokenid : Uint256) : Int :=
  if goDeeper && !env.tokensExactAmountsShallow tx tokenid && tokenid != tx.hash then 0
  else env.isTokensvoutShallow tx v tokenid

/-- `TokensExactAmounts`: the sums of the inputs and of the outputs, when the
transactions of the inputs are found. -/
def tokensExactAmounts (goDeeper : Bool) (tx : CTransaction) (tokenid : Uint256) :
    Option (Int × Int) :=
  if env.vinTxsFound tx then
    some (env.inputSum (env.isTokensvout goDeeper) tx tokenid, env.outputSum tx tokenid)
  else none

/-! ## Validation -/

/-- `CC_BURNPUBKEY`. -/
def ccBurnpubkey : CPubKey :=
  0x02 :: (List.replicate 16 [0xde, 0xad]).flatten

/-- What the loop of `HasBurnedTokensvouts` adds up, as an exact sum. -/
def countedValue (tx : CTransaction) (tokenid : Uint256) : Int :=
  match tokenOpretOf tx with
  | none => 0
  | some opret =>
    let c := env.evalCodes opret.oprets tokenid
    let scripts := env.cc1 evalTokens ccBurnpubkey ::
      CCLib.threeEval c (fun e1 e2 => env.tokensCC1 e1 e2 ccBurnpubkey)
    CCLib.burnLoop scripts [] (tx.vout.filter fun out =>
      CScript.isPayToCryptoCondition out.scriptPubKey)

/-- `HasBurnedTokensvouts`: the sum is an `int64_t` that wraps around. -/
def hasBurnedTokensvouts (tx : CTransaction) (tokenid : Uint256) : Int :=
  toInt64 (env.countedValue tx tokenid)

/-- An output for which `IsTokensvout` goes deeper. -/
def looksDeeper (vinTx : CTransaction) (v : Nat) : Bool :=
  decide (v < vinTx.vout.length - 1) &&
    (vinTx.vout[v]?.any fun out => CScript.isPayToCryptoCondition out.scriptPubKey)

/-- The transactions of the inputs' inputs are found where they are looked up: an
`eval->Invalid` in the recursion makes the transaction invalid whatever follows. -/
def deepVinTxsFound (tx : CTransaction) : Bool :=
  (tx.vin.filter env.isTokenVin).all fun txin =>
    match env.getTransaction txin.prevout.hash with
    | none => false
    | some vinTx => !looksDeeper vinTx txin.prevout.n.toNat || env.vinTxsFound vinTx

/-- Early blocks of one chain are exempt from validation. -/
def tokensExempt (height : Int) : Prop :=
  env.assetchainsSymbol = "ROGUE" ∧ height ≤ 12500

instance (height : Int) : Decidable (env.tokensExempt height) :=
  inferInstanceAs (Decidable (_ ∧ _))

/-- `TokensValidate` while the active chain has the given height. -/
def tokensValidate (height : Int) (tx : CTransaction) : Except String Unit :=
  if env.tokensExempt height then .ok ()
  else do
    require (!tx.vout.isEmpty) "no vouts"
    match tokenOpretOf tx with
    | none => .error "TokenValidate: invalid opreturn payload"
    | some opret => do
      require (env.getTransaction opret.tokenid).isSome "cant find token create txid"
      match opret.funcid with
      | .create => .error "incorrect token funcid"
      | .transfer => do
        require (opret.tokenid != 0) "illegal tokenid"
        require (env.deepVinTxsFound tx) "always should find vin tx, but didnt"
        match env.tokensExactAmounts true tx opret.tokenid with
        | none => .error "always should find vin tx, but didnt"
        | some (inputs, outputs) => do
          require (inputs == outputs) "tokens cc inputs != cc outputs"
          require (!(env.extractTokensCCVinPubkeys tx).contains (env.unspendable evalTokens) ||
            !decide (0 < env.hasBurnedTokensvouts tx opret.tokenid) ||
            !(env.getNonfungibleData opret.tokenid).isEmpty)
            "spending cc marker not supported for fungible tokens"
          require (inputs != 0) "no token inputs for transfer"

end CCEnv

end IndexChain
