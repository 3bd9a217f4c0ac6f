import IndexChain.Models.Coins.Connect
import IndexChain.Models.Primitives.Script

/-!
# Coin imports

`Eval::ImportCoin` of `cc/import.cpp` and the path from `ContextualCheckInputs` to
it. The decoders of import and burn transactions and the proof checks are read
from `ImportEnv`; none of them looks at the coins view.
-/

namespace IndexChain

open IndexChain.Core

/-- An import proof in serialized form. -/
abbrev ImportProof := List UInt8

/-- The fields of a burn op_return. -/
structure BurnData where
  /-- The chain the coins go to. -/
  targetSymbol : String
  /-- The currency id the coins go to. -/
  targetCcid : UInt32
  /-- The hash of the payouts. -/
  payoutsHash : Uint256
  /-- The raw proof. -/
  rawproof : List UInt8

/-- The decoders and proof checks that `ImportCoin` calls. -/
structure ImportEnv where
  /-- `ASSETCHAINS_SYMBOL`. -/
  assetchainsSymbol : String
  /-- `ASSETCHAINS_CC`. -/
  assetchainsCC : UInt32
  /-- Whether `Dispatch` has disabled the import eval code at a height. -/
  disabled : Nat → Bool
  /-- `UnmarshalImportTx`. -/
  unmarshalImportTx : CTransaction → Option (ImportProof × CTransaction × List CTxOut)
  /-- `MakeImportCoinTransaction`. -/
  makeImportCoinTransaction : ImportProof → CTransaction → List CTxOut → UInt32 → CTransaction
  /-- `UnmarshalBurnTx`. -/
  unmarshalBurnTx : CTransaction → Option BurnData
  /-- `SerializeHash(payouts)`. -/
  serializeHash : List CTxOut → Uint256
  /-- `CheckMigration`. -/
  checkMigration : CTransaction → CTransaction → List CTxOut → ImportProof → List UInt8 → Bool
  /-- The BEAM, CODA, PUBKEY and gateway checks for the id `0xffffffff`. -/
  checkExternalImport : CTransaction → CTransaction → List CTxOut → ImportProof → BurnData →
    Except String Unit
  /-- `ContextualCheckInputs` for transactions that are not imports. -/
  checkTxInputs : CCoinsView → CTransaction → CBlockIndex → Bool

namespace ImportEnv

variable (e : ImportEnv)

/-- `EVAL_IMPORTCOIN`. -/
def evalImportcoin : UInt8 := 0xe2

/-- The transparent value an import pays out. -/
def normalOut (tx : CTransaction) : Int :=
  ((tx.vout.filter fun o => !CScript.isPayToCryptoCondition o.scriptPubKey).map
    CTxOut.nValue).sum

/-- `Eval::ImportCoin` at a chain height. -/
def importCoin (height : Nat) (importTx : CTransaction) : Except String Unit :=
  if e.assetchainsSymbol = "CFEKDIMXY6" ∧ height ≤ 44693 then .ok ()
  else do
    require (decide (2 ≤ importTx.vout.length)) "too-few-vouts"
    match e.unmarshalImportTx importTx with
    | none => .error "invalid-params"
    | some (proof, burnTx, payouts) => do
      require ((e.makeImportCoinTransaction proof burnTx payouts importTx.nExpiryHeight).hash ==
        importTx.hash) "non-canonical"
      match e.unmarshalBurnTx burnTx, burnTx.vout.getLast? with
      | none, _ => .error "invalid-burn-tx"
      | some _, none => .error "invalid-burn-tx-no-vouts"
      | some burn, some last => do
        require (last.nValue != 0) "invalid-burn-amount"
        require (decide (normalOut importTx ≤ last.nValue) &&
          decide (last.nValue - 10000 ≤ normalOut importTx)) "payout-too-high-or-too-low"
        require (burn.payoutsHash == e.serializeHash payouts) "wrong-payouts"
        require (decide (100 ≤ burn.targetCcid.toNat)) "chain-not-fungible"
        if burn.targetCcid != 0xffffffff then do
          require (burn.targetCcid == e.assetchainsCC &&
            burn.targetSymbol == e.assetchainsSymbol) "importcoin-wrong-chain"
          require (e.checkMigration importTx burnTx payouts proof burn.rawproof) "migration"
        else e.checkExternalImport importTx burnTx payouts proof burn

/-- `VerifyCoinImport`: the input script is a single push of the import eval code. -/
def verifyCoinImport (height : Nat) (importTx : CTransaction) : Bool :=
  match importTx.vin with
  | [] => false
  | txin :: _ => match CScript.getOp txin.scriptSig with
    | some (_, evalScript, []) =>
      evalScript.head? == some evalImportcoin && !e.disabled height &&
        (e.importCoin height importTx).isOk
    | _ => false

/-- `ContextualCheckInputs`. While a block is connected the active chain ends at its
predecessor. -/
def contextualCheckInputs (v : CCoinsView) (tx : CTransaction) (pindex : CBlockIndex) : Bool :=
  (tx.isMint || e.checkTxInputs v tx pindex) &&
    (!tx.isCoinImport || e.verifyCoinImport (pindex.nHeight - 1) tx)

end ImportEnv

end IndexChain
