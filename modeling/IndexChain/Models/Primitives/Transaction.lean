import Mathlib.Data.BitVec
import Mathlib.Data.List.Basic

/-!
# Transactions and blocks

The data carried by `primitives/transaction.h`, `primitives/block.h` and the
part of `chain.h` that the validation code reads. A `uint256` is the number
whose little-endian bytes are the memory of the source value. Transaction and
block ids are stored beside the data, as the source caches them. Amounts are
integers; the code that sums them says where it reduces to 64 bits.
-/

namespace IndexChain

/-- A 256-bit hash; its memory is the little-endian byte string of the number. -/
abbrev Uint256 := BitVec 256

/-- Membership in lists of hashes is decided by their equality test. -/
instance : LawfulBEq Uint256 := inferInstance

/-- A raw script. -/
abbrev CScript := List UInt8

/-- The number of satoshis in a coin. -/
def COIN : Int := 100000000

/-- `MoneyRange`, for a chain with the given `MAX_MONEY`. -/
def MoneyRange (maxMoney nValue : Int) : Prop := 0 ≤ nValue ∧ nValue ≤ maxMoney

instance (maxMoney nValue : Int) : Decidable (MoneyRange maxMoney nValue) :=
  inferInstanceAs (Decidable (_ ∧ _))

/-- A reference to output `n` of transaction `hash`. -/
structure COutPoint where
  /-- The transaction id. -/
  hash : Uint256
  /-- The output index. -/
  n : UInt32
  deriving DecidableEq, Repr

/-- The null outpoint has a zero hash and index `(uint32_t) -1`. -/
def COutPoint.isNull (o : COutPoint) : Bool :=
  o.hash == 0 && o.n == 4294967295

/-- A transaction input. -/
structure CTxIn where
  /-- The output being spent. -/
  prevout : COutPoint
  /-- The unlocking script. -/
  scriptSig : CScript := []
  /-- The sequence number. -/
  nSequence : UInt32 := 4294967295
  deriving DecidableEq, Repr

/-- A transaction output; the default value is the null output. -/
structure CTxOut where
  /-- The amount, `-1` for a null output. -/
  nValue : Int := -1
  /-- The locking script. -/
  scriptPubKey : CScript := []
  deriving DecidableEq, Repr

/-- The null output, as `SetNull` leaves it. -/
def CTxOut.null : CTxOut := {}

/-- `CTxOut::IsNull` looks at the amount only. -/
def CTxOut.isNull (o : CTxOut) : Bool :=
  o.nValue == -1

/-- The part of a Sprout JoinSplit that the coins view and the value checks read. -/
structure JSDescription where
  /-- Value entering the shielded pool. -/
  vpubOld : Int
  /-- Value leaving the shielded pool. -/
  vpubNew : Int
  /-- The note commitment tree root the JoinSplit refers to. -/
  anchor : Uint256
  /-- The nullifiers it reveals. -/
  nullifiers : Vector Uint256 2
  /-- The note commitments it creates. -/
  commitments : Vector Uint256 2
  deriving DecidableEq, Repr

/-- The part of a Sapling spend that the coins view reads. -/
structure SpendDescription where
  /-- The Sapling tree root the spend refers to. -/
  anchor : Uint256
  /-- The nullifier it reveals. -/
  nullifier : Uint256
  deriving DecidableEq, Repr

/-- The part of a Sapling output that the commitment tree reads. -/
structure OutputDescription where
  /-- The note commitment. -/
  cm : Uint256
  deriving DecidableEq, Repr

/-- `SAPLING_VERSION_GROUP_ID`. -/
def saplingVersionGroupId : UInt32 := 0x892F2085

/-- `OVERWINTER_VERSION_GROUP_ID`. -/
def overwinterVersionGroupId : UInt32 := 0x03C48270

/-- `SAPLING_TX_VERSION`. -/
def saplingTxVersion : Int := 4

theorem saplingFormat_default : (true ∧ saplingVersionGroupId = saplingVersionGroupId ∧
    4 = saplingTxVersion) ∨
      (([] : List SpendDescription) = [] ∧ ([] : List OutputDescription) = []) :=
  Or.inr ⟨rfl, rfl⟩

/-- A transaction. `SerializationOp` reads the Sapling vectors of a Sapling v4
transaction only, so any other format has none. -/
structure CTransaction where
  /-- The cached transaction id. -/
  hash : Uint256
  /-- The version number. -/
  nVersion : Int := 4
  /-- The Overwinter flag of the header. -/
  fOverwintered : Bool := true
  /-- The version group id. -/
  nVersionGroupId : UInt32 := saplingVersionGroupId
  /-- The inputs. -/
  vin : List CTxIn := []
  /-- The outputs. -/
  vout : List CTxOut := []
  /-- The lock time. -/
  nLockTime : UInt32 := 0
  /-- The expiry height. -/
  nExpiryHeight : UInt32 := 0
  /-- The net value leaving the Sapling pool. -/
  valueBalance : Int := 0
  /-- The Sapling spends. -/
  vShieldedSpend : List SpendDescription := []
  /-- The Sapling outputs. -/
  vShieldedOutput : List OutputDescription := []
  /-- The Sprout JoinSplits. -/
  vjoinsplit : List JSDescription := []
  /-- Only the Sapling v4 format carries Sapling descriptions. -/
  saplingFormat : (fOverwintered ∧ nVersionGroupId = saplingVersionGroupId ∧
      nVersion = saplingTxVersion) ∨ (vShieldedSpend = [] ∧ vShieldedOutput = []) := by
    exact saplingFormat_default
  deriving DecidableEq, Repr

namespace CTransaction

/-- A coinbase has exactly one input, with a null prevout. -/
def isCoinBase (tx : CTransaction) : Bool :=
  match tx.vin with
  | [i] => i.prevout.isNull
  | _ => false

/-- A coin import has exactly one input, whose output index is `10e8`. -/
def isCoinImport (tx : CTransaction) : Bool :=
  match tx.vin with
  | [i] => i.prevout.n == 1000000000
  | _ => false

/-- Transactions that create value without spending a coin. -/
def isMint (tx : CTransaction) : Bool :=
  tx.isCoinImport || tx.isCoinBase

end CTransaction

/-- A block with the header fields that validation reads. The null hash stands
for "no block" in a coins view; the hash of a header is never null. -/
structure CBlock where
  /-- The cached block hash. -/
  hash : Uint256
  /-- The Sapling tree root after this block. -/
  hashFinalSaplingRoot : Uint256
  /-- The block time. -/
  nTime : Nat
  /-- The transactions. -/
  vtx : List CTransaction
  /-- A block hash is not the null hash. -/
  hash_ne_null : hash ≠ 0 := by decide
  deriving DecidableEq, Repr

/-- The block index entry of a connected block. -/
structure CBlockIndex where
  /-- The block hash. -/
  phashBlock : Uint256
  /-- The height. -/
  nHeight : Nat
  /-- The block time. -/
  nTime : Nat
  /-- The Sapling tree root after this block. -/
  hashFinalSaplingRoot : Uint256
  deriving DecidableEq, Repr

/-- The index entry `AddToBlockIndex` makes for a block over its predecessor. -/
def CBlockIndex.ofBlock (block : CBlock) (pprev : Option CBlockIndex) : CBlockIndex where
  phashBlock := block.hash
  nHeight := match pprev with
    | none => 0
    | some p => p.nHeight + 1
  nTime := block.nTime
  hashFinalSaplingRoot := block.hashFinalSaplingRoot

end IndexChain
