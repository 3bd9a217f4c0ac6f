import IndexChain.Core.Checked
import IndexChain.Core.Serialize
import IndexChain.Core.Sha256
import IndexChain.Models.Primitives.Transaction

/-!
# Transactions on the wire

The serialization of a transaction with all its fields, of `primitives/transaction.h` and
`zcash/Proof.hpp`: three formats, which the header and the version group tell apart, and
shielded parts that are there in some of them. The constructors that turn a
`CMutableTransaction` into a `CTransaction` list every field by hand.
-/

namespace IndexChain.Wire

open IndexChain.Core

/-! ## Numbers and arrays -/

/-- `CAmount`. -/
abbrev CAmount := Int64

/-- The bytes of a `uint256`. -/
def writeUint256 (x : Uint256) : List UInt8 := leBytes 32 x.toNat

/-- Read a `uint256`. -/
def readUint256 : Reader Uint256 := do
  let x ← Reader.nat 32
  return BitVec.ofNat 256 x

/-- The bytes of a `uint32_t`. -/
def writeUint32 (x : UInt32) : List UInt8 := leBytes 4 x.toNat

/-- Read a `uint32_t`. -/
def readUint32 : Reader UInt32 := do
  let x ← Reader.nat 4
  return UInt32.ofNat x

/-- The bytes of an amount. -/
def writeAmount (x : CAmount) : List UInt8 := leBytes 8 x.toUInt64.toNat

/-- Read an amount. -/
def readAmount : Reader CAmount := do
  let x ← Reader.nat 8
  return Int64.ofUInt64 (UInt64.ofNat x)

/-- The bytes of a byte. -/
def writeByte (b : UInt8) : List UInt8 := [b]

/-- The bytes of a `std::array`. -/
def writeArray {α : Type} {n : Nat} (write : α → List UInt8) (xs : Vector α n) : List UInt8 :=
  xs.toList.flatMap write

/-- Read a `std::array`. -/
def readArray {α : Type} [Inhabited α] (r : Reader α) (n : Nat) : Reader (Vector α n) := do
  let xs ← Reader.repeated r n
  return Vector.ofFn fun i => xs.getD i default

/-- The bytes of a byte vector: its size and its bytes. -/
def writeBytes (bs : List UInt8) : List UInt8 := writeCompactSize bs.length ++ bs

/-! ## Proofs -/

/-- A compressed point, with a coordinate of `n` bytes. -/
structure CompressedPoint (n : Nat) where
  /-- What tells the two points with the coordinate apart. -/
  y : Bool
  /-- The coordinate. -/
  x : Vector UInt8 n
  deriving DecidableEq

/-- `SerializationOp` of a writer of points with a prefix. -/
def CompressedPoint.write {n : Nat} (mask : UInt8) (p : CompressedPoint n) : List UInt8 :=
  (if p.y then mask ||| 1 else mask) :: writeArray writeByte p.x

/-- `SerializationOp` of a reader of points with a prefix. -/
def CompressedPoint.read {n : Nat} (mask : UInt8) : Reader (CompressedPoint n) := do
  let leadingByte ← Reader.byte
  if leadingByte &&& 0xFE ≠ mask then Reader.fail
  else do
    let x ← readArray Reader.byte n
    return { y := leadingByte &&& 1 ≠ 0, x := x }

/-- `CompressedG1`. -/
abbrev CompressedG1 := CompressedPoint 32

/-- `CompressedG2`. -/
abbrev CompressedG2 := CompressedPoint 64

/-- Write a point with `G1_PREFIX_MASK`. -/
def CompressedG1.write : CompressedG1 → List UInt8 := CompressedPoint.write 0x02

/-- Read a point with `G1_PREFIX_MASK`. -/
def CompressedG1.read : Reader CompressedG1 := CompressedPoint.read 0x02

/-- Write a point with `G2_PREFIX_MASK`. -/
def CompressedG2.write : CompressedG2 → List UInt8 := CompressedPoint.write 0x0a

/-- Read a point with `G2_PREFIX_MASK`. -/
def CompressedG2.read : Reader CompressedG2 := CompressedPoint.read 0x0a

/-- `PHGRProof`. -/
structure PHGRProof where
  /-- `g_A`. -/
  gA : CompressedG1
  /-- `g_A_prime`. -/
  gAPrime : CompressedG1
  /-- `g_B`. -/
  gB : CompressedG2
  /-- `g_B_prime`. -/
  gBPrime : CompressedG1
  /-- `g_C`. -/
  gC : CompressedG1
  /-- `g_C_prime`. -/
  gCPrime : CompressedG1
  /-- `g_K`. -/
  gK : CompressedG1
  /-- `g_H`. -/
  gH : CompressedG1
  deriving DecidableEq

/-- `PHGRProof::SerializationOp` of a writer. -/
def PHGRProof.write (p : PHGRProof) : List UInt8 :=
  CompressedG1.write p.gA ++ (CompressedG1.write p.gAPrime ++ (CompressedG2.write p.gB ++
    (CompressedG1.write p.gBPrime ++ (CompressedG1.write p.gC ++ (CompressedG1.write p.gCPrime ++
      (CompressedG1.write p.gK ++ CompressedG1.write p.gH))))))

/-- `PHGRProof::SerializationOp` of a reader. -/
def PHGRProof.read : Reader PHGRProof := do
  let gA ← CompressedG1.read
  let gAPrime ← CompressedG1.read
  let gB ← CompressedG2.read
  let gBPrime ← CompressedG1.read
  let gC ← CompressedG1.read
  let gCPrime ← CompressedG1.read
  let gK ← CompressedG1.read
  let gH ← CompressedG1.read
  return { gA, gAPrime, gB, gBPrime, gC, gCPrime, gK, gH }

/-- `GrothProof`. -/
abbrev GrothProof := Vector UInt8 192

/-- `SproutProof`. -/
inductive SproutProof where
  | phgr (proof : PHGRProof)
  | groth (proof : GrothProof)
  deriving DecidableEq

/-- The proof is of the kind that the format asks for. -/
def SproutProof.Matches (useGroth : Bool) : SproutProof → Prop
  | .phgr _ => useGroth = false
  | .groth _ => useGroth = true

/-- `SproutProofSerializer`: a proof of the other kind cannot be written. -/
def SproutProof.write (useGroth : Bool) : SproutProof → Option (List UInt8)
  | .phgr proof => if useGroth then none else some proof.write
  | .groth proof => if useGroth then some (writeArray writeByte proof) else none

/-- `SerReadWriteSproutProof` of a reader. -/
def SproutProof.read (useGroth : Bool) : Reader SproutProof :=
  if useGroth then do
    let proof ← readArray Reader.byte 192
    return .groth proof
  else do
    let proof ← PHGRProof.read
    return .phgr proof

/-! ## Shielded parts -/

/-- `SpendDescription`. -/
structure SpendDescription where
  /-- A value commitment. -/
  cv : Uint256
  /-- A root of the note commitment tree. -/
  anchor : Uint256
  /-- The nullifier. -/
  nullifier : Uint256
  /-- The randomised public key. -/
  rk : Uint256
  /-- The proof. -/
  zkproof : GrothProof
  /-- The signature. -/
  spendAuthSig : Vector UInt8 64
  deriving DecidableEq

/-- `SpendDescription::SerializationOp` of a writer. -/
def SpendDescription.write (spend : SpendDescription) : List UInt8 :=
  writeUint256 spend.cv ++ (writeUint256 spend.anchor ++ (writeUint256 spend.nullifier ++
    (writeUint256 spend.rk ++ (writeArray writeByte spend.zkproof ++
      writeArray writeByte spend.spendAuthSig))))

/-- `SpendDescription::SerializationOp` of a reader. -/
def SpendDescription.read : Reader SpendDescription := do
  let cv ← readUint256
  let anchor ← readUint256
  let nullifier ← readUint256
  let rk ← readUint256
  let zkproof ← readArray Reader.byte 192
  let spendAuthSig ← readArray Reader.byte 64
  return { cv, anchor, nullifier, rk, zkproof, spendAuthSig }

/-- `OutputDescription`. -/
structure OutputDescription where
  /-- A value commitment. -/
  cv : Uint256
  /-- The note commitment. -/
  cm : Uint256
  /-- The ephemeral key. -/
  ephemeralKey : Uint256
  /-- The encrypted note. -/
  encCiphertext : Vector UInt8 580
  /-- The encrypted key of the note. -/
  outCiphertext : Vector UInt8 80
  /-- The proof. -/
  zkproof : GrothProof
  deriving DecidableEq

/-- `OutputDescription::SerializationOp` of a writer. -/
def OutputDescription.write (output : OutputDescription) : List UInt8 :=
  writeUint256 output.cv ++ (writeUint256 output.cm ++ (writeUint256 output.ephemeralKey ++
    (writeArray writeByte output.encCiphertext ++ (writeArray writeByte output.outCiphertext ++
      writeArray writeByte output.zkproof))))

/-- `OutputDescription::SerializationOp` of a reader. -/
def OutputDescription.read : Reader OutputDescription := do
  let cv ← readUint256
  let cm ← readUint256
  let ephemeralKey ← readUint256
  let encCiphertext ← readArray Reader.byte 580
  let outCiphertext ← readArray Reader.byte 80
  let zkproof ← readArray Reader.byte 192
  return { cv, cm, ephemeralKey, encCiphertext, outCiphertext, zkproof }

/-- `JSDescription`. -/
structure JSDescription where
  /-- What enters the pool. -/
  vpubOld : CAmount
  /-- What leaves the pool. -/
  vpubNew : CAmount
  /-- A root of the note commitment tree. -/
  anchor : Uint256
  /-- The nullifiers. -/
  nullifiers : Vector Uint256 2
  /-- The note commitments. -/
  commitments : Vector Uint256 2
  /-- The ephemeral key. -/
  ephemeralKey : Uint256
  /-- The ciphertexts. -/
  ciphertexts : Vector (Vector UInt8 601) 2
  /-- The random seed. -/
  randomSeed : Uint256
  /-- The authentication codes. -/
  macs : Vector Uint256 2
  /-- The proof. -/
  proof : SproutProof
  deriving DecidableEq

/-- `JSDescription::SerializationOp` of a writer. -/
def JSDescription.write (useGroth : Bool) (js : JSDescription) : Option (List UInt8) := do
  let proof ← js.proof.write useGroth
  return writeAmount js.vpubOld ++ (writeAmount js.vpubNew ++ (writeUint256 js.anchor ++
    (writeArray writeUint256 js.nullifiers ++ (writeArray writeUint256 js.commitments ++
      (writeUint256 js.ephemeralKey ++ (writeUint256 js.randomSeed ++
        (writeArray writeUint256 js.macs ++ (proof ++
          writeArray (writeArray writeByte) js.ciphertexts))))))))

/-- `JSDescription::SerializationOp` of a reader. -/
def JSDescription.read (useGroth : Bool) : Reader JSDescription := do
  let vpubOld ← readAmount
  let vpubNew ← readAmount
  let anchor ← readUint256
  let nullifiers ← readArray readUint256 2
  let commitments ← readArray readUint256 2
  let ephemeralKey ← readUint256
  let randomSeed ← readUint256
  let macs ← readArray readUint256 2
  let proof ← SproutProof.read useGroth
  let ciphertexts ← readArray (readArray Reader.byte 601) 2
  return { vpubOld, vpubNew, anchor, nullifiers, commitments, ephemeralKey, ciphertexts,
           randomSeed, macs, proof }

/-! ## Inputs and outputs -/

/-- `COutPoint`. -/
structure COutPoint where
  /-- The transaction. -/
  hash : Uint256
  /-- The output. -/
  n : UInt32
  deriving DecidableEq

/-- `CTxIn`. -/
structure CTxIn where
  /-- What is spent. -/
  prevout : COutPoint
  /-- The signature. -/
  scriptSig : List UInt8
  /-- The sequence number. -/
  nSequence : UInt32
  deriving DecidableEq

/-- `CTxIn::SerializationOp` of a writer. -/
def CTxIn.write (txin : CTxIn) : List UInt8 :=
  writeUint256 txin.prevout.hash ++ (writeUint32 txin.prevout.n ++ (writeBytes txin.scriptSig ++
    writeUint32 txin.nSequence))

/-- `CTxIn::SerializationOp` of a reader. -/
def CTxIn.read : Reader CTxIn := do
  let hash ← readUint256
  let n ← readUint32
  let scriptSig ← Reader.vector
  let nSequence ← readUint32
  return { prevout := { hash, n }, scriptSig, nSequence }

/-- `CTxOut`. -/
structure CTxOut where
  /-- The amount. -/
  nValue : CAmount
  /-- The condition to spend it. -/
  scriptPubKey : List UInt8
  deriving DecidableEq

/-- `CTxOut::SerializationOp` of a writer. -/
def CTxOut.write (txout : CTxOut) : List UInt8 :=
  writeAmount txout.nValue ++ writeBytes txout.scriptPubKey

/-- `CTxOut::SerializationOp` of a reader. -/
def CTxOut.read : Reader CTxOut := do
  let nValue ← readAmount
  let scriptPubKey ← Reader.vector
  return { nValue, scriptPubKey }

/-! ## Transactions -/

/-- `CMutableTransaction`. -/
structure CMutableTransaction where
  /-- Whether the header has a version group. -/
  fOverwintered : Bool
  /-- The version. -/
  nVersion : Int32
  /-- The version group. -/
  nVersionGroupId : UInt32
  /-- The inputs. -/
  vin : List CTxIn
  /-- The outputs. -/
  vout : List CTxOut
  /-- The lock time. -/
  nLockTime : UInt32
  /-- The expiry height. -/
  nExpiryHeight : UInt32
  /-- What leaves the Sapling pool. -/
  valueBalance : CAmount
  /-- The shielded inputs. -/
  vShieldedSpend : List SpendDescription
  /-- The shielded outputs. -/
  vShieldedOutput : List OutputDescription
  /-- The JoinSplits. -/
  vjoinsplit : List JSDescription
  /-- The key that signs for the JoinSplits. -/
  joinSplitPubKey : Uint256
  /-- Its signature. -/
  joinSplitSig : Vector UInt8 64
  /-- The signature for the shielded inputs and outputs. -/
  bindingSig : Vector UInt8 64
  deriving DecidableEq

/-- `{{0}}`. -/
def nullSig : Vector UInt8 64 := Vector.replicate 64 0

/-- `isOverwinterV3`. -/
def isOverwinterV3 (fOverwintered : Bool) (nVersionGroupId : UInt32) (nVersion : Int32) : Bool :=
  fOverwintered && nVersionGroupId == 0x03C48270 && nVersion == 3

/-- `isSaplingV4`. -/
def isSaplingV4 (fOverwintered : Bool) (nVersionGroupId : UInt32) (nVersion : Int32) : Bool :=
  fOverwintered && nVersionGroupId == 0x892F2085 && nVersion == 4

/-- Whether JoinSplits have Groth proofs: the header is passed on as the version of the
stream. -/
def useGroth (header : UInt32) : Bool :=
  header >>> 31 != 0 && decide (4 ≤ Int32.ofUInt32 (header &&& 0x7FFFFFFF))

namespace CMutableTransaction

variable (tx : CMutableTransaction)

/-- `GetHeader`. -/
def header : UInt32 :=
  if tx.fOverwintered then tx.nVersion.toUInt32 ||| 0x80000000 else tx.nVersion.toUInt32

/-- The transaction has the format of version 3. -/
def isV3 : Bool := isOverwinterV3 tx.fOverwintered tx.nVersionGroupId tx.nVersion

/-- The transaction has the format of version 4. -/
def isV4 : Bool := isSaplingV4 tx.fOverwintered tx.nVersionGroupId tx.nVersion

/-- The bytes of the JoinSplits. -/
def writeJoinSplits : Option (List UInt8) := do
  let bss ← tx.vjoinsplit.mapM (JSDescription.write (useGroth tx.header))
  return writeCompactSize tx.vjoinsplit.length ++ bss.flatten

/-- `SerializationOp` of a writer. -/
def serialize : Option (List UInt8) := do
  ensure (!(tx.fOverwintered && !(tx.isV3 || tx.isV4)))
  let joinSplits ← (if 2 ≤ tx.nVersion then tx.writeJoinSplits else some [])
  return writeUint32 tx.header ++
    ((if tx.fOverwintered then writeUint32 tx.nVersionGroupId else []) ++
    (writeVector CTxIn.write tx.vin ++ (writeVector CTxOut.write tx.vout ++
    (writeUint32 tx.nLockTime ++
    ((if tx.isV3 || tx.isV4 then writeUint32 tx.nExpiryHeight else []) ++
    ((if tx.isV4 then writeAmount tx.valueBalance else []) ++
    ((if tx.isV4 then writeVector SpendDescription.write tx.vShieldedSpend else []) ++
    ((if tx.isV4 then writeVector OutputDescription.write tx.vShieldedOutput else []) ++
    (joinSplits ++
    ((if 2 ≤ tx.nVersion ∧ tx.vjoinsplit ≠ [] then writeUint256 tx.joinSplitPubKey else []) ++
    ((if 2 ≤ tx.nVersion ∧ tx.vjoinsplit ≠ [] then writeArray writeByte tx.joinSplitSig else []) ++
    (if tx.isV4 ∧ (tx.vShieldedSpend ≠ [] ∨ tx.vShieldedOutput ≠ []) then
      writeArray writeByte tx.bindingSig else []))))))))))))

/-- `SerializationOp` of a reader into an object: what the format does not have stays. -/
def unserialize (self : CMutableTransaction) : Reader CMutableTransaction := do
  let header ← readUint32
  let fOverwintered := header >>> 31 != 0
  let nVersion := Int32.ofUInt32 (header &&& 0x7FFFFFFF)
  let nVersionGroupId ← (if fOverwintered then readUint32 else pure self.nVersionGroupId)
  let isV3 := isOverwinterV3 fOverwintered nVersionGroupId nVersion
  let isV4 := isSaplingV4 fOverwintered nVersionGroupId nVersion
  if fOverwintered && !(isV3 || isV4) then Reader.fail
  else do
    let vin ← Reader.vectorOf CTxIn.read
    let vout ← Reader.vectorOf CTxOut.read
    let nLockTime ← readUint32
    let nExpiryHeight ← (if isV3 || isV4 then readUint32 else pure self.nExpiryHeight)
    let valueBalance ← (if isV4 then readAmount else pure self.valueBalance)
    let vShieldedSpend ← (if isV4 then Reader.vectorOf SpendDescription.read
      else pure self.vShieldedSpend)
    let vShieldedOutput ← (if isV4 then Reader.vectorOf OutputDescription.read
      else pure self.vShieldedOutput)
    let vjoinsplit ← (if 2 ≤ nVersion then Reader.vectorOf (JSDescription.read (useGroth header))
      else pure self.vjoinsplit)
    let joinSplitPubKey ← (if 2 ≤ nVersion ∧ vjoinsplit ≠ [] then readUint256
      else pure self.joinSplitPubKey)
    let joinSplitSig ← (if 2 ≤ nVersion ∧ vjoinsplit ≠ [] then readArray Reader.byte 64
      else pure self.joinSplitSig)
    let bindingSig ← (if isV4 ∧ (vShieldedSpend ≠ [] ∨ vShieldedOutput ≠ []) then
      readArray Reader.byte 64 else pure self.bindingSig)
    return { fOverwintered, nVersion, nVersionGroupId, vin, vout, nLockTime, nExpiryHeight,
             valueBalance, vShieldedSpend, vShieldedOutput, vjoinsplit, joinSplitPubKey,
             joinSplitSig, bindingSig }

end CMutableTransaction

/-- `SerializeHash`. -/
def serializeHash (bs : List UInt8) : Uint256 := BitVec.ofNat 256 (leNat (sha256 (sha256 bs)))

/-- `CTransaction`: the fields with their hash. -/
structure CTransaction where
  /-- The cached hash. -/
  hash : Uint256
  /-- Whether the header has a version group. -/
  fOverwintered : Bool
  /-- The version. -/
  nVersion : Int32
  /-- The version group. -/
  nVersionGroupId : UInt32
  /-- The inputs. -/
  vin : List CTxIn
  /-- The outputs. -/
  vout : List CTxOut
  /-- The lock time. -/
  nLockTime : UInt32
  /-- The expiry height. -/
  nExpiryHeight : UInt32
  /-- What leaves the Sapling pool. -/
  valueBalance : CAmount
  /-- The shielded inputs. -/
  vShieldedSpend : List SpendDescription
  /-- The shielded outputs. -/
  vShieldedOutput : List OutputDescription
  /-- The JoinSplits. -/
  vjoinsplit : List JSDescription
  /-- The key that signs for the JoinSplits. -/
  joinSplitPubKey : Uint256
  /-- Its signature. -/
  joinSplitSig : Vector UInt8 64
  /-- The signature for the shielded inputs and outputs. -/
  bindingSig : Vector UInt8 64
  deriving DecidableEq

/-- `CMutableTransaction(const CTransaction&)`. -/
def CMutableTransaction.ofTransaction (tx : CTransaction) : CMutableTransaction where
  nVersion := tx.nVersion
  fOverwintered := tx.fOverwintered
  nVersionGroupId := tx.nVersionGroupId
  nExpiryHeight := tx.nExpiryHeight
  vin := tx.vin
  vout := tx.vout
  nLockTime := tx.nLockTime
  valueBalance := tx.valueBalance
  vShieldedSpend := tx.vShieldedSpend
  vShieldedOutput := tx.vShieldedOutput
  vjoinsplit := tx.vjoinsplit
  joinSplitPubKey := tx.joinSplitPubKey
  joinSplitSig := tx.joinSplitSig
  bindingSig := tx.bindingSig

namespace CTransaction

/-- `SerializationOp` of a writer; that of `CMutableTransaction` has the same text. -/
def serialize (tx : CTransaction) : Option (List UInt8) :=
  (CMutableTransaction.ofTransaction tx).serialize

/-- `UpdateHash`; what cannot be written has no hash. -/
def updateHash (tx : CTransaction) : Option CTransaction := do
  let bs ← tx.serialize
  return { tx with hash := serializeHash bs }

/-- `CTransaction(const CMutableTransaction&)`. -/
def ofMutable (tx : CMutableTransaction) : Option CTransaction :=
  updateHash
    { hash := 0
      nVersion := tx.nVersion
      fOverwintered := tx.fOverwintered
      nVersionGroupId := tx.nVersionGroupId
      nExpiryHeight := tx.nExpiryHeight
      vin := tx.vin
      vout := tx.vout
      nLockTime := tx.nLockTime
      valueBalance := tx.valueBalance
      vShieldedSpend := tx.vShieldedSpend
      vShieldedOutput := tx.vShieldedOutput
      vjoinsplit := tx.vjoinsplit
      joinSplitPubKey := tx.joinSplitPubKey
      joinSplitSig := tx.joinSplitSig
      bindingSig := tx.bindingSig }

/-- `CTransaction(CMutableTransaction&&)`: the signature for the shielded inputs and outputs is
not in the list, and keeps its initial value. -/
def moveMutable (tx : CMutableTransaction) : Option CTransaction :=
  updateHash
    { hash := 0
      nVersion := tx.nVersion
      fOverwintered := tx.fOverwintered
      nVersionGroupId := tx.nVersionGroupId
      vin := tx.vin
      vout := tx.vout
      nLockTime := tx.nLockTime
      nExpiryHeight := tx.nExpiryHeight
      valueBalance := tx.valueBalance
      vShieldedSpend := tx.vShieldedSpend
      vShieldedOutput := tx.vShieldedOutput
      vjoinsplit := tx.vjoinsplit
      joinSplitPubKey := tx.joinSplitPubKey
      joinSplitSig := tx.joinSplitSig
      bindingSig := nullSig }

/-- `CTransaction()`. -/
def null : CTransaction where
  hash := 0
  nVersion := 1
  fOverwintered := false
  nVersionGroupId := 0
  nExpiryHeight := 0
  vin := []
  vout := []
  nLockTime := 0
  valueBalance := 0
  vShieldedSpend := []
  vShieldedOutput := []
  vjoinsplit := []
  joinSplitPubKey := 0
  joinSplitSig := nullSig
  bindingSig := nullSig

/-- `Unserialize` into an object: the fields that are not read stay, and the hash is made
anew. -/
def unserialize (self : CTransaction) : Reader CTransaction := do
  let tx ← (CMutableTransaction.ofTransaction self).unserialize
  match ofMutable tx with
  | none => Reader.fail
  | some tx => return tx

end CTransaction

/-- What the members without an initial value hold where an object is made. -/
structure Uninitialized where
  /-- `nVersionGroupId`. -/
  nVersionGroupId : UInt32
  /-- `nExpiryHeight`. -/
  nExpiryHeight : UInt32
  /-- `valueBalance`. -/
  valueBalance : CAmount

/-- A `CMutableTransaction` before its deserializing constructor runs, which has no list of
initial values. The flag, the version and the lock time are always read. -/
def CMutableTransaction.raw (memory : Uninitialized) : CMutableTransaction where
  fOverwintered := false
  nVersion := 0
  nVersionGroupId := memory.nVersionGroupId
  vin := []
  vout := []
  nLockTime := 0
  nExpiryHeight := memory.nExpiryHeight
  valueBalance := memory.valueBalance
  vShieldedSpend := []
  vShieldedOutput := []
  vjoinsplit := []
  joinSplitPubKey := 0
  joinSplitSig := nullSig
  bindingSig := nullSig

/-- `CTransaction(deserialize, s)`: from a `CMutableTransaction(deserialize, s)`. -/
def CTransaction.deserialize (memory : Uninitialized) : Reader CTransaction := do
  let tx ← (CMutableTransaction.raw memory).unserialize
  match CTransaction.moveMutable tx with
  | none => Reader.fail
  | some tx => return tx

end IndexChain.Wire
