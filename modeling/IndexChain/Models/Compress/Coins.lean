import IndexChain.Models.Compress.Amount
import IndexChain.Models.Compress.Script

/-!
# Stored records of unspent outputs

`CCoins::Serialize` and `CCoins::Unserialize` of `coins.h`, and the size of what is written.
The header holds the coinbase flag, the availability of the first two outputs, and the number
of bytes of the mask that are not zero; the mask holds the availability of the others, eight
in a byte, up to the last byte that is not zero.
-/

namespace IndexChain

open IndexChain.Core

namespace Compress

/-- What `CTxOutCompressor` sends to its stream. -/
def txOutChunks (keys : KeyCodec) (txout : CTxOut) : List Chunk :=
  .varInt (compressAmount (toUint64 txout.nValue).toNat) :: scriptChunks keys txout.scriptPubKey

/-- `CTxOutCompressor` for reading, into a null output. -/
def unserializeTxOut (keys : KeyCodec) : Reader CTxOut := do
  let nVal ← Reader.varInt 64
  let scriptPubKey ← unserializeScript keys
  return { nValue := toInt64 (decompressAmount nVal), scriptPubKey := scriptPubKey }

/-- A byte with the given bits. -/
def packByte (avail : Nat → Bool) : UInt8 :=
  (List.range 8).foldl (fun chAvail i =>
    if avail i then chAvail ||| (1 <<< UInt8.ofNat i) else chAvail) 0

/-- The bits of a byte. -/
def availBits (chAvail : UInt8) : List Bool :=
  (List.range 8).map fun p => decide (chAvail &&& (1 <<< UInt8.ofNat p) ≠ 0)

/-- The loop of `CalcMaskSize` over `n` bytes: one more than the last byte that is not zero,
and the number of those. -/
def maskSize (fZero : Nat → Bool) (n : Nat) : Nat × Nat :=
  (List.range n).foldl (fun (nLastUsedByte, nNonzeroBytes) b =>
    if fZero b then (nLastUsedByte, nNonzeroBytes) else (b + 1, nNonzeroBytes + 1)) (0, 0)

/-- Read the mask up to the last byte that is not zero. -/
def readMask : Nat → Reader (List Bool)
  | 0, bs => some ([], bs)
  | _ + 1, [] => none
  | nMaskCode + 1, chAvail :: bs =>
    match readMask (if chAvail ≠ 0 then nMaskCode else nMaskCode + 1) bs with
    | none => none
    | some (vAvail, rest) => some (availBits chAvail ++ vAvail, rest)

/-- Read the outputs that are available. -/
def readOutputs (keys : KeyCodec) : List Bool → Reader (List CTxOut)
  | [] => return []
  | avail :: vAvail => do
    let txout ← (if avail then unserializeTxOut keys else pure CTxOut.null)
    let vout ← readOutputs keys vAvail
    return txout :: vout

end Compress

namespace CCoins

open Compress

/-- The bits of byte `b` of the mask. -/
def maskBit (c : CCoins) (b i : Nat) : Bool := c.isAvailable (2 + b * 8 + i)

/-- `CalcMaskSize`. -/
def calcMaskSize (c : CCoins) : Nat × Nat :=
  maskSize (fun b => (List.range 8).all fun i => !c.maskBit b i) ((c.vout.length - 2 + 7) / 8)

/-- The header of a record: `nCode`. -/
def nCode (c : CCoins) (nMaskCode : Nat) : Nat :=
  let fFirst := c.isAvailable 0
  let fSecond := c.isAvailable 1
  (8 * (nMaskCode - if fFirst || fSecond then 0 else 1) + (if c.fCoinBase then 1 else 0) +
    (if fFirst then 2 else 0) + (if fSecond then 4 else 0)) % 2 ^ 32

/-- What `Serialize` sends to its stream; the assertion fails for a pruned record. -/
def chunks (keys : KeyCodec) (c : CCoins) : Option (List Chunk) :=
  let (nMaskSize, nMaskCode) := c.calcMaskSize
  if c.isAvailable 0 || c.isAvailable 1 || decide (nMaskCode ≠ 0) then
    some ([.varInt c.nVersion, .varInt (c.nCode nMaskCode)] ++
      (List.range nMaskSize).map (fun b => .raw [packByte (c.maskBit b)]) ++
      (c.vout.filter fun txout => !txout.isNull).flatMap (txOutChunks keys) ++
      [.varInt c.nHeight])
  else none

/-- `Serialize`. -/
def serialize (keys : KeyCodec) (c : CCoins) : Option (List UInt8) :=
  (c.chunks keys).map writeChunks

/-- `GetSerializeSize`. -/
def getSerializeSize (keys : KeyCodec) (c : CCoins) : Option Nat :=
  (c.chunks keys).map sizeOfChunks

/-- `Unserialize`. The height is a word here: a negative one, which is never written, stays
unsigned. -/
def unserialize (keys : KeyCodec) : Reader CCoins := do
  let nVersion ← Reader.varIntSigned 32
  let nCode ← Reader.varInt 32
  let vAvail ← readMask (nCode / 8 + if nCode &&& 6 ≠ 0 then 0 else 1)
  let vout ← readOutputs keys (nCode.testBit 1 :: nCode.testBit 2 :: vAvail)
  let nHeight ← Reader.varInt 32
  return cleanup { fCoinBase := nCode.testBit 0, vout := vout, nHeight := nHeight,
                   nVersion := nVersion }

/-- A record that is stored: cleaned up, not pruned, of a size that its counters reach, with
scripts that the reader accepts and values, version and height in their ranges. -/
structure Storable (maxMoney : Int) (c : CCoins) : Prop where
  /-- `Cleanup` leaves it. -/
  trimmed : Trimmed CTxOut.isNull CTxOut.null c.vout
  /-- An output is unspent. -/
  unspent : c.isPruned = false
  /-- The outputs are counted in an `unsigned int`. -/
  few : c.vout.length + 6 ≤ 2 ^ 32
  /-- The reader replaces a longer script. -/
  scripts : ∀ txout ∈ c.vout, txout.scriptPubKey.length ≤ maxScriptSize
  /-- `MoneyRange`. -/
  money : ∀ txout ∈ c.vout, txout.isNull = false → MoneyRange maxMoney txout.nValue
  /-- A version that is not negative. -/
  version : 0 ≤ c.nVersion ∧ c.nVersion < 2 ^ 31
  /-- A height of an `int`. -/
  height : c.nHeight < 2 ^ 31

end CCoins

end IndexChain
