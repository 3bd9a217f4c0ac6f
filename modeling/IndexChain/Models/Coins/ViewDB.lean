import IndexChain.Models.Coins.View

/-!
# The coin database

`CCoinsViewDB` of `txdb.cpp`, the view at the bottom of the node's caches. The
database stores records in a compact encoding which does not represent every
record: `stored` is what is read back after a write. Records in the image are
trimmed, since reading ends with `Cleanup`.
-/

namespace IndexChain

/-! ## The encoding of a record -/

/-- Divide out at most `k` trailing decimal zeros and count them. -/
def stripZeros : Nat → Nat → Nat × Nat
  | 0, n => (n, 0)
  | k + 1, n =>
    if n % 10 = 0 then
      let (m, e) := stripZeros k (n / 10)
      (m, e + 1)
    else (n, 0)

/-- `CTxOutCompressor::CompressAmount`, on 64-bit words. -/
def compressAmount (n : Nat) : Nat :=
  if n = 0 then 0
  else
    let (n, e) := stripZeros 9 n
    if e < 9 then (1 + (n / 10 * 9 + n % 10 - 1) * 10 + e) % 2 ^ 64
    else (1 + (n - 1) * 10 + 9) % 2 ^ 64

/-- `CTxOutCompressor::DecompressAmount`, on 64-bit words. -/
def decompressAmount (x : Nat) : Nat :=
  if x = 0 then 0
  else
    let e := (x - 1) % 10
    let x := (x - 1) / 10
    let n := if e < 9 then x / 9 * 10 + (x % 9 + 1) else x + 1
    n * 10 ^ e % 2 ^ 64

/-- An output after a write and a read. Short scripts come back as they are, also
those with a special form; a long one is replaced by a bare `OP_RETURN`. -/
def CTxOut.stored (o : CTxOut) : CTxOut where
  nValue := (decompressAmount (compressAmount (o.nValue % 2 ^ 64).toNat) : Int).bmod (2 ^ 64)
  scriptPubKey := if maxScriptSize < o.scriptPubKey.length then [0x6a] else o.scriptPubKey

/-- The version after a write and a read: a negative one is cut to seven bits. -/
def storedVersion (nVersion : Int) : Int :=
  if nVersion < 0 then nVersion % 128 else nVersion

namespace CCoins

/-- A record after a write and a read: `Unserialize` of `Serialize`. -/
def stored (c : CCoins) : CCoins :=
  cleanup
    { fCoinBase := c.fCoinBase
      vout := c.vout.map fun o => if o.isNull then CTxOut.null else o.stored
      nHeight := c.nHeight
      nVersion := storedVersion c.nVersion }

/-- Trimming twice is trimming once. -/
theorem cleanup_cleanup (c : CCoins) : c.cleanup.cleanup = c.cleanup := by
  unfold cleanup
  rw [List.rdropWhile_idempotent]

/-- A record the encoding represents is trimmed. -/
theorem cleanup_of_stored {c : CCoins} (h : c.stored = c) : c.cleanup = c := by
  rw [← h]
  exact cleanup_cleanup _

/-- A fully spent trimmed record has no outputs. -/
theorem vout_eq_nil {c : CCoins} (htrim : c.cleanup = c) (hpr : c.isPruned = true) :
    c.vout = [] := by
  have hnil : c.cleanup.vout = [] := by
    rw [isPruned, List.all_eq_true] at hpr
    exact List.rdropWhile_eq_nil_iff.2 hpr
  rwa [htrim] at hnil

end CCoins

/-! ## The database -/

/-- The contents of the database. -/
structure CCoinsViewDB where
  /-- The records, as they are read. -/
  coins : Uint256 → Option CCoins
  /-- The spent nullifiers. -/
  nullifiers : ShieldedType → Uint256 → Bool
  /-- The trees by root; the empty tree is not stored. -/
  anchors : ShieldedType → Uint256 → Option MerkleTree
  /-- The root of the latest tree, once written. -/
  bestAnchor : ShieldedType → Option Uint256
  /-- The best block, once written. -/
  bestBlock : Option Uint256

namespace CCoinsViewDB

variable (P : TreeHashes)

/-- What the database answers. -/
def view (d : CCoinsViewDB) : CCoinsView where
  getCoins := d.coins
  getNullifier := d.nullifiers
  getAnchorAt ty rt := if rt = P.emptyRoot ty then some {} else d.anchors ty rt
  getBestAnchor ty := (d.bestAnchor ty).getD (P.emptyRoot ty)
  getBestBlock := d.bestBlock.getD 0

/-- Write the modified entries of a cache. A fully spent record is erased, and a
null hash is not written. -/
def batchWrite (d : CCoinsViewDB) (c : CCoinsViewCache) : CCoinsViewDB where
  coins txid := match c.cacheCoins txid with
    | some e =>
      if e.dirty then if e.coins.isPruned then none else some e.coins.stored
      else d.coins txid
    | none => d.coins txid
  nullifiers ty nf := match c.cacheNullifiers ty nf with
    | some e => if e.dirty then e.entered else d.nullifiers ty nf
    | none => d.nullifiers ty nf
  anchors ty rt := match c.cacheAnchors ty rt with
    | some e =>
      if e.dirty then
        if e.entered then
          if rt = P.emptyRoot ty then d.anchors ty rt else some e.tree
        else none
      else d.anchors ty rt
    | none => d.anchors ty rt
  bestAnchor ty := if c.hashAnchor ty = 0 then d.bestAnchor ty else some (c.hashAnchor ty)
  bestBlock := if c.hashBlock = 0 then d.bestBlock else some c.hashBlock

end CCoinsViewDB

end IndexChain
