import IndexChain.Models.Compress.Mask
import Mathlib.Tactic.Push

/-!
# Reading a stored record

What is read back for a record is the record with every amount compressed and decompressed
(`unserialize_serialize`), so it is the record itself exactly when every amount has a 64-bit
code (`roundTrips_iff`). On a chain whose `MAX_MONEY` is below twenty billion coins
every amount has one.
-/

namespace IndexChain

open IndexChain.Core

namespace Compress

/-- An output with its amount compressed and decompressed. -/
def restored (txout : CTxOut) : CTxOut :=
  if txout.isNull then CTxOut.null
  else { txout with
    nValue := toInt64 (decompressAmount (compressAmount (toUint64 txout.nValue).toNat)) }

/-- An unspent output is read back with its amount compressed and decompressed. -/
theorem reads_txOut {keys : KeyCodec} {txout : CTxOut} (hkeys : keys.Inverts)
    (hnull : txout.isNull = false) (hsize : txout.scriptPubKey.length ≤ maxScriptSize) :
    Reader.Reads (unserializeTxOut keys) (writeChunks (txOutChunks keys txout))
      (restored txout) := by
  unfold txOutChunks unserializeTxOut restored
  rw [writeChunks_cons, hnull, if_neg Bool.false_ne_true]
  refine (Reader.Reads.varInt (compressAmount_lt _)).bind ?_
  exact (reads_script hkeys hsize).bind_pure (Reader.Reads.pure _)

/-- The outputs that are available are read back, and the others are null. -/
theorem reads_outputs {keys : KeyCodec} {vout : List CTxOut} (hkeys : keys.Inverts)
    (hsize : ∀ txout ∈ vout, txout.scriptPubKey.length ≤ maxScriptSize) :
    Reader.Reads (readOutputs keys (vout.map fun txout => !txout.isNull))
      (writeChunks ((vout.filter fun txout => !txout.isNull).flatMap (txOutChunks keys)))
      (vout.map restored) := by
  induction vout with
  | nil => exact Reader.Reads.pure []
  | cons txout vout ih =>
    have htail := ih fun txout' h => hsize txout' (List.mem_cons_of_mem txout h)
    rw [List.map_cons, List.map_cons, readOutputs]
    cases hnull : txout.isNull with
    | true =>
      rw [List.filter_cons_of_neg (by simp [hnull])]
      have hrestored : restored txout = CTxOut.null := if_pos hnull
      rw [hrestored]
      exact (Reader.Reads.pure CTxOut.null).bind (htail.bind_pure (Reader.Reads.pure _))
    | false =>
      rw [List.filter_cons_of_pos (by simp [hnull]), List.flatMap_cons, writeChunks_append]
      exact (reads_txOut hkeys hnull (hsize txout List.mem_cons_self)).bind
        (htail.bind_pure (Reader.Reads.pure _))

/-! ## The header -/

/-- The low bits of the header. -/
theorem testBit_low {k f : Nat} (hf : f < 8) {i : Nat} (hi : i < 3) :
    (8 * k + f).testBit i = f.testBit i := by
  have hsplit := Nat.testBit_two_pow_mul_add k (i := 3) hf i
  rwa [if_pos hi] at hsplit

theorem and_six {k f : Nat} (hf : f < 8) : (8 * k + f) &&& 6 = f &&& 6 := by
  refine Nat.eq_of_testBit_eq fun i => ?_
  rw [Nat.testBit_and, Nat.testBit_and]
  by_cases hi : i < 3
  · rw [testBit_low hf hi]
  · have hsix : Nat.testBit 6 i = false :=
      Nat.testBit_lt_two_pow (lt_of_lt_of_le (by decide : 6 < 2 ^ 3)
        (Nat.pow_le_pow_right (by decide) (Nat.not_lt.1 hi)))
    rw [hsix, Bool.and_false, Bool.and_false]

/-- The flags of the header. -/
def flags (fCoinBase fFirst fSecond : Bool) : Nat :=
  (if fCoinBase then 1 else 0) + (if fFirst then 2 else 0) + (if fSecond then 4 else 0)

theorem flags_spec (fCoinBase fFirst fSecond : Bool) :
    flags fCoinBase fFirst fSecond < 8 ∧
      (flags fCoinBase fFirst fSecond).testBit 0 = fCoinBase ∧
      (flags fCoinBase fFirst fSecond).testBit 1 = fFirst ∧
      (flags fCoinBase fFirst fSecond).testBit 2 = fSecond ∧
      (flags fCoinBase fFirst fSecond &&& 6 ≠ 0 ↔ (fFirst || fSecond) = true) := by
  revert fCoinBase fFirst fSecond
  decide

end Compress

namespace CCoins

open Compress

variable {keys : KeyCodec} {c : CCoins}

/-- The header is the number of bytes that are not zero, less one when the first two outputs
are spent, and the flags. -/
theorem nCode_eq {nMaskCode : Nat} (h : nMaskCode < 2 ^ 29) :
    c.nCode nMaskCode =
      8 * (nMaskCode - if c.isAvailable 0 || c.isAvailable 1 then 0 else 1) +
        flags c.fCoinBase (c.isAvailable 0) (c.isAvailable 1) := by
  have hflags := (flags_spec c.fCoinBase (c.isAvailable 0) (c.isAvailable 1)).1
  unfold nCode
  unfold flags at hflags ⊢
  dsimp only
  omega

/-- The number of bytes that are not zero is found again. -/
theorem nMaskCode_eq {nMaskCode : Nat} (h : nMaskCode < 2 ^ 29)
    (hassert : (c.isAvailable 0 || c.isAvailable 1 || decide (nMaskCode ≠ 0)) = true) :
    (c.nCode nMaskCode / 8 + if c.nCode nMaskCode &&& 6 ≠ 0 then 0 else 1) = nMaskCode := by
  obtain ⟨hlt, -, -, -, hsix⟩ := flags_spec c.fCoinBase (c.isAvailable 0) (c.isAvailable 1)
  have hdiv : c.nCode nMaskCode / 8 =
      nMaskCode - if c.isAvailable 0 || c.isAvailable 1 then 0 else 1 := by
    rw [nCode_eq h]
    omega
  rw [hdiv, nCode_eq h, and_six hlt]
  cases hfirst : c.isAvailable 0 || c.isAvailable 1 with
  | true =>
    rw [hfirst] at hsix
    rw [if_pos (hsix.2 rfl), if_pos rfl]
    rfl
  | false =>
    rw [hfirst] at hsix hassert
    rw [Bool.false_or, decide_eq_true_eq] at hassert
    rw [if_neg (fun hne => Bool.false_ne_true (hsix.1 hne)), if_neg Bool.false_ne_true]
    omega

/-! ## The record -/

/-- A record with every amount compressed and decompressed. -/
def restore (c : CCoins) : CCoins :=
  cleanup { c with vout := c.vout.map restored }

/-- The outputs, with null ones up to the given number. -/
def padded (c : CCoins) (n : Nat) : List CTxOut :=
  c.vout ++ List.replicate (n - c.vout.length) CTxOut.null

theorem padded_avail {n : Nat} (h : c.vout.length ≤ n) :
    (List.range n).map c.isAvailable = (c.padded n).map fun txout => !txout.isNull := by
  refine List.ext_getElem? fun i => ?_
  unfold padded
  rw [List.getElem?_map, List.getElem?_map, List.getElem?_append, List.getElem?_replicate]
  unfold isAvailable
  by_cases hi : i < c.vout.length
  · rw [if_pos hi, List.getElem?_range (hi.trans_le h), List.getElem?_eq_getElem hi]
    simp [hi]
  · rw [if_neg hi]
    by_cases hin : i < n
    · rw [List.getElem?_range hin, if_pos (by omega)]
      simp [hi, CTxOut.null, CTxOut.isNull]
    · rw [if_neg (by omega), List.getElem?_eq_none (by simpa using hin)]
      rfl

theorem padded_filter (n : Nat) :
    ((c.padded n).filter fun txout => !txout.isNull) =
      c.vout.filter fun txout => !txout.isNull := by
  unfold padded
  rw [List.filter_append, List.filter_replicate, if_neg (by decide), List.append_nil]

/-- The null outputs at the end are dropped again. -/
theorem rdropWhile_padded (n : Nat) :
    ((c.padded n).map restored).rdropWhile CTxOut.isNull =
      (c.vout.map restored).rdropWhile CTxOut.isNull := by
  unfold padded
  rw [List.map_append, List.map_replicate]
  have hnull : restored CTxOut.null = CTxOut.null := rfl
  rw [hnull]
  induction n - c.vout.length with
  | zero => rw [List.replicate_zero, List.append_nil]
  | succ k ih =>
    rw [List.replicate_succ', ← List.append_assoc, List.rdropWhile_concat_pos _ _ _ (by rfl), ih]

/-- The number of bytes that are not zero is below the number of outputs. -/
theorem calcMaskSize_lt (hfew : c.vout.length + 6 ≤ 2 ^ 32) : c.calcMaskSize.2 < 2 ^ 29 := by
  obtain ⟨hle, hcount, -, -⟩ := maskSize_spec (fun b => (List.range 8).all fun i => !c.maskBit b i)
    ((c.vout.length - 2 + 7) / 8)
  have hcount' : c.calcMaskSize.2 ≤ c.calcMaskSize.1 := by
    refine hcount.le.trans (List.countP_le_length.trans ?_)
    rw [List.length_range]
    rfl
  change c.calcMaskSize.1 ≤ _ at hle
  omega

/-- The last output of a cleaned-up record is available. -/
theorem isAvailable_last (htrimmed : Trimmed CTxOut.isNull CTxOut.null c.vout)
    (hne : c.vout ≠ []) : c.isAvailable (c.vout.length - 1) = true := by
  have htrim := List.rdropWhile_eq_self_iff.1 htrimmed.trim hne
  unfold isAvailable
  rw [← List.getLast?_eq_getElem?, List.getLast?_eq_some_getLast hne]
  simpa using htrim

/-- A record that is not pruned passes the assertion. -/
theorem assert_of_unspent (htrimmed : Trimmed CTxOut.isNull CTxOut.null c.vout)
    (hunspent : c.isPruned = false) :
    (c.isAvailable 0 || c.isAvailable 1 || decide (c.calcMaskSize.2 ≠ 0)) = true := by
  have hne : c.vout ≠ [] := by
    intro hnil
    unfold isPruned at hunspent
    rw [hnil] at hunspent
    cases hunspent
  have hpos := List.length_pos_iff.2 hne
  have hlast := isAvailable_last htrimmed hne
  have hlen := length_le_mask htrimmed
  by_contra hnone
  rw [Bool.not_eq_true, Bool.or_eq_false_iff, Bool.or_eq_false_iff, decide_eq_false_iff_not,
    not_not] at hnone
  obtain ⟨⟨hfirst, hsecond⟩, hzero⟩ := hnone
  -- the mask has no byte that is not zero, so it is empty
  have hempty : c.mask = [] := by
    by_contra hmask
    have hbyte := c.mask_getLast (c.mask.getLast hmask) (List.getLast?_eq_some_getLast hmask)
    rw [calcMaskSize_snd, List.countP_eq_zero] at hzero
    exact hzero _ (List.getLast_mem hmask) (by simpa using hbyte)
  have hsize : c.mask.length = c.calcMaskSize.1 := by
    unfold mask
    rw [List.length_map, List.length_range]
  rw [← hsize, hempty, List.length_nil] at hlen
  have hindex : c.vout.length - 1 = 0 ∨ c.vout.length - 1 = 1 := by omega
  rcases hindex with hindex | hindex
  · rw [hindex, hfirst] at hlast
    cases hlast
  · rw [hindex, hsecond] at hlast
    cases hlast

theorem writeChunks_bytes {α : Type} (f : α → UInt8) (xs : List α) :
    writeChunks (xs.map fun x => .raw [f x]) = xs.map f := by
  induction xs with
  | nil => rfl
  | cons x xs ih =>
    rw [List.map_cons, writeChunks_cons, ih]
    rfl

/-- A stored record is read back with its amounts compressed and decompressed. -/
theorem unserialize_serialize {maxMoney : Int} (hkeys : keys.Inverts) (hc : c.Storable maxMoney) :
    ∃ bytes, c.serialize keys = some bytes ∧
      c.getSerializeSize keys = some bytes.length ∧
      Reader.Reads (unserialize keys) bytes c.restore := by
  have hassert := assert_of_unspent hc.trimmed hc.unspent
  have hmask := calcMaskSize_lt hc.few
  obtain ⟨hflags, hcoinbase, hfirst, hsecond, -⟩ :=
    flags_spec c.fCoinBase (c.isAvailable 0) (c.isAvailable 1)
  have hcode := nCode_eq (c := c) hmask
  have hcode_lt : c.nCode c.calcMaskSize.2 < 2 ^ 32 := Nat.mod_lt _ (by decide)
  have havail := padded_avail (length_le_mask hc.trimmed)
  have hscripts : ∀ txout ∈ c.padded (2 + 8 * c.calcMaskSize.1),
      txout.scriptPubKey.length ≤ maxScriptSize := by
    intro txout hmem
    rcases List.mem_append.1 hmem with hmem | hmem
    · exact hc.scripts txout hmem
    · rw [List.eq_of_mem_replicate hmem]
      exact Nat.zero_le _
  have houtputs := reads_outputs hkeys hscripts
  rw [← havail, ← flatMap_mask, padded_filter] at houtputs
  have hbytes : writeChunks ([.varInt c.nVersion, .varInt (c.nCode c.calcMaskSize.2)] ++
      (List.range c.calcMaskSize.1).map (fun b => .raw [packByte (c.maskBit b)]) ++
      (c.vout.filter fun txout => !txout.isNull).flatMap (txOutChunks keys) ++
      [.varInt c.nHeight]) = writeVarInt c.nVersion ++ (writeVarInt (c.nCode c.calcMaskSize.2) ++
        (c.mask ++ (writeChunks ((c.vout.filter fun txout => !txout.isNull).flatMap
          (txOutChunks keys)) ++ writeVarInt c.nHeight))) := by
    rw [writeChunks_append, writeChunks_append, writeChunks_append, writeChunks_bytes]
    simp [mask, Chunk.write]
  unfold serialize getSerializeSize chunks
  dsimp only
  rw [if_pos hassert]
  refine ⟨_, rfl, congrArg some (length_writeChunks _).symm, ?_⟩
  rw [hbytes]
  refine (Reader.Reads.varIntSigned hc.version.1 hc.version.2).bind ?_
  refine (Reader.Reads.varInt hcode_lt).bind ?_
  have hread : Reader.Reads (readMask c.calcMaskSize.2) c.mask (c.mask.flatMap availBits) := by
    intro rest
    rw [calcMaskSize_snd]
    exact readMask_append c.mask_getLast
  rw [nMaskCode_eq hmask hassert, hcode, testBit_low hflags (by decide),
    testBit_low hflags (by decide), testBit_low hflags (by decide), hcoinbase, hfirst, hsecond]
  have hheight : Reader.Reads (Reader.varInt 32) (writeVarInt c.nHeight) c.nHeight :=
    Reader.Reads.varInt (hc.height.trans (by decide))
  refine hread.bind (houtputs.bind (hheight.bind_pure ?_))
  have hrestore : cleanup { c with
      vout := (c.padded (2 + 8 * c.calcMaskSize.1)).map restored } = c.restore := by
    unfold restore cleanup
    dsimp only
    rw [rdropWhile_padded]
  rw [hrestore]
  exact Reader.Reads.pure _

/-! ## Records that are restored -/

/-- An amount of 63 bits is restored exactly when it is compressible. -/
theorem restored_eq_iff {txout : CTxOut} (hnull : txout.isNull = false) (h0 : 0 ≤ txout.nValue)
    (hlt : txout.nValue < 2 ^ 63) :
    restored txout = txout ↔ Compressible txout.nValue.toNat := by
  obtain ⟨nValue, scriptPubKey⟩ := txout
  obtain ⟨n, rfl⟩ : ∃ n : Nat, nValue = n := Int.eq_ofNat_of_zero_le h0
  have hn : n < 2 ^ 63 := by
    dsimp only at hlt
    omega
  have hword : (toUint64 n).toNat = n := by
    unfold toUint64
    omega
  have hamount := decompressAmount_lt (compressAmount_lt n)
  unfold restored
  rw [hnull, if_neg Bool.false_ne_true]
  dsimp only
  rw [hword, Int.toNat_natCast, ← decompress_compress_iff hn]
  generalize decompressAmount (compressAmount n) = x at hamount ⊢
  unfold toInt64
  constructor
  · intro heq
    have hvalue := congrArg CTxOut.nValue heq
    dsimp only at hvalue
    rw [Int.bmod_def] at hvalue
    omega
  · rintro rfl
    rw [Int.bmod_eq_of_le (by omega) (by omega)]

/-- A record is restored exactly when its outputs are. -/
theorem restore_eq_iff (h : Trimmed CTxOut.isNull CTxOut.null c.vout) :
    c.restore = c ↔ ∀ txout ∈ c.vout, restored txout = txout := by
  have hmap : c.vout.map restored = c.vout ↔ ∀ txout ∈ c.vout, restored txout = txout := by
    conv_lhs => rhs; rw [← List.map_id c.vout]
    exact List.map_inj_left
  rw [← hmap]
  unfold restore cleanup
  constructor
  · intro heq
    have hvout := congrArg CCoins.vout heq
    dsimp only at hvout
    have hfront := List.rdropWhile_prefix CTxOut.isNull (c.vout.map restored)
    rw [hvout] at hfront
    exact (hfront.eq_of_length (List.length_map _).symm).symm
  · intro heq
    dsimp only
    rw [heq, h.trim]

/-- A record is read back from what is written for it, of the size that is counted, and what
follows is left. -/
def RoundTrips (keys : KeyCodec) (c : CCoins) : Prop :=
  ∃ bytes, c.serialize keys = some bytes ∧ c.getSerializeSize keys = some bytes.length ∧
    ∀ rest, unserialize keys (bytes ++ rest) = some (c, rest)

theorem roundTrips_iff_restore {maxMoney : Int} (hkeys : keys.Inverts)
    (hc : c.Storable maxMoney) : c.RoundTrips keys ↔ c.restore = c := by
  obtain ⟨bytes, hbytes, hsize, hreads⟩ := unserialize_serialize hkeys hc
  constructor
  · rintro ⟨bytes', hbytes', -, hreads'⟩
    obtain rfl := Option.some.inj (hbytes.symm.trans hbytes')
    exact congrArg Prod.fst (Option.some.inj ((hreads []).symm.trans (hreads' [])))
  · intro heq
    rw [heq] at hreads
    exact ⟨bytes, hbytes, hsize, hreads⟩

/-- A stored record is read back exactly when every unspent amount is compressible. -/
theorem roundTrips_iff {maxMoney : Int} (hkeys : keys.Inverts) (hmax : maxMoney < 2 ^ 63)
    (hc : c.Storable maxMoney) :
    c.RoundTrips keys ↔
      ∀ txout ∈ c.vout, txout.isNull = false → Compressible txout.nValue.toNat := by
  rw [roundTrips_iff_restore hkeys hc, restore_eq_iff hc.trimmed]
  refine forall₂_congr fun txout hmem => ?_
  cases hnull : txout.isNull with
  | true =>
    have hblank := hc.trimmed.blank txout hmem hnull
    refine iff_of_true ?_ (fun h => absurd h (by decide))
    rw [hblank]
    rfl
  | false =>
    obtain ⟨h0, hle⟩ := hc.money txout hmem hnull
    rw [restored_eq_iff hnull h0 (hle.trans_lt hmax)]
    exact ⟨fun h _ => h, fun h => h rfl⟩

end CCoins

namespace CoinsSample

/-- The generator of the curve, uncompressed. -/
def generator : List UInt8 :=
  [0x04, 0x79, 0xbe, 0x66, 0x7e, 0xf9, 0xdc, 0xbb, 0xac, 0x55, 0xa0, 0x62, 0x95, 0xce, 0x87,
    0x0b, 0x07, 0x02, 0x9b, 0xfc, 0xdb, 0x2d, 0xce, 0x28, 0xd9, 0x59, 0xf2, 0x81, 0x5b, 0x16,
    0xf8, 0x17, 0x98, 0x48, 0x3a, 0xda, 0x77, 0x26, 0xa3, 0xc4, 0x65, 0x5d, 0xa4, 0xfb, 0xfc,
    0x0e, 0x11, 0x08, 0xa8, 0xfd, 0x17, 0xb4, 0x48, 0xa6, 0x85, 0x54, 0x19, 0x9c, 0x47, 0xd0,
    0x8f, 0xfb, 0x10, 0xd4, 0xb8]

/-- The curve, as far as the generator. -/
def keys : Compress.KeyCodec where
  isFullyValid key := key == generator
  decompress key := if key = Compress.compressedKey generator then some generator else none

theorem keys_inverts : keys.Inverts := by
  intro key _ _ hvalid
  rw [eq_of_beq hvalid]
  decide

/-- A payment to a public key, in an output after spent ones. -/
def record : CCoins where
  fCoinBase := true
  vout := [CTxOut.null, CTxOut.null, CTxOut.null,
    { nValue := 500000000, scriptPubKey := 65 :: generator ++ [0xac] }]
  nHeight := 203998
  nVersion := 1

theorem record_storable : record.Storable 20000000000000000 where
  trimmed := ⟨by decide, by decide⟩
  unspent := rfl
  few := by decide
  scripts := by decide
  money := by decide
  version := by decide
  height := by decide

/-- The record is read back. -/
theorem record_roundTrips : record.RoundTrips keys :=
  (CCoins.roundTrips_iff keys_inverts (by decide) record_storable).2 (by decide)

/-- An output of more than twenty billion coins. -/
def rich : CCoins where
  vout := [{ nValue := 2049638230412172403, scriptPubKey := [0x51] }]
  nHeight := 1
  nVersion := 1

theorem rich_storable : rich.Storable (2 ^ 63 - 1) where
  trimmed := ⟨by decide, by decide⟩
  unspent := rfl
  few := by decide
  scripts := by decide
  money := by decide
  version := by decide
  height := by decide

/-- The output is read back with ten thousand satoshis. -/
theorem rich_not_roundTrips :
    keys.Inverts ∧ rich.Storable (2 ^ 63 - 1) ∧ ¬ rich.RoundTrips keys ∧
      ∃ bytes, rich.serialize keys = some bytes ∧ ∀ rest, CCoins.unserialize keys (bytes ++ rest) =
        some ({ rich with vout := [{ nValue := 10000, scriptPubKey := [0x51] }] }, rest) := by
  have hrestore : rich.restore =
      { rich with vout := [{ nValue := 10000, scriptPubKey := [0x51] }] } := by
    decide
  obtain ⟨bytes, hbytes, -, hreads⟩ := CCoins.unserialize_serialize keys_inverts rich_storable
  refine ⟨keys_inverts, rich_storable, ?_, bytes, hbytes, ?_⟩
  · rw [CCoins.roundTrips_iff_restore keys_inverts rich_storable, hrestore]
    decide
  · rw [← hrestore]
    exact hreads

end CoinsSample

end IndexChain
