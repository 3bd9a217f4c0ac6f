import IndexChain.Core.VarInt
import IndexChain.Models.Coins.CCoins

/-!
# Script compression

`CScriptCompressor` of `compressor.cpp`: six special forms, of 21 or 33 bytes, for payments
to a key hash, a script hash and a public key. Any other script is written after its size
plus six. A script of the size that the reader accepts is read back as it was
(`reads_script`).
-/

namespace IndexChain.Compress

open IndexChain.Core

/-- What `CPubKey` computes on the curve. -/
structure KeyCodec where
  /-- `CPubKey::IsFullyValid`. -/
  isFullyValid : List UInt8 → Bool
  /-- `CPubKey::Decompress`, of a key of 33 bytes. -/
  decompress : List UInt8 → Option (List UInt8)

/-- The compressed form of a key of 65 bytes. -/
def compressedKey (key : List UInt8) : List UInt8 :=
  (if (key.getD 64 0).toNat % 2 = 0 then 2 else 3) :: (key.drop 1).take 32

/-- Decompression inverts compression for fully valid keys. -/
def KeyCodec.Inverts (keys : KeyCodec) : Prop :=
  ∀ key : List UInt8, key.length = 65 → key[0]? = some 4 → keys.isFullyValid key = true →
    keys.decompress (compressedKey key) = some key

/-! ## Opcodes -/

/-- `OP_RETURN`. -/
def opReturn : UInt8 := 0x6a

/-- `OP_DUP`. -/
def opDup : UInt8 := 0x76

/-- `OP_EQUAL`. -/
def opEqual : UInt8 := 0x87

/-- `OP_EQUALVERIFY`. -/
def opEqualverify : UInt8 := 0x88

/-- `OP_HASH160`. -/
def opHash160 : UInt8 := 0xa9

/-- `OP_CHECKSIG`. -/
def opChecksig : UInt8 := 0xac

/-! ## The compressor -/

/-- `nSpecialScripts`. -/
def nSpecialScripts : Nat := 6

/-- `IsToKeyID`. -/
def isToKeyID (script : CScript) : Option (List UInt8) :=
  if script.length = 25 ∧ script[0]? = some opDup ∧ script[1]? = some opHash160 ∧
      script[2]? = some 20 ∧ script[23]? = some opEqualverify ∧ script[24]? = some opChecksig
  then some ((script.drop 3).take 20) else none

/-- `IsToScriptID`. -/
def isToScriptID (script : CScript) : Option (List UInt8) :=
  if script.length = 23 ∧ script[0]? = some opHash160 ∧ script[1]? = some 20 ∧
      script[22]? = some opEqual
  then some ((script.drop 2).take 20) else none

/-- `IsToPubKey`. -/
def isToPubKey (keys : KeyCodec) (script : CScript) : Option (List UInt8) :=
  if script.length = 35 ∧ script[0]? = some 33 ∧ script[34]? = some opChecksig ∧
      (script[1]? = some 2 ∨ script[1]? = some 3)
  then some ((script.drop 1).take 33)
  else if script.length = 67 ∧ script[0]? = some 65 ∧ script[66]? = some opChecksig ∧
      script[1]? = some 4
  then
    let pubkey := (script.drop 1).take 65
    if keys.isFullyValid pubkey then some pubkey else none
  else none

/-- `Compress`: the special form. -/
def compress (keys : KeyCodec) (script : CScript) : Option (List UInt8) :=
  match isToKeyID script with
  | some keyID => some (0 :: keyID)
  | none => match isToScriptID script with
    | some scriptID => some (1 :: scriptID)
    | none => match isToPubKey keys script with
      | some pubkey =>
        if pubkey[0]? = some 2 ∨ pubkey[0]? = some 3 then
          some (pubkey.getD 0 0 :: (pubkey.drop 1).take 32)
        else if pubkey[0]? = some 4 then
          some ((4 ||| (pubkey.getD 64 0 &&& 1)) :: (pubkey.drop 1).take 32)
        else none
      | none => none

/-- `GetSpecialSize`. -/
def getSpecialSize (nSize : Nat) : Nat :=
  if nSize = 0 ∨ nSize = 1 then 20
  else if nSize = 2 ∨ nSize = 3 ∨ nSize = 4 ∨ nSize = 5 then 32
  else 0

/-- `Decompress`: the script, when the form stands for one. -/
def decompress (keys : KeyCodec) (nSize : Nat) (vch : List UInt8) : Option CScript :=
  if nSize = 0 then
    some ([opDup, opHash160, 20] ++ vch.take 20 ++ [opEqualverify, opChecksig])
  else if nSize = 1 then some ([opHash160, 20] ++ vch.take 20 ++ [opEqual])
  else if nSize = 2 ∨ nSize = 3 then
    some ([33, UInt8.ofNat nSize] ++ vch.take 32 ++ [opChecksig])
  else if nSize = 4 ∨ nSize = 5 then
    (keys.decompress (UInt8.ofNat (nSize - 2) :: vch.take 32)).map fun pubkey =>
      65 :: pubkey ++ [opChecksig]
  else none

/-- What `CScriptCompressor` sends to its stream. -/
def scriptChunks (keys : KeyCodec) (script : CScript) : List Chunk :=
  match compress keys script with
  | some compr => [.raw compr]
  | none => [.varInt ((script.length + nSpecialScripts) % 2 ^ 32 : Nat), .raw script]

/-- `CDataStream::ignore`. -/
def ignore (nSize : Nat) : Reader Unit :=
  if 2 ^ 31 ≤ nSize then Reader.fail
  else do
    let _skipped ← Reader.bytes nSize
    return ()

/-- Read a script of the given size. -/
def readScript (nSize : Nat) : Reader CScript :=
  if maxScriptSize < nSize then do
    ignore nSize
    return [opReturn]
  else Reader.bytes nSize

/-- `CScriptCompressor::Unserialize`, into an empty script. -/
def unserializeScript (keys : KeyCodec) : Reader CScript := do
  let nSize ← Reader.varInt 32
  if nSize < nSpecialScripts then do
    let vch ← Reader.bytes (getSpecialSize nSize)
    return (decompress keys nSize vch).getD []
  else readScript (nSize - nSpecialScripts)

/-! ## The special forms -/

theorem drop_eq_cons {script : CScript} {n : Nat} {c : UInt8} (h : script[n]? = some c) :
    script.drop n = c :: script.drop (n + 1) := by
  obtain ⟨hlt, rfl⟩ := List.getElem?_eq_some_iff.1 h
  exact List.drop_eq_getElem_cons hlt

/-- A payload and what follows it. -/
theorem drop_eq_append (script : CScript) (n k : Nat) :
    script.drop n = (script.drop n).take k ++ script.drop (n + k) := by
  rw [← List.drop_drop, List.take_append_drop]

/-- A payload of the length that a form leaves for it. -/
theorem length_payload {script : CScript} {n k : Nat} (h : n + k ≤ script.length) :
    ((script.drop n).take k).length = k := by
  rw [List.length_take, List.length_drop]
  omega

theorem isToKeyID_eq {script : CScript} {keyID : List UInt8} (h : isToKeyID script = some keyID) :
    script = [opDup, opHash160, 20] ++ keyID ++ [opEqualverify, opChecksig] ∧
      keyID.length = 20 := by
  unfold isToKeyID at h
  split at h
  · rename_i hform
    obtain ⟨hlen, h0, h1, h2, h23, h24⟩ := hform
    obtain rfl := Option.some.inj h
    refine ⟨?_, length_payload (by omega)⟩
    have hend : script.drop 25 = [] := List.drop_eq_nil_of_le (by omega)
    calc
      script = [opDup, opHash160, 20] ++ script.drop 3 := by
        change script.drop 0 = _
        rw [drop_eq_cons h0, drop_eq_cons h1, drop_eq_cons h2]
        rfl
      _ = [opDup, opHash160, 20] ++ ((script.drop 3).take 20 ++ script.drop 23) := by
        rw [← drop_eq_append script 3 20]
      _ = _ := by rw [drop_eq_cons h23, drop_eq_cons h24, hend, List.append_assoc]
  · cases h

theorem isToScriptID_eq {script : CScript} {scriptID : List UInt8}
    (h : isToScriptID script = some scriptID) :
    script = [opHash160, 20] ++ scriptID ++ [opEqual] ∧ scriptID.length = 20 := by
  unfold isToScriptID at h
  split at h
  · rename_i hform
    obtain ⟨hlen, h0, h1, h22⟩ := hform
    obtain rfl := Option.some.inj h
    refine ⟨?_, length_payload (by omega)⟩
    have hend : script.drop 23 = [] := List.drop_eq_nil_of_le (by omega)
    calc
      script = [opHash160, 20] ++ script.drop 2 := by
        change script.drop 0 = _
        rw [drop_eq_cons h0, drop_eq_cons h1]
        rfl
      _ = [opHash160, 20] ++ ((script.drop 2).take 20 ++ script.drop 22) := by
        rw [← drop_eq_append script 2 20]
      _ = _ := by rw [drop_eq_cons h22, hend, List.append_assoc]
  · cases h

/-- A public key of 33 bytes, or a fully valid one of 65 bytes. -/
theorem isToPubKey_eq {keys : KeyCodec} {script : CScript} {pubkey : List UInt8}
    (h : isToPubKey keys script = some pubkey) :
    (script = 33 :: pubkey ++ [opChecksig] ∧ pubkey.length = 33 ∧
        (pubkey[0]? = some 2 ∨ pubkey[0]? = some 3)) ∨
      (script = 65 :: pubkey ++ [opChecksig] ∧ pubkey.length = 65 ∧ pubkey[0]? = some 4 ∧
        keys.isFullyValid pubkey = true) := by
  have hform : ∀ k c, 0 < k → script.length = k + 2 → script[0]? = some c →
      script[k + 1]? = some opChecksig →
      script = c :: (script.drop 1).take k ++ [opChecksig] ∧
        ((script.drop 1).take k).length = k ∧ ((script.drop 1).take k)[0]? = script[1]? := by
    intro k c hk hlen h0 hlast
    have hend : script.drop (k + 2) = [] := List.drop_eq_nil_of_le (by omega)
    refine ⟨?_, length_payload (by omega), ?_⟩
    · calc
        script = c :: script.drop 1 := drop_eq_cons h0
        _ = c :: ((script.drop 1).take k ++ script.drop (1 + k)) := by
          rw [← drop_eq_append script 1 k]
        _ = _ := by
          rw [Nat.add_comm 1 k, drop_eq_cons hlast, hend]
          rfl
    · rw [List.getElem?_take_of_lt hk, List.getElem?_drop]
  unfold isToPubKey at h
  split at h
  · rename_i hshort
    obtain ⟨hlen, h0, h34, h1⟩ := hshort
    obtain rfl := Option.some.inj h
    obtain ⟨hscript, hkey, hhead⟩ := hform 33 33 (by decide) hlen h0 h34
    rw [← hhead] at h1
    exact Or.inl ⟨hscript, hkey, h1⟩
  · split at h
    · rename_i hlong
      obtain ⟨hlen, h0, h66, h1⟩ := hlong
      dsimp only at h
      split at h
      · rename_i hvalid
        obtain rfl := Option.some.inj h
        obtain ⟨hscript, hkey, hhead⟩ := hform 65 65 (by decide) hlen h0 h66
        rw [← hhead] at h1
        exact Or.inr ⟨hscript, hkey, h1, hvalid⟩
      · cases h
    · cases h

/-- The last bit of a byte. -/
theorem and_one (b : UInt8) : b &&& 1 = if b.toNat % 2 = 0 then 0 else 1 := by
  refine UInt8.toNat_inj.1 ?_
  have hbit : (b &&& 1).toNat = b.toNat % 2 := by
    rw [UInt8.toNat_and]
    exact Nat.and_one_is_mod b.toNat
  rw [hbit]
  split
  · rename_i heven
    rw [heven]
    rfl
  · rename_i hodd
    change b.toNat % 2 = 1
    omega

/-- The form of a compressed key of 33 bytes. -/
theorem decompress_short (keys : KeyCodec) {nSize : Nat} {vch : List UInt8}
    (hform : nSize = 2 ∨ nSize = 3) (hlen : vch.length = 32) :
    decompress keys nSize vch = some (33 :: UInt8.ofNat nSize :: vch ++ [opChecksig]) := by
  unfold decompress
  rw [if_neg (by omega), if_neg (by omega), if_pos hform, List.take_of_length_le hlen.le]
  rfl

/-- The form of a key of 65 bytes that is recovered from its first coordinate. -/
theorem decompress_full {keys : KeyCodec} {nSize : Nat} {vch pubkey : List UInt8}
    (hform : nSize = 4 ∨ nSize = 5) (hlen : vch.length = 32)
    (hkey : keys.decompress (UInt8.ofNat (nSize - 2) :: vch) = some pubkey) :
    decompress keys nSize vch = some (65 :: pubkey ++ [opChecksig]) := by
  unfold decompress
  rw [if_neg (by omega), if_neg (by omega), if_neg (by omega), if_pos hform,
    List.take_of_length_le hlen.le, hkey]
  rfl

/-- A special form is its number and the payload, from which the script is made again. -/
theorem compress_some {keys : KeyCodec} {script : CScript} {compr : List UInt8}
    (hkeys : keys.Inverts) (h : compress keys script = some compr) :
    ∃ nSize vch, compr = UInt8.ofNat nSize :: vch ∧ nSize < nSpecialScripts ∧
      vch.length = getSpecialSize nSize ∧ decompress keys nSize vch = some script := by
  unfold compress at h
  split at h
  · rename_i keyID hkeyID
    obtain ⟨rfl, hlen⟩ := isToKeyID_eq hkeyID
    obtain rfl := Option.some.inj h
    refine ⟨0, keyID, rfl, by decide, hlen, ?_⟩
    unfold decompress
    rw [if_pos rfl, List.take_of_length_le hlen.le]
  split at h
  · rename_i scriptID hscriptID
    obtain ⟨rfl, hlen⟩ := isToScriptID_eq hscriptID
    obtain rfl := Option.some.inj h
    refine ⟨1, scriptID, rfl, by decide, hlen, ?_⟩
    unfold decompress
    rw [if_neg (by decide), if_pos rfl, List.take_of_length_le hlen.le]
  split at h
  · rename_i pubkey hpubkey
    obtain ⟨rfl, hlen, hhead⟩ | ⟨rfl, hlen, hhead, hvalid⟩ := isToPubKey_eq hpubkey
    · rw [if_pos hhead] at h
      obtain rfl := Option.some.inj h
      obtain ⟨c, tail, rfl⟩ := List.exists_cons_of_length_eq_add_one hlen
      have htail : tail.length = 32 := Nat.succ.inj hlen
      have hpayload : ((c :: tail).drop 1).take 32 = tail := List.take_of_length_le htail.le
      rw [hpayload]
      rcases hhead with hc | hc
      · obtain rfl : c = 2 := Option.some.inj hc
        exact ⟨2, tail, rfl, by decide, htail, decompress_short keys (Or.inl rfl) htail⟩
      · obtain rfl : c = 3 := Option.some.inj hc
        exact ⟨3, tail, rfl, by decide, htail, decompress_short keys (Or.inr rfl) htail⟩
    · have hnot : ¬ (pubkey[0]? = some 2 ∨ pubkey[0]? = some 3) := by
        rw [hhead]
        decide
      rw [if_neg hnot, if_pos hhead] at h
      obtain rfl := Option.some.inj h
      have hkey := hkeys pubkey hlen hhead hvalid
      have hpayload : ((pubkey.drop 1).take 32).length = 32 := length_payload (by omega)
      -- the number of the form says which of the two points it is
      unfold compressedKey at hkey
      rw [and_one]
      split at hkey
      · rename_i heven
        rw [if_pos heven]
        exact ⟨4, _, rfl, by decide, hpayload, decompress_full (Or.inl rfl) hpayload hkey⟩
      · rename_i hodd
        rw [if_neg hodd]
        exact ⟨5, _, rfl, by decide, hpayload, decompress_full (Or.inr rfl) hpayload hkey⟩
  · cases h

/-- A script of the size that the reader accepts is read back. -/
theorem reads_script {keys : KeyCodec} {script : CScript} (hkeys : keys.Inverts)
    (hsize : script.length ≤ maxScriptSize) :
    Reader.Reads (unserializeScript keys) (writeChunks (scriptChunks keys script)) script := by
  have hbound : maxScriptSize = 10000 := rfl
  unfold scriptChunks unserializeScript
  cases hcompress : compress keys script with
  | some compr =>
    obtain ⟨nSize, vch, rfl, hform, hlen, hscript⟩ := compress_some hkeys hcompress
    have hsix : nSize < 6 := hform
    have hwrite : writeChunks [.raw (UInt8.ofNat nSize :: vch)] = writeVarInt nSize ++ vch := by
      rw [writeVarInt_digit (by omega), writeChunks_cons, writeChunks_nil, List.append_nil]
      rfl
    dsimp only
    rw [hwrite]
    refine (Reader.Reads.varInt (by omega)).bind ?_
    rw [if_pos hform]
    refine (Reader.Reads.bytes hlen).bind_pure ?_
    rw [hscript]
    exact Reader.Reads.pure script
  | none =>
    have hsmall : script.length + nSpecialScripts < 2 ^ 32 := by
      unfold nSpecialScripts
      omega
    have hwrite : writeChunks [.varInt ((script.length + nSpecialScripts) % 2 ^ 32 : Nat),
        .raw script] = writeVarInt (script.length + nSpecialScripts : Nat) ++ script := by
      rw [Nat.mod_eq_of_lt hsmall, writeChunks_cons, writeChunks_cons, writeChunks_nil,
        List.append_nil]
      rfl
    dsimp only
    rw [hwrite]
    refine (Reader.Reads.varInt hsmall).bind ?_
    rw [if_neg (Nat.not_lt.2 (Nat.le_add_left _ _)), Nat.add_sub_cancel]
    unfold readScript
    rw [if_neg (Nat.not_lt.2 hsize)]
    exact Reader.Reads.bytes rfl

end IndexChain.Compress
