import IndexChain.Core.Canonical
import IndexChain.Core.VarInt
import Mathlib.Data.Int.ModEq

/-!
# Numbers and sizes in a stream

`WriteVarInt`, `ReadVarInt`, `WriteCompactSize` and `ReadCompactSize` of `serialize.h`, the
first two for every integer type. A variable of a type keeps what its width leaves of a value.
`WriteVarInt` puts the digits into an array whose size follows from the type, and writes them
to the stream from the last one down.
-/

namespace IndexChain.Numbers

open IndexChain.Core (Reader leBytes maxSize)

open IndexChain.Core.Reader (Reads)

/-- An integer type: its `sizeof`, and whether it is signed. -/
structure IntType where
  /-- The number of bytes. -/
  sizeof : Nat
  /-- The type has negative values. -/
  signed : Bool
  /-- A type has a size. -/
  sizeof_pos : 0 < sizeof
  deriving DecidableEq, Repr

namespace IntType

variable (I : IntType)

/-- The number of bits. -/
def bits : Nat := I.sizeof * 8

/-- What a variable of the type holds after an assignment. -/
def wrap (x : Int) : Int := if I.signed then x.bmod (2 ^ I.bits) else x % 2 ^ I.bits

/-- A value of the type. -/
def Holds (x : Int) : Prop := I.wrap x = x

instance (x : Int) : Decidable (I.Holds x) := inferInstanceAs (Decidable (_ = _))

end IntType

/-! ## Variable length -/

/-- The digit that `WriteVarInt` stores: the low bits, and the flag unless it is the first. -/
def digitOf (n : Int) (len : Nat) : UInt8 :=
  UInt8.ofNat ((n % 128).toNat + if len = 0 then 0 else 128)

/-- The loop that fills `tmp` and counts its digits; it fails where a digit is past the end of
the array. -/
def fillTmp (n : Int) (tmp : List UInt8) (len : Nat) : Option (List UInt8 × Nat) :=
  if len < tmp.length then
    let tmp := tmp.set len (digitOf n len)
    if n ≤ 127 then some (tmp, len) else fillTmp (n / 128 - 1) tmp (len + 1)
  else none
termination_by n.toNat
decreasing_by omega

/-- The loop that writes the digits, down to the first. -/
def writeDown (tmp : List UInt8) : Nat → List UInt8
  | 0 => [tmp.getD 0 0]
  | len + 1 => tmp.getD (len + 1) 0 :: writeDown tmp len

/-- `WriteVarInt`. -/
def writeVarInt (I : IntType) (n : Int) : Option (List UInt8) := do
  let (tmp, len) ← fillTmp n (List.replicate ((I.sizeof * 8 + 6) / 7) 0) 0
  return writeDown tmp len

/-- The loop of `ReadVarInt`. -/
def readVarIntFrom (I : IntType) : Int → Reader Int
  | _, [] => none
  | n, chData :: is =>
    let n := I.wrap (n * 128 + (chData.toNat % 128 : Nat))
    if 128 ≤ chData.toNat then readVarIntFrom I (I.wrap (n + 1)) is else some (n, is)

/-- `ReadVarInt`. -/
def readVarInt (I : IntType) : Reader Int :=
  readVarIntFrom I 0

/-! ## Compact sizes -/

/-- `WriteCompactSize`. -/
def writeCompactSize (nSize : Nat) : List UInt8 :=
  if nSize < 253 then leBytes 1 nSize
  else if nSize ≤ 0xFFFF then leBytes 1 253 ++ leBytes 2 nSize
  else if nSize ≤ 0xFFFFFFFF then leBytes 1 254 ++ leBytes 4 nSize
  else leBytes 1 255 ++ leBytes 8 nSize

/-- A size in `k` bytes, which must not fit a shorter form. -/
def readSize (k least : Nat) : Reader Nat := do
  let nSizeRet ← Reader.nat k
  if nSizeRet < least then Reader.fail else return nSizeRet

/-- `ReadCompactSize`. -/
def readCompactSize : Reader Nat := do
  let chSize ← Reader.nat 1
  let nSizeRet ←
    if chSize < 253 then pure chSize
    else if chSize = 253 then readSize 2 253
    else if chSize = 254 then readSize 4 0x10000
    else readSize 8 0x100000000
  if maxSize < nSizeRet then Reader.fail else return nSizeRet

/-! ## Writing a number -/

namespace IntType

variable {I : IntType}

/-- What a variable holds depends on the value up to a multiple of `2 ^ bits`. -/
theorem wrap_modEq (x : Int) : I.wrap x ≡ x [ZMOD 2 ^ I.bits] := by
  have hcast : ((2 ^ I.bits : Nat) : Int) = 2 ^ I.bits := by push_cast; rfl
  unfold wrap
  split
  · rw [Int.ModEq, ← hcast, Int.bmod_emod]
  · exact Int.mod_modEq x _

theorem wrap_eq_of_modEq {x y : Int} (h : x ≡ y [ZMOD 2 ^ I.bits]) : I.wrap x = I.wrap y := by
  have hcast : ((2 ^ I.bits : Nat) : Int) = 2 ^ I.bits := by push_cast; rfl
  unfold wrap
  split
  · rw [← Int.emod_bmod x, ← Int.emod_bmod y, hcast, h.eq]
  · exact h

/-- A value that is not negative fits the bits of the type. -/
theorem Holds.lt {x : Int} (h : I.Holds x) (h0 : 0 ≤ x) : x.toNat < 2 ^ I.bits := by
  have hpos : (0 : Int) < 2 ^ I.bits := Int.pow_pos (by decide)
  have hcast : ((2 ^ I.bits : Nat) : Int) = 2 ^ I.bits := by push_cast; rfl
  unfold Holds wrap at h
  split at h
  · have hlt := @Int.bmod_lt x (2 ^ I.bits) (by omega)
    omega
  · have hlt := Int.emod_lt_of_pos x hpos
    omega

end IntType

/-- The array has room for the digits of every value of the type. -/
theorem sizeOfVarInt_le_tmp {I : IntType} {n : Nat} (h : n < 2 ^ I.bits) :
    Core.sizeOfVarInt n ≤ (I.sizeof * 8 + 6) / 7 := by
  have hI := I.sizeof_pos
  obtain ⟨k, hk⟩ : ∃ k, (I.sizeof * 8 + 6) / 7 = k + 1 := ⟨(I.sizeof * 8 + 6) / 7 - 1, by omega⟩
  rw [hk]
  refine Core.sizeOfVarInt_le (h.trans_le ?_)
  calc
    2 ^ I.bits ≤ 2 ^ (7 * (k + 1)) := Nat.pow_le_pow_right (by decide) (by
      simp only [IntType.bits]
      omega)
    _ = 128 ^ (k + 1) := by rw [Nat.pow_mul]

/-- What an assignment leaves of the first digits. -/
theorem take_set_succ {tmp : List UInt8} {len : Nat} (c : UInt8) (h : len < tmp.length) :
    (tmp.set len c).take (len + 1) = tmp.take len ++ [c] := by
  have hlen : len < (tmp.set len c).length := by rwa [List.length_set]
  rw [List.take_succ_eq_append_getElem hlen, List.take_set_of_le le_rfl, List.getElem_set_self]

/-- The digits are in the array from the one at `len` on, and what was before them is left. -/
theorem fillTmp_eq {n : Int} {tmp : List UInt8} {len : Nat}
    (h : len + Core.sizeOfVarInt n ≤ tmp.length) :
    ∃ tmp' last, fillTmp n tmp len = some (tmp', last) ∧ last < tmp'.length ∧
      tmp'.take (last + 1) =
        tmp.take len ++ Core.varIntDigits (if len = 0 then 0 else 128) n := by
  fun_induction fillTmp n tmp len with
  | case1 n tmp len hlt tmp' hsmall =>
    refine ⟨tmp', len, rfl, by simpa [tmp'] using hlt, ?_⟩
    rw [take_set_succ _ hlt, Core.varIntDigits, if_pos hsmall]
    rfl
  | case2 n tmp len hlt tmp' hbig ih =>
    have hsize : Core.sizeOfVarInt n = Core.sizeOfVarInt (n / 128 - 1) + 1 := by
      rw [Core.sizeOfVarInt, if_neg hbig]
    have hroom : len + 1 + Core.sizeOfVarInt (n / 128 - 1) ≤ tmp'.length := by
      rw [List.length_set]
      omega
    obtain ⟨filled, last, hfill, hlast, htake⟩ := ih hroom
    refine ⟨filled, last, hfill, hlast, ?_⟩
    rw [htake, if_neg (Nat.succ_ne_zero len), take_set_succ _ hlt, List.append_assoc,
      Core.varIntDigits.eq_1 (if len = 0 then 0 else 128), if_neg hbig]
    rfl
  | case3 n tmp len hfull =>
    have hpos : 0 < Core.sizeOfVarInt n := by
      rw [Core.sizeOfVarInt]
      split
      · exact Nat.one_pos
      · exact Nat.succ_pos _
    omega

/-- The digits are written from the last one down. -/
theorem writeDown_eq {tmp : List UInt8} {len : Nat} (h : len < tmp.length) :
    writeDown tmp len = (tmp.take (len + 1)).reverse := by
  induction len with
  | zero =>
    cases tmp with
    | nil => cases h
    | cons c tmp => rfl
  | succ len ih =>
    rw [writeDown, ih (Nat.lt_of_succ_lt h), List.take_succ_eq_append_getElem h,
      List.reverse_append, List.getD_eq_getElem?_getD, List.getElem?_eq_getElem h]
    rfl

/-- A value that is not negative is written with the digits of its number. -/
theorem writeVarInt_eq {I : IntType} {n : Int} (h : I.Holds n) (h0 : 0 ≤ n) :
    writeVarInt I n = some (Core.writeVarInt n) := by
  have hsize := sizeOfVarInt_le_tmp (h.lt h0)
  rw [Int.toNat_of_nonneg h0] at hsize
  have hroom : 0 + Core.sizeOfVarInt n ≤
      (List.replicate ((I.sizeof * 8 + 6) / 7) (0 : UInt8)).length := by
    rw [List.length_replicate]
    omega
  obtain ⟨tmp, last, hfill, hlast, htake⟩ := fillTmp_eq hroom
  rw [writeVarInt, hfill, Option.bind_eq_bind, Option.bind_some]
  dsimp only
  rw [writeDown_eq hlast, htake]
  rfl

/-! ## Reading a number -/

theorem readVarIntFrom_cons (I : IntType) (n : Int) (c : UInt8) (is : List UInt8) :
    readVarIntFrom I n (c :: is) =
      if 128 ≤ c.toNat then
        readVarIntFrom I (I.wrap (I.wrap (n * 128 + (c.toNat % 128 : Nat)) + 1)) is
      else some (I.wrap (n * 128 + (c.toNat % 128 : Nat)), is) := rfl

/-- The register of the type against the one of the library, which is not signed. -/
theorem readVarIntFrom_eq (I : IntType) {n : Int} {m : Nat} (h : n ≡ m [ZMOD 2 ^ I.bits])
    (is : List UInt8) :
    readVarIntFrom I n is =
      (Reader.varIntFrom I.bits m is).map fun x => (I.wrap (x.1 : Int), x.2) := by
  induction is generalizing n m with
  | nil => rfl
  | cons c is ih =>
    have hstep : n * 128 + (c.toNat % 128 : Nat) ≡
        ((m * 128 + c.toNat % 128) % 2 ^ I.bits : Nat) [ZMOD 2 ^ I.bits] := by
      push_cast
      exact ((h.mul_right 128).add_right _).trans (Int.mod_modEq _ _).symm
    rw [readVarIntFrom_cons, Reader.varIntFrom_cons]
    split
    · refine ih ?_
      push_cast at hstep ⊢
      have hnext := ((IntType.wrap_modEq _).trans hstep).add_right 1
      exact ((IntType.wrap_modEq _).trans hnext).trans (Int.mod_modEq _ _).symm
    · rw [Option.map_some, IntType.wrap_eq_of_modEq hstep]

/-- A number is read back from its digits. -/
theorem reads_varInt {I : IntType} {n : Int} (h : I.Holds n) (h0 : 0 ≤ n) :
    Reads (readVarInt I) (Core.writeVarInt n) n := by
  intro rest
  have hread := Reader.Reads.varInt (h.lt h0) rest
  rw [Int.toNat_of_nonneg h0] at hread
  have heq : readVarInt I (Core.writeVarInt n ++ rest) = _ :=
    readVarIntFrom_eq I (Int.ModEq.refl (0 : Int)) (Core.writeVarInt n ++ rest)
  change Reader.varIntFrom _ _ _ = _ at hread
  rw [heq, hread, Option.map_some, Int.toNat_of_nonneg h0, h]

/-! ## Sizes -/

theorem writeCompactSize_eq (n : Nat) : writeCompactSize n = Core.writeCompactSize n := rfl

/-- The two checks of a size, one after the other or at once. -/
theorem readSize_bind {k least : Nat} {p : Nat → Prop} [DecidablePred p]
    (hp : ∀ n, p n ↔ n < least ∨ maxSize < n) :
    (readSize k least >>= fun n => if maxSize < n then Reader.fail else pure n) =
      (Reader.nat k >>= fun n => if p n then Reader.fail else pure n) := by
  funext is
  change Reader.bind (Reader.bind (Reader.nat k) _) _ is = Reader.bind (Reader.nat k) _ is
  simp only [Reader.bind]
  cases Reader.nat k is with
  | none => rfl
  | some x =>
    obtain ⟨n, rest⟩ := x
    by_cases hleast : n < least
    · have hpn : p n := (hp n).2 (Or.inl hleast)
      simp only [if_pos hleast, if_pos hpn]
      rfl
    · have hpn : p n ↔ maxSize < n := by rw [hp, or_iff_right hleast]
      simp only [if_neg hleast, hpn]
      rfl

/-- Both definitions of the reader agree. -/
theorem readCompactSize_eq : readCompactSize = Reader.compactSize := by
  funext is
  cases is with
  | nil => rfl
  | cons c is =>
    have hbyte : Reader.nat 1 (c :: is) = some (c.toNat, is) := rfl
    have hlt := c.toNat_lt
    have h253 : c < 253 ↔ c.toNat < 253 := UInt8.lt_iff_toNat_lt
    have heq : ∀ d : UInt8, c = d ↔ c.toNat = d.toNat := fun d => UInt8.toNat_inj.symm
    rw [readCompactSize, Reader.compactSize, Reader.bind_of_eq hbyte,
      Reader.bind_of_eq (Reader.byte_cons c is)]
    simp only [h253, heq, UInt8.reduceToNat]
    obtain hsmall | h | h | h :
        c.toNat < 253 ∨ c.toNat = 253 ∨ c.toNat = 254 ∨ c.toNat = 255 := by omega
    · have hle : ¬ maxSize < c.toNat := by
        simp only [maxSize]
        omega
      rw [if_pos hsmall, if_pos hsmall, Reader.bind_of_eq rfl, Reader.bind_of_eq rfl, if_neg hle,
        if_neg (by simp only [maxSize] at hle; omega)]
    · simp only [h, Nat.lt_irrefl, Nat.reduceEqDiff, if_true, if_false]
      exact congrFun (readSize_bind fun n => by simp [maxSize]) is
    · simp only [h, Nat.reduceLT, Nat.reduceEqDiff, if_true, if_false]
      exact congrFun (readSize_bind fun n => by simp [maxSize]) is
    · simp only [h, Nat.reduceLT, Nat.reduceEqDiff, if_false]
      exact congrFun (readSize_bind fun n => by simp [maxSize]) is

/-- A number of any type is written into the array and read back, and no encoding begins with
the one of another number; a size is read back up to `MAX_SIZE`, and what is read as a size is
its encoding. -/
theorem numbers_exact :
    (∀ (I : IntType) (n : Int), I.Holds n → 0 ≤ n → ∃ bs, writeVarInt I n = some bs ∧
      (∀ rest, readVarInt I (bs ++ rest) = some (n, rest)) ∧
      ∀ m cs, I.Holds m → 0 ≤ m → m ≠ n → writeVarInt I m = some cs →
        bs ≠ cs ∧ ¬ bs <+: cs ∧ ¬ cs <+: bs) ∧
    (∀ n ≤ maxSize, ∀ rest, readCompactSize (writeCompactSize n ++ rest) = some (n, rest)) ∧
    ∀ is n rest, readCompactSize is = some (n, rest) ↔
      n ≤ maxSize ∧ is = writeCompactSize n ++ rest := by
  have hsize : ∀ n ≤ maxSize, Reads readCompactSize (writeCompactSize n) n := fun n hn => by
    rw [readCompactSize_eq, writeCompactSize_eq]
    exact Reader.Reads.compactSize hn
  refine ⟨fun I n h h0 => ?_, hsize, fun is n rest => ⟨fun hread => ?_, ?_⟩⟩
  · have hn := reads_varInt h h0
    refine ⟨_, writeVarInt_eq h h0, hn, fun m cs hm hm0 hne hcs => ?_⟩
    obtain rfl : Core.writeVarInt m = cs := by
      rw [writeVarInt_eq hm hm0] at hcs
      exact Option.some.inj hcs
    have hread := reads_varInt hm hm0
    have hprefix : ¬ Core.writeVarInt n <+: Core.writeVarInt m := fun hle =>
      hne (hn.eq_of_prefix hread hle).symm
    exact ⟨fun heq => hprefix (heq ▸ List.prefix_rfl), hprefix, fun hle =>
      hne (hread.eq_of_prefix hn hle)⟩
  · rw [readCompactSize_eq] at hread
    obtain ⟨his, hle⟩ := Reader.Canonical.compactSize hread
    exact ⟨hle, his⟩
  · rintro ⟨hle, rfl⟩
    exact hsize n hle rest

/-- Five bytes of array for a 32-bit value whose encoding needs them all. -/
theorem numbers_exact_int : ∃ bs,
    writeVarInt ⟨4, true, by decide⟩ (2 ^ 31 - 1) = some bs ∧
      (∀ rest, readVarInt ⟨4, true, by decide⟩ (bs ++ rest) = some (2 ^ 31 - 1, rest)) ∧
      readCompactSize (writeCompactSize maxSize ++ [1]) = some (maxSize, [1]) := by
  obtain ⟨bs, hwrite, hread, -⟩ :=
    numbers_exact.1 ⟨4, true, by decide⟩ (2 ^ 31 - 1) (by decide) (by decide)
  exact ⟨bs, hwrite, hread, numbers_exact.2.1 maxSize (by decide) [1]⟩

end IndexChain.Numbers
