import IndexChain.Core.Floating
import IndexChain.Models.Arith.Divide
import IndexChain.Models.Chain.ChainPower
import IndexChain.Models.Chain.Lwma

/-!
# The compact format

`SetCompact` and `GetCompact` of `arith_uint256.cpp`: a number as an exponent of base 256 and a
mantissa of 23 bits, with a bit for the sign above the mantissa. Both directions shift one way
for exponents up to 3 and the other way for larger ones; a mantissa that reaches the bit of the
sign is made shorter by a byte.
-/

namespace IndexChain.Arith

open IndexChain.Core

namespace BaseUint

variable {width : Nat}

/-- `operator=` of a 64-bit number. -/
def ofUInt64 (b : UInt64) : BaseUint width :=
  (zero.put 0 b.toUInt32).put 1 (b >>> 32).toUInt32

/-- `GetLow64`. -/
def getLow64 (this : BaseUint width) : UInt64 :=
  (this.limb 0).toUInt64 ||| (this.limb 1).toUInt64 <<< 32

end BaseUint

/-- What `SetCompact` leaves. -/
structure SetCompact where
  /-- The number. -/
  value : BaseUint 8
  /-- `*pfNegative`. -/
  fNegative : Bool
  /-- `*pfOverflow`. -/
  fOverflow : Bool
  deriving DecidableEq

/-- `SetCompact`. -/
def setCompact (nCompact : UInt32) : SetCompact :=
  let nSize := (nCompact >>> 24).toNat
  let nWord := nCompact &&& 0x007fffff
  let nWord := if nSize ≤ 3 then nWord >>> UInt32.ofNat (8 * (3 - nSize)) else nWord
  { value :=
      if nSize ≤ 3 then BaseUint.ofUInt64 nWord.toUInt64
      else (BaseUint.ofUInt64 nWord.toUInt64).shlAssign (UInt32.ofNat (8 * (nSize - 3)))
    fNegative := nWord ≠ 0 ∧ nCompact &&& 0x00800000 ≠ 0
    fOverflow := nWord ≠ 0 ∧
      (34 < nSize ∨ (0xff < nWord ∧ 33 < nSize) ∨ (0xffff < nWord ∧ 32 < nSize)) }

/-- `GetCompact`, unless an assertion fails. -/
def getCompact (this : BaseUint 8) (fNegative : Bool) : Option UInt32 :=
  let nSize := (this.bits + 7) / 8
  let nCompact :=
    if nSize ≤ 3 then (this.getLow64 <<< UInt64.ofNat (8 * (3 - nSize))).toUInt32
    else (this.shrAssign (UInt32.ofNat (8 * (nSize - 3)))).getLow64.toUInt32
  let nSize := if nCompact &&& 0x00800000 ≠ 0 then nSize + 1 else nSize
  let nCompact := if nCompact &&& 0x00800000 ≠ 0 then nCompact >>> 8 else nCompact
  if nCompact &&& ~~~0x007fffff = 0 ∧ nSize < 256 then
    let nCompact := nCompact ||| UInt32.ofNat nSize <<< 24
    some (nCompact ||| if fNegative ∧ nCompact &&& 0x007fffff ≠ 0 then 0x00800000 else 0)
  else none

/-- `SetCompact` sets no flag. -/
structure NoFlags (nCompact : UInt32) : Prop where
  /-- Not negative. -/
  negative : (setCompact nCompact).fNegative = false
  /-- No overflow. -/
  overflow : (setCompact nCompact).fOverflow = false

/-- The numbers that the compact format can represent. -/
def representable : Set Nat :=
  {v | ∃ nCompact, NoFlags nCompact ∧ (setCompact nCompact).value.toNat = v}

/-- The top byte of the mantissa is neither 0 nor reaches the sign, and the bytes that a small
exponent drops are 0. -/
structure Normalised (nCompact : UInt32) : Prop where
  /-- The top byte is not 0. -/
  top : (nCompact >>> 16) &&& 0xff ≠ 0
  /-- It does not reach the bit of the sign. -/
  sign : (nCompact >>> 16) &&& 0xff < 0x80
  /-- A shift by the bytes that are dropped loses nothing. -/
  low : (nCompact >>> 24).toNat < 3 →
    2 ^ (8 * (3 - (nCompact >>> 24).toNat)) ∣ (nCompact &&& 0x007fffff).toNat

/-! ## Words and limbs -/

namespace BaseUint

theorem toNat_ofUInt64 (hwidth : 2 ≤ width) (b : UInt64) :
    (ofUInt64 b : BaseUint width).toNat = b.toNat := by
  have hlt := b.toNat_lt
  have hlow := toNat_put (zero : BaseUint width) (i := 0) (by omega) b.toUInt32
  have hhigh := toNat_put ((zero : BaseUint width).put 0 b.toUInt32) (i := 1) (by omega)
    (b >>> 32).toUInt32
  rw [limb_put, if_neg (by omega), limb_zero, UInt32.toNat_zero] at hhigh
  rw [limb_zero, UInt32.toNat_zero, toNat_zero, UInt64.toNat_toUInt32] at hlow
  rw [UInt64.toNat_toUInt32, toNat_high] at hhigh
  rw [ofUInt64]
  omega

theorem toNat_getLow64 (hwidth : 2 ≤ width) (pn : BaseUint width) :
    pn.getLow64.toNat = pn.toNat % 2 ^ 64 := by
  have hlow := (pn.limb 0).toNat_lt
  have hhigh := (pn.limb 1).toNat_lt
  have hcount : (32 : UInt64).toNat % 64 = 32 := rfl
  have hor : pn.getLow64.toNat = 2 ^ 32 * (pn.limb 1).toNat + (pn.limb 0).toNat := by
    rw [Nat.two_pow_add_eq_or_of_lt hlow, getLow64, UInt64.toNat_or, UInt64.toNat_shiftLeft,
      UInt32.toNat_toUInt64, UInt32.toNat_toUInt64, hcount, Nat.shiftLeft_eq,
      Nat.mod_eq_of_lt (by omega), Nat.or_comm, Nat.mul_comm]
  have hsplit := pn.toNat_split (m := 2) (n := width - 2) (by omega)
  rw [hsplit, hor, limbsValue, limbsValue, limbsValue]
  omega

end BaseUint

/-! ## Shifts by bytes -/

/-- A number moved up by `i` bytes and down by `j`. -/
def scale (v i j : Nat) : Nat :=
  v * 256 ^ i / 256 ^ j

theorem pow_bytes (k : Nat) : 2 ^ (8 * k) = 256 ^ k :=
  Nat.pow_mul 2 8 k

theorem scale_of_le {v i j : Nat} (h : j ≤ i) : scale v i j = v * 2 ^ (8 * (i - j)) := by
  have hpow : 256 ^ i = 256 ^ (i - j) * 256 ^ j := by rw [← Nat.pow_add, Nat.sub_add_cancel h]
  rw [scale, hpow, ← Nat.mul_assoc, Nat.mul_div_cancel _ (Nat.pow_pos (by decide)), pow_bytes]

theorem scale_of_ge {v i j : Nat} (h : i ≤ j) : scale v i j = v / 2 ^ (8 * (j - i)) := by
  have hpow : 256 ^ j = 256 ^ (j - i) * 256 ^ i := by rw [← Nat.pow_add, Nat.sub_add_cancel h]
  rw [scale, hpow, Nat.mul_div_mul_right _ _ (Nat.pow_pos (by decide)), pow_bytes]

/-- Another byte down. -/
theorem scale_succ (v i j : Nat) : scale v i (j + 1) = scale v i j / 256 := by
  rw [scale, scale, Nat.div_div_eq_div_mul, Nat.pow_succ]

/-! ## The fields of a word -/

section Fields

variable {c : UInt32}

theorem toNat_size (c : UInt32) : (c >>> 24).toNat = c.toNat / 2 ^ 24 := by
  rw [UInt32.toNat_shiftRight]
  exact Nat.shiftRight_eq_div_pow _ _

theorem toNat_word (c : UInt32) : (c &&& 0x007fffff).toNat = c.toNat % 2 ^ 23 := by
  rw [UInt32.toNat_and]
  exact Nat.and_two_pow_sub_one_eq_mod _ 23

/-- The bit of the sign. -/
theorem sign_ne_zero_iff (c : UInt32) : c &&& 0x00800000 ≠ 0 ↔ 2 ^ 23 ≤ c.toNat % 2 ^ 24 := by
  have hbit : c &&& 0x00800000 ≠ 0 ↔ c.toNat.testBit 23 = true :=
    BaseUint.and_bit_ne_zero_iff (k := 23) (by decide)
  rw [hbit, Nat.testBit_eq_decide_div_mod_eq, decide_eq_true_eq]
  omega

/-- The first assertion of `GetCompact`. -/
theorem and_not_eq_zero (h : c.toNat < 2 ^ 23) : c &&& ~~~0x007fffff = 0 := by
  have hsame : c &&& 0x007fffff = c := by
    rw [← UInt32.toNat_inj, toNat_word, Nat.mod_eq_of_lt h]
  rw [← hsame, UInt32.and_assoc]
  exact UInt32.and_zero

/-- The exponent above the mantissa. -/
theorem toNat_or_size {s : Nat} (h : c.toNat < 2 ^ 24) (hs : s < 2 ^ 8) :
    (c ||| UInt32.ofNat s <<< 24).toNat = s * 2 ^ 24 + c.toNat := by
  have hcount : (24 : UInt32).toNat % 32 = 24 := rfl
  rw [Nat.mul_comm, Nat.two_pow_add_eq_or_of_lt h, UInt32.toNat_or, UInt32.toNat_shiftLeft,
    UInt32.toNat_ofNat', hcount, Nat.shiftLeft_eq, Nat.mod_eq_of_lt (by omega : s < 2 ^ 32),
    Nat.mod_eq_of_lt (by omega), Nat.or_comm, Nat.mul_comm]

end Fields

/-! ## Decoding -/

section Decode

variable (c : UInt32)

/-- The word that `SetCompact` starts from. -/
theorem toNat_shifted {w : UInt32} {n : Nat} (hn : n ≤ 3) :
    (w >>> UInt32.ofNat (8 * n)).toNat = w.toNat / 2 ^ (8 * n) := by
  rw [UInt32.toNat_shiftRight, UInt32.toNat_ofNat', Nat.mod_eq_of_lt (by omega : 8 * n < 2 ^ 32),
    Nat.mod_eq_of_lt (by omega : 8 * n < 32)]
  exact Nat.shiftRight_eq_div_pow _ _

/-- What a word stands for, without its sign. -/
def compactValue : Nat :=
  scale (c.toNat % 2 ^ 23) (c.toNat / 2 ^ 24) 3

/-- `SetCompact` leaves what the word stands for, as far as it fits. -/
theorem toNat_setCompact : (setCompact c).value.toNat = compactValue c % 2 ^ 256 := by
  have hc := c.toNat_lt
  have hsize := toNat_size c
  have hword := toNat_word c
  rw [setCompact, compactValue]
  dsimp only
  rw [hsize]
  split
  · rename_i hle
    have hsmall : c.toNat % 2 ^ 23 / 2 ^ (8 * (3 - c.toNat / 2 ^ 24)) < 2 ^ 256 := by
      refine (Nat.div_le_self _ _).trans_lt ((Nat.mod_lt _ (by decide)).trans ?_)
      exact Nat.pow_lt_pow_right (by decide) (by decide)
    rw [BaseUint.toNat_ofUInt64 (by decide), UInt32.toNat_toUInt64, toNat_shifted (by omega), hword,
      scale_of_ge hle, Nat.mod_eq_of_lt hsmall]
  · rename_i hgt
    rw [BaseUint.toNat_shlAssign, BaseUint.toNat_ofUInt64 (by decide), UInt32.toNat_toUInt64, hword,
      UInt32.toNat_ofNat', Nat.mod_eq_of_lt (by omega : 8 * (c.toNat / 2 ^ 24 - 3) < 2 ^ 32),
      scale_of_le (by omega)]

/-- The word is 0 when the number is. -/
theorem nWord_ne_zero_iff :
    (if (c >>> 24).toNat ≤ 3 then
      (c &&& 0x007fffff) >>> UInt32.ofNat (8 * (3 - (c >>> 24).toNat))
    else c &&& 0x007fffff) ≠ 0 ↔ compactValue c ≠ 0 := by
  rw [← UInt32.toNat_inj.ne, UInt32.toNat_zero, toNat_size, compactValue]
  split
  · rename_i hle
    rw [toNat_shifted (by omega), toNat_word, scale_of_ge hle]
  · rename_i hgt
    have hpow := Nat.two_pow_pos (8 * (c.toNat / 2 ^ 24 - 3))
    rw [toNat_word, scale_of_le (by omega), Nat.mul_ne_zero_iff]
    exact (and_iff_left (Nat.ne_of_gt hpow)).symm

/-- The flag of the sign. -/
theorem fNegative_iff :
    (setCompact c).fNegative = true ↔ compactValue c ≠ 0 ∧ 2 ^ 23 ≤ c.toNat % 2 ^ 24 := by
  rw [setCompact, ← nWord_ne_zero_iff, ← sign_ne_zero_iff]
  exact decide_eq_true_iff

/-- The three sizes of a mantissa that are tested. -/
theorem overflow_iff {m e : Nat} (hm : m < 2 ^ 23) (he : 3 < e) :
    m ≠ 0 ∧ (34 < e ∨ (0xff < m ∧ 33 < e) ∨ (0xffff < m ∧ 32 < e)) ↔
      2 ^ 256 ≤ m * 2 ^ (8 * (e - 3)) := by
  obtain hsmall | rfl | rfl | hlarge : e ≤ 32 ∨ e = 33 ∨ e = 34 ∨ 34 < e := by omega
  · have hpow : 2 ^ (8 * (e - 3)) ≤ 2 ^ 232 := Nat.pow_le_pow_right (by decide) (by omega)
    have hlt : m * 2 ^ (8 * (e - 3)) < 2 ^ 256 := by
      calc
        m * 2 ^ (8 * (e - 3)) ≤ 2 ^ 23 * 2 ^ 232 := Nat.mul_le_mul hm.le hpow
        _ < 2 ^ 256 := by decide
    exact iff_of_false (by omega) (Nat.not_le.2 hlt)
  · norm_num
    omega
  · norm_num
    omega
  · have hpow : 2 ^ 256 ≤ 2 ^ (8 * (e - 3)) := Nat.pow_le_pow_right (by decide) (by omega)
    constructor
    · rintro ⟨hne, -⟩
      exact hpow.trans (Nat.le_mul_of_pos_left _ (Nat.pos_of_ne_zero hne))
    · intro hle
      refine ⟨?_, Or.inl hlarge⟩
      rintro rfl
      rw [Nat.zero_mul] at hle
      omega

/-- The flag of the overflow is exact. -/
theorem fOverflow_iff : (setCompact c).fOverflow = true ↔ 2 ^ 256 ≤ compactValue c := by
  have hm : c.toNat % 2 ^ 23 < 2 ^ 23 := Nat.mod_lt _ (by decide)
  rw [setCompact]
  dsimp only
  rw [decide_eq_true_iff, toNat_size]
  by_cases hle : c.toNat / 2 ^ 24 ≤ 3
  · have hvalue : compactValue c < 2 ^ 256 := by
      rw [compactValue, scale_of_ge hle]
      exact (Nat.div_le_self _ _).trans_lt (hm.trans (by decide))
    exact iff_of_false (by omega) (Nat.not_le.2 hvalue)
  · rw [if_neg hle, compactValue, scale_of_le (by omega), ← overflow_iff hm (by omega),
      ← UInt32.toNat_inj.ne, UInt32.lt_iff_toNat_lt, UInt32.lt_iff_toNat_lt, toNat_word]
    rfl

/-- No flag is set when the number fits and the bit of the sign is clear. -/
theorem noFlags_iff :
    NoFlags c ↔ compactValue c < 2 ^ 256 ∧ (compactValue c ≠ 0 → c.toNat % 2 ^ 24 < 2 ^ 23) := by
  constructor
  · rintro ⟨hnegative, hoverflow⟩
    rw [← Bool.not_eq_true, fNegative_iff] at hnegative
    rw [← Bool.not_eq_true, fOverflow_iff] at hoverflow
    exact ⟨Nat.not_le.1 hoverflow, fun hne => Nat.not_le.1 fun hle => hnegative ⟨hne, hle⟩⟩
  · rintro ⟨hfits, hsign⟩
    constructor
    · rw [← Bool.not_eq_true, fNegative_iff]
      rintro ⟨hne, hle⟩
      exact Nat.not_le.2 (hsign hne) hle
    · rw [← Bool.not_eq_true, fOverflow_iff]
      exact Nat.not_le.2 hfits

variable {c}

/-- A word without flags leaves what it stands for. -/
theorem NoFlags.value (h : NoFlags c) : (setCompact c).value.toNat = compactValue c := by
  rw [toNat_setCompact, Nat.mod_eq_of_lt ((noFlags_iff c).1 h).1]

/-- What a word stands for has a mantissa of 23 bits. -/
theorem compactValue_mem (c : UInt32) : compactValue c ∈ shortMantissa 256 (2 ^ 23) := by
  have hm : c.toNat % 2 ^ 23 < 2 ^ 23 := Nat.mod_lt _ (by decide)
  rw [compactValue]
  by_cases hle : c.toNat / 2 ^ 24 ≤ 3
  · rw [scale_of_ge hle]
    exact ⟨_, (Nat.div_le_self _ _).trans_lt hm, 0, by rw [Nat.pow_zero, Nat.mul_one]⟩
  · rw [scale_of_le (by omega), pow_bytes]
    exact ⟨_, hm, _, rfl⟩

end Decode

/-! ## Encoding -/

section Encode

variable {v n : Nat}

/-- The number of bytes of a number. -/
theorem byteSize_spec {bits : Nat} (h : BaseUint.IsSize v bits) :
    v < 256 ^ ((bits + 7) / 8) ∧
      ((bits + 7) / 8 ≠ 0 → 256 ^ ((bits + 7) / 8 - 1) ≤ v) := by
  constructor
  · rw [← pow_bytes]
    exact h.lt.trans_le (Nat.pow_le_pow_right (by decide) (by omega))
  · intro hn
    rw [← pow_bytes]
    exact (Nat.pow_le_pow_right (by decide) (by omega)).trans (h.le (by omega))

/-- Only one number of bytes fits. -/
theorem byteSize_unique {bits s : Nat} (h : BaseUint.IsSize v bits)
    (hlow : 256 ^ (s - 1) ≤ v) (hhigh : v < 256 ^ s) : (bits + 7) / 8 = s := by
  obtain ⟨hlt, hle⟩ := byteSize_spec h
  have habove : s - 1 < (bits + 7) / 8 :=
    (Nat.pow_lt_pow_iff_right (by decide)).1 (hlow.trans_lt hlt)
  have hbelow : (bits + 7) / 8 - 1 < s :=
    (Nat.pow_lt_pow_iff_right (by decide)).1 ((hle (by omega)).trans_lt hhigh)
  omega

/-- The upper bytes of a number are below 256 to the number of those. -/
theorem scale_lt (h : v < 256 ^ n) : scale v 3 n < 2 ^ 24 := by
  rw [scale, Nat.div_lt_iff_lt_mul (Nat.pow_pos (by decide)), Nat.mul_comm]
  exact Nat.mul_lt_mul_of_pos_left h (by decide)

/-- The exponent that `GetCompact` gives a number of `n` bytes. -/
def exponent (v n : Nat) : Nat :=
  if 2 ^ 23 ≤ scale v 3 n then n + 1 else n

/-- The mantissa does not reach the bit of the sign. -/
theorem scale_exponent_lt (h : v < 256 ^ n) : scale v 3 (exponent v n) < 2 ^ 23 := by
  have hlt := scale_lt h
  rw [exponent]
  split
  · rw [scale_succ]
    omega
  · omega

/-- No byte is dropped that the mantissa has room for. -/
theorem le_scale_exponent (h : n ≠ 0 → 256 ^ (n - 1) ≤ v) (hs : 3 < exponent v n) :
    2 ^ 15 ≤ scale v 3 (exponent v n) := by
  rw [exponent] at hs ⊢
  split at hs
  · rename_i hle
    rw [if_pos hle, scale_succ]
    omega
  · rename_i hlt
    have hpow : 256 ^ (n - 1) = 2 ^ 16 * 2 ^ (8 * (n - 3)) := by
      rw [← pow_bytes, ← Nat.pow_add]
      congr 1
      omega
    rw [if_neg hlt, scale_of_ge hs.le, Nat.le_div_iff_mul_le (Nat.two_pow_pos _)]
    calc
      2 ^ 15 * 2 ^ (8 * (n - 3)) ≤ 2 ^ 16 * 2 ^ (8 * (n - 3)) :=
        Nat.mul_le_mul_right _ (by decide)
      _ = 256 ^ (n - 1) := hpow.symm
      _ ≤ v := h (by omega)

variable (x : BaseUint 8)

/-- The word before the step for the sign. -/
theorem toNat_topBytes (h : x.toNat < 256 ^ n) (hn : n ≤ 32) :
    (if n ≤ 3 then (x.getLow64 <<< UInt64.ofNat (8 * (3 - n))).toUInt32
      else (x.shrAssign (UInt32.ofNat (8 * (n - 3)))).getLow64.toUInt32).toNat =
        scale x.toNat 3 n := by
  have htop := scale_lt h
  split
  · rename_i hle
    rw [scale_of_le hle] at htop ⊢
    have hpos := Nat.two_pow_pos (8 * (3 - n))
    have hx : x.toNat ≤ x.toNat * 2 ^ (8 * (3 - n)) := Nat.le_mul_of_pos_right _ hpos
    rw [UInt64.toNat_toUInt32, UInt64.toNat_shiftLeft, UInt64.toNat_ofNat',
      BaseUint.toNat_getLow64 (by decide), Nat.mod_eq_of_lt (by omega : 8 * (3 - n) < 2 ^ 64),
      Nat.mod_eq_of_lt (by omega : 8 * (3 - n) < 64), Nat.shiftLeft_eq,
      Nat.mod_eq_of_lt (by omega : x.toNat < 2 ^ 64)]
    generalize x.toNat * 2 ^ (8 * (3 - n)) = w at *
    omega
  · rename_i hgt
    rw [scale_of_ge (by omega)] at htop ⊢
    rw [UInt64.toNat_toUInt32, BaseUint.toNat_getLow64 (by decide), BaseUint.toNat_shrAssign,
      UInt32.toNat_ofNat', Nat.mod_eq_of_lt (by omega : 8 * (n - 3) < 2 ^ 32)]
    generalize x.toNat / 2 ^ (8 * (n - 3)) = w at *
    omega

theorem byteSize_le : (x.bits + 7) / 8 ≤ 32 := by
  have h := BaseUint.bits_le x
  omega

/-- `GetCompact` meets its assertions, and puts the exponent above the mantissa. -/
theorem exists_getCompact : ∃ c, getCompact x false = some c ∧
    c.toNat = exponent x.toNat ((x.bits + 7) / 8) * 2 ^ 24 +
      scale x.toNat 3 (exponent x.toNat ((x.bits + 7) / 8)) := by
  have hn := byteSize_le x
  obtain ⟨hlt, -⟩ := byteSize_spec (BaseUint.isSize_bits x)
  have htop := toNat_topBytes x hlt hn
  have hshort := scale_exponent_lt hlt
  have hbelow := scale_lt hlt
  rw [getCompact]
  generalize (x.bits + 7) / 8 = n at *
  dsimp only
  generalize (if n ≤ 3 then (x.getLow64 <<< UInt64.ofNat (8 * (3 - n))).toUInt32
      else (x.shrAssign (UInt32.ofNat (8 * (n - 3)))).getLow64.toUInt32) = w at *
  have hsign : w &&& 0x00800000 ≠ 0 ↔ 2 ^ 23 ≤ scale x.toNat 3 n := by
    rw [sign_ne_zero_iff, htop, Nat.mod_eq_of_lt hbelow]
  have hexponent : (if w &&& 0x00800000 ≠ 0 then n + 1 else n) = exponent x.toNat n :=
    if_congr hsign rfl rfl
  have hmantissa : (if w &&& 0x00800000 ≠ 0 then w >>> 8 else w).toNat =
      scale x.toNat 3 (exponent x.toNat n) := by
    rw [exponent]
    by_cases hset : w &&& 0x00800000 ≠ 0
    · rw [if_pos hset, if_pos (hsign.1 hset), scale_succ, ← htop]
      exact toNat_shifted (n := 1) (by decide)
    · rw [if_neg hset, if_neg fun h => hset (hsign.2 h), htop]
  have hsmall : exponent x.toNat n < 256 := by
    rw [exponent]
    split
    · omega
    · omega
  rw [hexponent]
  generalize (if w &&& 0x00800000 ≠ 0 then w >>> 8 else w) = w' at *
  rw [← hmantissa] at hshort ⊢
  rw [if_pos ⟨and_not_eq_zero hshort, hsmall⟩]
  refine ⟨_, rfl, ?_⟩
  rw [if_neg fun h => Bool.false_ne_true h.1, UInt32.or_zero]
  exact toNat_or_size (hshort.trans (by decide)) hsmall

end Encode

/-! ## There and back -/

/-- Moving up what was moved down drops the bytes below. -/
theorem scale_scale (v s : Nat) : scale (scale v 3 s) s 3 = v / 256 ^ (s - 3) * 256 ^ (s - 3) := by
  by_cases hle : s ≤ 3
  · rw [scale_of_ge hle, scale_of_le hle, Nat.mul_div_cancel _ (Nat.two_pow_pos _),
      Nat.sub_eq_zero_of_le hle, Nat.pow_zero, Nat.div_one, Nat.mul_one]
  · rw [scale_of_le (by omega), scale_of_ge (by omega), pow_bytes]

/-- A word of the compact format below the one that `GetCompact` gives is in its set. -/
theorem representable_subset : representable ⊆ shortMantissa 256 (2 ^ 23) := by
  rintro _ ⟨c, hc, rfl⟩
  rw [hc.value]
  exact compactValue_mem c

/-- The word that `GetCompact` gives stands for the greatest number with a short mantissa. -/
theorem isGreatest_compactValue {x : BaseUint 8} {c : UInt32}
    (hc : c.toNat = exponent x.toNat ((x.bits + 7) / 8) * 2 ^ 24 +
      scale x.toNat 3 (exponent x.toNat ((x.bits + 7) / 8))) :
    c.toNat % 2 ^ 24 < 2 ^ 23 ∧
      IsGreatest {v | v ∈ shortMantissa 256 (2 ^ 23) ∧ v ≤ x.toNat} (compactValue c) := by
  obtain ⟨hlt, hle⟩ := byteSize_spec (BaseUint.isSize_bits x)
  have hshort := scale_exponent_lt hlt
  have hfull := le_scale_exponent hle
  generalize hs : exponent x.toNat ((x.bits + 7) / 8) = s at *
  refine ⟨by omega, ?_⟩
  have hvalue : compactValue c = x.toNat / 256 ^ (s - 3) * 256 ^ (s - 3) := by
    have hsize : c.toNat / 2 ^ 24 = s := by omega
    have hword : c.toNat % 2 ^ 23 = scale x.toNat 3 s := by omega
    rw [compactValue, hsize, hword, scale_scale]
  rw [hvalue]
  by_cases hsmall : s ≤ 3
  · have hx : x.toNat < 2 ^ 23 := by
      rw [scale_of_le hsmall] at hshort
      exact (Nat.le_mul_of_pos_right _ (Nat.two_pow_pos _)).trans_lt hshort
    refine isGreatest_roundDown (by decide) ?_ (Or.inl (Nat.sub_eq_zero_of_le hsmall))
    exact (Nat.div_le_self _ _).trans_lt hx
  · rw [scale_of_ge (by omega), pow_bytes] at hshort hfull
    refine isGreatest_roundDown (by decide) hshort (Or.inr ?_)
    have hmost := hfull (by omega)
    omega

/-- The upper three bytes of a number, when the first of them is not 0. -/
theorem bytes_of_scale {v s : Nat} (hlow : 2 ^ 16 ≤ scale v 3 s) (hhigh : scale v 3 s < 2 ^ 24) :
    256 ^ (s - 1) ≤ v ∧ v < 256 ^ s := by
  have hpos : 0 < 256 ^ s := Nat.pow_pos (by decide)
  rw [scale, Nat.le_div_iff_mul_le hpos] at hlow
  rw [scale, Nat.div_lt_iff_lt_mul hpos] at hhigh
  cases s with
  | zero => omega
  | succ s =>
    rw [Nat.pow_succ] at *
    rw [Nat.add_sub_cancel]
    omega

namespace Normalised

variable {c : UInt32}

theorem mantissa (h : Normalised c) : 2 ^ 16 ≤ c.toNat % 2 ^ 24 ∧ c.toNat % 2 ^ 24 < 2 ^ 23 := by
  have hbyte : ((c >>> 16) &&& 0xff).toNat = c.toNat / 2 ^ 16 % 2 ^ 8 := by
    rw [UInt32.toNat_and, UInt32.toNat_shiftRight]
    exact (Nat.and_two_pow_sub_one_eq_mod _ 8).trans (congrArg (· % 2 ^ 8)
      (Nat.shiftRight_eq_div_pow _ 16))
  have htop : ((c >>> 16) &&& 0xff).toNat ≠ 0 := fun hzero => h.top (UInt32.toNat_inj.1 hzero)
  have hsign : ((c >>> 16) &&& 0xff).toNat < 0x80 := UInt32.lt_iff_toNat_lt.1 h.sign
  rw [hbyte] at htop hsign
  omega

/-- The number still has the whole mantissa. -/
theorem scale_compactValue (h : Normalised c) :
    scale (compactValue c) 3 (c.toNat / 2 ^ 24) = c.toNat % 2 ^ 24 := by
  have hword : c.toNat % 2 ^ 23 = c.toNat % 2 ^ 24 := by
    have hmantissa := h.mantissa
    omega
  have hlow := h.low
  rw [toNat_size, toNat_word] at hlow
  rw [compactValue, ← hword]
  by_cases hsize : c.toNat / 2 ^ 24 < 3
  · rw [scale_of_ge hsize.le, scale_of_le hsize.le, Nat.div_mul_cancel (hlow hsize)]
  · rw [scale_of_le (Nat.not_lt.1 hsize), scale_of_ge (Nat.not_lt.1 hsize),
      Nat.mul_div_cancel _ (Nat.two_pow_pos _)]

/-- `GetCompact` gives the word back. -/
theorem eq_of_getCompact {x : BaseUint 8} {c' : UInt32} (h : Normalised c)
    (hx : x.toNat = compactValue c)
    (hc' : c'.toNat = exponent x.toNat ((x.bits + 7) / 8) * 2 ^ 24 +
      scale x.toNat 3 (exponent x.toNat ((x.bits + 7) / 8))) : c' = c := by
  have hscale := h.scale_compactValue
  obtain ⟨hlow, hhigh⟩ := h.mantissa
  rw [← hx] at hscale
  obtain ⟨hle, hlt⟩ := bytes_of_scale (hscale ▸ hlow) (hscale ▸ hhigh.trans (by decide))
  have hbytes := byteSize_unique (BaseUint.isSize_bits x) hle hlt
  have hexponent : exponent x.toNat ((x.bits + 7) / 8) = c.toNat / 2 ^ 24 := by
    rw [exponent, hbytes, hscale, if_neg (Nat.not_le.2 hhigh)]
  rw [hexponent, hscale] at hc'
  rw [← UInt32.toNat_inj, hc']
  omega

end Normalised

/-! ## Both directions -/

/-- `GetCompact` of a number meets its assertions, and `SetCompact` of the word sets no flag and
leaves the greatest number of the compact format that is not above. -/
theorem getCompact_spec (x : BaseUint 8) : ∃ c, getCompact x false = some c ∧
    c.toNat = exponent x.toNat ((x.bits + 7) / 8) * 2 ^ 24 +
      scale x.toNat 3 (exponent x.toNat ((x.bits + 7) / 8)) ∧ NoFlags c ∧
    IsGreatest {v | v ∈ representable ∧ v ≤ x.toNat} (setCompact c).value.toNat := by
  obtain ⟨c, hget, hc⟩ := exists_getCompact x
  obtain ⟨hsign, ⟨-, hle⟩, hgreatest⟩ := isGreatest_compactValue hc
  have hflags : NoFlags c :=
    (noFlags_iff c).2 ⟨hle.trans_lt (BaseUint.toNat_lt x), fun _ => hsign⟩
  refine ⟨c, hget, hc, hflags, ⟨⟨c, hflags, rfl⟩, ?_⟩, ?_⟩
  · rw [hflags.value]
    exact hle
  · rintro v ⟨hv, hvx⟩
    rw [hflags.value]
    exact hgreatest ⟨representable_subset hv, hvx⟩

/-- `SetCompact` after `GetCompact` rounds down to the compact format, without a flag, and
`GetCompact` after `SetCompact` keeps the number of every word without flags, and the word itself
when it is normalised. -/
theorem compact_exact :
    (∀ x : BaseUint 8, ∃ c, getCompact x false = some c ∧ NoFlags c ∧
      IsGreatest {v | v ∈ representable ∧ v ≤ x.toNat} (setCompact c).value.toNat) ∧
    ∀ c, NoFlags c → ∃ c', getCompact (setCompact c).value false = some c' ∧ NoFlags c' ∧
      (setCompact c').value = (setCompact c).value ∧ (Normalised c → c' = c) := by
  refine ⟨fun x => ?_, fun c hflags => ?_⟩
  · obtain ⟨c, hget, -, hflags, hgreatest⟩ := getCompact_spec x
    exact ⟨c, hget, hflags, hgreatest⟩
  · obtain ⟨c', hget, hc', hflags', ⟨-, hle⟩, hgreatest⟩ := getCompact_spec (setCompact c).value
    refine ⟨c', hget, hflags', ?_, fun h => h.eq_of_getCompact hflags.value hc'⟩
    exact BaseUint.toNat_injective (hle.antisymm (hgreatest ⟨⟨c, hflags, rfl⟩, le_rfl⟩))

/-- A normalised word with the largest mantissa. -/
theorem compact_exact_largest : NoFlags 0x1d7fffff ∧
    getCompact (setCompact 0x1d7fffff).value false = some 0x1d7fffff := by
  have hflags : NoFlags 0x1d7fffff := ⟨by decide, by decide⟩
  obtain ⟨c, hget, -, -, hsame⟩ := compact_exact.2 _ hflags
  refine ⟨hflags, hget.trans (congrArg some (hsame ?_))⟩
  exact ⟨by decide, by decide, by decide⟩

end IndexChain.Arith

/-!
## Compact words of the chain

Where the chain and the staker compute with words of 256 bits, their compact format is the one
of the limbs.
-/

namespace IndexChain.Arith

variable (c : UInt32) (x : BaseUint 8)

end IndexChain.Arith
