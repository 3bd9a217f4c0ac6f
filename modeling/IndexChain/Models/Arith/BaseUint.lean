import IndexChain.Core.Limbs

/-!
# Unsigned numbers in 32-bit limbs

`base_uint` of `arith_uint256.h`, for any width, and its shifts. A number is an array of limbs,
the least significant first. `operator<<=` and `operator>>=` clear the array and then put every
limb of a copy where the shift moves it, which is into two limbs of the array unless the shift
is by whole limbs.
-/

namespace IndexChain.Arith

open IndexChain.Core

/-- `base_uint`: the array `pn`. -/
abbrev BaseUint (width : Nat) := Vector UInt32 width

namespace BaseUint

variable {width : Nat}

/-- The entry of a limb. -/
def limb (pn : BaseUint width) (i : Nat) : UInt32 :=
  pn[i]?.getD 0

/-- Write a limb. -/
def put (pn : BaseUint width) (i : Nat) (x : UInt32) : BaseUint width :=
  pn.setIfInBounds i x

/-- `pn[i] |= x`. -/
def orAt (pn : BaseUint width) (i : Nat) (x : UInt32) : BaseUint width :=
  pn.put i (pn.limb i ||| x)

/-- All limbs are 0. -/
def zero : BaseUint width :=
  Vector.replicate width 0

/-- The number that the limbs stand for. -/
def toNat (pn : BaseUint width) : Nat :=
  limbsValue (2 ^ 32) (fun i => (pn.limb i).toNat) width

/-! ## Shifts -/

/-- The body of the loop of `operator<<=`. -/
def shlBody (a : BaseUint width) (k : Nat) (shift : UInt32) (pn : BaseUint width) (i : Nat) :
    BaseUint width :=
  let pn := if i + k + 1 < width ∧ shift ≠ 0 then pn.orAt (i + k + 1) (a.limb i >>> (32 - shift))
    else pn
  if i + k < width then pn.orAt (i + k) (a.limb i <<< shift) else pn

/-- `operator<<=`. -/
def shlAssign (this : BaseUint width) (shift : UInt32) : BaseUint width :=
  let a := this
  let k := shift.toNat / 32
  let shift := shift % 32
  countUp (shlBody a k shift) zero width

/-- The body of the loop of `operator>>=`. -/
def shrBody (a : BaseUint width) (k : Nat) (shift : UInt32) (pn : BaseUint width) (i : Nat) :
    BaseUint width :=
  let pn := if k + 1 ≤ i ∧ shift ≠ 0 then pn.orAt (i - k - 1) (a.limb i <<< (32 - shift)) else pn
  if k ≤ i then pn.orAt (i - k) (a.limb i >>> shift) else pn

/-- `operator>>=`. -/
def shrAssign (this : BaseUint width) (shift : UInt32) : BaseUint width :=
  let a := this
  let k := shift.toNat / 32
  let shift := shift % 32
  countUp (shrBody a k shift) zero width

/-! ## Limbs and bits -/

variable {pn : BaseUint width} {i j n : Nat} {x : UInt32}

theorem limb_put :
    (pn.put i x).limb j = if i = j ∧ i < width then x else pn.limb j := by
  rw [put, limb, limb, Vector.getElem?_setIfInBounds]
  by_cases hi : i = j
  · subst hi
    by_cases hlt : i < width
    · simp [hlt]
    · simp [hlt]
  · simp [hi]

theorem limb_of_le (h : width ≤ i) : pn.limb i = 0 := by
  rw [limb, Vector.getElem?_eq_none h]
  rfl

@[simp] theorem limb_zero (i : Nat) : (zero : BaseUint width).limb i = 0 := by
  rw [limb, zero, Vector.getElem?_replicate]
  split
  · rfl
  · rfl

theorem toNat_lt (pn : BaseUint width) : pn.toNat < 2 ^ (32 * width) := by
  rw [Nat.pow_mul]
  exact limbsValue_lt fun i _ => (pn.limb i).toNat_lt

/-- A limb has no bits from the 32nd on. -/
theorem testBit_limb_of_le {r : Nat} (h : 32 ≤ r) : x.toNat.testBit r = false :=
  Nat.testBit_lt_two_pow (x.toNat_lt.trans_le (Nat.pow_le_pow_right (by decide) h))

/-- A bit of the number. -/
theorem testBit_toNat (pn : BaseUint width) (n : Nat) :
    pn.toNat.testBit n = (pn.limb (n / 32)).toNat.testBit (n % 32) := by
  rw [toNat, testBit_limbsValue (by decide) fun i _ => (pn.limb i).toNat_lt]
  by_cases h : n / 32 < width
  · rw [decide_eq_true h, Bool.true_and]
  · rw [decide_eq_false h, limb_of_le (Nat.not_lt.1 h), Bool.false_and]
    exact (Nat.zero_testBit _).symm

/-- Different limbs stand for different numbers. -/
theorem toNat_injective : Function.Injective (toNat : BaseUint width → Nat) := by
  intro a b h
  ext i hi : 1
  have hlimb : (a.limb i).toNat = (b.limb i).toNat := by
    apply Nat.eq_of_testBit_eq
    intro r
    obtain hr | hr := Nat.lt_or_ge r 32
    · have ha := testBit_toNat a (32 * i + r)
      have hb := testBit_toNat b (32 * i + r)
      have hdiv : (32 * i + r) / 32 = i := by omega
      have hmod : (32 * i + r) % 32 = r := by omega
      rw [hdiv, hmod] at ha hb
      rw [← ha, ← hb, h]
    · rw [testBit_limb_of_le hr, testBit_limb_of_le hr]
  have hsame := UInt32.toNat_inj.1 hlimb
  simpa [limb, hi] using hsame

@[simp] theorem toNat_zero : (zero : BaseUint width).toNat = 0 := by
  rw [toNat, limbsValue_congr fun i _ => by rw [limb_zero, UInt32.toNat_zero]]
  exact limbsValue_zero width

/-- Bits that are put into a limb come on top of those that are there. -/
theorem testBit_orAt (h : i < width) :
    (pn.orAt i x).toNat.testBit n =
      (pn.toNat.testBit n || (decide (n / 32 = i) && x.toNat.testBit (n % 32))) := by
  rw [testBit_toNat, testBit_toNat, orAt, limb_put]
  by_cases hi : i = n / 32
  · subst hi
    rw [if_pos ⟨rfl, h⟩, UInt32.toNat_or, Nat.testBit_or, decide_eq_true rfl, Bool.true_and]
  · rw [if_neg fun h => hi h.1, decide_eq_false fun h => hi h.symm, Bool.false_and, Bool.or_false]

/-- A bit of a limb that is shifted up. -/
theorem testBit_shiftLeft {s : UInt32} (hs : s.toNat < 32) {r : Nat} (hr : r < 32) :
    (x <<< s).toNat.testBit r = (decide (s.toNat ≤ r) && x.toNat.testBit (r - s.toNat)) := by
  rw [UInt32.toNat_shiftLeft, Nat.mod_eq_of_lt hs, Nat.testBit_mod_two_pow, decide_eq_true hr,
    Bool.true_and, Nat.testBit_shiftLeft]

/-- A bit of a limb that is shifted down. -/
theorem testBit_shiftRight {s : UInt32} (hs : s.toNat < 32) {r : Nat} :
    (x >>> s).toNat.testBit r = x.toNat.testBit (s.toNat + r) := by
  rw [UInt32.toNat_shiftRight, Nat.mod_eq_of_lt hs, Nat.testBit_shiftRight]

/-! ## Every limb where the shift moves it -/

variable {a : BaseUint width} {k : Nat} {shift : UInt32}

/-- The bits put into a limb when a condition holds. -/
theorem testBit_ite_orAt {c : Prop} [Decidable c] (h : c → i < width) :
    (if c then pn.orAt i x else pn).toNat.testBit n =
      (pn.toNat.testBit n ||
        (decide (c ∧ n / 32 = i) && x.toNat.testBit (n % 32))) := by
  split
  · rename_i hc
    rw [testBit_orAt (h hc)]
    simp [hc]
  · rename_i hc
    simp [hc]

theorem toNat_sub_shift (hs : shift.toNat < 32) :
    (32 - shift).toNat = 32 - shift.toNat := by
  have hle : shift ≤ 32 := UInt32.le_iff_toNat_le.2 hs.le
  rw [UInt32.toNat_sub_of_le _ _ hle]
  rfl

theorem toNat_shift_pos (hne : shift ≠ 0) : 0 < shift.toNat :=
  Nat.pos_of_ne_zero fun h => hne (UInt32.toNat_inj.1 h)

/-- One limb of `operator<<=` puts its bits where the shift moves them. -/
theorem testBit_shlBody (hs : shift.toNat < 32) (n : Nat) :
    (shlBody a k shift pn i).toNat.testBit n =
      (pn.toNat.testBit n ||
        (decide (n < 32 * width ∧ 32 * k + shift.toNat ≤ n ∧
          (n - (32 * k + shift.toNat)) / 32 = i) &&
          a.toNat.testBit (n - (32 * k + shift.toNat)))) := by
  rw [shlBody, testBit_ite_orAt id, testBit_ite_orAt And.left, Bool.or_assoc]
  congr 1
  rw [Bool.eq_iff_iff]
  simp only [Bool.or_eq_true, Bool.and_eq_true, decide_eq_true_eq]
  rw [testBit_shiftLeft hs (Nat.mod_lt n (by decide)), testBit_toNat a, Bool.and_eq_true,
    decide_eq_true_eq]
  constructor
  · rintro (⟨⟨⟨hlt, hne⟩, hq⟩, hbit⟩ | ⟨⟨hlt, hq⟩, hle, hbit⟩)
    · have hpos := toNat_shift_pos hne
      have hs' : (32 - shift).toNat < 32 := by
        rw [toNat_sub_shift hs]
        omega
      rw [testBit_shiftRight hs', toNat_sub_shift hs] at hbit
      -- what is shifted out of a limb comes into the lower bits of the next one
      have hlow : n % 32 < shift.toNat := by
        by_contra hge
        rw [testBit_limb_of_le (by omega)] at hbit
        cases hbit
      have hdiv : (n - (32 * k + shift.toNat)) / 32 = i := by omega
      have hmod : (n - (32 * k + shift.toNat)) % 32 = 32 - shift.toNat + n % 32 := by omega
      exact ⟨⟨by omega, by omega, hdiv⟩, by rw [hdiv, hmod, hbit]⟩
    · have hdiv : (n - (32 * k + shift.toNat)) / 32 = i := by omega
      have hmod : (n - (32 * k + shift.toNat)) % 32 = n % 32 - shift.toNat := by omega
      exact ⟨⟨by omega, by omega, hdiv⟩, by rw [hdiv, hmod, hbit]⟩
  · rintro ⟨⟨hn, hle, hdiv⟩, hbit⟩
    rw [hdiv] at hbit
    by_cases hlow : n % 32 < shift.toNat
    · have hne : shift ≠ 0 := by
        rintro rfl
        exact Nat.not_lt_zero _ hlow
      have hs' : (32 - shift).toNat < 32 := by
        rw [toNat_sub_shift hs]
        have hpos := toNat_shift_pos hne
        omega
      have hmod : (n - (32 * k + shift.toNat)) % 32 = 32 - shift.toNat + n % 32 := by omega
      rw [hmod] at hbit
      refine Or.inl ⟨⟨⟨by omega, hne⟩, by omega⟩, ?_⟩
      rw [testBit_shiftRight hs', toNat_sub_shift hs, hbit]
    · have hmod : (n - (32 * k + shift.toNat)) % 32 = n % 32 - shift.toNat := by omega
      rw [hmod] at hbit
      exact Or.inr ⟨⟨by omega, by omega⟩, by omega, hbit⟩

/-- One limb of `operator>>=` puts its bits where the shift moves them. -/
theorem testBit_shrBody (hs : shift.toNat < 32) (hi : i < width) (n : Nat) :
    (shrBody a k shift pn i).toNat.testBit n =
      (pn.toNat.testBit n ||
        (decide ((n + (32 * k + shift.toNat)) / 32 = i) &&
          a.toNat.testBit (n + (32 * k + shift.toNat)))) := by
  rw [shrBody, testBit_ite_orAt fun _ => by omega, testBit_ite_orAt fun _ => by omega,
    Bool.or_assoc]
  congr 1
  rw [Bool.eq_iff_iff]
  simp only [Bool.or_eq_true, Bool.and_eq_true, decide_eq_true_eq]
  rw [testBit_shiftRight hs, testBit_toNat a]
  have hlt : n % 32 < 32 := Nat.mod_lt n (by decide)
  constructor
  · rintro (⟨⟨⟨hle, hne⟩, hq⟩, hbit⟩ | ⟨⟨hle, hq⟩, hbit⟩)
    · have hpos := toNat_shift_pos hne
      have hs' : (32 - shift).toNat < 32 := by
        rw [toNat_sub_shift hs]
        omega
      rw [testBit_shiftLeft hs' hlt, toNat_sub_shift hs, Bool.and_eq_true,
        decide_eq_true_eq] at hbit
      obtain ⟨hhigh, hbit⟩ := hbit
      have hdiv : (n + (32 * k + shift.toNat)) / 32 = i := by omega
      have hmod : (n + (32 * k + shift.toNat)) % 32 = n % 32 - (32 - shift.toNat) := by omega
      exact ⟨hdiv, by rw [hdiv, hmod, hbit]⟩
    · have hin : shift.toNat + n % 32 < 32 := by
        by_contra hge
        rw [testBit_limb_of_le (by omega)] at hbit
        cases hbit
      have hdiv : (n + (32 * k + shift.toNat)) / 32 = i := by omega
      have hmod : (n + (32 * k + shift.toNat)) % 32 = shift.toNat + n % 32 := by omega
      exact ⟨hdiv, by rw [hdiv, hmod, hbit]⟩
  · rintro ⟨hdiv, hbit⟩
    rw [hdiv] at hbit
    by_cases hin : shift.toNat + n % 32 < 32
    · have hmod : (n + (32 * k + shift.toNat)) % 32 = shift.toNat + n % 32 := by omega
      rw [hmod] at hbit
      exact Or.inr ⟨⟨by omega, by omega⟩, hbit⟩
    · have hne : shift ≠ 0 := by
        rintro rfl
        rw [UInt32.toNat_zero] at hin
        omega
      have hpos := toNat_shift_pos hne
      have hs' : (32 - shift).toNat < 32 := by
        rw [toNat_sub_shift hs]
        omega
      have hmod : (n + (32 * k + shift.toNat)) % 32 = n % 32 - (32 - shift.toNat) := by omega
      rw [hmod] at hbit
      refine Or.inl ⟨⟨⟨by omega, hne⟩, by omega⟩, ?_⟩
      rw [testBit_shiftLeft hs' hlt, toNat_sub_shift hs, hbit, decide_eq_true (by omega)]
      rfl

/-! ## The shifted numbers -/

theorem toNat_mod_32 (shift : UInt32) : (shift % 32).toNat = shift.toNat % 32 :=
  UInt32.toNat_mod shift 32

/-- The bits that the first limbs have put in place. -/
theorem testBit_shl_countUp (hs : shift.toNat < 32) (m : Nat) (n : Nat) :
    (countUp (shlBody a k shift) zero m).toNat.testBit n =
      (decide (n < 32 * width ∧ 32 * k + shift.toNat ≤ n ∧
        (n - (32 * k + shift.toNat)) / 32 < m) &&
        a.toNat.testBit (n - (32 * k + shift.toNat))) := by
  induction m with
  | zero => simp [countUp]
  | succ m ih =>
    rw [countUp, testBit_shlBody hs, ih, ← Bool.and_or_distrib_right]
    congr 1
    rw [Bool.eq_iff_iff]
    simp only [Bool.or_eq_true, decide_eq_true_eq]
    omega

theorem testBit_shr_countUp (hs : shift.toNat < 32) {m : Nat} (hm : m ≤ width) (n : Nat) :
    (countUp (shrBody a k shift) zero m).toNat.testBit n =
      (decide ((n + (32 * k + shift.toNat)) / 32 < m) &&
        a.toNat.testBit (n + (32 * k + shift.toNat))) := by
  induction m with
  | zero => simp [countUp]
  | succ m ih =>
    rw [countUp, testBit_shrBody hs hm, ih (Nat.le_of_succ_le hm), ← Bool.and_or_distrib_right]
    congr 1
    rw [Bool.eq_iff_iff]
    simp only [Bool.or_eq_true, decide_eq_true_eq]
    omega

/-- A count is whole limbs and fewer than 32 bits. -/
theorem shift_split (shift : UInt32) : (shift % 32).toNat < 32 ∧
    32 * (shift.toNat / 32) + (shift % 32).toNat = shift.toNat := by
  rw [toNat_mod_32]
  exact ⟨Nat.mod_lt _ (by decide), Nat.div_add_mod _ 32⟩

/-- `operator<<=` multiplies by a power of two, for every count. -/
theorem toNat_shlAssign (a : BaseUint width) (shift : UInt32) :
    (a.shlAssign shift).toNat = a.toNat * 2 ^ shift.toNat % 2 ^ (32 * width) := by
  obtain ⟨hs, hcount⟩ := shift_split shift
  apply Nat.eq_of_testBit_eq
  intro n
  rw [shlAssign, testBit_shl_countUp hs, hcount, Nat.testBit_mod_two_pow, ← Nat.shiftLeft_eq,
    Nat.testBit_shiftLeft, ← Bool.and_assoc]
  congr 1
  rw [Bool.eq_iff_iff]
  simp only [Bool.and_eq_true, decide_eq_true_eq]
  omega

/-- `operator>>=` divides by a power of two, for every count. -/
theorem toNat_shrAssign (a : BaseUint width) (shift : UInt32) :
    (a.shrAssign shift).toNat = a.toNat / 2 ^ shift.toNat := by
  obtain ⟨hs, hcount⟩ := shift_split shift
  apply Nat.eq_of_testBit_eq
  intro n
  rw [shrAssign, testBit_shr_countUp hs le_rfl, hcount, Nat.testBit_div_two_pow]
  by_cases hin : (n + shift.toNat) / 32 < width
  · rw [decide_eq_true hin, Bool.true_and]
  · have htop : a.toNat < 2 ^ (n + shift.toNat) :=
      (toNat_lt a).trans_le (Nat.pow_le_pow_right (by decide) (by omega))
    rw [decide_eq_false hin, Nat.testBit_lt_two_pow htop, Bool.false_and]

end BaseUint

end IndexChain.Arith
