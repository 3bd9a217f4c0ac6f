import IndexChain.Models.Arith.Multiply
import Mathlib.Data.Nat.Bitwise

/-!
# Division of limbs

`CompareTo`, `bits` and `operator/=` of `arith_uint256.cpp`. The division moves the divisor up
until its highest bit is that of the dividend, and goes back down one bit at a time, subtracting
the divisor wherever it fits. `CompareTo` starts with a test of the addresses of its objects,
which none is low enough for.
-/

namespace IndexChain.Arith

open IndexChain.Core

namespace BaseUint

variable {width : Nat}

/-- The loop of `CompareTo`, from the limb below an index down. -/
def compareFrom (this b : BaseUint width) : Nat → Int
  | 0 => 0
  | i + 1 =>
    if this.limb i < b.limb i then -1
    else if b.limb i < this.limb i then 1
    else compareFrom this b i

/-- `CompareTo`. -/
def compareTo (this b : BaseUint width) : Int :=
  compareFrom this b width

/-- The inner loop of `bits`: the highest bit of a limb. -/
def bitsIn (x : UInt32) (pos : Nat) : Nat → Nat
  | 0 => 32 * pos + 1
  | bits + 1 =>
    if x &&& 1 <<< UInt32.ofNat (bits + 1) ≠ 0 then 32 * pos + (bits + 1) + 1
    else bitsIn x pos bits

/-- The outer loop of `bits`: the highest limb that is not 0. -/
def bitsFrom (pn : BaseUint width) : Nat → Nat
  | 0 => 0
  | pos + 1 => if pn.limb pos ≠ 0 then bitsIn (pn.limb pos) pos 31 else bitsFrom pn pos

/-- `bits`: the position of the highest bit plus one, or 0. -/
def bits (pn : BaseUint width) : Nat :=
  bitsFrom pn width

end BaseUint

/-- The variables of the loop of `operator/=`. -/
structure DivState (width : Nat) where
  /-- What is left of the dividend. -/
  num : BaseUint width
  /-- The divisor, moved up. -/
  div : BaseUint width
  /-- The quotient, which is the object of the call. -/
  pn : BaseUint width
  /-- By how much the divisor is moved up. -/
  shift : Int

/-- How `operator/=` can fail. -/
inductive DivError where
  /-- `uint_error("Division by zero")`. -/
  | divisionByZero
  /-- The loop has not ended after as many rounds as the dividend has bits. -/
  | unfinished
  deriving DecidableEq, Repr

namespace DivState

variable {width : Nat}

/-- One round of the loop. -/
def step (s : DivState width) : DivState width :=
  let s :=
    if 0 ≤ s.num.compareTo s.div then
      { s with
        num := s.num.subAssign s.div
        pn := s.pn.orAt (s.shift.toNat / 32) (1 <<< UInt32.ofNat (s.shift.toNat % 32)) }
    else s
  { s with div := s.div.shrAssign 1, shift := s.shift - 1 }

/-- The loop. -/
def loop : Nat → DivState width → Except DivError (DivState width)
  | fuel, s =>
    if s.shift < 0 then .ok s
    else match fuel with
      | 0 => .error .unfinished
      | fuel + 1 => loop fuel s.step

/-- The variables before the loop. -/
def start (num div : BaseUint width) : DivState width :=
  let shift := num.bits - div.bits
  { num := num
    div := div.shlAssign (UInt32.ofNat shift)
    pn := BaseUint.zero
    shift := shift }

end DivState

namespace BaseUint

variable {width : Nat}

/-- `operator/=`. -/
def divAssign (this : BaseUint width) (b : Operand width) : Except DivError (BaseUint width) :=
  let div := b.read this
  let num := this
  if div.bits = 0 then .error .divisionByZero
  else if num.bits < div.bits then .ok zero
  else do
    let s ← DivState.loop num.bits (DivState.start num div)
    return s.pn

/-! ## Comparing -/

/-- The low limbs are compared as numbers. -/
theorem compareFrom_nonneg_iff (a b : BaseUint width) (m : Nat) :
    0 ≤ compareFrom a b m ↔ limbsValue (2 ^ 32) (fun i => (b.limb i).toNat) m ≤
      limbsValue (2 ^ 32) (fun i => (a.limb i).toNat) m := by
  induction m with
  | zero => simp [compareFrom, limbsValue]
  | succ m ih =>
    rw [compareFrom]
    split
    · rename_i hless
      have hlt := limbsValue_lt_of_top (m := m) (g := fun i => (b.limb i).toNat)
        (fun i _ => (a.limb i).toNat_lt) (UInt32.lt_iff_toNat_lt.1 hless)
      exact iff_of_false (by decide) (Nat.not_le.2 hlt)
    · split
      · rename_i hmore
        have hlt := limbsValue_lt_of_top (m := m) (g := fun i => (a.limb i).toNat)
          (fun i _ => (b.limb i).toNat_lt) (UInt32.lt_iff_toNat_lt.1 hmore)
        exact iff_of_true (by decide) hlt.le
      · rename_i hnot hnot'
        have heq : (a.limb m).toNat = (b.limb m).toNat := by
          rw [UInt32.lt_iff_toNat_lt] at hnot hnot'
          omega
        rw [ih, limbsValue, limbsValue, heq]
        omega

/-- `operator>=`. -/
theorem compareTo_nonneg_iff (a b : BaseUint width) :
    0 ≤ a.compareTo b ↔ b.toNat ≤ a.toNat :=
  compareFrom_nonneg_iff a b width

/-! ## Bits -/

theorem toNat_one_shiftLeft {k : Nat} (hk : k < 32) :
    ((1 : UInt32) <<< UInt32.ofNat k).toNat = 2 ^ k := by
  have hpow : 2 ^ k < 2 ^ 32 := Nat.pow_lt_pow_right (by decide) hk
  rw [UInt32.toNat_shiftLeft, UInt32.toNat_ofNat', Nat.mod_eq_of_lt (by omega : k < 2 ^ 32),
    Nat.mod_eq_of_lt hk, UInt32.toNat_one, Nat.one_shiftLeft, Nat.mod_eq_of_lt hpow]

theorem and_bit_ne_zero_iff {x : UInt32} {k : Nat} (hk : k < 32) :
    x &&& 1 <<< UInt32.ofNat k ≠ 0 ↔ x.toNat.testBit k = true := by
  rw [← UInt32.toNat_inj.ne, UInt32.toNat_and, toNat_one_shiftLeft hk, Nat.and_two_pow,
    UInt32.toNat_zero]
  cases x.toNat.testBit k <;> simp

/-- The bits of a number: none for 0, and otherwise up to the highest one. -/
def IsSize (v n : Nat) : Prop :=
  n = 0 ∧ v = 0 ∨ ∃ k, n = k + 1 ∧ 2 ^ k ≤ v ∧ v < 2 ^ (k + 1)

theorem bitsIn_spec {x : UInt32} (hx : x ≠ 0) (pos : Nat) {bits : Nat} (hbits : bits < 32)
    (hlt : x.toNat < 2 ^ (bits + 1)) :
    ∃ k, bitsIn x pos bits = 32 * pos + k + 1 ∧ 2 ^ k ≤ x.toNat ∧ x.toNat < 2 ^ (k + 1) := by
  induction bits with
  | zero =>
    have hpos : x.toNat ≠ 0 := fun h => hx (UInt32.toNat_inj.1 h)
    exact ⟨0, rfl, by omega, hlt⟩
  | succ bits ih =>
    rw [bitsIn]
    split
    · rename_i hset
      exact ⟨bits + 1, rfl, Nat.ge_two_pow_of_testBit ((and_bit_ne_zero_iff hbits).1 hset), hlt⟩
    · rename_i hclear
      refine ih (by omega) (Nat.lt_pow_two_of_testBit _ fun i hi => ?_)
      obtain rfl | habove := Nat.eq_or_lt_of_le hi
      · rw [and_bit_ne_zero_iff hbits, Bool.not_eq_true] at hclear
        exact hclear
      · exact Nat.testBit_lt_two_pow (hlt.trans_le (Nat.pow_le_pow_right (by decide) habove))

theorem isSize_bitsFrom (pn : BaseUint width) (m : Nat) :
    IsSize (limbsValue (2 ^ 32) (fun i => (pn.limb i).toNat) m) (bitsFrom pn m) := by
  induction m with
  | zero => exact Or.inl ⟨rfl, rfl⟩
  | succ m ih =>
    rw [bitsFrom]
    split
    · rename_i hx
      obtain ⟨k, hbits, hlow, hhigh⟩ := bitsIn_spec hx m (by decide) (pn.limb m).toNat_lt
      have hrest := limbsValue_lt (m := m) fun i _ => (pn.limb i).toNat_lt
      have hpow : ∀ i, 2 ^ (32 * m + i) = 2 ^ i * (2 ^ 32) ^ m := fun i => by
        rw [Nat.pow_add, Nat.pow_mul, Nat.mul_comm]
      refine Or.inr ⟨32 * m + k, hbits, ?_, ?_⟩
      · rw [hpow, limbsValue]
        exact (Nat.mul_le_mul_right _ hlow).trans (Nat.le_add_left _ _)
      · rw [Nat.add_assoc, hpow, limbsValue]
        have htop : ((pn.limb m).toNat + 1) * (2 ^ 32) ^ m ≤ 2 ^ (k + 1) * (2 ^ 32) ^ m :=
          Nat.mul_le_mul_right _ hhigh
        rw [Nat.add_mul, Nat.one_mul] at htop
        omega
    · rename_i hx
      rw [limbsValue, not_not.1 hx, UInt32.toNat_zero, Nat.zero_mul, Nat.add_zero]
      exact ih

/-- `bits` of a number. -/
theorem isSize_bits (pn : BaseUint width) : IsSize pn.toNat pn.bits :=
  isSize_bitsFrom pn width

/-- A number is below the power of two of its bits. -/
theorem IsSize.lt {v n : Nat} (h : IsSize v n) : v < 2 ^ n := by
  obtain ⟨rfl, rfl⟩ | ⟨k, rfl, -, hlt⟩ := h
  · exact Nat.one_pos
  · exact hlt

/-- A number that is not 0 is not below half that power. -/
theorem IsSize.le {v n : Nat} (h : IsSize v n) (hn : n ≠ 0) : 2 ^ (n - 1) ≤ v := by
  obtain ⟨rfl, rfl⟩ | ⟨k, rfl, hle, -⟩ := h
  · exact absurd rfl hn
  · exact hle

theorem IsSize.eq_zero_iff {v n : Nat} (h : IsSize v n) : n = 0 ↔ v = 0 := by
  obtain ⟨rfl, rfl⟩ | ⟨k, rfl, hle, -⟩ := h
  · exact Iff.rfl
  · have hpos := Nat.two_pow_pos k
    omega

theorem bits_le (pn : BaseUint width) : pn.bits ≤ 32 * width := by
  by_contra hlt
  have hle := (isSize_bits pn).le (by omega)
  have hpow : 2 ^ (32 * width) ≤ 2 ^ (pn.bits - 1) := Nat.pow_le_pow_right (by decide) (by omega)
  have htop := toNat_lt pn
  omega

/-! ## Dividing -/

/-- Setting a bit above which the number ends in zeros. -/
theorem toNat_setBit {pn : BaseUint width} {k : Nat} (hk : k < 32 * width)
    (hdvd : 2 ^ (k + 1) ∣ pn.toNat) :
    (pn.orAt (k / 32) (1 <<< UInt32.ofNat (k % 32))).toNat = pn.toNat + 2 ^ k := by
  obtain ⟨c, hc⟩ := hdvd
  have hlt : 2 ^ k < 2 ^ (k + 1) := Nat.pow_lt_pow_right (by decide) (Nat.lt_succ_self k)
  have hor : pn.toNat + 2 ^ k = pn.toNat ||| 2 ^ k := by
    rw [hc]
    exact Nat.two_pow_add_eq_or_of_lt hlt c
  rw [hor]
  apply Nat.eq_of_testBit_eq
  intro n
  rw [testBit_orAt (by omega), toNat_one_shiftLeft (Nat.mod_lt k (by decide)), Nat.testBit_or,
    Nat.testBit_two_pow, Nat.testBit_two_pow]
  congr 1
  rw [Bool.eq_iff_iff]
  simp only [Bool.and_eq_true, decide_eq_true_eq]
  omega

end BaseUint

namespace DivState

variable {width : Nat}

/-- What holds at the head of the loop: nothing of the dividend is lost, and what is left of it
is less than twice the divisor as it is moved up. -/
structure Divides (a b : Nat) (s : DivState width) : Prop where
  /-- The loop has not gone below one bit under the last. -/
  low : -1 ≤ s.shift
  /-- The bits of the quotient are within the limbs. -/
  high : s.shift < 32 * width
  /-- The dividend is what is left and what is divided. -/
  num : s.num.toNat + s.pn.toNat * b = a
  /-- What is left is below the divisor moved up by one more. -/
  rest : s.num.toNat < b * 2 ^ (s.shift + 1).toNat
  /-- The divisor is moved up. -/
  div : s.div.toNat = b * 2 ^ (s.shift + 1).toNat / 2
  /-- The lower bits of the quotient are not set yet. -/
  quotient : 2 ^ (s.shift + 1).toNat ∣ s.pn.toNat

variable {a b : Nat} {s : DivState width}

theorem shift_step (s : DivState width) : s.step.shift = s.shift - 1 := by
  rw [step]
  split
  · rfl
  · rfl

theorem loop_of_neg {fuel : Nat} (h : s.shift < 0) : loop fuel s = .ok s := by
  cases fuel with
  | zero => exact if_pos h
  | succ fuel => exact if_pos h

theorem loop_succ {fuel : Nat} (h : ¬ s.shift < 0) : loop (fuel + 1) s = loop fuel s.step :=
  if_neg h

/-- One round keeps what holds. -/
theorem Divides.step (h : Divides a b s) (hshift : 0 ≤ s.shift) : Divides a b s.step := by
  obtain ⟨k, hk⟩ := Int.eq_ofNat_of_zero_le hshift
  have hsucc : (s.shift + 1).toNat = k + 1 := by omega
  have hnat : s.shift.toNat = k := by omega
  have hnext : s.step.shift + 1 = k := by
    rw [shift_step]
    omega
  have hpow : 2 ^ (k + 1) = 2 ^ k * 2 := Nat.pow_succ 2 k
  have hhigh : k < 32 * width := by
    have hlt := h.high
    omega
  have hdiv : s.div.toNat = b * 2 ^ k := by
    rw [h.div, hsucc, hpow, ← Nat.mul_assoc, Nat.mul_div_cancel _ (by decide)]
  have hrest := h.rest
  rw [hsucc, hpow, ← Nat.mul_assoc] at hrest
  have hmoved : s.step.div.toNat = b * 2 ^ k / 2 := by
    have hone : (s.div.shrAssign 1).toNat = s.div.toNat / 2 := BaseUint.toNat_shrAssign s.div 1
    rw [← hdiv, ← hone, DivState.step]
    split
    · rfl
    · rfl
  have hquotient : 2 ^ (k + 1) ∣ s.pn.toNat := hsucc ▸ h.quotient
  -- a round subtracts the divisor and sets a bit, or leaves both
  have hround : s.step.num.toNat < b * 2 ^ k ∧
      s.step.num.toNat + s.step.pn.toNat * b = a ∧ 2 ^ k ∣ s.step.pn.toNat := by
    rw [DivState.step]
    split
    · rename_i hfits
      have hle : s.div.toNat ≤ s.num.toNat := (BaseUint.compareTo_nonneg_iff _ _).1 hfits
      have hsub := BaseUint.toNat_subAssign hle
      have hset := BaseUint.toNat_setBit hhigh hquotient
      dsimp only
      rw [hnat, hsub, hset, hdiv, Nat.add_mul, Nat.mul_comm (2 ^ k) b]
      have hnum := h.num
      refine ⟨by omega, by omega, ?_⟩
      exact Nat.dvd_add ((Nat.pow_dvd_pow 2 (Nat.le_succ k)).trans hquotient) dvd_rfl
    · rename_i hfits
      have hlt : s.num.toNat < s.div.toNat :=
        Nat.not_le.1 fun hle => hfits ((BaseUint.compareTo_nonneg_iff _ _).2 hle)
      exact ⟨hdiv ▸ hlt, h.num, (Nat.pow_dvd_pow 2 (Nat.le_succ k)).trans hquotient⟩
  obtain ⟨hless, hsum, hdvd⟩ := hround
  constructor
  · omega
  · omega
  · exact hsum
  · rw [hnext, Int.toNat_natCast]
    exact hless
  · rw [hnext, Int.toNat_natCast]
    exact hmoved
  · rw [hnext, Int.toNat_natCast]
    exact hdvd

/-- As many rounds as there are places to move down keep it, and the loop then ends. -/
theorem Divides.loop (h : Divides a b s) {n fuel : Nat} (hn : s.shift = (n : Int) - 1)
    (hfuel : n ≤ fuel) :
    DivState.loop fuel s = .ok (DivState.step^[n] s) ∧
      (∀ i ≤ n, Divides a b (DivState.step^[i] s)) ∧ (DivState.step^[n] s).shift = -1 := by
  induction n generalizing s fuel with
  | zero =>
    refine ⟨?_, fun i hi => ?_, by simpa using hn⟩
    · rw [loop_of_neg (by omega)]
      rfl
    · rw [Nat.le_zero.1 hi]
      exact h
  | succ n ih =>
    have hshift : 0 ≤ s.shift := by omega
    obtain ⟨fuel, rfl⟩ : ∃ k, fuel = k + 1 := ⟨fuel - 1, by omega⟩
    have hstep := h.step hshift
    have hn' : s.step.shift = (n : Int) - 1 := by
      rw [shift_step]
      omega
    obtain ⟨hloop, hall, hlast⟩ := ih hstep hn' (Nat.le_of_succ_le_succ hfuel)
    refine ⟨?_, fun i hi => ?_, hlast⟩
    · rw [loop_succ (by omega)]
      exact hloop
    · cases i with
      | zero => exact h
      | succ i => exact hall i (by omega)

/-- The highest bits of the dividend and the divisor are aligned before the loop. -/
theorem divides_start {num div : BaseUint width} (hdiv : div.bits ≠ 0)
    (hle : div.bits ≤ num.bits) (hwidth : width ≤ 2 ^ 26) :
    Divides num.toNat div.toNat (start num div) ∧
      (start num div).shift = (num.bits - div.bits + 1 : Nat) - 1 := by
  have hbits := BaseUint.bits_le num
  have hnum := (BaseUint.isSize_bits num).lt
  have hlow := (BaseUint.isSize_bits div).le hdiv
  have hhigh := (BaseUint.isSize_bits div).lt
  generalize hshift : num.bits - div.bits = shift at *
  have hstart : (start num div).shift = shift := by
    rw [start, hshift]
  have hsucc : ((start num div).shift + 1).toNat = shift + 1 := by omega
  have hpow : 2 ^ (shift + 1) = 2 ^ shift * 2 := Nat.pow_succ 2 shift
  refine ⟨?_, by omega⟩
  constructor
  · omega
  · omega
  · rw [start, BaseUint.toNat_zero, Nat.zero_mul, Nat.add_zero]
  · rw [hsucc]
    have hsplit : num.bits = div.bits - 1 + (shift + 1) := by omega
    calc
      num.toNat < 2 ^ num.bits := hnum
      _ = 2 ^ (div.bits - 1) * 2 ^ (shift + 1) := by rw [hsplit, Nat.pow_add]
      _ ≤ div.toNat * 2 ^ (shift + 1) := Nat.mul_le_mul_right _ hlow
  · have hcount : (UInt32.ofNat shift).toNat = shift := by
      rw [UInt32.toNat_ofNat', Nat.mod_eq_of_lt (by omega)]
    have hfits : div.toNat * 2 ^ shift < 2 ^ (32 * width) := by
      have hsplit : num.bits = div.bits + shift := by omega
      calc
        div.toNat * 2 ^ shift < 2 ^ div.bits * 2 ^ shift :=
          Nat.mul_lt_mul_of_pos_right hhigh (Nat.two_pow_pos shift)
        _ = 2 ^ num.bits := by rw [hsplit, Nat.pow_add]
        _ ≤ 2 ^ (32 * width) := Nat.pow_le_pow_right (by decide) hbits
    rw [hsucc, hpow, ← Nat.mul_assoc, Nat.mul_div_cancel _ (by decide), start, hshift]
    dsimp only
    rw [BaseUint.toNat_shlAssign, hcount, Nat.mod_eq_of_lt hfits]
  · rw [start, BaseUint.toNat_zero]
    exact Nat.dvd_zero _

end DivState

namespace BaseUint

/-- `operator/=` of a divisor that is not 0: the loop ends, what holds at its head holds in every
round, and the quotient is left. -/
theorem divAssign_spec (a : BaseUint width) (b : Operand width) (hb : (b.read a).toNat ≠ 0)
    (hwidth : width ≤ 2 ^ 26) :
    ∃ q, a.divAssign b = .ok q ∧ q.toNat = a.toNat / (b.read a).toNat := by
  have hsize := isSize_bits (b.read a)
  have hbits : (b.read a).bits ≠ 0 := fun h => hb (hsize.eq_zero_iff.1 h)
  rw [divAssign, if_neg hbits]
  by_cases hless : a.bits < (b.read a).bits
  · rw [if_pos hless]
    have hlt : a.toNat < (b.read a).toNat := by
      calc
        a.toNat < 2 ^ a.bits := (isSize_bits a).lt
        _ ≤ 2 ^ ((b.read a).bits - 1) := Nat.pow_le_pow_right (by decide) (by omega)
        _ ≤ (b.read a).toNat := hsize.le hbits
    exact ⟨zero, rfl, by rw [toNat_zero, Nat.div_eq_of_lt hlt]⟩
  · rw [if_neg hless]
    obtain ⟨hstart, hshift⟩ := DivState.divides_start hbits (Nat.not_lt.1 hless) hwidth
    have hfuel : a.bits - (b.read a).bits + 1 ≤ a.bits := by omega
    obtain ⟨hloop, hall, hlast⟩ := hstart.loop hshift hfuel
    have hend := hall _ le_rfl
    rw [hloop]
    refine ⟨_, rfl, ?_⟩
    have hnum := hend.num
    have hrest := hend.rest
    rw [hlast] at hrest
    have hrest' : (DivState.step^[a.bits - (b.read a).bits + 1]
        (DivState.start a (b.read a))).num.toNat < (b.read a).toNat := by simpa using hrest
    rw [← hnum, Nat.add_mul_div_right _ _ (by omega), Nat.div_eq_of_lt hrest', Nat.zero_add]

/-! ## All operators -/

/-- The operators of a 256-bit number leave what they are named for: `operator/=` the quotient,
by a loop that ends and keeps what holds at its head, `operator*=` the product, and the shifts
what is multiplied or divided by a power of two. -/
structure Computes (a : BaseUint 8) (b : Operand 8) : Prop where
  /-- `operator/=`. -/
  div : (b.read a).toNat ≠ 0 → ∃ q, a.divAssign b = .ok q ∧ q.toNat = a.toNat / (b.read a).toNat
  /-- The loop of `operator/=`. -/
  loop : (b.read a).toNat ≠ 0 → (b.read a).bits ≤ a.bits →
    ∃ n, DivState.loop a.bits (DivState.start a (b.read a)) =
        .ok (DivState.step^[n] (DivState.start a (b.read a))) ∧
      ∀ i ≤ n, DivState.Divides a.toNat (b.read a).toNat
        (DivState.step^[i] (DivState.start a (b.read a)))
  /-- `operator*=` of a number of the same width. -/
  mul : (a.mulAssign b).toNat = a.toNat * (b.read a).toNat % 2 ^ 256
  /-- `operator*=` of a 32-bit number. -/
  mul32 : ∀ b32, (a.mulAssign32 b32).toNat = a.toNat * b32.toNat % 2 ^ 256
  /-- `operator<<=`. -/
  shl : ∀ shift, (a.shlAssign shift).toNat = a.toNat * 2 ^ shift.toNat % 2 ^ 256
  /-- `operator>>=`. -/
  shr : ∀ shift, (a.shrAssign shift).toNat = a.toNat / 2 ^ shift.toNat

/-- Only `operator*=` depends on which object its reference is to. -/
theorem computes_iff_mul {a : BaseUint 8} {b : Operand 8} :
    Computes a b ↔ (a.mulAssign b).toNat = a.toNat * (b.read a).toNat % 2 ^ 256 := by
  refine ⟨Computes.mul, fun hmul => ?_⟩
  constructor
  · exact fun hb => divAssign_spec a b hb (by decide)
  · intro hb hle
    have hbits : (b.read a).bits ≠ 0 := fun h => hb ((isSize_bits _).eq_zero_iff.1 h)
    obtain ⟨hstart, hshift⟩ := DivState.divides_start hbits hle (by decide)
    have hfuel : a.bits - (b.read a).bits + 1 ≤ a.bits := by omega
    obtain ⟨hloop, hall, -⟩ := hstart.loop hshift hfuel
    exact ⟨_, hloop, hall⟩
  · exact hmul
  · exact toNat_mulAssign32 a
  · exact toNat_shlAssign a
  · exact toNat_shrAssign a

/-- The operators leave what they should, unless a number is multiplied by the object itself;
that leaves 0, which is the product only where its lower 256 bits are 0. -/
theorem computes_iff (a : BaseUint 8) (b : Operand 8) :
    Computes a b ↔ (b = .this → a.toNat * a.toNat % 2 ^ 256 = 0) := by
  rw [computes_iff_mul]
  cases b with
  | this =>
    rw [mulAssign_this, toNat_zero]
    exact ⟨fun h _ => h.symm, fun h => (h rfl).symm⟩
  | other b => exact iff_of_true (toNat_mulAssign a b) fun h => by cases h

/-- `x *= x` of 3 leaves 0. -/
theorem not_computes_self : ¬ Computes (zero.put 0 3) .this := by
  intro h
  have hmul := h.mul
  rw [mulAssign_this, toNat_zero] at hmul
  exact absurd hmul (by decide)

end BaseUint

end IndexChain.Arith
