import IndexChain.Models.Arith.BaseUint

/-!
# Sums and products of limbs

`operator+=`, `operator-=` and the two forms of `operator*=` of `arith_uint256.h` and
`arith_uint256.cpp`. All of them go up the limbs with a carry in a 64-bit word. An operator that
takes a reference may be called with its own object; `operator*=` clears the object before it
reads the reference.
-/

namespace IndexChain.Arith

open IndexChain.Core

/-- What a reference parameter refers to. -/
inductive Operand (width : Nat) where
  /-- The object of the call itself. -/
  | this
  /-- Another object with this value. -/
  | other (b : BaseUint width)
  deriving DecidableEq

/-- The value of the referenced object, when the one of the call has the value `pn`. -/
def Operand.read {width : Nat} (b : Operand width) (pn : BaseUint width) : BaseUint width :=
  match b with
  | this => pn
  | other b => b

namespace BaseUint

variable {width : Nat}

/-- The loops with a carry: the low half of `n` goes to the limb at `i + j`, the high half is the
next carry. -/
def carryLoop (j : Nat) (n : UInt64 → BaseUint width → Nat → UInt64) (pn : BaseUint width)
    (count : Nat) : BaseUint width × UInt64 :=
  countUp (fun s i =>
    let n := n s.2 s.1 i
    (s.1.put (i + j) (n &&& 0xffffffff).toUInt32, n >>> 32)) (pn, 0) count

/-- `operator+=`. -/
def addAssign (this b : BaseUint width) : BaseUint width :=
  (carryLoop 0 (fun carry pn i => carry + (pn.limb i).toUInt64 + (b.limb i).toUInt64) this width).1

/-- `operator*=` of a 32-bit number. -/
def mulAssign32 (this : BaseUint width) (b32 : UInt32) : BaseUint width :=
  (carryLoop 0 (fun carry pn i => carry + b32.toUInt64 * (pn.limb i).toUInt64) this width).1

/-- The inner loop of `operator*=`. -/
def mulRow (a : BaseUint width) (b : Operand width) (pn : BaseUint width) (j : Nat) :
    BaseUint width :=
  (carryLoop j (fun carry pn i =>
    carry + (pn.limb (i + j)).toUInt64 + (a.limb j).toUInt64 * ((b.read pn).limb i).toUInt64)
    pn (width - j)).1

/-- `operator*=`. -/
def mulAssign (this : BaseUint width) (b : Operand width) : BaseUint width :=
  let a := this
  countUp (mulRow a b) zero width

/-- The loop of `operator++`. -/
def incFrom : Nat → BaseUint width → Nat → BaseUint width
  | 0, pn, _ => pn
  | fuel + 1, pn, i =>
    let pn := pn.put i (pn.limb i + 1)
    if pn.limb i = 0 ∧ i < width - 1 then incFrom fuel pn (i + 1) else pn

/-- `operator++`. -/
def inc (this : BaseUint width) : BaseUint width :=
  incFrom width this 0

/-- `operator~`. -/
def complement (this : BaseUint width) : BaseUint width :=
  countUp (fun ret i => ret.put i (~~~ this.limb i)) zero width

/-- `operator-` of one number, whose loop is the one of `operator~`. -/
def neg (this : BaseUint width) : BaseUint width :=
  this.complement.inc

/-- `operator-=`. -/
def subAssign (this b : BaseUint width) : BaseUint width :=
  this.addAssign b.neg

/-! ## The loops with a carry -/

variable {j m : Nat} {pn : BaseUint width}

theorem toNat_low (n : UInt64) : (n &&& 0xffffffff).toUInt32.toNat = n.toNat % 2 ^ 32 := by
  rw [UInt64.toNat_toUInt32, UInt64.toNat_and]
  change (n.toNat &&& 2 ^ 32 - 1) % 2 ^ 32 = _
  rw [Nat.and_two_pow_sub_one_eq_mod, Nat.mod_mod]

theorem toNat_high (n : UInt64) : (n >>> 32).toNat = n.toNat / 2 ^ 32 := by
  rw [UInt64.toNat_shiftRight]
  exact Nat.shiftRight_eq_div_pow _ _

/-- A loop whose body adds `t i` to the carry writes the limbs of the sum of all `t i`, and
leaves the limbs outside of its range. -/
theorem carryLoop_spec (pn : BaseUint width) {n : UInt64 → BaseUint width → Nat → UInt64}
    {t : Nat → Nat}
    (hm : m + j ≤ width)
    (hn : ∀ (c : UInt64) (pn' : BaseUint width), ∀ i < m, c.toNat < 2 ^ 32 →
      (∀ l, i + j ≤ l → pn'.limb l = pn.limb l) → (n c pn' i).toNat = c.toNat + t i) :
    (carryLoop j n pn m).2.toNat < 2 ^ 32 ∧
      (∀ l, l < j ∨ m + j ≤ l → (carryLoop j n pn m).1.limb l = pn.limb l) ∧
      limbsValue (2 ^ 32) (fun i => ((carryLoop j n pn m).1.limb (i + j)).toNat) m +
        (carryLoop j n pn m).2.toNat * (2 ^ 32) ^ m = limbsValue (2 ^ 32) t m := by
  induction m with
  | zero => simp [carryLoop, countUp, limbsValue]
  | succ m ih =>
    obtain ⟨hcarry, hframe, hvalue⟩ := ih (by omega) fun c pn' i hi => hn c pn' i (by omega)
    have hstep : carryLoop j n pn (m + 1) =
        ((carryLoop j n pn m).1.put (m + j)
          (n (carryLoop j n pn m).2 (carryLoop j n pn m).1 m &&& 0xffffffff).toUInt32,
          n (carryLoop j n pn m).2 (carryLoop j n pn m).1 m >>> 32) := rfl
    have hsum := hn (carryLoop j n pn m).2 (carryLoop j n pn m).1 m (by omega) hcarry
      fun l hl => hframe l (Or.inr hl)
    generalize hr : carryLoop j n pn m = r at *
    generalize hx : n r.2 r.1 m = x at *
    rw [hstep]
    have hlt := x.toNat_lt
    refine ⟨?_, ?_, ?_⟩
    · rw [toNat_high]
      omega
    · intro l hl
      rw [limb_put, if_neg (by omega)]
      exact hframe l (by omega)
    · have hbelow : limbsValue (2 ^ 32)
          (fun i => ((r.1.put (m + j) (x &&& 0xffffffff).toUInt32).limb (i + j)).toNat) m =
            limbsValue (2 ^ 32) (fun i => (r.1.limb (i + j)).toNat) m :=
        limbsValue_congr fun i hi => by rw [limb_put, if_neg (by omega)]
      have hdigit : x.toNat % 2 ^ 32 + x.toNat / 2 ^ 32 * 2 ^ 32 = r.2.toNat + t m := by omega
      rw [limbsValue, hbelow, limb_put, if_pos ⟨rfl, by omega⟩, toNat_low, toNat_high]
      calc
        limbsValue (2 ^ 32) (fun i => (r.1.limb (i + j)).toNat) m +
            x.toNat % 2 ^ 32 * (2 ^ 32) ^ m + x.toNat / 2 ^ 32 * (2 ^ 32) ^ (m + 1) =
          limbsValue (2 ^ 32) (fun i => (r.1.limb (i + j)).toNat) m +
            (x.toNat % 2 ^ 32 + x.toNat / 2 ^ 32 * 2 ^ 32) * (2 ^ 32) ^ m := by ring
        _ = limbsValue (2 ^ 32) (fun i => (r.1.limb (i + j)).toNat) m +
            r.2.toNat * (2 ^ 32) ^ m + t m * (2 ^ 32) ^ m := by
          rw [hdigit]
          ring
        _ = limbsValue (2 ^ 32) t (m + 1) := by rw [hvalue, limbsValue]

/-- A sum and a product of words, in 64 bits. -/
theorem toNat_mulAdd {c : UInt64} (hc : c.toNat < 2 ^ 32) (x y z : UInt32) :
    (c + x.toUInt64 + y.toUInt64 * z.toUInt64).toNat =
      c.toNat + (x.toNat + y.toNat * z.toNat) := by
  have hx := x.toNat_lt
  have hy : y.toNat ≤ 2 ^ 32 - 1 := Nat.le_sub_one_of_lt y.toNat_lt
  have hz : z.toNat ≤ 2 ^ 32 - 1 := Nat.le_sub_one_of_lt z.toNat_lt
  have hproduct : y.toNat * z.toNat ≤ (2 ^ 32 - 1) * (2 ^ 32 - 1) := Nat.mul_le_mul hy hz
  rw [UInt64.toNat_add, UInt64.toNat_add, UInt64.toNat_mul, UInt32.toNat_toUInt64,
    UInt32.toNat_toUInt64, UInt32.toNat_toUInt64, Nat.mod_eq_of_lt (by omega),
    Nat.mod_eq_of_lt (by omega), Nat.mod_eq_of_lt (by omega), Nat.add_assoc]

theorem toNat_add3 {c : UInt64} (hc : c.toNat < 2 ^ 32) (x y : UInt32) :
    (c + x.toUInt64 + y.toUInt64).toNat = c.toNat + (x.toNat + y.toNat) := by
  have hx := x.toNat_lt
  have hy := y.toNat_lt
  rw [UInt64.toNat_add, UInt64.toNat_add, UInt32.toNat_toUInt64, UInt32.toNat_toUInt64,
    Nat.mod_eq_of_lt (by omega), Nat.mod_eq_of_lt (by omega), Nat.add_assoc]

theorem toNat_mul2 {c : UInt64} (hc : c.toNat < 2 ^ 32) (y z : UInt32) :
    (c + y.toUInt64 * z.toUInt64).toNat = c.toNat + y.toNat * z.toNat := by
  have h := toNat_mulAdd hc 0 y z
  rw [UInt32.toNat_zero, Nat.zero_add] at h
  rw [← h]
  congr 2
  exact (UInt64.add_zero c).symm

theorem pow_width (width : Nat) : (2 ^ 32) ^ width = 2 ^ (32 * width) :=
  (Nat.pow_mul 2 32 width).symm

/-- A loop over all limbs leaves the sum, without what is carried out of the last one. -/
theorem toNat_carryLoop (pn : BaseUint width) {n : UInt64 → BaseUint width → Nat → UInt64}
    {t : Nat → Nat}
    (hn : ∀ (c : UInt64) (pn' : BaseUint width), ∀ i < width, c.toNat < 2 ^ 32 →
      (∀ l, i ≤ l → pn'.limb l = pn.limb l) → (n c pn' i).toNat = c.toNat + t i) :
    (carryLoop 0 n pn width).1.toNat = limbsValue (2 ^ 32) t width % 2 ^ (32 * width) := by
  obtain ⟨-, -, hvalue⟩ := carryLoop_spec (j := 0) pn le_rfl hn
  have hlt := toNat_lt (carryLoop 0 n pn width).1
  rw [← hvalue, pow_width, Nat.add_mul_mod_self_right]
  exact (Nat.mod_eq_of_lt hlt).symm

theorem toNat_addAssign (a b : BaseUint width) :
    (a.addAssign b).toNat = (a.toNat + b.toNat) % 2 ^ (32 * width) := by
  have h := toNat_carryLoop a
    (n := fun carry pn i => carry + (pn.limb i).toUInt64 + (b.limb i).toUInt64)
    (t := fun i => (a.limb i).toNat + (b.limb i).toNat) fun c pn' i _ hc hsame => by
      rw [toNat_add3 hc, hsame i le_rfl]
  rw [addAssign, h, limbsValue_add]
  rfl

theorem toNat_mulAssign32 (a : BaseUint width) (b32 : UInt32) :
    (a.mulAssign32 b32).toNat = a.toNat * b32.toNat % 2 ^ (32 * width) := by
  have h := toNat_carryLoop a
    (n := fun carry pn i => carry + b32.toUInt64 * (pn.limb i).toUInt64)
    (t := fun i => b32.toNat * (a.limb i).toNat) fun c pn' i _ hc hsame => by
      rw [toNat_mul2 hc, hsame i le_rfl]
  rw [mulAssign32, h, limbsValue_mul, Nat.mul_comm]
  rfl

/-! ## Differences -/

/-- Writing a limb changes the number by its part. -/
theorem toNat_put (pn : BaseUint width) {i : Nat} (hi : i < width) (x : UInt32) :
    (pn.put i x).toNat + (pn.limb i).toNat * (2 ^ 32) ^ i =
      pn.toNat + x.toNat * (2 ^ 32) ^ i := by
  have h := limbsValue_change (B := 2 ^ 32) (f := fun l => (pn.limb l).toNat)
    (g := fun l => ((pn.put i x).limb l).toNat) hi fun l _ hne => by
      rw [limb_put, if_neg fun h => hne h.1.symm]
  rw [limb_put, if_pos ⟨rfl, hi⟩] at h
  exact h

/-- The increment from a limb on, up to what is carried out of the last one. -/
theorem toNat_incFrom {fuel i : Nat} (hi : i < width) (hfuel : width ≤ i + fuel) :
    (incFrom fuel pn i).toNat ≡ pn.toNat + (2 ^ 32) ^ i [MOD 2 ^ (32 * width)] := by
  induction fuel generalizing pn i with
  | zero => omega
  | succ fuel ih =>
    have hput := toNat_put pn hi (pn.limb i + 1)
    have hlimb : ((pn.put i (pn.limb i + 1)).limb i) = pn.limb i + 1 := by
      rw [limb_put, if_pos ⟨rfl, hi⟩]
    have hlt := (pn.limb i).toNat_lt
    rw [UInt32.toNat_add, UInt32.toNat_one] at hput
    by_cases hzero : pn.limb i + 1 = 0
    · -- the limb is full, and the next one is counted up
      have hfull : (pn.limb i).toNat + 1 = 2 ^ 32 := by
        have hmod : (pn.limb i + 1).toNat = 0 := by rw [hzero, UInt32.toNat_zero]
        rw [UInt32.toNat_add, UInt32.toNat_one] at hmod
        omega
      rw [hfull, Nat.mod_self, Nat.zero_mul, Nat.add_zero] at hput
      have hnext : (pn.put i (pn.limb i + 1)).toNat + (2 ^ 32) ^ (i + 1) =
          pn.toNat + (2 ^ 32) ^ i := by
        rw [← hput, Nat.pow_succ', ← hfull]
        ring
      rw [incFrom]
      by_cases hlast : i < width - 1
      · rw [if_pos ⟨by rw [hlimb, hzero], hlast⟩, ← hnext]
        exact ih (by omega) (by omega)
      · have hwidth : i + 1 = width := by omega
        rw [if_neg fun h => hlast h.2, ← hnext, hwidth, pow_width]
        exact (Nat.add_modEq_right).symm
    · have hstep : (pn.limb i).toNat + 1 < 2 ^ 32 := by
        by_contra hge
        refine hzero (UInt32.toNat_inj.1 ?_)
        rw [UInt32.toNat_add, UInt32.toNat_one, UInt32.toNat_zero]
        omega
      rw [incFrom]
      rw [if_neg fun h => hzero (hlimb ▸ h.1)]
      rw [Nat.mod_eq_of_lt hstep, Nat.add_mul, Nat.one_mul] at hput
      have hexact : (pn.put i (pn.limb i + 1)).toNat = pn.toNat + (2 ^ 32) ^ i := by omega
      rw [hexact]

theorem toNat_inc (pn : BaseUint width) : pn.inc.toNat ≡ pn.toNat + 1 [MOD 2 ^ (32 * width)] := by
  obtain rfl | hpos := Nat.eq_zero_or_pos width
  · exact Nat.modEq_one
  · exact toNat_incFrom hpos (Nat.le_add_left _ _)

theorem limb_complement (b : BaseUint width) {i : Nat} (hi : i < width) :
    b.complement.limb i = ~~~ b.limb i := by
  have hloop : ∀ m, limb (countUp (fun ret l => put ret l (~~~ b.limb l)) (zero : BaseUint width) m)
      i = if i < m then ~~~ b.limb i else 0 := by
    intro m
    induction m with
    | zero => simp [countUp]
    | succ m ih =>
      rw [countUp, limb_put, ih]
      by_cases hm : m = i
      · subst hm
        simp [hi]
      · have hiff : i < m + 1 ↔ i < m := by omega
        simp [hm, hiff]
  rw [complement, hloop, if_pos hi]

theorem toNat_complement (b : BaseUint width) :
    b.complement.toNat + b.toNat + 1 = 2 ^ (32 * width) := by
  rw [toNat, toNat, ← limbsValue_add, ← pow_width, ← limbsValue_max (by decide) width]
  congr 1
  refine limbsValue_congr fun i hi => ?_
  have hlt := (b.limb i).toNat_lt
  rw [limb_complement b hi, UInt32.toNat_not]
  change 2 ^ 32 - 1 - _ + _ = _
  omega

/-- `operator-` of one number. -/
theorem toNat_neg (b : BaseUint width) :
    b.neg.toNat + b.toNat ≡ 0 [MOD 2 ^ (32 * width)] := by
  have hinc := (toNat_inc b.complement).add_right b.toNat
  rw [Nat.add_right_comm, toNat_complement] at hinc
  exact hinc.trans (Nat.modEq_zero_iff_dvd.2 dvd_rfl)

/-- `operator-=` of a number that is not larger. -/
theorem toNat_subAssign {a b : BaseUint width} (h : b.toNat ≤ a.toNat) :
    (a.subAssign b).toNat = a.toNat - b.toNat := by
  have hlt := toNat_lt a
  have hadd : a.toNat + b.neg.toNat ≡ a.toNat - b.toNat [MOD 2 ^ (32 * width)] := by
    have hsplit : a.toNat + b.neg.toNat = a.toNat - b.toNat + (b.neg.toNat + b.toNat) := by omega
    rw [hsplit]
    exact (toNat_neg b).add_left _
  rw [subAssign, toNat_addAssign, hadd, Nat.mod_eq_of_lt (by omega)]

/-! ## The product of two numbers -/

/-- The lower limbs and the upper ones. -/
theorem toNat_split (pn : BaseUint width) {m n : Nat} (h : m + n = width) :
    pn.toNat = limbsValue (2 ^ 32) (fun i => (pn.limb i).toNat) m +
      (2 ^ 32) ^ m * limbsValue (2 ^ 32) (fun i => (pn.limb (i + m)).toNat) n := by
  subst h
  exact limbsValue_append _ m n

/-- One round of `operator*=` adds a limb of `a` times the other number. -/
theorem toNat_mulRow (pn a b : BaseUint width) (hj : j ≤ width) :
    (mulRow a (.other b) pn j).toNat ≡
      pn.toNat + (a.limb j).toNat * (2 ^ 32) ^ j * b.toNat [MOD 2 ^ (32 * width)] := by
  obtain ⟨k, hk⟩ := Nat.exists_eq_add_of_le hj
  obtain ⟨-, hframe, hvalue⟩ := carryLoop_spec (j := j) (m := k) pn (n := fun carry pn i =>
      carry + (pn.limb (i + j)).toUInt64 + (a.limb j).toUInt64 * (b.limb i).toUInt64)
    (t := fun i => (pn.limb (i + j)).toNat + (a.limb j).toNat * (b.limb i).toNat)
    (by omega) fun c pn' i _ hc hsame => by
      rw [toNat_mulAdd hc, hsame (i + j) le_rfl]
  have hrow : mulRow a (.other b) pn j = (carryLoop j (fun carry pn i =>
      carry + (pn.limb (i + j)).toUInt64 + (a.limb j).toUInt64 * (b.limb i).toUInt64) pn k).1 := by
    have hcount : width - j = k := by omega
    rw [mulRow, hcount]
    rfl
  rw [← hrow] at hframe hvalue
  generalize hnew : mulRow a (.other b) pn j = new at *
  generalize (carryLoop j _ pn k).2.toNat = carry at hvalue
  have hlow : limbsValue (2 ^ 32) (fun i => (new.limb i).toNat) j =
      limbsValue (2 ^ 32) (fun i => (pn.limb i).toNat) j :=
    limbsValue_congr fun i hi => by rw [hframe i (Or.inl hi)]
  rw [limbsValue_add, limbsValue_mul] at hvalue
  have hb := b.toNat_split (m := k) (n := j) (by omega)
  generalize limbsValue (2 ^ 32) (fun i => (b.limb (i + k)).toNat) j = bhigh at hb
  -- what the row leaves out is a multiple of the modulus
  have htotal : pn.toNat + (a.limb j).toNat * (2 ^ 32) ^ j * b.toNat =
      new.toNat + 2 ^ (32 * width) * (carry + (a.limb j).toNat * bhigh) := by
    have hpow : 2 ^ (32 * width) = (2 ^ 32) ^ j * (2 ^ 32) ^ k := by
      rw [← Nat.pow_add, ← hk, Nat.pow_mul]
    rw [pn.toNat_split hk.symm, new.toNat_split hk.symm, hlow, hb, hpow]
    generalize limbsValue (2 ^ 32) (fun i => (pn.limb i).toNat) j = low
    generalize (2 ^ 32) ^ j = p
    generalize (2 ^ 32) ^ k = q at *
    generalize (a.limb j).toNat = aj at *
    calc
      _ = low + p * (limbsValue (2 ^ 32) (fun i => (pn.limb (i + j)).toNat) k +
            aj * limbsValue (2 ^ 32) (fun i => (b.limb i).toNat) k) + p * q * (aj * bhigh) := by
        ring
      _ = _ := by
        rw [← hvalue]
        ring
  rw [Nat.ModEq, htotal, Nat.add_mul_mod_self_left]

/-- The rounds up to a limb have multiplied by the limbs below. -/
theorem toNat_mul_countUp (a b : BaseUint width) {m : Nat} (hm : m ≤ width) :
    (countUp (mulRow a (.other b)) zero m).toNat ≡
      limbsValue (2 ^ 32) (fun i => (a.limb i).toNat) m * b.toNat [MOD 2 ^ (32 * width)] := by
  induction m with
  | zero =>
    rw [countUp, limbsValue, Nat.zero_mul, toNat_zero]
  | succ m ih =>
    have hrow := toNat_mulRow (countUp (mulRow a (.other b)) zero m) a b (Nat.le_of_succ_le hm)
    have hsum := (ih (Nat.le_of_succ_le hm)).add_right ((a.limb m).toNat * (2 ^ 32) ^ m * b.toNat)
    rw [countUp, limbsValue, Nat.add_mul]
    exact hrow.trans hsum

/-- `operator*=` of another object multiplies. -/
theorem toNat_mulAssign (a b : BaseUint width) :
    (a.mulAssign (.other b)).toNat = a.toNat * b.toNat % 2 ^ (32 * width) := by
  have h := toNat_mul_countUp a b le_rfl
  have hlt := toNat_lt (a.mulAssign (.other b))
  calc
    (a.mulAssign (.other b)).toNat = (a.mulAssign (.other b)).toNat % 2 ^ (32 * width) :=
      (Nat.mod_eq_of_lt hlt).symm
    _ = a.toNat * b.toNat % 2 ^ (32 * width) := h

theorem put_zero (i : Nat) : (zero : BaseUint width).put i 0 = zero := by
  rw [put, zero]
  ext l hl
  rw [Vector.getElem_setIfInBounds]
  split
  · rw [Vector.getElem_replicate]
  · rfl

/-- A round of `operator*=` that reads the cleared object leaves it cleared. -/
theorem mulRow_this (a : BaseUint width) (j : Nat) : mulRow a .this zero j = zero := by
  have hloop : ∀ m, carryLoop j (fun carry pn i => carry + (pn.limb (i + j)).toUInt64 +
      (a.limb j).toUInt64 * (((Operand.this).read pn).limb i).toUInt64) zero m =
        ((zero : BaseUint width), 0) := by
    intro m
    induction m with
    | zero => rfl
    | succ m ih =>
      rw [carryLoop, countUp]
      rw [carryLoop] at ih
      rw [ih]
      simp [Operand.read, put_zero]
  rw [mulRow, hloop]

/-- `operator*=` of the object itself leaves 0. -/
theorem mulAssign_this (a : BaseUint width) : a.mulAssign .this = zero := by
  have hloop : ∀ m, countUp (mulRow a .this) zero m = zero := by
    intro m
    induction m with
    | zero => rfl
    | succ m ih => rw [countUp, ih, mulRow_this]
  exact hloop width

end BaseUint

end IndexChain.Arith
