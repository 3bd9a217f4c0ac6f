import IndexChain.Core.LinearFeed

/-!
# Bech32 texts

`Encode` and `Decode` of `bech32.cpp`. `PolyMod` feeds values into a register of thirty bits.
Multiplying by `x` is linear and loses nothing, so six values make a checksum right in one way, and
of values that differ in a row of six at most, the checksum is right for one. A text is accepted
for a prefix and values exactly when it is what is written for them, in lower or in upper case.
-/

namespace IndexChain.Bech32

open IndexChain.Core

/-! ## The checksum -/

/-- `PolyMod` for one more value: the polynomial times `x`, by the multiples of `k(x)`. -/
def polyModStep (c : BitVec 32) (v_i : UInt8) : BitVec 32 :=
  let c0 := (c >>> 25).setWidth 8
  let c := ((c &&& 0x1ffffff#32) <<< 5) ^^^ v_i.toBitVec.setWidth 32
  let c := if c0.getLsbD 0 then c ^^^ 0x3b6a57b2#32 else c
  let c := if c0.getLsbD 1 then c ^^^ 0x26508e6d#32 else c
  let c := if c0.getLsbD 2 then c ^^^ 0x1ea119fa#32 else c
  let c := if c0.getLsbD 3 then c ^^^ 0x3d4233dd#32 else c
  if c0.getLsbD 4 then c ^^^ 0x2a1462b3#32 else c

/-- `PolyMod`. -/
def polyMod (v : List UInt8) : BitVec 32 :=
  v.foldl polyModStep 1#32

/-- A value as a word of the register. -/
def word (v : UInt8) : BitVec 32 :=
  v.toBitVec.setWidth 32

/-- What a bit of `c0` adds. -/
def select (c : BitVec 32) (i : Nat) (k : BitVec 32) : BitVec 32 :=
  if c.getLsbD (25 + i) then k else 0#32

/-- The register times `x`. -/
def timesX (c : BitVec 32) : BitVec 32 :=
  ((c &&& 0x1ffffff#32) <<< 5) ^^^ (select c 0 0x3b6a57b2#32 ^^^ select c 1 0x26508e6d#32 ^^^
    select c 2 0x1ea119fa#32 ^^^ select c 3 0x3d4233dd#32 ^^^ select c 4 0x2a1462b3#32)

theorem ite_xor (b : Bool) (c k : BitVec 32) :
    (if b then c ^^^ k else c) = c ^^^ if b then k else 0#32 := by
  cases b
  · exact BitVec.xor_zero.symm
  · rfl

theorem polyModStep_eq (c : BitVec 32) (v_i : UInt8) :
    polyModStep c v_i = timesX c ^^^ word v_i := by
  have hbit : ∀ i, i < 7 → ((c >>> 25).setWidth 8).getLsbD i = c.getLsbD (25 + i) := by
    intro i hi
    rw [BitVec.getLsbD_setWidth, BitVec.getLsbD_ushiftRight, decide_eq_true (by omega : i < 8),
      Bool.true_and]
  unfold polyModStep timesX select word
  simp only [hbit, ite_xor, Nat.reduceLT]
  ac_rfl

theorem select_xor (a b : BitVec 32) (i : Nat) (k : BitVec 32) :
    select (a ^^^ b) i k = select a i k ^^^ select b i k := by
  unfold select
  rw [BitVec.getLsbD_xor]
  cases a.getLsbD (25 + i) <;> cases b.getLsbD (25 + i) <;> simp

theorem timesX_linear : XorLinear timesX := by
  intro a b
  have hand : (a ^^^ b) &&& 0x1ffffff#32 = (a &&& 0x1ffffff#32) ^^^ (b &&& 0x1ffffff#32) := by
    ext i hi
    simp only [BitVec.getElem_and, BitVec.getElem_xor]
    cases a[i] <;> cases b[i] <;> simp
  unfold timesX
  rw [hand, BitVec.shiftLeft_xor_distrib]
  simp only [select_xor]
  ac_rfl

theorem foldl_polyModStep (v : List UInt8) (c : BitVec 32) :
    v.foldl polyModStep c = feed timesX c (v.map word) := by
  induction v generalizing c with
  | nil => rfl
  | cons v_i v ih => rw [List.foldl_cons, ih, List.map_cons, feed_cons, polyModStep_eq]

/-! ## The size of the register -/

theorem toNat_word (v : UInt8) : (word v).toNat = v.toNat :=
  BitVec.toNat_setWidth_of_le (by decide)

theorem select_lt (c : BitVec 32) (i : Nat) {k : BitVec 32} (hk : k.toNat < 2 ^ 30) :
    (select c i k).toNat < 2 ^ 30 := by
  unfold select
  split
  · exact hk
  · decide

theorem xor_lt {a b : BitVec 32} (ha : a.toNat < 2 ^ 30) (hb : b.toNat < 2 ^ 30) :
    (a ^^^ b).toNat < 2 ^ 30 := by
  rw [BitVec.toNat_xor]
  exact Nat.xor_lt_two_pow ha hb

theorem toNat_low (c : BitVec 32) : (c &&& 0x1ffffff#32).toNat = c.toNat % 2 ^ 25 := by
  rw [BitVec.toNat_and]
  exact Nat.and_two_pow_sub_one_eq_mod c.toNat 25

theorem toNat_shifted (c : BitVec 32) :
    ((c &&& 0x1ffffff#32) <<< 5).toNat = c.toNat % 2 ^ 25 * 32 := by
  rw [BitVec.toNat_shiftLeft, toNat_low, Nat.shiftLeft_eq]
  omega

/-- The register has thirty bits. -/
theorem timesX_lt (c : BitVec 32) : (timesX c).toNat < 2 ^ 30 := by
  refine xor_lt ?_ (xor_lt (xor_lt (xor_lt (xor_lt ?_ ?_) ?_) ?_) ?_)
  · rw [toNat_shifted]
    omega
  all_goals exact select_lt c _ (by decide)

theorem polyMod_lt (v : List UInt8) : (polyMod v).toNat < 2 ^ 30 := by
  suffices h : ∀ c : BitVec 32, c.toNat < 2 ^ 30 → (v.foldl polyModStep c).toNat < 2 ^ 30 from
    h 1#32 (by decide)
  induction v with
  | nil => exact fun c hc => hc
  | cons v_i v ih =>
    intro c _
    refine ih _ ?_
    rw [polyModStep_eq]
    have hv := v_i.toNat_lt
    exact xor_lt (timesX_lt c) (by rw [toNat_word]; omega)

/-- While the upper five bits are free, a value is put behind the others. -/
theorem timesX_xor_word {c : BitVec 32} {v : UInt8} (hc : c.toNat < 2 ^ 25) (hv : v < 32) :
    (timesX c ^^^ word v).toNat = c.toNat * 32 + v.toNat := by
  have hv : v.toNat < 2 ^ 5 := hv
  have hselect : ∀ i k, select c i k = 0#32 := by
    intro i k
    have hbit : c.getLsbD (25 + i) = false :=
      Nat.testBit_lt_two_pow (hc.trans_le (Nat.pow_le_pow_right (by decide) (by omega)))
    rw [select, hbit]
    rfl
  unfold timesX
  simp only [hselect, BitVec.xor_zero]
  rw [BitVec.toNat_xor, toNat_shifted, toNat_word, Nat.mod_eq_of_lt hc]
  apply Nat.eq_of_testBit_eq
  intro i
  rw [Nat.mul_comm, Nat.testBit_two_pow_mul_add c.toNat hv, Nat.testBit_xor]
  have hmul : (32 * c.toNat).testBit i = if i < 5 then Nat.testBit 0 i
      else c.toNat.testBit (i - 5) :=
    Nat.testBit_two_pow_mul_add c.toNat (Nat.two_pow_pos 5) i
  rw [hmul]
  split
  · rw [Nat.zero_testBit, Bool.false_xor]
  · rename_i hi
    rw [Nat.testBit_lt_two_pow (hv.trans_le (Nat.pow_le_pow_right (by decide) (by omega))),
      Bool.xor_false]

/-! ## Six values and the register -/

/-- A group of five bits. -/
def group (mod : BitVec 32) (k : Nat) : UInt8 :=
  UInt8.ofNat ((mod >>> k) &&& 31#32).toNat

/-- The values of a checksum. -/
def checksumOf (mod : BitVec 32) : List UInt8 :=
  (List.range 6).map fun i => group mod (5 * (5 - i))

theorem toNat_group (mod : BitVec 32) (k : Nat) :
    (group mod k).toNat = mod.toNat / 2 ^ k % 32 := by
  have hand : ((mod >>> k) &&& 31#32).toNat = mod.toNat / 2 ^ k % 32 := by
    rw [BitVec.toNat_and, BitVec.toNat_ushiftRight, Nat.shiftRight_eq_div_pow]
    exact Nat.and_two_pow_sub_one_eq_mod _ 5
  rw [group, hand, UInt8.toNat_ofNat_of_lt']
  exact (Nat.mod_lt _ (by decide)).trans (by decide)

theorem group_lt (mod : BitVec 32) (k : Nat) : group mod k < 32 := by
  have h : (group mod k).toNat < 32 := by
    rw [toNat_group]
    exact Nat.mod_lt _ (by decide)
  exact h

/-- Up to six values stand in the register as they are. -/
theorem toNat_feed {v : List UInt8} (hv : ∀ x ∈ v, x < 32) {m : Nat} {c : BitVec 32}
    (hc : c.toNat < 2 ^ (5 * m)) (hm : m + v.length ≤ 6) :
    (feed timesX c (v.map word)).toNat = v.foldl (fun n x => n * 32 + x.toNat) c.toNat := by
  induction v generalizing m c with
  | nil => rfl
  | cons x v ih =>
    obtain ⟨hx, hv⟩ := List.forall_mem_cons.1 hv
    rw [List.length_cons] at hm
    have hstep := timesX_xor_word
      (hc.trans_le (Nat.pow_le_pow_right (by decide) (by omega : 5 * m ≤ 25))) hx
    have hx : x.toNat < 32 := hx
    rw [List.map_cons, feed_cons, List.foldl_cons, ih hv (m := m + 1) ?_ (by omega), hstep]
    rw [hstep, Nat.mul_succ 5 m, Nat.pow_add]
    omega

theorem toNat_feed_six {a b c d e f : UInt8} (hv : ∀ x ∈ [a, b, c, d, e, f], x < 32) :
    (feed timesX 0#32 ([a, b, c, d, e, f].map word)).toNat =
      ((((a.toNat * 32 + b.toNat) * 32 + c.toNat) * 32 + d.toNat) * 32 + e.toNat) * 32 +
        f.toNat := by
  rw [toNat_feed hv (m := 0) (by decide) (by simp)]
  simp

theorem forall_mem_checksumOf (mod : BitVec 32) : ∀ x ∈ checksumOf mod, x < 32 := by
  intro x hx
  obtain ⟨i, -, rfl⟩ := List.mem_map.1 hx
  exact group_lt mod _

/-- The values of a checksum bring it into an empty register. -/
theorem feed_checksumOf {mod : BitVec 32} (h : mod.toNat < 2 ^ 30) :
    feed timesX 0#32 ((checksumOf mod).map word) = mod := by
  apply BitVec.eq_of_toNat_eq
  have hv := forall_mem_checksumOf mod
  have hsix : checksumOf mod = [group mod 25, group mod 20, group mod 15, group mod 10,
      group mod 5, group mod 0] := rfl
  rw [hsix] at hv ⊢
  rw [toNat_feed_six hv]
  simp only [toNat_group]
  omega

/-- Six values are the groups of the register that they are fed into. -/
theorem checksumOf_feed {v : List UInt8} (hlength : v.length = 6) (hv : ∀ x ∈ v, x < 32) :
    checksumOf (feed timesX 0#32 (v.map word)) = v := by
  obtain ⟨a, b, c, d, e, f, rfl⟩ : ∃ a b c d e f, v = [a, b, c, d, e, f] := by
    match v, hlength with
    | [a, b, c, d, e, f], _ => exact ⟨a, b, c, d, e, f, rfl⟩
  have hsum := toNat_feed_six hv
  generalize feed timesX 0#32 ([a, b, c, d, e, f].map word) = mod at hsum
  have hsix : checksumOf mod = [group mod 25, group mod 20, group mod 15, group mod 10,
      group mod 5, group mod 0] := rfl
  have hdigit : ∀ {x : UInt8} {k : Nat}, mod.toNat / 2 ^ k % 32 = x.toNat → group mod k = x := by
    intro x k h
    rw [← toNat_group] at h
    exact UInt8.toNat_inj.1 h
  simp only [List.forall_mem_cons] at hv
  obtain ⟨ha, hb, hc, hd, he, hf, -⟩ := hv
  rw [UInt8.lt_iff_toNat_lt] at ha hb hc hd he hf
  simp only [UInt8.reduceToNat] at ha hb hc hd he hf
  rw [hsix, hdigit (x := a) (by omega), hdigit (x := b) (by omega), hdigit (x := c) (by omega),
    hdigit (x := d) (by omega), hdigit (x := e) (by omega), hdigit (x := f) (by omega)]

/-! ## Making and verifying checksums -/

/-- `ExpandHRP`. -/
def expandHRP (hrp : List UInt8) : List UInt8 :=
  hrp.map (fun c => c >>> (5 : UInt8)) ++ 0 :: hrp.map (fun c => c &&& (0x1f : UInt8))

/-- `VerifyChecksum`. -/
def verifyChecksum (hrp values : List UInt8) : Bool :=
  polyMod (expandHRP hrp ++ values) == 1#32

/-- `CreateChecksum`. -/
def createChecksum (hrp values : List UInt8) : List UInt8 :=
  let enc := expandHRP hrp ++ values ++ List.replicate 6 0
  let mod := polyMod enc ^^^ 1#32
  checksumOf mod

theorem forall_mem_createChecksum (hrp values : List UInt8) :
    ∀ x ∈ createChecksum hrp values, x < 32 :=
  forall_mem_checksumOf _

theorem length_createChecksum (hrp values : List UInt8) :
    (createChecksum hrp values).length = 6 :=
  rfl

theorem polyMod_append (x y : List UInt8) :
    polyMod (x ++ y) = polyMod (x ++ List.replicate y.length 0) ^^^
      feed timesX 0#32 (y.map word) := by
  have hzero : (List.replicate y.length (0 : UInt8)).map word =
      List.replicate (y.map word).length 0#32 := by
    rw [List.map_replicate, List.length_map]
    rfl
  unfold polyMod
  rw [foldl_polyModStep, foldl_polyModStep, List.map_append, List.map_append, feed_append,
    feed_append, hzero]
  exact timesX_linear.feed_eq

/-- Six values make the checksum right in one way. -/
theorem verifyChecksum_iff {hrp values checksum : List UInt8} (hlength : checksum.length = 6)
    (hchecksum : ∀ x ∈ checksum, x < 32) :
    verifyChecksum hrp (values ++ checksum) = true ↔ checksum = createChecksum hrp values := by
  have happend := polyMod_append (expandHRP hrp ++ values) checksum
  rw [hlength] at happend
  rw [verifyChecksum, beq_iff_eq, ← List.append_assoc, happend]
  unfold createChecksum
  dsimp only
  have hlt := polyMod_lt (expandHRP hrp ++ values ++ List.replicate 6 0)
  generalize polyMod (expandHRP hrp ++ values ++ List.replicate 6 0) = mod at hlt
  constructor
  · intro h
    have hfeed : feed timesX 0#32 (checksum.map word) = mod ^^^ 1#32 := by
      rw [← h, ← BitVec.xor_assoc, BitVec.xor_self, BitVec.zero_xor]
    rw [← hfeed, checksumOf_feed hlength hchecksum]
  · rintro rfl
    rw [feed_checksumOf (xor_lt hlt (by decide)), ← BitVec.xor_assoc, BitVec.xor_self,
      BitVec.zero_xor]

theorem verifyChecksum_createChecksum (hrp values : List UInt8) :
    verifyChecksum hrp (values ++ createChecksum hrp values) = true :=
  (verifyChecksum_iff (length_createChecksum hrp values)
    (forall_mem_createChecksum hrp values)).2 rfl

/-! ## Errors in a row -/

/-- The lowest values of the multiples of `k(x)` are independent. -/
theorem select_independent : ∀ b0 b1 b2 b3 b4 : Bool,
    (∀ i < 5, ((if b0 then 0x3b6a57b2#32 else 0#32) ^^^ (if b1 then 0x26508e6d#32 else 0#32) ^^^
      (if b2 then 0x1ea119fa#32 else 0#32) ^^^ (if b3 then 0x3d4233dd#32 else 0#32) ^^^
      (if b4 then 0x2a1462b3#32 else 0#32)).getLsbD i = false) →
    b0 = false ∧ b1 = false ∧ b2 = false ∧ b3 = false ∧ b4 = false := by
  decide

/-- No other register of thirty bits than zero is made zero. -/
theorem eq_zero_of_timesX {c : BitVec 32} (hc : c.toNat < 2 ^ 30) (h : timesX c = 0#32) :
    c = 0#32 := by
  have hbits : c.getLsbD 25 = false ∧ c.getLsbD 26 = false ∧ c.getLsbD 27 = false ∧
      c.getLsbD 28 = false ∧ c.getLsbD 29 = false := by
    apply select_independent
    intro i hi
    have hlow : (timesX c).getLsbD i = false := by
      rw [h]
      exact BitVec.getLsbD_zero
    rwa [timesX, BitVec.getLsbD_xor, BitVec.getLsbD_shiftLeft, decide_eq_true hi, Bool.not_true,
      Bool.and_false, Bool.false_and, Bool.false_xor] at hlow
  obtain ⟨h25, h26, h27, h28, h29⟩ := hbits
  have hlt : c.toNat < 2 ^ 25 := by
    refine Nat.lt_pow_two_of_testBit _ fun i hi => ?_
    by_cases htop : 30 ≤ i
    · exact Nat.testBit_lt_two_pow (hc.trans_le (Nat.pow_le_pow_right (by decide) htop))
    · obtain rfl | rfl | rfl | rfl | rfl : i = 25 ∨ i = 26 ∨ i = 27 ∨ i = 28 ∨ i = 29 := by
        omega
      all_goals assumption
  have hstep := timesX_xor_word (v := 0) hlt (by decide)
  rw [h] at hstep
  apply BitVec.eq_of_toNat_eq
  have hzero : (0#32 ^^^ word 0).toNat = 0 := rfl
  rw [hzero] at hstep
  change c.toNat = 0
  omega

/-- Up to six values are told apart by the register that they are fed into. -/
theorem feed_injective {d d' : List UInt8} (hlength : d.length = d'.length) (hsix : d.length ≤ 6)
    (hd : ∀ x ∈ d, x < 32) (hd' : ∀ x ∈ d', x < 32)
    (h : feed timesX 0#32 (d.map word) = feed timesX 0#32 (d'.map word)) : d = d' := by
  have hpad : ∀ {l : List UInt8}, l.length ≤ 6 → (∀ x ∈ l, x < 32) →
      checksumOf (feed timesX 0#32 (l.map word)) = List.replicate (6 - l.length) 0 ++ l := by
    intro l hl hlt
    have hzeros : (List.replicate (6 - l.length) (0 : UInt8)).map word =
        List.replicate (6 - l.length) 0#32 :=
      List.map_replicate
    have hrow := checksumOf_feed (v := List.replicate (6 - l.length) 0 ++ l)
      (by rw [List.length_append, List.length_replicate]; omega) (by
        intro x hx
        rcases List.mem_append.1 hx with hx | hx
        · rw [List.eq_of_mem_replicate hx]
          decide
        · exact hlt x hx)
    rwa [List.map_append, feed_append, hzeros, timesX_linear.feed_zero] at hrow
  have hrows := hpad hsix hd
  rw [h, hpad (hlength ▸ hsix) hd', hlength] at hrows
  exact (List.append_cancel_left hrows).symm

/-- Of values that differ in a row of six at most, the checksum is right for one. -/
theorem verifyChecksum_burst {hrp p q d d' : List UInt8} (hlength : d.length = d'.length)
    (hsix : d.length ≤ 6) (hd : ∀ x ∈ d, x < 32) (hd' : ∀ x ∈ d', x < 32) (hne : d ≠ d')
    (h : verifyChecksum hrp (p ++ d ++ q) = true) :
    verifyChecksum hrp (p ++ d' ++ q) = false := by
  have hfeed : ∀ {l : List UInt8}, verifyChecksum hrp (p ++ l ++ q) = true →
      feed timesX (polyMod (expandHRP hrp ++ p ++ l)) (q.map word) = 1#32 := by
    intro l hl
    rw [verifyChecksum, beq_iff_eq, ← List.append_assoc, ← List.append_assoc] at hl
    rwa [polyMod, List.foldl_append, foldl_polyModStep q] at hl
  by_contra h'
  rw [Bool.not_eq_false] at h'
  -- The registers behind the error differ by one that is led to zero.
  have hsame := timesX_linear.feed_xor (a := polyMod (expandHRP hrp ++ p ++ d))
    (b := polyMod (expandHRP hrp ++ p ++ d')) (l := q.map word) rfl
  rw [hfeed h, hfeed h', BitVec.xor_self, zipWith_self, feed_replicate_zero] at hsame
  have heq := eq_zero_of_iterate (P := fun c => c.toNat < 2 ^ 30) (fun c _ => timesX_lt c)
    (fun c hc => eq_zero_of_timesX hc) (xor_lt (polyMod_lt _) (polyMod_lt _)) hsame
  rw [polyMod_append _ d, polyMod_append _ d', hlength, BitVec.xor_eq_zero_iff,
    BitVec.xor_right_inj] at heq
  exact hne (feed_injective hlength hsix hd hd' heq)

/-- Two wrong characters are found. -/
theorem verifyChecksum_burst_two :
    verifyChecksum [97] ([7] ++ [17, 17] ++ [13, 11, 18, 20]) = false :=
  have h : verifyChecksum [97] ([7] ++ [16, 17] ++ [13, 11, 18, 20]) = true := by decide
  verifyChecksum_burst (d := [16, 17]) rfl (by decide) (by simp) (by simp) (by decide) h

/-! ## Characters -/

/-- `CHARSET`. -/
def charset : List UInt8 :=
  [113, 112, 122, 114, 121, 57, 120, 56, 103, 102, 50, 116, 118, 100, 119, 48,
    115, 51, 106, 110, 53, 52, 107, 104, 99, 101, 54, 109, 117, 97, 55, 108]

/-- `CHARSET_REV`. -/
def charsetRev : List Int :=
  [-1, -1, -1, -1, -1, -1, -1, -1, -1, -1, -1, -1, -1, -1, -1, -1,
    -1, -1, -1, -1, -1, -1, -1, -1, -1, -1, -1, -1, -1, -1, -1, -1,
    -1, -1, -1, -1, -1, -1, -1, -1, -1, -1, -1, -1, -1, -1, -1, -1,
    15, -1, 10, 17, 21, 20, 26, 30, 7, 5, -1, -1, -1, -1, -1, -1,
    -1, 29, -1, 24, 13, 25, 9, 8, 23, -1, 18, 22, 31, 27, 19, -1,
    1, 0, 3, 16, 11, 28, 12, 14, 6, 4, 2, -1, -1, -1, -1, -1,
    -1, 29, -1, 24, 13, 25, 9, 8, 23, -1, 18, 22, 31, 27, 19, -1,
    1, 0, 3, 16, 11, 28, 12, 14, 6, 4, 2, -1, -1, -1, -1, -1]

/-- `LowerCase`. -/
def lowerCase (c : UInt8) : UInt8 :=
  if 65 ≤ c ∧ c ≤ 90 then (c - 65) + 97 else c

/-- The character of a value below 32. -/
def charOf (c : UInt8) : UInt8 :=
  charset.getD c.toNat 0

/-- The value of a character, or -1. -/
def rev (c : UInt8) : Int :=
  if c < 33 ∨ 126 < c then -1 else charsetRev.getD c.toNat (-1)

theorem forall_uint8 {p : UInt8 → Bool}
    (h : (List.range 256).all (fun n => p (UInt8.ofNat n)) = true) (c : UInt8) : p c = true := by
  have hc := List.all_eq_true.1 h c.toNat (List.mem_range.2 c.toNat_lt)
  rwa [UInt8.ofNat_toNat] at hc

/-- What a value is written as is read as the value, and is not the separator. -/
theorem charOf_spec {v : UInt8} (hv : v < 32) :
    rev (charOf v) = v.toNat ∧ charOf v ≠ 49 := by
  have h := @forall_uint8 (fun v => !decide (v < 32) ||
    decide (rev (charOf v) = v.toNat ∧ charOf v ≠ 49)) (by decide +kernel) v
  simpa [hv] using h

/-- What is read as a value is what the value is written as, but for the case. -/
theorem rev_spec {c : UInt8} (hc : rev c ≠ -1) :
    UInt8.ofNat (rev c).toNat < 32 ∧ charOf (UInt8.ofNat (rev c).toNat) = lowerCase c := by
  have h := @forall_uint8 (fun c => decide (rev c = -1) || decide
    (UInt8.ofNat (rev c).toNat < 32 ∧ charOf (UInt8.ofNat (rev c).toNat) = lowerCase c))
    (by decide +kernel) c
  simpa [hc] using h

theorem rev_lowerCase (c : UInt8) : rev (lowerCase c) = rev c := by
  have h := @forall_uint8 (fun c => decide (rev (lowerCase c) = rev c)) (by decide +kernel) c
  exact of_decide_eq_true h

theorem lowerCase_eq_separator {c : UInt8} : lowerCase c = 49 ↔ c = 49 := by
  have h := @forall_uint8 (fun c => decide (lowerCase c = 49 ↔ c = 49)) (by decide +kernel) c
  exact of_decide_eq_true h

/-! ## Texts -/

/-- `Encode`. -/
def encode (hrp values : List UInt8) : List UInt8 :=
  let checksum := createChecksum hrp values
  let combined := values ++ checksum
  if combined.any fun c => 32 ≤ c then [] else hrp ++ 49 :: combined.map charOf

/-- `rfind` of a character. -/
def rfind (c : UInt8) : List UInt8 → Option Nat
  | [] => none
  | x :: str => match rfind c str with
    | some pos => some (pos + 1)
    | none => if x = c then some 0 else none

/-- The values of characters, if each of them has one. -/
def readValues : List UInt8 → Option (List UInt8)
  | [] => some []
  | c :: str =>
    if rev c = -1 then none else (readValues str).map (UInt8.ofNat (rev c).toNat :: ·)

/-- The loop of `Decode` over the text: its characters are printable, of one case. -/
def legible (str : List UInt8) : Bool :=
  !(str.any fun c => c < 33 || 126 < c) &&
    !((str.any fun c => 97 ≤ c && c ≤ 122) && str.any fun c => 65 ≤ c && c ≤ 90)

/-- `Decode`; what is returned by `return {}` is empty. -/
def decode (str : List UInt8) : List UInt8 × List UInt8 :=
  if legible str then
    match rfind 49 str with
    | none => ([], [])
    | some pos =>
      if 1023 < str.length ∨ pos = 0 ∨ str.length < pos + 7 then ([], [])
      else match readValues (str.drop (pos + 1)) with
        | none => ([], [])
        | some values =>
          let hrp := (str.take pos).map lowerCase
          if verifyChecksum hrp values then (hrp, values.take (values.length - 6)) else ([], [])
  else ([], [])

theorem rfind_eq_none {c : UInt8} {str : List UInt8} (h : c ∉ str) : rfind c str = none := by
  induction str with
  | nil => rfl
  | cons x str ih =>
    obtain ⟨hx, hstr⟩ := not_or.1 (mt List.mem_cons.2 h)
    rw [rfind, ih hstr]
    exact if_neg (Ne.symm hx)

theorem rfind_append {c : UInt8} {front back : List UInt8} (h : c ∉ back) :
    rfind c (front ++ c :: back) = some front.length := by
  induction front with
  | nil =>
    rw [List.nil_append, rfind, rfind_eq_none h]
    exact if_pos rfl
  | cons x front ih => rw [List.cons_append, rfind, ih, List.length_cons]

theorem exists_last {c : UInt8} {str : List UInt8} (h : c ∈ str) :
    ∃ front back, str = front ++ c :: back ∧ c ∉ back := by
  induction str with
  | nil => cases h
  | cons x str ih =>
    by_cases hstr : c ∈ str
    · obtain ⟨front, back, rfl, hback⟩ := ih hstr
      exact ⟨x :: front, back, rfl, hback⟩
    · rcases List.mem_cons.1 h with rfl | h
      · exact ⟨[], str, rfl, hstr⟩
      · exact absurd h hstr

/-- The values are those that the characters, in lower case, are written for. -/
theorem readValues_eq_some_iff {str values : List UInt8} :
    readValues str = some values ↔
      (∀ v ∈ values, v < 32) ∧ str.map lowerCase = values.map charOf := by
  induction str generalizing values with
  | nil =>
    cases values with
    | nil => simp [readValues]
    | cons v values => simp [readValues]
  | cons c str ih =>
    rw [readValues]
    split
    · rename_i hrev
      constructor
      · intro h
        cases h
      · rintro ⟨hlt, hmap⟩
        cases values with
        | nil => cases hmap
        | cons v values =>
          obtain ⟨hc, -⟩ := List.cons.inj hmap
          have hv := (charOf_spec (List.forall_mem_cons.1 hlt).1).1
          rw [← hc, rev_lowerCase, hrev] at hv
          omega
    · rename_i hrev
      obtain ⟨hlt32, hchar⟩ := rev_spec hrev
      rw [Option.map_eq_some_iff]
      constructor
      · rintro ⟨rest, hrest, rfl⟩
        obtain ⟨hlt, hmap⟩ := ih.1 hrest
        refine ⟨List.forall_mem_cons.2 ⟨hlt32, hlt⟩, ?_⟩
        rw [List.map_cons, List.map_cons, hmap, hchar]
      · rintro ⟨hlt, hmap⟩
        cases values with
        | nil => cases hmap
        | cons v values =>
          obtain ⟨hc, hmap⟩ := List.cons.inj hmap
          obtain ⟨hv, hlt⟩ := List.forall_mem_cons.1 hlt
          refine ⟨values, ih.2 ⟨hlt, hmap⟩, ?_⟩
          have hval := (charOf_spec hv).1
          rw [← hc, rev_lowerCase] at hval
          rw [hval, Int.toNat_natCast, UInt8.ofNat_toNat]

/-- `Decode` after the search for the separator. -/
theorem decode_append {front back : List UInt8} (hback : 49 ∉ back) :
    decode (front ++ 49 :: back) =
      if legible (front ++ 49 :: back) = true ∧ front.length + back.length + 1 ≤ 1023 ∧
          front ≠ [] ∧ 6 ≤ back.length then
        match readValues back with
        | none => ([], [])
        | some values =>
          if verifyChecksum (front.map lowerCase) values then
            (front.map lowerCase, values.take (values.length - 6))
          else ([], [])
      else ([], []) := by
  have hlength : (front ++ 49 :: back).length = front.length + back.length + 1 := by
    rw [List.length_append, List.length_cons]
    omega
  have hdrop : (front ++ 49 :: back).drop (front.length + 1) = back := by
    rw [List.drop_append, List.drop_eq_nil_of_le (by omega), Nat.add_sub_cancel_left]
    rfl
  have hbounds : (1023 < front.length + back.length + 1 ∨ front.length = 0 ∨
      front.length + back.length + 1 < front.length + 7) ↔
      ¬ (front.length + back.length + 1 ≤ 1023 ∧ front ≠ [] ∧ 6 ≤ back.length) := by
    rw [← List.length_pos_iff]
    omega
  unfold decode
  rw [rfind_append hback]
  dsimp only
  rw [hlength, hdrop, List.take_left]
  by_cases hlegible : legible (front ++ 49 :: back) = true
  · rw [if_pos hlegible]
    split
    · rename_i hout
      rw [if_neg fun h => hbounds.1 hout h.2]
    · rename_i hin
      rw [if_pos ⟨hlegible, not_not.1 (mt hbounds.2 hin)⟩]
  · rw [if_neg hlegible, if_neg fun h => hlegible h.1]

theorem decode_of_notMem {str : List UInt8} (h : 49 ∉ str) : decode str = ([], []) := by
  unfold decode
  rw [rfind_eq_none h]
  exact ite_self _

theorem forall_mem_combined {hrp values : List UInt8} (hvalues : ∀ v ∈ values, v < 32) :
    ∀ v ∈ values ++ createChecksum hrp values, v < 32 := by
  intro v hv
  rcases List.mem_append.1 hv with hv | hv
  · exact hvalues v hv
  · exact forall_mem_createChecksum hrp values v hv

theorem encode_eq {hrp values : List UInt8} (hvalues : ∀ v ∈ values, v < 32) :
    encode hrp values = hrp ++ 49 :: (values ++ createChecksum hrp values).map charOf := by
  unfold encode
  dsimp only
  rw [if_neg]
  intro hany
  obtain ⟨v, hv, hge⟩ := List.any_eq_true.1 hany
  exact absurd (forall_mem_combined hvalues v hv) (UInt8.not_lt.2 (of_decide_eq_true hge))

theorem length_encode {hrp values : List UInt8} (hvalues : ∀ v ∈ values, v < 32) :
    (encode hrp values).length = hrp.length + values.length + 7 := by
  rw [encode_eq hvalues, List.length_append, List.length_cons, List.length_map, List.length_append,
    length_createChecksum]
  omega

theorem separator_notMem {values : List UInt8} (hvalues : ∀ v ∈ values, v < 32) :
    49 ∉ values.map charOf := by
  intro h
  obtain ⟨v, hv, hchar⟩ := List.mem_map.1 h
  exact (charOf_spec (hvalues v hv)).2 hchar

theorem separator_mem_lowerCase {str : List UInt8} : 49 ∈ str.map lowerCase ↔ 49 ∈ str := by
  constructor
  · intro h
    obtain ⟨c, hc, hlower⟩ := List.mem_map.1 h
    rwa [← lowerCase_eq_separator.1 hlower]
  · exact fun h => List.mem_map.2 ⟨49, h, rfl⟩

/-- The parts around the last separator are found in one way. -/
theorem append_inj_of_last {front back front' back' : List UInt8} (hback : 49 ∉ back)
    (hback' : 49 ∉ back') (h : front ++ 49 :: back = front' ++ 49 :: back') :
    front = front' ∧ back = back' := by
  have hlength : front.length = front'.length := by
    have hpos : rfind 49 (front ++ 49 :: back) = some front.length := rfind_append hback
    rw [h, rfind_append hback'] at hpos
    exact (Option.some.inj hpos).symm
  obtain ⟨hfront, hrest⟩ := List.append_inj h hlength
  exact ⟨hfront, (List.cons.inj hrest).2⟩

/-- What `Decode` accepts for a prefix and values is what `Encode` writes for them, in lower or
in upper case. -/
theorem decode_eq_iff {str hrp values : List UInt8} (hhrp : hrp ≠ []) :
    decode str = (hrp, values) ↔ legible str = true ∧ str.length ≤ 1023 ∧
      (∀ v ∈ values, v < 32) ∧ str.map lowerCase = encode hrp values := by
  have hempty : (([], []) : List UInt8 × List UInt8) ≠ (hrp, values) :=
    fun h => hhrp (congrArg Prod.fst h).symm
  constructor
  · intro h
    by_cases hmem : 49 ∈ str
    · obtain ⟨front, back, rfl, hback⟩ := exists_last hmem
      rw [decode_append hback] at h
      split at h
      · rename_i hchecks
        obtain ⟨hlegible, hmax, -, hsix⟩ := hchecks
        cases hread : readValues back with
        | none =>
          rw [hread] at h
          exact absurd h hempty
        | some all =>
          rw [hread] at h
          dsimp only at h
          split at h
          · rename_i hverify
            obtain ⟨rfl, rfl⟩ := Prod.mk.inj h
            obtain ⟨hlt, hmap⟩ := readValues_eq_some_iff.1 hread
            have hall : 6 ≤ all.length := by
              have hlength := congrArg List.length hmap
              rw [List.length_map, List.length_map] at hlength
              omega
            have hsplit := List.take_append_drop (all.length - 6) all
            have hchecksum : all.drop (all.length - 6) =
                createChecksum (front.map lowerCase) (all.take (all.length - 6)) := by
              refine (verifyChecksum_iff ?_ fun v hv => hlt v (List.mem_of_mem_drop hv)).1 ?_
              · rw [List.length_drop]
                omega
              · rwa [hsplit]
            have hvalues : ∀ v ∈ all.take (all.length - 6), v < 32 :=
              fun v hv => hlt v (List.mem_of_mem_take hv)
            refine ⟨hlegible, ?_, hvalues, ?_⟩
            · rw [List.length_append, List.length_cons]
              omega
            · rw [encode_eq hvalues, ← hchecksum, hsplit, ← hmap, List.map_append, List.map_cons]
              rfl
          · exact absurd h hempty
      · exact absurd h hempty
    · rw [decode_of_notMem hmem] at h
      exact absurd h hempty
  · rintro ⟨hlegible, hmax, hvalues, hstr⟩
    rw [encode_eq hvalues] at hstr
    have hcombined : ∀ v ∈ values ++ createChecksum hrp values, v < 32 :=
      forall_mem_combined hvalues
    have hmem : 49 ∈ str := by
      rw [← separator_mem_lowerCase, hstr]
      exact List.mem_append_right _ List.mem_cons_self
    obtain ⟨front, back, rfl, hback⟩ := exists_last hmem
    rw [List.map_append, List.map_cons] at hstr
    obtain ⟨hfront, hread⟩ := append_inj_of_last (mt separator_mem_lowerCase.1 hback)
      (separator_notMem hcombined) hstr
    have hlength := congrArg List.length hread
    rw [List.length_map, List.length_map, List.length_append, length_createChecksum] at hlength
    rw [List.length_append, List.length_cons] at hmax
    have hverify : verifyChecksum hrp (values ++ createChecksum hrp values) = true :=
      verifyChecksum_createChecksum hrp values
    have hfront_ne : front ≠ [] := by
      rintro rfl
      exact hhrp hfront.symm
    rw [decode_append hback, if_pos ⟨hlegible, by omega, hfront_ne, by omega⟩,
      readValues_eq_some_iff.2 ⟨hcombined, hread⟩]
    dsimp only
    rw [hfront, if_pos hverify, List.length_append, length_createChecksum,
      Nat.add_sub_cancel, List.take_left]

example : decode [65, 49, 50, 85, 69, 76, 53, 76] = ([97], []) := by decide +kernel

/-- The characters of a prefix: printable and not in upper case. -/
def IsPrefixChar (c : UInt8) : Prop :=
  33 ≤ c ∧ c ≤ 126 ∧ ¬ (65 ≤ c ∧ c ≤ 90)

instance (c : UInt8) : Decidable (IsPrefixChar c) :=
  inferInstanceAs (Decidable (_ ∧ _ ∧ ¬ _))

theorem IsPrefixChar.lowerCase_eq {c : UInt8} (h : IsPrefixChar c) : lowerCase c = c :=
  if_neg h.2.2

theorem isPrefixChar_charOf {v : UInt8} (hv : v < 32) : IsPrefixChar (charOf v) := by
  have h := @forall_uint8 (fun v => !decide (v < 32) || decide (IsPrefixChar (charOf v)))
    (by decide +kernel) v
  simpa [hv] using h

theorem legible_of_forall {str : List UInt8} (h : ∀ c ∈ str, IsPrefixChar c) :
    legible str = true := by
  have hprintable : (str.any fun c => c < 33 || 126 < c) = false := by
    refine List.any_eq_false.2 fun c hc => ?_
    have hlow := UInt8.not_lt.2 (h c hc).1
    have hhigh := UInt8.not_lt.2 (h c hc).2.1
    simp [hlow, hhigh]
  have hupper : (str.any fun c => 65 ≤ c && c ≤ 90) = false := by
    refine List.any_eq_false.2 fun c hc => ?_
    rw [Bool.and_eq_true, decide_eq_true_iff, decide_eq_true_iff]
    exact (h c hc).2.2
  rw [legible, hprintable, hupper, Bool.and_false]
  rfl

/-- What `Encode` writes is read by `Decode`, as long as it is short enough. -/
theorem decode_encode {hrp values : List UInt8} (hne : hrp ≠ [])
    (hhrp : ∀ c ∈ hrp, IsPrefixChar c) (hvalues : ∀ v ∈ values, v < 32)
    (hlength : hrp.length + values.length ≤ 1016) :
    decode (encode hrp values) = (hrp, values) := by
  have hchars : ∀ c ∈ encode hrp values, IsPrefixChar c := by
    rw [encode_eq hvalues]
    intro c hc
    rcases List.mem_append.1 hc with hc | hc
    · exact hhrp c hc
    · rcases List.mem_cons.1 hc with rfl | hc
      · decide
      · obtain ⟨v, hv, rfl⟩ := List.mem_map.1 hc
        exact isPrefixChar_charOf (forall_mem_combined hvalues v hv)
  refine (decode_eq_iff hne).2 ⟨legible_of_forall hchars, ?_, hvalues, ?_⟩
  · rw [length_encode hvalues]
    omega
  · exact (List.map_congr_left fun c hc => (hchars c hc).lowerCase_eq).trans (List.map_id' _)

/-- Every value once, under a prefix with the separator in it. -/
theorem decode_encode_all :
    decode (encode [122, 49, 115] ((List.range 32).map UInt8.ofNat)) =
      ([122, 49, 115], (List.range 32).map UInt8.ofNat) :=
  decode_encode (by decide) (by simp [IsPrefixChar]) (by decide +kernel) (by decide)

end IndexChain.Bech32
