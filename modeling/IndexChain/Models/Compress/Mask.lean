import IndexChain.Models.Compress.Coins

/-!
# The mask of a record

The number of bytes that `CalcMaskSize` counts and the number of those that are not zero
agree with the bytes that are written, and reading until that many bytes are not zero reads
the mask (`readMask_mask`).
-/

namespace IndexChain

open IndexChain.Core

namespace Compress

/-! ## A byte -/

/-- The bits of a byte are read back, and the byte is zero when none is set. -/
theorem availBits_packByte (avail : Nat → Bool) :
    availBits (packByte avail) = (List.range 8).map avail ∧
      (packByte avail = 0 ↔ ∀ i < 8, avail i = false) := by
  have hbits : ∀ b0 b1 b2 b3 b4 b5 b6 b7 : Bool,
      let bits := fun i => [b0, b1, b2, b3, b4, b5, b6, b7].getD i false
      availBits (packByte bits) = [b0, b1, b2, b3, b4, b5, b6, b7] ∧
        (packByte bits = 0 ↔ ∀ i < 8, bits i = false) := by
    decide +kernel
  have hagree : ∀ i < 8, avail i =
      [avail 0, avail 1, avail 2, avail 3, avail 4, avail 5, avail 6, avail 7].getD i false := by
    intro i hi
    interval_cases i <;> rfl
  obtain ⟨hread, hzero⟩ := hbits (avail 0) (avail 1) (avail 2) (avail 3) (avail 4) (avail 5)
    (avail 6) (avail 7)
  refine ⟨hread, hzero.trans ?_⟩
  exact forall₂_congr fun i hi => by rw [hagree i hi]

/-! ## The number of bytes -/

/-- The loop of `CalcMaskSize` stops after the last byte that is not zero. -/
theorem maskSize_spec (fZero : Nat → Bool) (n : Nat) :
    (maskSize fZero n).1 ≤ n ∧
      (maskSize fZero n).2 = (List.range (maskSize fZero n).1).countP (fun b => !fZero b) ∧
      ((maskSize fZero n).1 = 0 ∨ fZero ((maskSize fZero n).1 - 1) = false) ∧
      ∀ b < n, (maskSize fZero n).1 ≤ b → fZero b = true := by
  induction n with
  | zero => simp [maskSize]
  | succ n ih =>
    obtain ⟨hle, hcount, hlast, hafter⟩ := ih
    have hstep : maskSize fZero (n + 1) =
        if fZero n then maskSize fZero n else (n + 1, (maskSize fZero n).2 + 1) := by
      unfold maskSize
      rw [List.range_succ, List.foldl_append]
      rfl
    rw [hstep]
    cases hzero : fZero n with
    | true =>
      rw [if_pos rfl]
      refine ⟨by omega, hcount, hlast, fun b hb hge => ?_⟩
      rcases Nat.lt_succ_iff_lt_or_eq.1 hb with hlt | rfl
      · exact hafter b hlt hge
      · exact hzero
    | false =>
      rw [if_neg Bool.false_ne_true]
      refine ⟨le_rfl, ?_, Or.inr hzero, fun b hb hge => absurd hb (Nat.not_lt.2 hge)⟩
      -- the bytes between the last one and this one are zero
      obtain ⟨k, hk⟩ := Nat.exists_eq_add_of_le hle
      have hgap : ((List.range k).map ((maskSize fZero n).1 + ·)).countP (fun b => !fZero b) =
          0 := by
        rw [List.countP_eq_zero]
        intro b hb
        obtain ⟨j, hj, rfl⟩ := List.mem_map.1 hb
        have hlt := List.mem_range.1 hj
        have hzeros := hafter ((maskSize fZero n).1 + j) (by omega) (Nat.le_add_right _ _)
        simp [hzeros]
      dsimp only
      rw [List.range_succ, List.countP_append, hcount]
      conv_rhs => rw [hk, List.range_add, List.countP_append, hgap, Nat.add_zero]
      simp [← hk, hzero]

/-! ## Reading the mask -/

/-- As many bytes are read as it takes to see the given number that are not zero. -/
theorem readMask_append {mask rest : List UInt8}
    (hlast : ∀ chAvail ∈ mask.getLast?, chAvail ≠ 0) :
    readMask (mask.countP (· ≠ 0)) (mask ++ rest) = some (mask.flatMap availBits, rest) := by
  induction mask with
  | nil => simp [readMask]
  | cons chAvail mask ih =>
    have htail : ∀ last ∈ mask.getLast?, last ≠ 0 := by
      intro last hmem
      refine hlast last ?_
      rw [List.getLast?_cons]
      cases hmask : mask.getLast? with
      | none =>
        rw [hmask] at hmem
        cases hmem
      | some last' =>
        rw [hmask] at hmem
        exact hmem
    by_cases hzero : chAvail = 0
    · subst hzero
      -- a later byte is not zero
      have hpos : ∃ k, mask.countP (· ≠ 0) = k + 1 := by
        refine Nat.exists_eq_succ_of_ne_zero fun hnone => ?_
        rw [List.countP_eq_zero] at hnone
        cases hmask : mask.getLast? with
        | none =>
          rw [List.getLast?_eq_none_iff] at hmask
          subst hmask
          exact hlast 0 rfl rfl
        | some last =>
          exact hnone last (List.mem_of_getLast? hmask) (by simpa using htail last hmask)
      obtain ⟨k, hk⟩ := hpos
      rw [hk] at ih
      rw [List.countP_cons_of_neg (by simp), hk, List.cons_append, readMask, if_neg (by simp),
        ih htail]
      rfl
    · rw [List.countP_cons_of_pos (by simpa using hzero), List.cons_append, readMask,
        if_pos hzero, ih htail]
      rfl

end Compress

namespace CCoins

open Compress

variable {c : CCoins}

/-- The bytes of the mask. -/
def mask (c : CCoins) : List UInt8 :=
  (List.range c.calcMaskSize.1).map fun b => packByte (c.maskBit b)

theorem fZero_iff (b : Nat) :
    ((List.range 8).all fun i => !c.maskBit b i) = true ↔ packByte (c.maskBit b) = 0 := by
  rw [(availBits_packByte _).2, List.all_eq_true]
  simp

/-- `CalcMaskSize` counts the bytes of the mask that are not zero. -/
theorem calcMaskSize_snd (c : CCoins) : c.calcMaskSize.2 = c.mask.countP (· ≠ 0) := by
  obtain ⟨-, hcount, -, -⟩ := maskSize_spec (fun b => (List.range 8).all fun i => !c.maskBit b i)
    ((c.vout.length - 2 + 7) / 8)
  unfold mask
  rw [List.countP_map]
  refine hcount.trans (List.countP_congr fun b _ => ?_)
  rw [Bool.not_eq_true', ← Bool.not_eq_true, fZero_iff]
  simp

/-- The last byte of the mask is not zero. -/
theorem mask_getLast (c : CCoins) : ∀ chAvail ∈ c.mask.getLast?, chAvail ≠ 0 := by
  obtain ⟨-, -, hlast, -⟩ := maskSize_spec (fun b => (List.range 8).all fun i => !c.maskBit b i)
    ((c.vout.length - 2 + 7) / 8)
  change c.calcMaskSize.1 = 0 ∨ (List.range 8).all (fun i =>
    !c.maskBit (c.calcMaskSize.1 - 1) i) = false at hlast
  intro chAvail hmem
  unfold mask at hmem
  rw [List.getLast?_map] at hmem
  obtain ⟨b, hb, rfl⟩ := Option.mem_map.1 hmem
  rcases hlast with hzero | hlast
  · rw [hzero] at hb
    cases hb
  · intro hbyte
    have hindex : b = c.calcMaskSize.1 - 1 := by
      rw [List.getLast?_range] at hb
      split at hb
      · cases hb
      · exact (Option.some.inj hb).symm
    rw [hindex] at hbyte
    rw [(fZero_iff _).2 hbyte] at hlast
    cases hlast

/-- The availabilities that the mask holds. -/
theorem flatMap_mask (c : CCoins) :
    c.isAvailable 0 :: c.isAvailable 1 :: c.mask.flatMap availBits =
      (List.range (2 + 8 * c.calcMaskSize.1)).map c.isAvailable := by
  unfold mask
  generalize c.calcMaskSize.1 = n
  induction n with
  | zero => rfl
  | succ n ih =>
    have hbits : availBits (packByte (c.maskBit n)) =
        (List.range 8).map fun i => c.isAvailable (2 + 8 * n + i) := by
      rw [(availBits_packByte _).1]
      refine List.map_congr_left fun i _ => ?_
      unfold maskBit
      rw [Nat.mul_comm]
    have hrange : List.range (2 + 8 * (n + 1)) =
        List.range (2 + 8 * n) ++ (List.range 8).map (2 + 8 * n + ·) := by
      rw [Nat.mul_succ, ← Nat.add_assoc, List.range_add]
    rw [List.range_succ, List.map_append, List.flatMap_append, ← List.cons_append,
      ← List.cons_append, ih, List.map_singleton, List.flatMap_singleton, hbits, hrange,
      List.map_append, List.map_map]
    rfl

/-- A cleaned-up record has no output after those of the mask. -/
theorem length_le_mask (h : Trimmed CTxOut.isNull CTxOut.null c.vout) :
    c.vout.length ≤ 2 + 8 * c.calcMaskSize.1 := by
  obtain ⟨-, -, -, hafter⟩ := maskSize_spec (fun b => (List.range 8).all fun i => !c.maskBit b i)
    ((c.vout.length - 2 + 7) / 8)
  change ∀ b < (c.vout.length - 2 + 7) / 8, c.calcMaskSize.1 ≤ b → _ at hafter
  by_contra hlt
  have hne : c.vout ≠ [] := by
    intro hnil
    rw [hnil] at hlt
    exact hlt (Nat.zero_le _)
  have hpos := List.length_pos_iff.2 hne
  -- the byte of the last output
  have hall := hafter ((c.vout.length - 1 - 2) / 8) (by omega) (by omega)
  have hbit := List.all_eq_true.1 hall ((c.vout.length - 1 - 2) % 8)
    (List.mem_range.2 (Nat.mod_lt _ (by decide)))
  have hindex : 2 + (c.vout.length - 1 - 2) / 8 * 8 + (c.vout.length - 1 - 2) % 8 =
      c.vout.length - 1 := by omega
  unfold maskBit isAvailable at hbit
  rw [hindex, ← List.getLast?_eq_getElem?, List.getLast?_eq_some_getLast hne] at hbit
  have htrim := List.rdropWhile_eq_self_iff.1 h.trim hne
  dsimp only at hbit
  rw [Bool.not_not] at hbit
  exact htrim hbit

end CCoins

end IndexChain
