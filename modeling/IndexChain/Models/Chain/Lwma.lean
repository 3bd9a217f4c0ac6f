import IndexChain.Core.Words
import IndexChain.Models.Stake.KomodoStake
import Mathlib.Algebra.Order.Ring.Abs
import Mathlib.Tactic.GCongr
import Mathlib.Tactic.Positivity
import Mathlib.Tactic.Ring

/-!
# The difficulty of a Verus chain

`lwmaCalculateNextWorkRequired` of `pow.cpp`: the next target is a weighted sum of the times
between blocks, times a sum of their targets. All intermediate results fit their types but
the last product, which passes 256 bits for a long gap at easy targets.
-/

namespace IndexChain.Chain

open IndexChain.Core Stake

/-- `base_uint::bits`. -/
def bits (n : BitVec 256) : Nat := if n = 0 then 0 else n.toNat.log2 + 1

/-- `arith_uint256::GetCompact`, not negative. -/
def getCompact (n : BitVec 256) : UInt32 :=
  let nSize := (bits n + 7) / 8
  let nCompact : UInt32 :=
    if nSize ≤ 3 then UInt32.ofNat (n.toNat <<< (8 * (3 - nSize)))
    else UInt32.ofNat (n.toNat >>> (8 * (nSize - 3)))
  -- the bit of the sign: a smaller mantissa with a larger exponent
  if nCompact &&& 0x00800000 ≠ 0 then (nCompact >>> 8) ||| (UInt32.ofNat (nSize + 1) <<< 24)
  else nCompact ||| (UInt32.ofNat nSize <<< 24)

/-- The parameters of the chain that the calculation reads, small enough for its factors. -/
structure LwmaParams where
  /-- `bnLimit`. -/
  bnLimit : BitVec 256
  /-- `nLwmaAjustedWeight`. -/
  k : Nat
  /-- `nPowAveragingWindow`. -/
  N : Nat
  k_pos : 0 < k
  N_pos : 0 < N
  time_small : N * N * 2 ^ 32 < 2 ^ 63
  factor_small : k * N * N < 2 ^ 63

/-- `ASSETCHAINS_VERUSHASH`. -/
def LwmaParams.verushash : LwmaParams where
  bnLimit := 0x00000f0f0f0f0f0f0f0f0f0f0f0f0f0f0f0f0f0f0f0f0f0f0f0f0f0f0f0f0f0f
  k := 1350
  N := 45
  k_pos := by decide
  N_pos := by decide
  time_small := by decide
  factor_small := by decide

/-- `ASSETCHAINS_VERUSHASHV1_1`. -/
def LwmaParams.verushashV11 : LwmaParams where
  bnLimit := 0x0000000f0f0f0f0f0f0f0f0f0f0f0f0f0f0f0f0f0f0f0f0f0f0f0f0f0f0f0f0f
  k := 1350
  N := 45
  k_pos := by decide
  N_pos := by decide
  time_small := by decide
  factor_small := by decide

/-- What the calculation reads of a block. -/
structure LwmaBlock where
  nTime : UInt32
  nBits : UInt32
  deriving DecidableEq, Repr

namespace LwmaParams

variable (p : LwmaParams)

/-- The loop from a block back, with the next weight below `j`: `t` and `sumTarget`, or none
where the chain is too short. -/
def lwmaLoop : Nat → List LwmaBlock → Int → BitVec 256 → Option (Int × BitVec 256)
  | 0, _, t, sumTarget => some (t, sumTarget)
  | j + 1, pindexNext :: pindexFirst :: rest, t, sumTarget =>
    let solvetime : Int := pindexNext.nTime.toNat - pindexFirst.nTime.toNat
    lwmaLoop j (pindexFirst :: rest) (toInt64 (t + toInt64 (solvetime * j)))
      (sumTarget + setCompact pindexNext.nBits / BitVec.ofNat 256 (p.k * p.N * p.N))
  | _ + 1, _, _, _ => none

/-- `if (t < N * k / 3) t = N * k / 3`. -/
def reasonable (t : Int) : Int := if t < (p.N * p.k / 3 : Nat) then (p.N * p.k / 3 : Nat) else t

/-- `lwmaCalculateNextWorkRequired` for the blocks of a chain, the last one first. -/
def lwmaCalculateNextWorkRequired (blocks : List LwmaBlock) : UInt32 :=
  match p.lwmaLoop p.N blocks 0 0 with
  | none => getCompact p.bnLimit
  | some (t, sumTarget) =>
    let nextTarget := BitVec.ofNat 256 (p.reasonable t).toNat * sumTarget
    getCompact (if nextTarget > p.bnLimit then p.bnLimit else nextTarget)

/-! ## The exact numbers -/

/-- The weighted sum of the times between blocks. -/
def weightedTime : Nat → List LwmaBlock → Int
  | j + 1, pindexNext :: pindexFirst :: rest =>
    ((pindexNext.nTime.toNat : Int) - pindexFirst.nTime.toNat) * j +
      weightedTime j (pindexFirst :: rest)
  | _, _ => 0

/-- The sum of the targets, each divided by the factor. -/
def targetSum : Nat → List LwmaBlock → Nat
  | j + 1, pindexNext :: pindexFirst :: rest =>
    (setCompact pindexNext.nBits).toNat / (p.k * p.N * p.N) + targetSum j (pindexFirst :: rest)
  | _, _ => 0

/-- The weighted time as it enters the product. -/
def exactTime (blocks : List LwmaBlock) : Nat := (p.reasonable (weightedTime p.N blocks)).toNat

/-- The product before the limit is applied. -/
def exactTarget (blocks : List LwmaBlock) : Nat := p.exactTime blocks * p.targetSum p.N blocks

/-- No intermediate result wraps, and the result is the compact form of the exact target or
of the limit. -/
structure Exact (blocks : List LwmaBlock) : Prop where
  sums : p.lwmaLoop p.N blocks 0 0 =
    some (weightedTime p.N blocks, BitVec.ofNat 256 (p.targetSum p.N blocks))
  targets : p.targetSum p.N blocks < 2 ^ 256
  product : (BitVec.ofNat 256 (p.exactTime blocks) *
    BitVec.ofNat 256 (p.targetSum p.N blocks)).toNat = p.exactTarget blocks
  result : p.lwmaCalculateNextWorkRequired blocks =
    getCompact (BitVec.ofNat 256 (min p.bnLimit.toNat (p.exactTarget blocks)))

variable {p} {blocks : List LwmaBlock} {j : Nat} {t : Int} {sumTarget : BitVec 256}

/-- One term of the weighted time. -/
theorem abs_term_le (next first : UInt32) (hj : j ≤ p.N) :
    |((next.toNat : Int) - first.toNat) * j| ≤ p.N * 2 ^ 32 := by
  have hnext := next.toNat_lt
  have hfirst := first.toNat_lt
  have hgap : |(next.toNat : Int) - first.toNat| ≤ 2 ^ 32 := abs_le.2 ⟨by omega, by omega⟩
  calc |((next.toNat : Int) - first.toNat) * j|
      = j * |(next.toNat : Int) - first.toNat| := by rw [abs_mul, Nat.abs_cast, mul_comm]
    _ ≤ p.N * 2 ^ 32 := by gcongr

/-- The target of a block, divided by the factor. -/
theorem ofNat_target (target : BitVec 256) : target / BitVec.ofNat 256 (p.k * p.N * p.N) =
    BitVec.ofNat 256 (target.toNat / (p.k * p.N * p.N)) := by
  apply BitVec.eq_of_toNat_eq
  have hfactor := p.factor_small
  have hdiv := Nat.div_le_self target.toNat (p.k * p.N * p.N)
  rw [BitVec.toNat_udiv, BitVec.toNat_ofNat, BitVec.toNat_ofNat,
    Nat.mod_eq_of_lt (by omega : p.k * p.N * p.N < 2 ^ 256),
    Nat.mod_eq_of_lt (hdiv.trans_lt target.isLt)]

/-- The loop adds up the exact time, and the targets in 256 bits. -/
theorem lwmaLoop_eq (hj : j ≤ p.N) (hlen : j < blocks.length)
    (hroom : |t| + j * (p.N * 2 ^ 32) < 2 ^ 63) :
    p.lwmaLoop j blocks t sumTarget =
      some (t + weightedTime j blocks, sumTarget + BitVec.ofNat 256 (p.targetSum j blocks)) := by
  induction j generalizing blocks t sumTarget with
  | zero => simp [lwmaLoop, weightedTime, targetSum]
  | succ j ih =>
    match blocks, hlen with
    | next :: first :: rest, hlen =>
      have hterm := abs_term_le (p := p) next.nTime first.nTime (Nat.le_of_succ_le hj)
      obtain ⟨hlow, hhigh⟩ := abs_le.1 hterm
      obtain ⟨htlow, hthigh⟩ := abs_le.1 (le_refl |t|)
      have hnonneg : (0 : Int) ≤ j * (p.N * 2 ^ 32) := by positivity
      rw [Nat.cast_succ, add_one_mul] at hroom
      have hprod : toInt64 (((next.nTime.toNat : Int) - first.nTime.toNat) * j) =
          ((next.nTime.toNat : Int) - first.nTime.toNat) * j :=
        toInt64_of_range (by omega) (by omega)
      have hsum : toInt64 (t + ((next.nTime.toNat : Int) - first.nTime.toNat) * j) =
          t + ((next.nTime.toNat : Int) - first.nTime.toNat) * j :=
        toInt64_of_range (by omega) (by omega)
      have habs := abs_add_le t (((next.nTime.toNat : Int) - first.nTime.toNat) * j)
      rw [lwmaLoop, hprod, hsum, ofNat_target, ih (Nat.le_of_succ_le hj) (by simpa using hlen)
        (by omega),
        weightedTime, targetSum, add_assoc, BitVec.ofNat_add, add_assoc]

/-- Targets below the limit add up to no more than the limit. -/
theorem targetSum_le (hbits : ∀ b ∈ blocks.take j, setCompact b.nBits ≤ p.bnLimit) :
    p.targetSum j blocks ≤ j * (p.bnLimit.toNat / (p.k * p.N * p.N)) := by
  induction j generalizing blocks with
  | zero => simp [targetSum]
  | succ j ih =>
    match blocks with
    | [] | [_] => simp [targetSum]
    | next :: first :: rest =>
      rw [List.take_succ_cons, List.forall_mem_cons] at hbits
      have hrest := ih hbits.2
      have hfirst : (setCompact next.nBits).toNat / (p.k * p.N * p.N) ≤
          p.bnLimit.toNat / (p.k * p.N * p.N) := Nat.div_le_div_right hbits.1
      rw [targetSum, add_one_mul]
      omega

theorem targetSum_lt (hbits : ∀ b ∈ blocks.take p.N, setCompact b.nBits ≤ p.bnLimit) :
    p.targetSum p.N blocks < 2 ^ 256 := by
  have hfactor : p.N ≤ p.k * p.N * p.N := by
    calc p.N = 1 * 1 * p.N := by ring
      _ ≤ p.k * p.N * p.N := by
        have hk := p.k_pos
        have hN := p.N_pos
        gcongr <;> omega
  calc p.targetSum p.N blocks ≤ p.N * (p.bnLimit.toNat / (p.k * p.N * p.N)) := targetSum_le hbits
    _ ≤ p.k * p.N * p.N * (p.bnLimit.toNat / (p.k * p.N * p.N)) := Nat.mul_le_mul_right _ hfactor
    _ ≤ p.bnLimit.toNat := Nat.mul_div_le _ _
    _ < 2 ^ 256 := p.bnLimit.isLt

/-- The two sums are exact. -/
theorem sums_eq (henough : p.N < blocks.length) : p.lwmaLoop p.N blocks 0 0 =
    some (weightedTime p.N blocks, BitVec.ofNat 256 (p.targetSum p.N blocks)) := by
  have hroom : |(0 : Int)| + p.N * (p.N * 2 ^ 32) < 2 ^ 63 := by
    have hsmall := p.time_small
    rw [abs_zero, zero_add, ← mul_assoc]
    exact_mod_cast hsmall
  rw [lwmaLoop_eq le_rfl henough hroom]
  simp

/-- The next target is the exact one, and nothing wraps on the way, exactly where the exact
product fits 256 bits. -/
theorem nextTarget_exact_iff (p : LwmaParams) (blocks : List LwmaBlock)
    (henough : p.N < blocks.length)
    (hbits : ∀ b ∈ blocks.take p.N, setCompact b.nBits ≤ p.bnLimit) :
    p.Exact blocks ↔ p.exactTarget blocks < 2 ^ 256 := by
  constructor
  · intro h
    rw [← h.product]
    exact BitVec.isLt _
  · intro hlt
    have hsum := targetSum_lt hbits
    have hproduct : (BitVec.ofNat 256 (p.exactTime blocks) *
        BitVec.ofNat 256 (p.targetSum p.N blocks)).toNat = p.exactTarget blocks := by
      rw [← BitVec.ofNat_mul, BitVec.toNat_ofNat, ← exactTarget, Nat.mod_eq_of_lt hlt]
    refine ⟨sums_eq henough, hsum, hproduct, ?_⟩
    rw [lwmaCalculateNextWorkRequired, sums_eq henough]
    change getCompact (if BitVec.ofNat 256 (p.exactTime blocks) *
      BitVec.ofNat 256 (p.targetSum p.N blocks) > p.bnLimit then _ else _) = _
    congr 1
    apply BitVec.eq_of_toNat_eq
    rw [BitVec.toNat_ofNat, Nat.mod_eq_of_lt (by omega)]
    split
    · next hgt =>
      have hgt' : p.bnLimit.toNat < p.exactTarget blocks := hproduct ▸ hgt
      omega
    · next hle =>
      have hle' : ¬p.bnLimit.toNat < p.exactTarget blocks := hproduct ▸ hle
      exact hproduct.trans (Nat.min_eq_right (by omega)).symm

theorem weightedTime_le (hj : j ≤ p.N) (blocks : List LwmaBlock) :
    weightedTime j blocks ≤ j * (p.N * 2 ^ 32) := by
  induction j generalizing blocks with
  | zero => simp [weightedTime]
  | succ j ih =>
    match blocks with
    | [] | [_] =>
      simp only [weightedTime]
      positivity
    | next :: first :: rest =>
      have hrest := ih (Nat.le_of_succ_le hj) (first :: rest)
      have hterm :=
        (abs_le.1 (abs_term_le (p := p) next.nTime first.nTime (Nat.le_of_succ_le hj))).2
      rw [weightedTime, Nat.cast_succ, add_one_mul]
      omega

/-- The lower limit of `ASSETCHAINS_VERUSHASHV1_1` leaves room for every gap. -/
theorem verushashV11_exact (henough : verushashV11.N < blocks.length)
    (hbits : ∀ b ∈ blocks.take verushashV11.N, setCompact b.nBits ≤ verushashV11.bnLimit) :
    verushashV11.Exact blocks := by
  have htime : verushashV11.exactTime blocks ≤ 45 * (45 * 2 ^ 32) := by
    have hweighted : weightedTime 45 blocks ≤ 45 * (45 * 2 ^ 32) :=
      weightedTime_le (p := verushashV11) le_rfl blocks
    change (if weightedTime 45 blocks < (45 * 1350 / 3 : Nat) then ((45 * 1350 / 3 : Nat) : Int)
      else weightedTime 45 blocks).toNat ≤ _
    split <;> omega
  have htargets : verushashV11.targetSum verushashV11.N blocks ≤ 2 ^ 213 :=
    (targetSum_le hbits).trans (by decide)
  apply (nextTarget_exact_iff verushashV11 blocks henough hbits).2
  calc verushashV11.exactTarget blocks ≤ 45 * (45 * 2 ^ 32) * 2 ^ 213 :=
          Nat.mul_le_mul htime htargets
    _ < 2 ^ 256 := by decide

/-- Blocks at the limit, a minute apart. -/
def evenBlocks : List LwmaBlock :=
  (List.range 46).map fun i => { nTime := UInt32.ofNat (1600000000 - 60 * i), nBits := 0x1e0f0f0f }

/-- Blocks at even times. -/
theorem evenBlocks_exact : verushash.Exact evenBlocks :=
  (nextTarget_exact_iff verushash evenBlocks (by decide +kernel) (by decide +kernel)).2
    (by decide +kernel)

/-- The last block comes 48 years after the others. -/
def longGap : List LwmaBlock :=
  { nTime := 3138234296, nBits := 0x1e0f0f0f } ::
    (List.replicate 43 { nTime := 1600000023, nBits := 0x1e0f0f0f } ++
      List.replicate 2 { nTime := 1600000000, nBits := 0x1e0f0f0f })

/-- The product wraps after a long gap, and the next target is not the limit. -/
theorem longGap_wraps : ¬∀ (p : LwmaParams) (blocks : List LwmaBlock), p.N < blocks.length →
    (∀ b ∈ blocks.take p.N, setCompact b.nBits ≤ p.bnLimit) → p.Exact blocks := by
  intro h
  have hexact := h verushash longGap (by decide +kernel) (by decide +kernel)
  have hwrong : verushash.lwmaCalculateNextWorkRequired longGap ≠
      getCompact (BitVec.ofNat 256
        (min verushash.bnLimit.toNat (verushash.exactTarget longGap))) := by
    decide +kernel
  exact hwrong hexact.result

end LwmaParams

end IndexChain.Chain
