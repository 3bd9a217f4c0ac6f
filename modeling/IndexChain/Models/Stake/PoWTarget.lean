import IndexChain.Models.Stake.KomodoStake
import Mathlib.Tactic.GCongr
import Mathlib.Tactic.NormNum
import Mathlib.Tactic.Ring

/-!
# The work target of a staked chain

`komodo_PoWtarget` of `komodo_bitcoind.h`: the hashes of the mined blocks among the last
hundred are averaged, and the average is moved by the share of the staked ones. A chain that
stakes more than its goal gets a target above the average, and `STAKING_MIN_DIFF` caps it,
not the limit that the caller passes.
-/

namespace IndexChain.Stake

open IndexChain.Core

/-- What the calculation reads of a block. -/
structure PoWBlock where
  /-- `GetBlockHash`. -/
  hash : BitVec 256
  /-- `komodo_segid`, negative for a block that was mined. -/
  segid : Int
  deriving DecidableEq, Repr

/-- What is counted in the loop. -/
structure PoWWindow where
  sum : BitVec 256
  n : Nat
  m : Nat
  percPoS : Nat
  deriving DecidableEq, Repr

/-- One block in the loop. -/
def PoWWindow.count (w : PoWWindow) (pindex : PoWBlock) : PoWWindow :=
  if 0 ≤ pindex.segid then { w with n := w.n + 1, percPoS := w.percPoS + 1 }
  else { w with sum := w.sum + pindex.hash, m := w.m + 1 }

/-- What `komodo_PoWtarget` reads, besides the target and the height. -/
structure PoWChain where
  /-- `ASSETCHAINS_ALGO` is `ASSETCHAINS_VERUSHASH` or `ASSETCHAINS_VERUSHASHV1_1`. -/
  verushash : Bool
  /-- `ASSETCHAINS_STAKED`. -/
  staked : Nat
  /-- `STAKING_MIN_DIFF`. -/
  stakingMinDiff : UInt32
  /-- `goalperc`: a percentage, so that its powers fit 32 bits. -/
  goalperc : Nat
  goalperc_le : goalperc ≤ 100
  /-- `komodo_chainactive`. -/
  chainactive : Int → Option PoWBlock

namespace PoWChain

variable (c : PoWChain)

/-- `easydiff`. -/
def easydiff : BitVec 256 := setCompact c.stakingMinDiff

/-- The block of a height, where the loop counts it. -/
def pindexAt (ht : Int) : Option PoWBlock := if ht ≤ 1 then none else c.chainactive ht

/-- The loop over the hundred blocks before a height. -/
def lookBack (height : Int) : Nat → PoWWindow
  | 0 => { sum := 0, n := 0, m := 0, percPoS := 0 }
  | i + 1 =>
    match c.pindexAt (height - 100 + i) with
    | none => lookBack height i
    | some pindex => (lookBack height i).count pindex

/-- `percPoS` after the loop: for fewer than a hundred blocks it is scaled. -/
def scaledPerc (w : PoWWindow) : Except StakeError Nat :=
  if w.m + w.n < 100 then
    if c.verushash then
      if w.m + w.n = 0 then .error .divisionByZero else .ok (w.percPoS * 100 / (w.m + w.n))
    else .ok ((w.percPoS * w.n + c.goalperc * (100 - w.n)) / 100)
  else .ok w.percPoS

/-- `ave`. -/
def ave (target : BitVec 256) (w : PoWWindow) : BitVec 256 :=
  if 0 < w.m then
    if w.sum / BitVec.ofNat 256 w.m > target then target else w.sum / BitVec.ofNat 256 w.m
  else target

/-- `bnTarget` for less stake than the goal. -/
def lowered (ave : BitVec 256) (percPoS : Nat) : BitVec 256 :=
  ave / BitVec.ofNat 256 (c.goalperc * c.goalperc * c.goalperc * c.goalperc) *
    BitVec.ofNat 256 (percPoS * percPoS)

/-- `bnTarget` between the average and `easydiff`, used where the raised one overflows. -/
def between (ave : BitVec 256) (percPoS : Nat) : BitVec 256 :=
  (ave * BitVec.ofNat 256 c.goalperc + c.easydiff * BitVec.ofNat 256 percPoS) /
    BitVec.ofNat 256 (percPoS + c.goalperc)

/-- `bnTarget` for more stake than the goal. -/
def raised (ave : BitVec 256) (percPoS : Nat) : BitVec 256 :=
  let bnTarget := ave / BitVec.ofNat 256 (c.goalperc * c.goalperc) *
    BitVec.ofNat 256 (percPoS * percPoS * percPoS)
  if bnTarget > c.easydiff then c.easydiff
  else if bnTarget < ave then
    if c.between ave percPoS < ave then ave else c.between ave percPoS
  else bnTarget

/-- `bnTarget`, for a percentage that is not zero. -/
def retarget (ave : BitVec 256) (percPoS : Nat) : Except StakeError (BitVec 256) :=
  if percPoS < c.goalperc then .ok (c.lowered ave percPoS)
  else if c.goalperc < percPoS then
    if c.goalperc = 0 then .error .divisionByZero else .ok (c.raised ave percPoS)
  else .ok ave

/-- `komodo_PoWtarget`, with what it stores at `percPoSp`. -/
def powTarget (target : BitVec 256) (height : Int) : Except StakeError (Nat × BitVec 256) :=
  if height ≤ 10 ∨ (c.staked = 100 ∧ height ≤ 100) then .ok (0, target)
  else do
    let percPoS ← c.scaledPerc (c.lookBack height 100)
    let bnTarget ← c.retarget (ave target (c.lookBack height 100))
      (if percPoS = 0 then 1 else percPoS)
    return (percPoS, bnTarget)

/-! ## The blocks that are looked back at -/

/-- The blocks that the loop has counted. -/
def seen (height : Int) (i : Nat) : List PoWBlock :=
  (List.range i).filterMap fun j : Nat => c.pindexAt (height - 100 + j)

/-- The mined ones. -/
def mined (height : Int) : List PoWBlock :=
  (c.seen height 100).filter fun pindex => !decide (0 ≤ pindex.segid)

/-- The exact sum of their hashes. -/
def minedSum (height : Int) : Nat := ((c.mined height).map fun pindex => pindex.hash.toNat).sum

/-- The exact average of their hashes, no more than the limit. -/
def exactAve (target : BitVec 256) (height : Int) : Nat :=
  if c.mined height = [] then target.toNat
  else min (c.minedSum height / (c.mined height).length) target.toNat

variable {c : PoWChain} {height : Int} {target average : BitVec 256} {percPoS : Nat}

/-- The loop counts the blocks one after the other. -/
theorem lookBack_eq_foldl (i : Nat) : c.lookBack height i =
    (c.seen height i).foldl PoWWindow.count { sum := 0, n := 0, m := 0, percPoS := 0 } := by
  induction i with
  | zero => rfl
  | succ i ih =>
    rw [lookBack, seen, List.range_succ, List.filterMap_append, List.foldl_append, ← seen, ← ih]
    cases hat : c.pindexAt (height - 100 + i) <;> simp [hat]

/-- What any list of blocks adds to the counts. -/
theorem foldl_count (blocks : List PoWBlock) (w : PoWWindow) : blocks.foldl PoWWindow.count w =
    { sum := w.sum + BitVec.ofNat 256 (((blocks.filter fun pindex =>
        !decide (0 ≤ pindex.segid)).map fun pindex => pindex.hash.toNat).sum)
      n := w.n + blocks.countP fun pindex => decide (0 ≤ pindex.segid)
      m := w.m + (blocks.filter fun pindex => !decide (0 ≤ pindex.segid)).length
      percPoS := w.percPoS + blocks.countP fun pindex => decide (0 ≤ pindex.segid) } := by
  induction blocks generalizing w with
  | nil => simp
  | cons pindex blocks ih =>
    rw [List.foldl_cons, ih, PoWWindow.count]
    by_cases hstaked : 0 ≤ pindex.segid
    · simp [hstaked, add_assoc, add_comm 1]
    · simp [hstaked, add_assoc, add_comm 1, BitVec.ofNat_add]

theorem lookBack_sum : (c.lookBack height 100).sum = BitVec.ofNat 256 (c.minedSum height) := by
  rw [lookBack_eq_foldl, foldl_count]
  exact zero_add _

theorem lookBack_m : (c.lookBack height 100).m = (c.mined height).length := by
  rw [lookBack_eq_foldl, foldl_count]
  exact zero_add _

theorem lookBack_percPoS : (c.lookBack height 100).percPoS = (c.lookBack height 100).n := by
  rw [lookBack_eq_foldl, foldl_count]

/-- Every block that is seen is counted once. -/
theorem lookBack_add : (c.lookBack height 100).m + (c.lookBack height 100).n =
    (c.seen height 100).length := by
  have hlen := (c.seen height 100).length_eq_length_filter_add
    fun pindex => decide (0 ≤ pindex.segid)
  rw [lookBack_eq_foldl, foldl_count, List.countP_eq_length_filter, hlen, add_comm]
  simp only [Nat.zero_add]

theorem length_seen_le (i : Nat) : (c.seen height i).length ≤ i :=
  (List.length_filterMap_le _ _).trans_eq List.length_range

/-! ## The average -/

theorem ave_le (target : BitVec 256) (w : PoWWindow) : ave target w ≤ target := by
  rw [ave]
  split
  · split
    · exact BitVec.le_refl _
    · next hle => exact BitVec.not_lt.1 hle
  · exact BitVec.le_refl _

/-- A sum of 256 bits gives the exact average. -/
theorem toNat_ave (hsum : c.minedSum height < 2 ^ 256) :
    (ave target (c.lookBack height 100)).toNat = c.exactAve target height := by
  have hlen : (c.mined height).length ≤ 100 := by
    have hadd : (c.lookBack height 100).m + _ = (c.seen height 100).length := lookBack_add
    have hseen : (c.seen height 100).length ≤ 100 := length_seen_le 100
    rw [lookBack_m] at hadd
    omega
  have hquot : (BitVec.ofNat 256 (c.minedSum height) /
      BitVec.ofNat 256 (c.mined height).length).toNat =
      c.minedSum height / (c.mined height).length := by
    rw [BitVec.toNat_udiv, BitVec.toNat_ofNat, BitVec.toNat_ofNat, Nat.mod_eq_of_lt hsum,
      Nat.mod_eq_of_lt (by omega)]
  rw [ave, exactAve, lookBack_m, lookBack_sum]
  by_cases hmined : c.mined height = []
  · simp [hmined]
  · rw [if_pos (List.length_pos_iff.2 hmined), if_neg hmined, ← hquot]
    split
    · next hgt => exact (Nat.min_eq_right (Nat.le_of_lt hgt)).symm
    · next hle => exact (Nat.min_eq_left (Nat.le_of_not_lt hle)).symm

/-! ## The percentage -/

theorem scaledPerc_le {w : PoWWindow} (hperc : w.percPoS = w.n) (hlen : w.m + w.n ≤ 100)
    (h : c.scaledPerc w = .ok percPoS) : percPoS ≤ 100 := by
  rw [scaledPerc, hperc] at h
  split_ifs at h <;> simp only [Except.ok.injEq] at h <;> subst h
  · exact Nat.div_le_of_le_mul (Nat.mul_le_mul_right 100 (Nat.le_add_left _ _))
  · have hgoal := c.goalperc_le
    apply Nat.div_le_of_le_mul
    calc w.n * w.n + c.goalperc * (100 - w.n) ≤ 100 * w.n + 100 * (100 - w.n) := by gcongr; omega
      _ = 100 * 100 := by omega
  · omega

/-- The percentage divides by the number of blocks on a Verus chain only. -/
theorem scaledPerc_ok {w : PoWWindow} (hblock : c.verushash = true → w.m + w.n ≠ 0) :
    ∃ percPoS, c.scaledPerc w = .ok percPoS := by
  rw [scaledPerc]
  split_ifs with hfew hverus hzero
  · exact absurd hzero (hblock hverus)
  · exact ⟨_, rfl⟩
  · exact ⟨_, rfl⟩
  · exact ⟨_, rfl⟩

/-! ## The new target -/

theorem toNat_ofNat_of_le {n : Nat} (h : n ≤ 2 ^ 255) : (BitVec.ofNat 256 n).toNat = n := by
  rw [BitVec.toNat_ofNat, Nat.mod_eq_of_lt (by omega)]

/-- Less stake than the goal lowers the average. -/
theorem lowered_le (hlt : percPoS < c.goalperc) : c.lowered average percPoS ≤ average := by
  have hgoal := c.goalperc_le
  have hpow : c.goalperc * c.goalperc * c.goalperc * c.goalperc ≤ 100 * 100 * 100 * 100 := by gcongr
  have hperc : percPoS * percPoS ≤ c.goalperc * c.goalperc * c.goalperc * c.goalperc := by
    calc percPoS * percPoS ≤ c.goalperc * c.goalperc * 1 * 1 := by
          rw [mul_one, mul_one]
          gcongr
      _ ≤ c.goalperc * c.goalperc * c.goalperc * c.goalperc := by gcongr <;> omega
  rw [BitVec.le_def, lowered, BitVec.toNat_mul, BitVec.toNat_udiv,
    toNat_ofNat_of_le (by omega), toNat_ofNat_of_le (by omega)]
  calc average.toNat / (c.goalperc * c.goalperc * c.goalperc * c.goalperc) *
        (percPoS * percPoS) % 2 ^ 256
      ≤ average.toNat / (c.goalperc * c.goalperc * c.goalperc * c.goalperc) *
        (percPoS * percPoS) := Nat.mod_le _ _
    _ ≤ average.toNat / (c.goalperc * c.goalperc * c.goalperc * c.goalperc) *
        (c.goalperc * c.goalperc * c.goalperc * c.goalperc) := Nat.mul_le_mul_left _ hperc
    _ ≤ average.toNat := Nat.div_mul_le_self _ _

/-- A weighted average of two targets is no more than the larger, also where it wraps. -/
theorem between_le (hperc : percPoS ≤ 100) (hpos : 0 < percPoS) :
    (c.between average percPoS).toNat ≤ max average.toNat c.easydiff.toNat := by
  have hgoal := c.goalperc_le
  rw [between, BitVec.toNat_udiv, toNat_ofNat_of_le (n := percPoS + c.goalperc) (by omega)]
  apply Nat.div_le_of_le_mul
  rw [BitVec.toNat_add, BitVec.toNat_mul, BitVec.toNat_mul, toNat_ofNat_of_le (by omega),
    toNat_ofNat_of_le (by omega)]
  calc (average.toNat * c.goalperc % 2 ^ 256 + c.easydiff.toNat * percPoS % 2 ^ 256) % 2 ^ 256
      ≤ average.toNat * c.goalperc % 2 ^ 256 + c.easydiff.toNat * percPoS % 2 ^ 256 :=
        Nat.mod_le _ _
    _ ≤ average.toNat * c.goalperc + c.easydiff.toNat * percPoS :=
        Nat.add_le_add (Nat.mod_le _ _) (Nat.mod_le _ _)
    _ ≤ max average.toNat c.easydiff.toNat * c.goalperc +
        max average.toNat c.easydiff.toNat * percPoS := by
        gcongr
        · exact Nat.le_max_left _ _
        · exact Nat.le_max_right _ _
    _ = (percPoS + c.goalperc) * max average.toNat c.easydiff.toNat := by ring

/-- More stake than the goal raises the average up to `easydiff`. -/
theorem raised_le (hperc : percPoS ≤ 100) (hpos : 0 < percPoS) :
    c.raised average percPoS ≤ average ∨ c.raised average percPoS ≤ c.easydiff := by
  have hbetween : (c.between average percPoS).toNat ≤ max average.toNat c.easydiff.toNat :=
    between_le hperc hpos
  simp only [raised, BitVec.le_def, gt_iff_lt, BitVec.lt_def]
  split_ifs <;> omega

theorem retarget_le {bnTarget : BitVec 256} (hperc : percPoS ≤ 100) (hpos : 0 < percPoS)
    (h : c.retarget average percPoS = .ok bnTarget) :
    bnTarget ≤ average ∨ (c.goalperc < percPoS ∧ bnTarget ≤ c.easydiff) := by
  rw [retarget] at h
  split_ifs at h with hless hmore hzero
  · cases h
    exact .inl (lowered_le hless)
  · cases h
    exact (raised_le hperc hpos).imp_right fun hle => ⟨hmore, hle⟩
  · cases h
    exact .inl (BitVec.le_refl _)

theorem retarget_ok (hgoal : c.goalperc ≠ 0) :
    ∃ bnTarget, c.retarget average percPoS = .ok bnTarget := by
  rw [retarget, if_neg hgoal]
  split_ifs <;> exact ⟨_, rfl⟩

/-- What a call past the first blocks returns was computed from the counts. -/
theorem powTarget_eq_ok {r : Nat × BitVec 256} (h : c.powTarget target height = .ok r) :
    r = (0, target) ∨ ∃ average percPoS, average ≤ target ∧ percPoS ≤ 100 ∧
      c.retarget average (if percPoS = 0 then 1 else percPoS) = .ok r.2 ∧ r.1 = percPoS := by
  rw [powTarget] at h
  split at h
  · cases h
    exact .inl rfl
  · obtain ⟨percPoS, hscaled, hrest⟩ := except_bind_eq_ok.1 h
    obtain ⟨bnTarget, hretarget, hpure⟩ := except_bind_eq_ok.1 hrest
    cases hpure
    have hcount : (c.lookBack height 100).m + (c.lookBack height 100).n ≤ 100 :=
      lookBack_add.trans_le (length_seen_le 100)
    exact .inr ⟨_, percPoS, ave_le _ _, scaledPerc_le lookBack_percPoS hcount hscaled, hretarget,
      rfl⟩

/-- The average is exact where the hashes add up to 256 bits, nothing divides by zero where
the chain stakes and has a block in the window, and the new target is no easier than the
limit, or than `STAKING_MIN_DIFF` where more was staked than the goal. -/
theorem powTarget_bounded (c : PoWChain) (target : BitVec 256) (height : Int) :
    (c.minedSum height < 2 ^ 256 →
      (c.lookBack height 100).sum.toNat = c.minedSum height ∧
        (ave target (c.lookBack height 100)).toNat = c.exactAve target height) ∧
    (c.goalperc ≠ 0 → (c.verushash = true → c.seen height 100 ≠ []) →
      ∃ r, c.powTarget target height = .ok r) ∧
    ∀ percPoS bnTarget, c.powTarget target height = .ok (percPoS, bnTarget) →
      bnTarget ≤ target ∨ (c.goalperc < percPoS ∧ bnTarget ≤ c.easydiff) := by
  refine ⟨fun hsum => ⟨?_, toNat_ave hsum⟩, fun hgoal hblock => ?_, fun percPoS bnTarget h => ?_⟩
  · rw [lookBack_sum, BitVec.toNat_ofNat, Nat.mod_eq_of_lt hsum]
  · have hcount : c.verushash = true →
        (c.lookBack height 100).m + (c.lookBack height 100).n ≠ 0 := by
      intro hverus
      rw [lookBack_add]
      exact fun hzero => hblock hverus (List.length_eq_zero_iff.1 hzero)
    obtain ⟨percPoS, hscaled⟩ := scaledPerc_ok hcount
    obtain ⟨bnTarget, hretarget⟩ : ∃ bnTarget, c.retarget (ave target (c.lookBack height 100))
        (if percPoS = 0 then 1 else percPoS) = .ok bnTarget := retarget_ok hgoal
    rw [powTarget]
    split
    · exact ⟨_, rfl⟩
    · exact ⟨(percPoS, bnTarget), by rw [hscaled, except_ok_bind, hretarget]; rfl⟩
  · obtain hearly | ⟨average, perc, hle, hperc, hretarget, hfst⟩ := powTarget_eq_ok h
    · cases hearly
      exact .inl (BitVec.le_refl _)
    · obtain rfl : percPoS = perc := hfst
      have hbound := retarget_le (by split <;> omega) (by split <;> omega) hretarget
      refine hbound.imp (fun h => BitVec.le_trans h hle) fun hmore => ⟨?_, hmore.2⟩
      by_cases hzero : percPoS = 0
      · -- the goal is then zero, and the call divides by it
        rw [if_pos hzero] at hmore hretarget
        rw [retarget, if_neg (by omega), if_pos hmore.1, if_pos (by omega)] at hretarget
        cases hretarget
      · rw [if_neg hzero] at hmore
        exact hmore.1

/-- A chain of 200 equal blocks that wants half of them staked. -/
def uniform (verushash : Bool) (hash : BitVec 256) (segid : Int) : PoWChain where
  verushash := verushash
  staked := 50
  stakingMinDiff := 0x200f0f0f
  goalperc := 50
  goalperc_le := by decide
  chainactive ht := if ht ≤ 200 then some { hash, segid } else none

/-- A window of equal hashes. -/
theorem powTarget_bounded_uniform :
    ((uniform true (BitVec.ofNat 256 (2 ^ 240)) (-1)).lookBack 200 100).sum.toNat =
      (uniform true (BitVec.ofNat 256 (2 ^ 240)) (-1)).minedSum 200 ∧
    ∃ r, (uniform true (BitVec.ofNat 256 (2 ^ 240)) (-1)).powTarget
      (BitVec.ofNat 256 (2 ^ 250)) 200 = .ok r := by
  obtain ⟨hexact, hreturns, -⟩ := powTarget_bounded
    (uniform true (BitVec.ofNat 256 (2 ^ 240)) (-1)) (BitVec.ofNat 256 (2 ^ 250)) 200
  exact ⟨(hexact (by decide +kernel)).1, hreturns (by decide) fun _ => by decide +kernel⟩

/-- Twenty hashes of `STAKING_MIN_DIFF` do not fit 256 bits, a window ahead of the chain has no
block to divide by, and a chain that stakes more than its goal gets an easier target than the
limit. -/
theorem powTarget_fails :
    ((uniform false (BitVec.ofNat 256 (2 ^ 251)) (-1)).lookBack 200 100).sum.toNat ≠
      (uniform false (BitVec.ofNat 256 (2 ^ 251)) (-1)).minedSum 200 ∧
    (uniform true 0 0).powTarget (BitVec.ofNat 256 (2 ^ 250)) 301 = .error .divisionByZero ∧
    ¬∀ percPoS bnTarget,
      (uniform false 0 0).powTarget (BitVec.ofNat 256 (2 ^ 200)) 200 = .ok (percPoS, bnTarget) →
        bnTarget ≤ BitVec.ofNat 256 (2 ^ 200) := by
  refine ⟨by decide +kernel, by decide +kernel, fun h => ?_⟩
  have hraised : (uniform false 0 0).powTarget (BitVec.ofNat 256 (2 ^ 200)) 200 =
      .ok (100, BitVec.ofNat 256 (2 ^ 200 / 2500 * 1000000)) := by
    decide +kernel
  exact absurd (h _ _ hraised) (by decide)

end PoWChain

end IndexChain.Stake
