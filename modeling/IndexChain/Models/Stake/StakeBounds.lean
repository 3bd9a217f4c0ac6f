import IndexChain.Models.Stake.StakeAges
import Mathlib.Tactic.Ring

/-!
# When coin ages agree

On a chain without the Verus hash the validator's coin age is at least the staker's when the
output has its minimum age at the start, thirty days are not reached within the seconds that
are tried, and no word overflows (`kept`). `stake_accepted_iff` is the general
statement, and the samples are an output that reaches its minimum age only with the segment,
and one that is old enough.
-/

namespace IndexChain.Stake

open IndexChain.Core

namespace StakeKernel

variable {k : StakeKernel}

/-! ## Coin ages without overflow -/

/-- An output that is old enough at the start, far from the cap, without overflow. -/
structure Unhurried (k : StakeKernel) (start : UInt32) : Prop where
  /-- Not one of the first heights. -/
  height : ¬ k.nHeight < 10
  /-- Not a chain with the Verus hash. -/
  verushash : k.verushash = false
  /-- The seconds are 32-bit words. -/
  start_lt : start.toNat + 1000 < 2 ^ 32
  /-- So are those of the block before. -/
  prevtime_lt : k.prevtime.toNat + 480 < 2 ^ 32
  /-- So is the time at which the output is old enough. -/
  txtime_lt : k.txtime.toNat + k.minage.toUInt32.toNat < 2 ^ 32
  /-- The output is old enough at the start. -/
  old : k.txtime.toNat + k.minage.toUInt32.toNat ≤ start.toNat
  /-- The cap is not reached, or there is nothing to add to it. -/
  cap : k.segid = 0 ∨
    start.toNat + maxIter + 2 * k.segid.toNat ≤
      k.txtime.toNat + k.minage.toUInt32.toNat + 3600 * 24 * 30
  /-- The coin age is a 64-bit word. -/
  value_lt : k.value.toNat / satoshiden.toNat * (3600 * 24 * 30 + 126) *
    (start.toNat + 1000 - k.prevtime.toNat + 1) + 1 < 2 ^ 64
  /-- The target is not too small for the coin age at the start. -/
  ratio_le : k.ratio.toNat ≤ k.value.toNat / satoshiden.toNat *
    min (start.toNat - k.txtime.toNat - k.minage.toUInt32.toNat) (3600 * 24 * 30) + 1

theorem segid_lt (k : StakeKernel) : k.segid.toNat < 64 := by
  unfold segid
  rw [UInt32.toNat_and]
  exact Nat.and_lt_two_pow _ (by decide : (0x3f : UInt32).toNat < 2 ^ 6)

/-- The seconds that are tried. -/
theorem candidateTime_toNat {blocktime : UInt32} {iter : Nat}
    (h : blocktime.toNat + iter + 2 * k.segid.toNat < 2 ^ 32) :
    (k.candidateTime blocktime iter).toNat = blocktime.toNat + iter + 2 * k.segid.toNat := by
  have hiter : (UInt32.ofNat iter).toNat = iter := UInt32.toNat_ofNat_of_lt' (by
    change iter < 2 ^ 32
    omega)
  unfold candidateTime
  rw [UInt32.toNat_add, UInt32.toNat_add, UInt32.toNat_mul, hiter]
  change ((blocktime.toNat + iter) % 2 ^ 32 + k.segid.toNat * 2 % 2 ^ 32) % 2 ^ 32 = _
  omega

/-- The age test. -/
theorem passes_of_le {blocktime : UInt32} {iter : Nat}
    (htime : blocktime.toNat + iter + 2 * k.segid.toNat < 2 ^ 32)
    (hage : k.txtime.toNat + k.minage.toUInt32.toNat < 2 ^ 32)
    (hle : k.txtime.toNat + k.minage.toUInt32.toNat ≤ blocktime.toNat + iter +
      2 * k.segid.toNat) : k.passes blocktime iter = true := by
  unfold passes
  rw [Bool.not_eq_true', decide_eq_false_iff_not, UInt32.lt_iff_toNat_lt,
    candidateTime_toNat htime, UInt32.toNat_add, Nat.mod_eq_of_lt hage]
  omega

/-- The age in seconds. -/
theorem diff_eq {blocktime : UInt32} {iter : Nat} (hverus : k.verushash = false)
    (htime : blocktime.toNat + iter < 2 ^ 32)
    (hle : k.txtime.toNat + k.minage.toUInt32.toNat ≤ blocktime.toNat) :
    (k.diff blocktime iter).toNat =
      min (blocktime.toNat + iter - k.txtime.toNat - k.minage.toUInt32.toNat) (3600 * 24 * 30) +
        if 0 < iter then 2 * k.segid.toNat else 0 := by
  have hiter : (UInt32.ofNat iter).toNat = iter := UInt32.toNat_ofNat_of_lt' (by
    change iter < 2 ^ 32
    omega)
  have hword : (UInt32.ofNat iter + blocktime - k.txtime - k.minage.toUInt32).toNat =
      blocktime.toNat + iter - k.txtime.toNat - k.minage.toUInt32.toNat := by
    rw [UInt32.toNat_sub, UInt32.toNat_sub, UInt32.toNat_add, hiter]
    omega
  unfold diff
  dsimp only
  rw [hverus, hword, Bool.false_and, if_neg Bool.false_ne_true]
  unfold maxAge
  generalize blocktime.toNat + iter - k.txtime.toNat - k.minage.toUInt32.toNat = d
  split <;> split <;> (try split) <;> omega

/-- What the age in seconds is multiplied with, by the time since the block before. -/
def delay (k : StakeKernel) (time : Nat) : Nat :=
  if k.prevtime.toNat + 480 < time then time - (k.prevtime.toNat + 400) else 1

theorem delay_mono {time time' : Nat} (h : time ≤ time') : k.delay time ≤ k.delay time' := by
  unfold delay
  split <;> split <;> omega

theorem delay_le {time bound : Nat} (h : time ≤ bound) :
    k.delay time ≤ bound - k.prevtime.toNat + 1 := by
  unfold delay
  split <;> omega

theorem one_le_delay (time : Nat) : 1 ≤ k.delay time := by
  unfold delay
  split <;> omega

/-- The coin age. -/
theorem coinage_toNat {blocktime : UInt32} {iter : Nat} (hverus : k.verushash = false)
    (hprev : k.prevtime.toNat + 480 < 2 ^ 32)
    (htime : blocktime.toNat + iter + 2 * k.segid.toNat < 2 ^ 32)
    (hfits : k.value.toNat / satoshiden.toNat * (k.diff blocktime iter).toNat *
      k.delay (blocktime.toNat + iter + 2 * k.segid.toNat) < 2 ^ 64) :
    (k.coinage blocktime iter).toNat =
      k.value.toNat / satoshiden.toNat * (k.diff blocktime iter).toNat *
        k.delay (blocktime.toNat + iter + 2 * k.segid.toNat) := by
  have hword := candidateTime_toNat htime
  have hlate : k.prevtime + 480 < k.candidateTime blocktime iter ↔
      k.prevtime.toNat + 480 < blocktime.toNat + iter + 2 * k.segid.toNat := by
    rw [UInt32.lt_iff_toNat_lt, UInt32.toNat_add, hword]
    change (k.prevtime.toNat + 480) % 2 ^ 32 < _ ↔ _
    rw [Nat.mod_eq_of_lt hprev]
  have hsince : k.prevtime.toNat + 480 < blocktime.toNat + iter + 2 * k.segid.toNat →
      (k.candidateTime blocktime iter - (k.prevtime + 400)).toUInt64.toNat =
        blocktime.toNat + iter + 2 * k.segid.toNat - (k.prevtime.toNat + 400) := by
    intro hlt
    have h400 : (k.prevtime + 400).toNat = k.prevtime.toNat + 400 := by
      rw [UInt32.toNat_add]
      change (k.prevtime.toNat + 400) % 2 ^ 32 = _
      omega
    rw [UInt32.toNat_toUInt64, UInt32.toNat_sub_of_le _ _ (UInt32.le_iff_toNat_le.2 (by omega)),
      hword, h400]
  have hseconds : (UInt64.ofNat (k.diff blocktime iter).toNat).toNat =
      (k.diff blocktime iter).toNat % 2 ^ 64 := UInt64.toNat_ofNat'
  unfold coinage
  dsimp only
  rw [hverus, Bool.false_and, Bool.false_and, if_neg Bool.false_ne_true]
  unfold delay at hfits ⊢
  split
  · rename_i hlt
    rw [if_pos (hlate.1 hlt)] at hfits ⊢
    rw [UInt64.toNat_mul, UInt64.toNat_mul, hsince (hlate.1 hlt), hseconds, UInt64.toNat_div,
      Nat.mul_mod_mod, Nat.mod_mul_mod, Nat.mod_eq_of_lt hfits]
  · rename_i hge
    rw [if_neg (fun hlt => hge (hlate.2 hlt)), Nat.mul_one] at hfits ⊢
    rw [UInt64.toNat_mul, hseconds, UInt64.toNat_div, Nat.mul_mod_mod, Nat.mod_eq_of_lt hfits]

theorem succ_ne_zero {age : UInt64} (h : age.toNat + 1 < 2 ^ 64) : age + 1 ≠ 0 := by
  intro hzero
  have hsum := congrArg UInt64.toNat hzero
  rw [UInt64.toNat_add] at hsum
  change (age.toNat + 1) % 2 ^ 64 = 0 at hsum
  omega

/-- A second that is tried, and the one after it. -/
theorem time_lt (k : StakeKernel) (start : UInt32) {iter : Nat} (hiter : iter < maxIter) :
    start.toNat + iter + 4 * k.segid.toNat < start.toNat + 1000 := by
  have hsegid := segid_lt k
  unfold maxIter at hiter
  omega

namespace Unhurried

variable {start : UInt32} (h : k.Unhurried start)

include h

theorem candidate_toNat {iter : Nat} (hiter : iter < maxIter) :
    (k.candidateTime start iter).toNat = start.toNat + iter + 2 * k.segid.toNat := by
  have hlt := time_lt k start hiter
  have hstart := h.start_lt
  exact candidateTime_toNat (by omega)

/-- A validator sees the output old enough at once. -/
theorem validatorAge_eq {iter : Nat} (hiter : iter < maxIter) :
    k.validatorAge (k.candidateTime start iter) =
      some (k.coinage (k.candidateTime start iter) 0) := by
  have hlt := time_lt k start hiter
  have hstart := h.start_lt
  have hold := h.old
  have htime := h.candidate_toNat hiter
  have hpasses : k.passes (k.candidateTime start iter) 0 = true :=
    passes_of_le (by omega) h.txtime_lt (by omega)
  have hrange : List.range maxIter = 0 :: (List.range 599).map Nat.succ :=
    List.range_succ_eq_map
  unfold validatorAge
  rw [hrange, List.find?_cons_of_pos hpasses, Option.map_some]

/-- The product of three factors within the bounds is a word. -/
theorem product_lt {d : Nat} {time : Nat} (hd : d ≤ 3600 * 24 * 30 + 126)
    (htime : time ≤ start.toNat + 1000) :
    k.value.toNat / satoshiden.toNat * d * k.delay time + 1 < 2 ^ 64 :=
  calc
    k.value.toNat / satoshiden.toNat * d * k.delay time + 1 ≤
        k.value.toNat / satoshiden.toNat * (3600 * 24 * 30 + 126) *
          (start.toNat + 1000 - k.prevtime.toNat + 1) + 1 :=
      Nat.succ_le_succ (Nat.mul_le_mul (Nat.mul_le_mul_left _ hd) (delay_le htime))
    _ < 2 ^ 64 := h.value_lt

/-- The coin ages of a staker and of a validator at a second that is tried. -/
theorem ages {iter : Nat} (hiter : iter < maxIter) :
    k.coinage start iter ≤ k.coinage (k.candidateTime start iter) 0 ∧
      (k.coinage (k.candidateTime start iter) 0).toNat + 1 < 2 ^ 64 ∧
      k.ratio.toNat ≤ (k.coinage start iter).toNat + 1 := by
  have hlt := time_lt k start hiter
  have hstart := h.start_lt
  have hold := h.old
  have hcap := h.cap
  have hprev := h.prevtime_lt
  have hsegid := segid_lt k
  have htime := h.candidate_toNat hiter
  generalize hfound : k.candidateTime start iter = found at htime ⊢
  -- the ages in seconds
  have hmined : (k.diff start iter).toNat = _ := diff_eq h.verushash (by omega) h.old
  have hvalidated : (k.diff found 0).toNat = _ := diff_eq h.verushash (by omega) (by omega)
  rw [if_neg (Nat.lt_irrefl 0)] at hvalidated
  have hseconds : (k.diff start iter).toNat ≤ (k.diff found 0).toNat := by
    rw [hmined, hvalidated, htime]
    unfold maxIter at hcap hiter
    rcases hcap with hzero | hfar
    · rw [hzero]
      simp
    · split <;> omega
  have hmined_le : (k.diff start iter).toNat ≤ 3600 * 24 * 30 + 126 := by
    rw [hmined]
    split <;> omega
  have hvalidated_le : (k.diff found 0).toNat ≤ 3600 * 24 * 30 + 126 := by omega
  have hmined_ge : min (start.toNat - k.txtime.toNat - k.minage.toUInt32.toNat) (3600 * 24 * 30) ≤
      (k.diff start iter).toNat := by
    rw [hmined]
    split <;> omega
  -- the coin ages
  have hcoinage : (k.coinage start iter).toNat = _ := coinage_toNat h.verushash hprev (by omega)
    (Nat.lt_of_succ_lt (h.product_lt hmined_le (by omega)))
  have hage : (k.coinage found 0).toNat = _ := coinage_toNat h.verushash hprev (by omega)
    (Nat.lt_of_succ_lt (h.product_lt hvalidated_le (by omega)))
  refine ⟨?_, ?_, ?_⟩
  · rw [UInt64.le_iff_toNat_le, hcoinage, hage]
    exact Nat.mul_le_mul (Nat.mul_le_mul_left _ hseconds) (delay_mono (by omega))
  · rw [hage]
    exact h.product_lt hvalidated_le (by omega)
  · rw [hcoinage]
    refine h.ratio_le.trans (Nat.succ_le_succ ?_)
    exact (Nat.mul_le_mul_left _ hmined_ge).trans (Nat.le_mul_of_pos_right _ (one_le_delay _))

/-- Where the output is old enough from the start and the cap is far, the ages are covered. -/
theorem kept : k.Kept start := by
  unfold Kept
  rw [if_neg h.height]
  intro iter hiter _
  obtain ⟨hle, hage, hratio⟩ := h.ages hiter
  exact ⟨_, h.validatorAge_eq hiter, hle, succ_ne_zero hage, hash_fits hratio⟩

/-- There, and with a target that is not zero and at most the minimum difficulty, nothing
overflows for any hash. -/
theorem regular (hstakes : k.isNull start = false) (htarget : k.bnTarget ≠ 0)
    (hratio : 0 < k.ratio.toNat) : k.Regular start where
  height := h.height
  stakes := hstakes
  target := htarget
  ratio_pos := hratio
  mined iter hiter _ := by
    obtain ⟨hle, hage, hfits⟩ := h.ages hiter
    have hle' := UInt64.le_iff_toNat_le.1 hle
    refine ⟨fun hzero => ?_, succ_ne_zero (by omega), hfits⟩
    have htime := h.candidate_toNat hiter
    rw [hzero] at htime
    have hstart : start = 0 := UInt32.toNat_inj.1 (by
      change 0 = _ at htime
      change start.toNat = 0
      omega)
    rw [hstart] at hstakes
    simp [isNull] at hstakes
  validated iter hiter _ age hage := by
    obtain ⟨hle, hlt, hfits⟩ := h.ages hiter
    obtain rfl := Option.some.inj ((h.validatorAge_eq hiter).symm.trans hage)
    have hle' := UInt64.le_iff_toNat_le.1 hle
    exact ⟨succ_ne_zero hlt, by omega⟩

end Unhurried

/-! ## The two sides of `komodo_stake` -/

variable (k)

/-- When a validator accepts what a staker finds: it does where the coin ages are covered, and
where no division fails or overflows it does for every hash exactly when the ages are kept. -/
theorem stake_accepted_iff (candidate : UInt32) :
    (k.Kept (k.startTime candidate) → k.Accepted candidate) ∧
      (k.Regular (k.startTime candidate) →
        ((∀ hash, ({ k with hash := hash } : StakeKernel).Accepted candidate) ↔
          k.AgesKept (k.startTime candidate))) := by
  refine ⟨k.accepted_of_kept, fun hreg => ⟨agesKept_of_accepted hreg, fun hkept hash => ?_⟩⟩
  have hreg' : ({ k with hash := hash } : StakeKernel).Regular
      (({ k with hash := hash } : StakeKernel).startTime candidate) :=
    ⟨hreg.height, hreg.stakes, hreg.target, hreg.ratio_pos, hreg.mined, hreg.validated⟩
  exact accepted_of_agesKept hreg' hkept

end StakeKernel

namespace StakeSample

/-- An output of one coin at height 100, with segment 10. -/
def kernel (txtime : UInt32) (factor : Nat) : StakeKernel where
  verushash := false
  staked := 0
  stakingMinDiff := 0x1e00ffff
  bnTarget := setCompact 0x1e00ffff
  nHeight := 100
  value := 100000000
  txtime := txtime
  hash := setCompact 0x1e00ffff * BitVec.ofNat 256 factor
  segid32 := 38
  prevtime := 1000000000
  PoSperc := 0
  adjustedTime := 0
  adjustedTime' := 0

/-- An output that is old enough for hours. -/
def settled : StakeKernel := kernel 999990000 5000

/-- An output that reaches its minimum age with the segment, but not without it. -/
def restless : StakeKernel := kernel 999999718 1000

theorem settled_unhurried : settled.Unhurried (settled.startTime 0) := by
  constructor <;> decide

/-- A staker mints with the old output, and the validator accepts. -/
theorem stake_settled :
    (∃ verdict, settled.stake true 1000000023 = .ok verdict ∧ verdict ≠ 0) ∧
      ((∀ hash, ({ settled with hash := hash } : StakeKernel).Accepted 0) ↔
        settled.AgesKept (settled.startTime 0)) :=
  ⟨(StakeKernel.stake_accepted_iff settled 0).1 settled_unhurried.kept 1000000023
      (by decide +kernel) (by decide),
    (StakeKernel.stake_accepted_iff settled 0).2
      (settled_unhurried.regular (by decide) (by decide) (by decide))⟩

/-- A staker mints with the young output at the cap of the age, and the validator, which sees
an age of no seconds, refuses. -/
theorem stake_restless :
    restless.stake false 0 = .ok 1000000023 ∧ restless.stake true 1000000023 = .ok 0 ∧
      ¬ restless.Accepted 0 := by
  have hmined : restless.stake false 0 = .ok 1000000023 := by decide +kernel
  have hrefused : restless.stake true 1000000023 = .ok 0 := by decide +kernel
  refine ⟨hmined, hrefused, fun h => ?_⟩
  obtain ⟨verdict, hverdict, hne⟩ := h 1000000023 hmined (by decide)
  rw [hrefused] at hverdict
  exact hne (Except.ok.inj hverdict).symm

end StakeSample

end IndexChain.Stake
