import IndexChain.Models.Supply.Eras

/-!
# The block subsidy

`komodo_ac_block_subsidy` finds the era of a height and changes its reward by the completed
halving periods, in 64-bit registers. The decayed reward of the last call is kept in static
variables, under the era and the number of periods. These determine it, so what was asked before
makes no difference (`subsidy_of_coherent`), and the result is the scheduled reward wherever the
registers hold the products (`block_subsidy_exact`).
-/

namespace IndexChain.Supply

open IndexChain.Core

/-- The static variables of `komodo_ac_block_subsidy`. -/
structure SubsidyCache where
  cachedSubsidy : Int
  cachedNumhalvings : Int
  cachedEra : Nat

/-- Static variables start at zero. -/
def SubsidyCache.zero : SubsidyCache := ⟨0, 0, 0⟩

/-- The loop that decays the reward. It stops when nothing is left. -/
def decayLoop (decay : UInt64) : Nat → Int → Int
  | 0, subsidy => subsidy
  | n + 1, subsidy =>
    if subsidy ≠ 0 then
      decayLoop decay n (toInt64 (toUint64 (subsidy * decay.toNat) / 100000000))
    else subsidy

namespace EraAt

variable (p : EraAt)

/-- `numhalvings`. -/
def numhalvings (nHeight : Int) : Int :=
  toInt32 (toUint64 (nHeight - p.nStart) / p.era.halving.toNat)

/-- The branch of a linear era. -/
def linearSubsidy (nHeight : Int) (subsidy : Int) : Int :=
  let subsidyDifference := match p.next with
    | none => subsidy
    | some e => toInt64 (subsidy - e.reward.toNat)
  let sign : Int := if p.next.isSome ∧ subsidyDifference < 0 then -1 else 1
  let subsidyDifference := toInt64 (subsidyDifference * sign)
  let denominator := toInt64 (p.era.endsubsidy.toNat - p.nStart)
  let numerator := toInt64 (denominator - (p.era.endsubsidy.toNat - nHeight +
    toUint64 (nHeight - p.nStart) % p.era.halving.toNat))
  toInt64 (subsidy - sign * (toInt64 (subsidyDifference * numerator)).tdiv denominator)

/-- The reward of an era, with the static variables. -/
def subsidy (cache : SubsidyCache) (nHeight : Int) : Int × SubsidyCache :=
  let subsidy := toInt64 p.era.reward.toNat
  let numhalvings := p.numhalvings nHeight
  if subsidy ≠ 0 ∨ (p.next.elim 0 Era.reward) ≠ 0 then
    if p.era.halving ≠ 0 ∧ 0 < numhalvings then
      if p.era.decay = 0 then
        -- the processor takes the count of a shift modulo 64
        (subsidy >>> (numhalvings.toNat % 64), cache)
      else if p.Linear then (p.linearSubsidy nHeight subsidy, cache)
      else if 0 < cache.cachedSubsidy ∧ cache.cachedEra = p.curEra ∧
          cache.cachedNumhalvings = numhalvings then
        (toInt64 cache.cachedSubsidy, cache)
      else
        let subsidy := decayLoop p.era.decay numhalvings.toNat subsidy
        (subsidy, ⟨toUint64 subsidy, numhalvings, p.curEra⟩)
    else (subsidy, cache)
  else (subsidy, cache)

end EraAt

namespace RewardConfig

variable (cfg : RewardConfig)

/-- `subsidy` before the instalments. -/
def baseSubsidy (cache : SubsidyCache) (nHeight : Int) : Int × SubsidyCache :=
  if cfg.Older then (10000, cache)
  else
    match cfg.eraAt nHeight with
    | none => (0, cache)
    | some p => p.subsidy cache nHeight

/-- `magicExtra`. -/
def magicExtra : UInt32 :=
  if cfg.assetchainsStaked ≠ 0 then cfg.magic else cfg.magic &&& 0xffffff

/-- What is returned for `subsidy`: instalments of a large supply, or the whole of it at the first
height. -/
def withSupply (nHeight subsidy : Int) : Int :=
  let supply := cfg.supply.toNat
  if 10000000000 < supply then
    if toUint64 nHeight ≤ supply / 1000000000 then
      let subsidy := subsidy + 1000000000 * 100000000
      if nHeight = 1 then
        toUint64 (subsidy + (supply % 1000000000 * 100000000 + cfg.magicExtra.toNat))
      else toUint64 subsidy
    else toUint64 subsidy
  else if nHeight = 1 then
    if cfg.later = [] then toUint64 (supply * 100000000 + cfg.magicExtra.toNat)
    else toUint64 (subsidy + (supply * 100000000 + cfg.magicExtra.toNat))
  else if cfg.staked = 2 then 0
  else toUint64 subsidy

/-- `komodo_ac_block_subsidy`. -/
def komodoAcBlockSubsidy (cache : SubsidyCache) (nHeight : Int) : Int × SubsidyCache :=
  let (subsidy, cache) := cfg.baseSubsidy cache nHeight
  (cfg.withSupply nHeight subsidy, cache)

/-- The static variables after a history of calls. -/
def cacheAfter (history : List Int) : SubsidyCache :=
  history.foldl (fun cache nHeight => (cfg.komodoAcBlockSubsidy cache nHeight).2) .zero

/-- `GetBlockSubsidy` of a chain with a name. -/
def getBlockSubsidy (nHeight : Int) : Int :=
  toInt64 (cfg.komodoAcBlockSubsidy .zero nHeight).1

end RewardConfig

/-! ## The static variables -/

/-- The decayed reward is in the range of its register. -/
theorem toInt64_decayLoop (decay : UInt64) (n : Nat) (x : Int) :
    toInt64 (decayLoop decay n (toInt64 x)) = decayLoop decay n (toInt64 x) := by
  induction n generalizing x with
  | zero => exact toInt64_toInt64 x
  | succ n ih =>
    rw [decayLoop]
    split
    · exact ih _
    · exact toInt64_toInt64 x

theorem SubsidyCache.not_hit_zero (curEra : Nat) (numhalvings : Int) :
    ¬(0 < SubsidyCache.zero.cachedSubsidy ∧ SubsidyCache.zero.cachedEra = curEra ∧
      SubsidyCache.zero.cachedNumhalvings = numhalvings) := by
  simp [SubsidyCache.zero]

/-- What the static variables hold is the reward of their era after their number of periods. -/
def RewardConfig.Coherent (cfg : RewardConfig) (cache : SubsidyCache) : Prop :=
  0 < cache.cachedSubsidy → ∀ e, (cfg.first :: cfg.later)[cache.cachedEra]? = some e →
    cache.cachedSubsidy =
      toUint64 (decayLoop e.decay cache.cachedNumhalvings.toNat (toInt64 e.reward.toNat))

namespace RewardConfig

variable {cfg : RewardConfig} {cache : SubsidyCache}

theorem coherent_zero : cfg.Coherent .zero := by
  intro h
  exact absurd h (lt_irrefl 0)

/-- Within an era, coherent variables neither change the result nor become incoherent. -/
theorem era_subsidy_of_coherent (hcache : cfg.Coherent cache) {p : EraAt}
    (hp : (cfg.first :: cfg.later)[p.curEra]? = some p.era) (nHeight : Int) :
    (p.subsidy cache nHeight).1 = (p.subsidy .zero nHeight).1 ∧
      cfg.Coherent (p.subsidy cache nHeight).2 := by
  rw [EraAt.subsidy, EraAt.subsidy]
  dsimp only
  split
  · split
    · split
      · exact ⟨rfl, hcache⟩
      · split
        · exact ⟨rfl, hcache⟩
        · rw [if_neg (SubsidyCache.not_hit_zero _ _)]
          split
          · next hhit =>
            refine ⟨?_, hcache⟩
            have hval := hcache hhit.1 p.era (by rw [hhit.2.1, hp])
            rw [hval, hhit.2.2, toInt64_toUint64, toInt64_decayLoop]
          · refine ⟨rfl, fun _ e he => ?_⟩
            obtain rfl := Option.some.inj (hp.symm.trans he)
            rfl
    · exact ⟨rfl, hcache⟩
  · exact ⟨rfl, hcache⟩

theorem baseSubsidy_of_coherent (hcache : cfg.Coherent cache) (nHeight : Int) :
    (cfg.baseSubsidy cache nHeight).1 = (cfg.baseSubsidy .zero nHeight).1 ∧
      cfg.Coherent (cfg.baseSubsidy cache nHeight).2 := by
  rw [baseSubsidy, baseSubsidy]
  split
  · exact ⟨rfl, hcache⟩
  · cases hp : cfg.eraAt nHeight with
    | none => exact ⟨rfl, hcache⟩
    | some p => exact era_subsidy_of_coherent hcache (eraAt_era hp) nHeight

/-- The result does not depend on coherent variables, which stay so. -/
theorem subsidy_of_coherent (hcache : cfg.Coherent cache) (nHeight : Int) :
    (cfg.komodoAcBlockSubsidy cache nHeight).1 = (cfg.komodoAcBlockSubsidy .zero nHeight).1 ∧
      cfg.Coherent (cfg.komodoAcBlockSubsidy cache nHeight).2 := by
  obtain ⟨hval, hnext⟩ := baseSubsidy_of_coherent hcache nHeight
  exact ⟨congrArg (cfg.withSupply nHeight) hval, hnext⟩

/-- No history of calls makes the static variables incoherent. -/
theorem coherent_cacheAfter (history : List Int) : cfg.Coherent (cfg.cacheAfter history) := by
  have hrun : ∀ cache, cfg.Coherent cache → cfg.Coherent (history.foldl (fun cache nHeight =>
      (cfg.komodoAcBlockSubsidy cache nHeight).2) cache) := by
    induction history with
    | nil => exact fun _ h => h
    | cons nHeight history ih => exact fun _ h => ih _ (subsidy_of_coherent h nHeight).2
  exact hrun .zero coherent_zero

end RewardConfig

/-! ## Exact rewards -/

/-- The decay loop computes the iterates where the register holds the first product. -/
theorem decayLoop_eq {decay : UInt64} (hdecay : decay.toNat ≤ 100000000) (n : Nat) {s : Nat}
    (hs : s < 2 ^ 64) (hprod : s * decay.toNat < 2 ^ 64) :
    decayLoop decay n (toInt64 s) = toInt64 ((decayed decay.toNat)^[n] s : Nat) := by
  induction n generalizing s with
  | zero => rfl
  | succ n ih =>
    have hstep : toUint64 (toInt64 s * decay.toNat) = s * decay.toNat := by
      rw [toUint64_mul_toInt64, toUint64_of_range (by exact_mod_cast Nat.zero_le _)
        (by exact_mod_cast hprod)]
    have hnext : (s * decay.toNat : Int) / 100000000 = (decayed decay.toNat s : Nat) := by
      rw [decayed, Int.natCast_ediv, Nat.cast_mul]
      rfl
    have hle := decayed_le hdecay s
    rw [decayLoop, hstep, hnext, Function.iterate_succ_apply]
    split
    · exact ih (hle.trans_lt hs) ((Nat.mul_le_mul_right _ hle).trans_lt hprod)
    · next hzero =>
      have hs0 : s = 0 := (toInt64_eq_zero hs).1 (not_not.1 hzero)
      rw [hs0, show decayed decay.toNat 0 = 0 by simp [decayed], decayed_iterate_zero]

namespace EraAt

variable {p : EraAt} {h : Nat}

/-- The distance between the era's reward and the one it moves to. -/
def difference (p : EraAt) : Nat :=
  if p.target ≤ p.era.reward.toNat then p.era.reward.toNat - p.target
  else p.target - p.era.reward.toNat

/-- The registers hold what the era's branch computes at a height. -/
structure InRange (p : EraAt) (h : Nat) : Prop where
  halved : p.era.decay = 0 → p.periods h < 64 ∧ p.era.reward.toNat < 2 ^ 63
  linear : p.Linear → p.difference * (p.periods h * p.era.halving.toNat) < 2 ^ 63 ∧
    p.era.endsubsidy.toNat - p.nStart < 2 ^ 63
  decayed : ¬ p.Linear → p.era.reward.toNat * p.era.decay.toNat < 2 ^ 64

theorem numhalvings_eq (hheight : h < 2 ^ 31) (hstart : p.nStart ≤ h) :
    p.numhalvings h = p.periods h := by
  have helapsed : toUint64 ((h : Int) - p.nStart) = (h - p.nStart : Nat) := by
    rw [toUint64_of_range (by omega) (by omega)]
    omega
  have hle : p.periods h ≤ h - p.nStart := Nat.div_le_self _ _
  rw [numhalvings, helapsed, ← Int.natCast_ediv, ← periods, toInt32,
    Int.bmod_eq_of_le (by omega) (by omega)]

/-- `numerator` is the time of the completed periods. -/
theorem numerator_eq (hheight : h < 2 ^ 31) (hstart : p.nStart ≤ h)
    (hend : h < p.era.endsubsidy.toNat) :
    toInt64 ((p.era.endsubsidy.toNat - p.nStart : Nat) - (p.era.endsubsidy.toNat - h +
      toUint64 (h - p.nStart) % p.era.halving.toNat)) =
      (p.periods h * p.era.halving.toNat : Nat) := by
  have helapsed : toUint64 ((h : Int) - p.nStart) = (h - p.nStart : Nat) := by
    rw [toUint64_of_range (by omega) (by omega)]
    omega
  have hsplit : p.periods h * p.era.halving.toNat + (h - p.nStart) % p.era.halving.toNat =
      h - p.nStart := Nat.div_add_mod' _ _
  rw [helapsed, ← Int.natCast_emod, toInt64_of_range (by omega) (by omega)]
  omega

theorem target_lt (p : EraAt) : p.target < 2 ^ 64 := by
  rw [target]
  cases p.next with
  | none => exact Nat.two_pow_pos 64
  | some e => exact e.reward.toNat_lt

/-- `subsidyDifference` before its sign is taken. -/
theorem signedDifference_eq (hdiff : p.difference < 2 ^ 63) :
    (match p.next with
      | none => toInt64 p.era.reward.toNat
      | some e => toInt64 (toInt64 p.era.reward.toNat - e.reward.toNat)) =
      (p.era.reward.toNat : Int) - p.target := by
  rw [difference] at hdiff
  cases hnext : p.next with
  | none =>
    have htarget : p.target = 0 := by rw [target, hnext]; rfl
    rw [htarget, if_pos (Nat.zero_le _)] at hdiff
    rw [htarget]
    exact (toInt64_of_range (by omega) (by omega)).trans (by omega)
  | some e =>
    have htarget : p.target = e.reward.toNat := by rw [target, hnext]; rfl
    rw [htarget] at hdiff ⊢
    dsimp only
    rw [sub_eq_add_neg, toInt64_add_left, ← sub_eq_add_neg]
    split at hdiff
    · exact toInt64_of_range (by omega) (by omega)
    · exact toInt64_of_range (by omega) (by omega)

/-- The linear branch lands on the straight line to the next reward. -/
theorem linearSubsidy_eq (hheight : h < 2 ^ 31) (hstart : p.nStart ≤ h)
    (hend : h < p.era.endsubsidy.toNat) (hk : p.periods h ≠ 0) (hhalving : p.era.halving ≠ 0)
    (hprod : p.difference * (p.periods h * p.era.halving.toNat) < 2 ^ 63)
    (hlength : p.era.endsubsidy.toNat - p.nStart < 2 ^ 63) :
    toUint64 (p.linearSubsidy h (toInt64 p.era.reward.toNat)) =
      interpolate p.era.reward.toNat p.target (p.periods h * p.era.halving.toNat)
        (p.era.endsubsidy.toNat - p.nStart) := by
  have hpos : 1 ≤ p.periods h * p.era.halving.toNat := by
    have hne : p.era.halving.toNat ≠ 0 := fun h0 => hhalving (UInt64.toNat_inj.1 h0)
    exact Nat.mul_pos (Nat.pos_of_ne_zero hk) (Nat.pos_of_ne_zero hne)
  have hdiff : p.difference < 2 ^ 63 := (Nat.le_mul_of_pos_right _ hpos).trans_lt hprod
  have hden : toInt64 ((p.era.endsubsidy.toNat : Int) - p.nStart) =
      (p.era.endsubsidy.toNat - p.nStart : Nat) := by
    rw [toInt64_of_range (by omega) (by omega)]
    omega
  have hquot : (toInt64 ((p.difference : Int) * (p.periods h * p.era.halving.toNat : Nat))).tdiv
      (p.era.endsubsidy.toNat - p.nStart : Nat) = (p.difference *
        (p.periods h * p.era.halving.toNat) / (p.era.endsubsidy.toNat - p.nStart) : Nat) := by
    rw [← Nat.cast_mul, toInt64_of_range (by omega) (by exact_mod_cast hprod)]
    rfl
  have hle : p.periods h * p.era.halving.toNat ≤ p.era.endsubsidy.toNat - p.nStart :=
    (Nat.div_mul_le_self _ _).trans (by omega)
  have hmax := interpolate_le (a := p.era.reward.toNat) (b := p.target) hle
  have hmaxlt : max p.era.reward.toNat p.target < 2 ^ 64 :=
    max_lt p.era.reward.toNat_lt p.target_lt
  rw [linearSubsidy, signedDifference_eq hdiff, hden, numerator_eq hheight hstart hend]
  rw [difference] at hdiff hquot
  rw [interpolate] at hmax ⊢
  by_cases hdown : p.target ≤ p.era.reward.toNat
  · have hsign : ¬(p.next.isSome ∧ (p.era.reward.toNat : Int) - p.target < 0) := by omega
    rw [if_pos hdown] at hdiff hquot hmax ⊢
    have hdist : toInt64 (((p.era.reward.toNat : Int) - p.target) * 1) =
        (p.era.reward.toNat - p.target : Nat) := by
      rw [mul_one, toInt64_of_range (by omega) (by omega)]
      omega
    have hq : (p.era.reward.toNat - p.target) * (p.periods h * p.era.halving.toNat) /
        (p.era.endsubsidy.toNat - p.nStart) ≤ p.era.reward.toNat - p.target := quotient_le hle
    rw [if_neg hsign, hdist, hquot, toUint64_toInt64, toUint64_sub_toInt64,
      toUint64_of_range (by omega) (by omega)]
    omega
  · have hsome : p.next.isSome := by
      cases hnext : p.next with
      | none => exact absurd (by rw [target, hnext]; exact Nat.zero_le _) hdown
      | some e => rfl
    rw [if_neg hdown] at hdiff hquot hmax ⊢
    have hdist : toInt64 (((p.era.reward.toNat : Int) - p.target) * -1) =
        (p.target - p.era.reward.toNat : Nat) := by
      rw [toInt64_of_range (by omega) (by omega)]
      omega
    have hq : (0 : Int) ≤ ((p.target - p.era.reward.toNat) * (p.periods h * p.era.halving.toNat) /
        (p.era.endsubsidy.toNat - p.nStart) : Nat) := Int.natCast_nonneg _
    rw [if_pos ⟨hsome, by omega⟩, hdist, hquot, toUint64_toInt64, toUint64_sub_toInt64,
      toUint64_of_range (by omega) (by omega)]
    omega

/-- The test before the branches. -/
theorem paying_iff : toInt64 p.era.reward.toNat ≠ 0 ∨ p.next.elim 0 Era.reward ≠ 0 ↔ p.Paying := by
  refine or_congr (not_congr (toInt64_eq_zero p.era.reward.toNat_lt)) ?_
  rw [target]
  cases p.next with
  | none => exact not_congr ⟨fun _ => rfl, fun _ => rfl⟩
  | some e => exact not_congr UInt64.toNat_inj.symm

/-- In range, the branches compute the reward that the era specifies. -/
theorem subsidy_eq_specified (hheight : h < 2 ^ 31) (hstart : p.nStart ≤ h)
    (hend : h < p.era.endsubsidy.toNat ∨ p.era.endsubsidy = 0)
    (hrange : p.periods h ≠ 0 → p.Paying → p.InRange h) :
    toUint64 (p.subsidy .zero h).1 = p.specified h := by
  have hreward : toUint64 (toInt64 p.era.reward.toNat) = p.era.reward.toNat := by
    rw [toUint64_toInt64, toUint64_of_range (by omega) (by exact_mod_cast p.era.reward.toNat_lt)]
  have hnum := numhalvings_eq hheight hstart
  rw [subsidy]
  dsimp only
  rw [hnum]
  split
  · next hpaying =>
    split
    · next hactive =>
      have hk : p.periods h ≠ 0 := by
        have hpos := hactive.2
        omega
      replace hrange := hrange hk (paying_iff.1 hpaying)
      split
      · next hdecay =>
        obtain ⟨hfew, hsmall⟩ := hrange.halved hdecay
        have hle : (p.era.reward.toNat : Int) / (2 ^ p.periods h : Nat) ≤ p.era.reward.toNat :=
          Int.ediv_le_self _ (by omega)
        have hnonneg : (0 : Int) ≤ p.era.reward.toNat / (2 ^ p.periods h : Nat) :=
          Int.ediv_nonneg (by omega) (Int.natCast_nonneg _)
        rw [specified, if_pos hdecay, Int.toNat_natCast, Nat.mod_eq_of_lt hfew,
          toInt64_of_range (by omega) (by omega), Int.shiftRight_eq_div_pow,
          toUint64_of_range hnonneg (by omega), Int.natCast_ediv]
      · next hdecay =>
        rw [specified, if_neg hdecay]
        by_cases hlinear : p.Linear
        · rw [if_pos hlinear, if_pos hlinear]
          obtain ⟨hprod, hlength⟩ := hrange.linear hlinear
          have hline := linearSubsidy_eq hheight hstart (hend.resolve_right hlinear.2)
            hk hactive.1 hprod
            hlength
          dsimp only
          exact hline
        · rw [if_neg hlinear, if_neg hlinear]
          have hlt := (decayed_iterate_le p.era.decay_le (p.periods h) p.era.reward.toNat).trans_lt
            p.era.reward.toNat_lt
          have hloop := decayLoop_eq p.era.decay_le (p.periods h) p.era.reward.toNat_lt
            (hrange.decayed hlinear)
          rw [if_neg (SubsidyCache.not_hit_zero p.curEra (p.periods h)), Int.toNat_natCast, hloop,
            toUint64_toInt64, toUint64_of_range (by omega) (by exact_mod_cast hlt)]
    · next hactive =>
      have hk : p.periods h = 0 := by
        by_cases hhalving : p.era.halving = 0
        · rw [periods, hhalving]
          exact Nat.div_zero _
        · have hpos : ¬ (0 : Int) < p.periods h := fun hpos => hactive ⟨hhalving, hpos⟩
          omega
      rw [hreward, specified_of_periods hk]
  · next hnothing =>
    have hp : ¬ p.Paying := fun hp => hnothing (paying_iff.2 hp)
    have hzero : p.era.reward.toNat = 0 := not_not.1 (not_or.1 hp).1
    rw [hreward, hzero, specified_of_not_paying hp]

end EraAt

namespace RewardConfig

variable {cfg : RewardConfig} {h : Nat}

/-- The registers hold the products of the era of a height, and the reward. -/
def InRange (cfg : RewardConfig) (h : Nat) : Prop :=
  cfg.Fungible ∨ cfg.Older ∨
    (∀ p, cfg.eraAt h = some p → p.periods h ≠ 0 → p.Paying → p.InRange h) ∧
      cfg.eraReward h + cfg.instalment h < 2 ^ 64

/-- The part of the reward that comes from the eras. -/
theorem baseSubsidy_eq (hheight : h < 2 ^ 31)
    (hera : ¬ cfg.Older → ∀ p, cfg.eraAt h = some p → p.periods h ≠ 0 → p.Paying → p.InRange h) :
    toUint64 (cfg.baseSubsidy .zero h).1 =
      (if cfg.Older then 10000 else cfg.eraReward h : Nat) := by
  rw [baseSubsidy]
  split
  · rfl
  · next hold =>
    rw [eraReward]
    cases hp : cfg.eraAt h with
    | none => rfl
    | some p =>
      obtain ⟨hstart, hend⟩ := eraAt_spec hheight hp
      exact EraAt.subsidy_eq_specified hheight hstart hend (hera hold p hp)

/-- Above the first height the instalment is added, and a fungible chain gets nothing. -/
theorem withSupply_eq (hone : 1 < h) (hheight : h < 2 ^ 31) {subsidy : Int} {r : Nat}
    (hr : toUint64 subsidy = r) (hrange : ¬ cfg.Fungible → r + cfg.instalment h < 2 ^ 64) :
    cfg.withSupply h subsidy = (if cfg.Fungible then 0 else r + cfg.instalment h : Nat) := by
  have hreg : toUint64 h = h := toUint64_of_range (by omega) (by omega)
  have hne : ¬ ((h : Int) = 1) := by omega
  by_cases hlarge : 10000000000 < cfg.supply.toNat
  · have hnot : ¬ cfg.Fungible := fun hf => absurd hf.2 (by omega)
    have hfits := hrange hnot
    rw [if_neg hnot, withSupply]
    dsimp only
    rw [if_pos (by omega), hreg, if_neg hne]
    by_cases hlast : h ≤ cfg.supply.toNat / 1000000000
    · have hinst : cfg.instalment h = 1000000000 * 100000000 := if_pos ⟨hlarge, hlast⟩
      rw [hinst] at hfits ⊢
      rw [if_pos (by omega), toUint64_add_toUint64, hr, toUint64_of_range (by omega) (by omega)]
      rfl
    · have hinst : cfg.instalment h = 0 := if_neg fun hboth => hlast hboth.2
      rw [if_neg (by omega), hr, hinst]
      rfl
  · have hnone : cfg.instalment h = 0 := if_neg fun h => hlarge h.1
    rw [withSupply, hnone]
    dsimp only
    rw [if_neg (by omega), if_neg hne]
    by_cases hstaked : cfg.staked = 2
    · rw [if_pos hstaked, if_pos ⟨hstaked, by omega⟩]
      rfl
    · rw [if_neg hstaked, if_neg (fun hf => hstaked hf.1), hr]
      rfl

/-- The reward does not depend on the history of calls, and it is the one that the chain is
designed to have wherever the registers hold the era's products. -/
theorem block_subsidy_exact (cfg : RewardConfig) (history : List Int) {h : Nat} (hone : 1 < h)
    (hheight : h < 2 ^ 31) (hrange : cfg.InRange h) :
    (cfg.komodoAcBlockSubsidy (cfg.cacheAfter history) h).1 = cfg.blockReward h := by
  rw [(subsidy_of_coherent (coherent_cacheAfter history) h).1, blockReward]
  by_cases hfungible : cfg.Fungible
  · have hr : toUint64 (cfg.baseSubsidy .zero h).1 = (toUint64 (cfg.baseSubsidy .zero h).1).toNat :=
      (Int.toNat_of_nonneg (toUint64_range _).1).symm
    have hpaid := withSupply_eq hone hheight hr (fun hnot => absurd hfungible hnot)
    rw [if_pos hfungible] at hpaid ⊢
    exact hpaid
  · have hera : ¬ cfg.Older → ∀ p, cfg.eraAt h = some p → p.periods h ≠ 0 → p.Paying →
        p.InRange h :=
      fun hold => ((hrange.resolve_left hfungible).resolve_left hold).1
    refine withSupply_eq hone hheight (baseSubsidy_eq hheight hera) fun _ => ?_
    by_cases hold : cfg.Older
    · rw [if_pos hold, instalment]
      split
      · omega
      · omega
    · rw [if_neg hold]
      exact ((hrange.resolve_left hfungible).resolve_left hold).2

/-- A chain whose reward rises for a hundred heights, then decays by a tenth every ten, and is
halved every thousand from the height `400` on. -/
def threeEras : RewardConfig where
  first := ⟨100, 0, 5, 100000000, by decide⟩
  later := [⟨400, 38400000000, 10, 90000000, by decide⟩, ⟨0, 2400000000, 1000, 0, by decide⟩]
  supply := 12000000000
  supply_le := by decide
  magic := 2387029918
  assetchainsStaked := 0
  staked := 0

/-- The second era decays. -/
theorem threeEras_decays :
    1 < 125 ∧ 125 < 2 ^ 31 ∧ threeEras.InRange 125 ∧
      (threeEras.komodoAcBlockSubsidy (threeEras.cacheAfter [50, 250, 121, 3000]) 125).1 =
        31104000000 := by
  have hera : threeEras.eraAt (125 : Nat) = some ⟨1, 100, threeEras.later.head (by decide),
      threeEras.later.tail.head?⟩ := rfl
  have hrange : threeEras.InRange 125 := by
    refine Or.inr (Or.inr ⟨fun p hp _ _ => ?_, by decide⟩)
    obtain rfl := Option.some.inj (hera.symm.trans hp)
    exact ⟨by decide, by decide, by decide⟩
  exact ⟨by decide, by decide, hrange,
    (block_subsidy_exact threeEras [50, 250, 121, 3000] (by decide) (by decide) hrange).trans
      (by decide)⟩

/-- A fungible chain that was given a reward all the same. -/
def fungibleChain : RewardConfig where
  first := ⟨0, 100000000, 0, 0, by decide⟩
  later := []
  supply := 10
  supply_le := by decide
  magic := 2387029918
  assetchainsStaked := 0
  staked := 2

/-- An older chain: no reward is given. -/
def olderChain : RewardConfig :=
  { fungibleChain with first := ⟨0, 0, 0, 0, by decide⟩, staked := 0 }

/-- On a fungible chain the reward of its era is not paid, and on an older chain more than the
reward is. -/
theorem fungible_not_paid : ¬ (∀ (cfg : RewardConfig) (history : List Int) (h : Nat),
      cfg.staked = 2 → 1 < h → h < 2 ^ 31 →
        (cfg.komodoAcBlockSubsidy (cfg.cacheAfter history) h).1 =
          cfg.eraReward h + cfg.instalment h) ∧
    ¬ ∀ (cfg : RewardConfig) (history : List Int) (h : Nat),
      cfg.staked ≠ 2 → 1 < h → h < 2 ^ 31 → cfg.InRange h →
        (cfg.komodoAcBlockSubsidy (cfg.cacheAfter history) h).1 =
          cfg.eraReward h + cfg.instalment h := by
  constructor
  · intro hclaim
    exact absurd (hclaim fungibleChain [] 2 rfl (by decide) (by decide)) (by decide)
  · intro hclaim
    exact absurd (hclaim olderChain [] 2 (by decide) (by decide) (by decide)
      (Or.inr (Or.inl (by decide)))) (by decide)

end RewardConfig

end IndexChain.Supply
