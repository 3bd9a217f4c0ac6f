import IndexChain.Core.Words
import Mathlib.Algebra.Order.Group.Nat
import Mathlib.Order.Iterate

/-!
# Eras

The reward schedule of a chain, as `komodo_args` leaves it. A chain has a first era and perhaps
later ones; an era ends at a height, or never when its end is zero. Within an era the reward
changes each time a halving period is complete: it is halved, it moves in a straight line to
the next era's reward, or it is multiplied by a ratio. The schedule is stated in exact integers.
-/

namespace IndexChain.Supply

open IndexChain.Core

/-- One place of `ASSETCHAINS_ENDSUBSIDY`, `ASSETCHAINS_REWARD`, `ASSETCHAINS_HALVING` and
`ASSETCHAINS_DECAY`. The start-up code puts zero for a decay above `100000000`. -/
structure Era where
  endsubsidy : UInt64
  reward : UInt64
  halving : UInt64
  decay : UInt64
  decay_le : decay.toNat ≤ 100000000

/-- The globals of a chain that its block reward is made from. The eras are those up to
`ASSETCHAINS_LASTERA`, and `staked` is what `is_STAKED` says of the chain's name. -/
structure RewardConfig where
  first : Era
  later : List Era
  supply : UInt64
  /-- `StartShutdown` is called for more. -/
  supply_le : supply.toNat ≤ 90000000000
  magic : UInt32
  assetchainsStaked : Int
  staked : Int

/-- An era with its position, the height at which it starts, and the era after it. -/
structure EraAt where
  curEra : Nat
  nStart : Nat
  era : Era
  next : Option Era

/-- The loop that looks for the era of a height. -/
def eraFrom (nHeight : Int) : Nat → Nat → List Era → Option EraAt
  | _, _, [] => none
  | curEra, nStart, e :: later =>
    if toUint64 nHeight < e.endsubsidy.toNat ∨ e.endsubsidy = 0 then
      some ⟨curEra, nStart, e, later.head?⟩
    else eraFrom nHeight (curEra + 1) e.endsubsidy.toNat later

/-- The era of a height: the first one when it has no end. -/
def RewardConfig.eraAt (cfg : RewardConfig) (nHeight : Int) : Option EraAt :=
  if cfg.first.endsubsidy ≠ 0 then eraFrom nHeight 0 0 (cfg.first :: cfg.later)
  else some ⟨0, 0, cfg.first, cfg.later.head?⟩

/-! ## The reward of an era -/

/-- The point a part `n / d` of the way from `a` to `b`. -/
def interpolate (a b n d : Nat) : Nat :=
  if b ≤ a then a - (a - b) * n / d else a + (b - a) * n / d

/-- One period of decay. -/
def decayed (decay s : Nat) : Nat := s * decay / 100000000

namespace EraAt

variable (p : EraAt)

/-- The halving periods that are complete at a height. -/
def periods (h : Nat) : Nat := (h - p.nStart) / p.era.halving.toNat

/-- The reward that a linear era moves to. -/
def target : Nat := p.next.elim 0 fun e => e.reward.toNat

/-- The era has a reward or moves to one. -/
def Paying : Prop := p.era.reward.toNat ≠ 0 ∨ p.target ≠ 0

/-- The era moves in a straight line to the next reward. -/
def Linear : Prop := p.era.decay = 100000000 ∧ p.era.endsubsidy ≠ 0

instance : Decidable p.Linear := inferInstanceAs (Decidable (_ ∧ _))

/-- The reward that the era specifies for a height. -/
def specified (h : Nat) : Nat :=
  if p.era.decay = 0 then p.era.reward.toNat / 2 ^ p.periods h
  else if p.Linear then
    interpolate p.era.reward.toNat p.target (p.periods h * p.era.halving.toNat)
      (p.era.endsubsidy.toNat - p.nStart)
  else (decayed p.era.decay.toNat)^[p.periods h] p.era.reward.toNat

end EraAt

/-- The era's reward at a height. No era is left after the last one has ended. -/
def RewardConfig.eraReward (cfg : RewardConfig) (h : Nat) : Nat :=
  (cfg.eraAt h).elim 0 fun p => p.specified h

/-- The instalments in which a supply above ten billion coins is issued. -/
def RewardConfig.instalment (cfg : RewardConfig) (h : Nat) : Nat :=
  if 10000000000 < cfg.supply.toNat ∧ h ≤ cfg.supply.toNat / 1000000000 then
    1000000000 * 100000000
  else 0

/-- A fungible chain (`is_STAKED` is two), which has no block reward. A chain with a supply that is
issued in instalments is not treated as one. -/
def RewardConfig.Fungible (cfg : RewardConfig) : Prop :=
  cfg.staked = 2 ∧ cfg.supply.toNat ≤ 10000000000

/-- An older chain, with no explicit reward and no end. -/
def RewardConfig.Older (cfg : RewardConfig) : Prop :=
  cfg.first.endsubsidy = 0 ∧ cfg.first.reward = 0

instance (cfg : RewardConfig) : Decidable cfg.Fungible := inferInstanceAs (Decidable (_ ∧ _))
instance (cfg : RewardConfig) : Decidable cfg.Older := inferInstanceAs (Decidable (_ ∧ _))

/-- The block reward that the chain is designed to have at a height above one. -/
def RewardConfig.blockReward (cfg : RewardConfig) (h : Nat) : Nat :=
  if cfg.Fungible then 0
  else (if cfg.Older then 10000 else cfg.eraReward h) + cfg.instalment h

/-! ## Laws of the schedule -/

theorem interpolate_zero (a b d : Nat) : interpolate a b 0 d = a := by
  simp [interpolate]

/-- A part of a distance is at most the distance. -/
theorem quotient_le {c n d : Nat} (h : n ≤ d) : c * n / d ≤ c :=
  Nat.div_le_of_le_mul (by rw [Nat.mul_comm d]; exact Nat.mul_le_mul_left c h)

theorem interpolate_le {a b n d : Nat} (h : n ≤ d) : interpolate a b n d ≤ max a b := by
  rw [interpolate]
  split
  · exact (Nat.sub_le _ _).trans (le_max_left a b)
  · have hle : (b - a) * n / d ≤ b - a := quotient_le h
    exact (by omega : a + (b - a) * n / d ≤ b).trans (le_max_right a b)

theorem decayed_le {decay : Nat} (hdecay : decay ≤ 100000000) (s : Nat) : decayed decay s ≤ s :=
  Nat.div_le_of_le_mul (by rw [Nat.mul_comm]; exact Nat.mul_le_mul_right s hdecay)

theorem decayed_iterate_le {decay : Nat} (hdecay : decay ≤ 100000000) (k s : Nat) :
    (decayed decay)^[k] s ≤ s := by
  induction k generalizing s with
  | zero => exact le_refl s
  | succ k ih =>
    rw [Function.iterate_succ_apply]
    exact (ih _).trans (decayed_le hdecay s)

theorem decayed_iterate_zero (decay k : Nat) : (decayed decay)^[k] 0 = 0 :=
  Function.iterate_fixed (by simp [decayed]) k

namespace EraAt

variable {p : EraAt} {h : Nat}

/-- Before the first period is complete the reward is the era's own. -/
theorem specified_of_periods (hk : p.periods h = 0) : p.specified h = p.era.reward.toNat := by
  simp [specified, hk, interpolate_zero]

/-- An era that does not pay has no reward at any height. -/
theorem specified_of_not_paying (hp : ¬ p.Paying) : p.specified h = 0 := by
  obtain ⟨hreward, htarget⟩ := not_or.1 hp
  rw [not_not] at hreward htarget
  simp [specified, hreward, htarget, interpolate, decayed_iterate_zero]

end EraAt

/-! ## The era of a height -/

/-- What the loop finds: an era that has not ended at the height, and that follows the end of
an era which has. -/
theorem eraFrom_spec {nHeight : Nat} (hheight : nHeight < 2 ^ 31) {curEra nStart : Nat}
    {eras : List Era} {p : EraAt} (hstart : nStart ≤ nHeight)
    (hp : eraFrom nHeight curEra nStart eras = some p) :
    p.nStart ≤ nHeight ∧ (nHeight < p.era.endsubsidy.toNat ∨ p.era.endsubsidy = 0) := by
  have hreg : toUint64 nHeight = nHeight := toUint64_of_range (by omega) (by omega)
  induction eras generalizing curEra nStart with
  | nil => cases hp
  | cons e later ih =>
    rw [eraFrom, hreg] at hp
    split at hp
    · next hcur =>
      obtain rfl := Option.some.inj hp
      exact ⟨hstart, hcur.imp Int.ofNat_lt.1 id⟩
    · next hcur =>
      exact ih (by omega) hp

theorem RewardConfig.eraAt_spec {cfg : RewardConfig} {nHeight : Nat} (hheight : nHeight < 2 ^ 31)
    {p : EraAt} (hp : cfg.eraAt nHeight = some p) :
    p.nStart ≤ nHeight ∧ (nHeight < p.era.endsubsidy.toNat ∨ p.era.endsubsidy = 0) := by
  rw [RewardConfig.eraAt] at hp
  split at hp
  · exact eraFrom_spec hheight (Nat.zero_le _) hp
  · next hend =>
    obtain rfl := Option.some.inj hp
    exact ⟨Nat.zero_le _, Or.inr (by simpa using hend)⟩

/-- The loop's position is that of the era it finds. -/
theorem eraFrom_era {nHeight : Int} {curEra nStart : Nat} {eras : List Era} {p : EraAt}
    (hp : eraFrom nHeight curEra nStart eras = some p) :
    curEra ≤ p.curEra ∧ eras[p.curEra - curEra]? = some p.era := by
  induction eras generalizing curEra nStart with
  | nil => cases hp
  | cons e later ih =>
    rw [eraFrom] at hp
    split at hp
    · obtain rfl := Option.some.inj hp
      simp
    · obtain ⟨hle, hget⟩ := ih hp
      have hsub : p.curEra - curEra = p.curEra - (curEra + 1) + 1 := by omega
      rw [hsub, List.getElem?_cons_succ]
      exact ⟨by omega, hget⟩

theorem RewardConfig.eraAt_era {cfg : RewardConfig} {nHeight : Int} {p : EraAt}
    (hp : cfg.eraAt nHeight = some p) : (cfg.first :: cfg.later)[p.curEra]? = some p.era := by
  rw [RewardConfig.eraAt] at hp
  split at hp
  · exact (eraFrom_era hp).2
  · obtain rfl := Option.some.inj hp
    rfl

end IndexChain.Supply
