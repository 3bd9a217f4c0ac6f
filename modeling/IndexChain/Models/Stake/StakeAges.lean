import IndexChain.Models.Stake.KomodoStake
import Mathlib.Tactic.Linarith

/-!
# Coin ages of stakers and validators

A second that a staker finds is accepted when the validator's coin age at it is at least the
staker's (`accepted_of_kept`). Where the division of the hash by a coin age cannot overflow,
this is also necessary, up to hashes that are not below 256 bits or that have won before
(`agesKept_of_accepted`). The ages differ where the output is younger than its minimum age at
the start, which makes the age wrap to the cap, and at the cap, to which the staker still
adds the segment.
-/

namespace IndexChain.Stake

open IndexChain.Core

namespace StakeKernel

variable (k : StakeKernel)

/-! ## The claims of a staker and a validator -/

/-- What a staker finds is accepted by a validator with the same inputs. -/
def Accepted (candidate : UInt32) : Prop :=
  ∀ blocktime, k.stake false candidate = .ok blocktime → blocktime ≠ 0 →
    ∃ verdict, k.stake true blocktime = .ok verdict ∧ verdict ≠ 0

/-- The coin age that a validator takes for a block time, at the first second at which the
output is old enough. -/
def validatorAge (blocktime : UInt32) : Option UInt64 :=
  ((List.range maxIter).find? (k.passes blocktime)).map (k.coinage blocktime)

/-- At a second the validator's coin age is at least the staker's, and neither division
fails or overflows. -/
def Covered (start : UInt32) (iter : Nat) : Prop :=
  ∃ age, k.validatorAge (k.candidateTime start iter) = some age ∧
    k.coinage start iter ≤ age ∧ age + 1 ≠ 0 ∧
    k.ratio.toNat * (k.hash.toNat / ((k.coinage start iter).toNat + 1)) < 2 ^ 256

/-- The coin ages are covered at all seconds; at the first heights, where every second is
accepted, no division fails. -/
def Kept (start : UInt32) : Prop :=
  if k.nHeight < 10 then
    ∀ blocktime age, (blocktime = start ∨ ∃ iter < maxIter, k.passes start iter = true ∧
      blocktime = k.candidateTime start iter) → k.validatorAge blocktime = some age → age + 1 ≠ 0
  else ∀ iter < maxIter, k.passes start iter = true → k.Covered start iter

/-! ## The loop -/

theorem stakeLoop_true_none {blocktime : UInt32} {iters : List Nat}
    (h : iters.find? (k.passes blocktime) = none) :
    k.stakeLoop true blocktime iters = .ok none := by
  induction iters with
  | nil => rfl
  | cons iter iters ih =>
    rw [List.find?_eq_none] at h
    unfold stakeLoop
    rw [if_neg (h iter List.mem_cons_self)]
    exact ih (List.find?_eq_none.2 fun i hi => h i (List.mem_cons_of_mem iter hi))

/-- A validator takes the first second at which the output is old enough. -/
theorem stakeLoop_true_some {blocktime : UInt32} {iters : List Nat} {iter : Nat}
    (h : iters.find? (k.passes blocktime) = some iter) :
    k.stakeLoop true blocktime iters = (do
      let hit ← k.hits (k.coinage blocktime iter)
      .ok (if hit then some iter else none)) := by
  induction iters with
  | nil => cases h
  | cons first rest ih =>
    unfold stakeLoop
    cases hpasses : k.passes blocktime first with
    | false =>
      rw [List.find?_cons_of_neg (by simp [hpasses])] at h
      rw [if_neg Bool.false_ne_true]
      exact ih h
    | true =>
      rw [List.find?_cons_of_pos hpasses] at h
      obtain rfl : first = iter := Option.some.inj h
      rw [if_pos rfl]
      refine except_bind_congr fun hit _ => ?_
      cases hit <;> rfl

/-- A staker takes the first second at which the hash meets the target. -/
theorem stakeLoop_false_some {blocktime : UInt32} {iters : List Nat} {iter : Nat}
    (h : k.stakeLoop false blocktime iters = .ok (some iter)) :
    ∃ before after, iters = before ++ iter :: after ∧ k.passes blocktime iter = true ∧
      k.hits (k.coinage blocktime iter) = .ok true ∧
      ∀ j ∈ before, k.passes blocktime j = true → k.hits (k.coinage blocktime j) = .ok false := by
  induction iters with
  | nil => cases h
  | cons first rest ih =>
    unfold stakeLoop at h
    split at h
    · rename_i hpasses
      rw [except_bind_eq_ok] at h
      obtain ⟨hit, hhit, h⟩ := h
      cases hit with
      | true =>
        obtain rfl : first = iter := Option.some.inj (Except.ok.inj h)
        exact ⟨[], rest, rfl, hpasses, hhit, by simp⟩
      | false =>
        obtain ⟨before, after, rfl, hpasses', hhits, hbefore⟩ := ih h
        refine ⟨first :: before, after, rfl, hpasses', hhits, fun j hj hpj => ?_⟩
        rcases List.mem_cons.1 hj with rfl | hmem
        · exact hhit
        · exact hbefore j hmem hpj
    · rename_i hskips
      obtain ⟨before, after, rfl, hpasses', hhits, hbefore⟩ := ih h
      refine ⟨first :: before, after, rfl, hpasses', hhits, fun j hj hpj => ?_⟩
      rcases List.mem_cons.1 hj with rfl | hmem
      · exact absurd hpj hskips
      · exact hbefore j hmem hpj

/-- A second wins when none before it does. -/
theorem stakeLoop_false_eq {blocktime : UInt32} {before after : List Nat} {iter : Nat}
    (hpasses : k.passes blocktime iter = true)
    (hhits : k.hits (k.coinage blocktime iter) = .ok true)
    (hbefore : ∀ j ∈ before, k.passes blocktime j = true →
      k.hits (k.coinage blocktime j) = .ok false) :
    k.stakeLoop false blocktime (before ++ iter :: after) = .ok (some iter) := by
  induction before with
  | nil =>
    change k.stakeLoop false blocktime (iter :: after) = _
    unfold stakeLoop
    rw [if_pos hpasses, hhits]
    rfl
  | cons first rest ih =>
    have hrest := ih fun j hj => hbefore j (List.mem_cons_of_mem first hj)
    change k.stakeLoop false blocktime (first :: (rest ++ iter :: after)) = _
    unfold stakeLoop
    split
    · rename_i hfirst
      rw [hbefore first List.mem_cons_self hfirst]
      exact hrest
    · exact hrest

/-- What comes before a second. -/
theorem range_split {iter : Nat} {before after : List Nat}
    (h : List.range maxIter = before ++ iter :: after) : before = List.range iter := by
  have hlen : before.length = iter := by
    have hget : (List.range maxIter)[before.length]? = some iter := by
      rw [h, List.getElem?_append_right le_rfl, Nat.sub_self]
      rfl
    rw [List.getElem?_eq_some_iff] at hget
    obtain ⟨hlt, hget⟩ := hget
    rwa [List.getElem_range] at hget
  have hle : iter ≤ maxIter := by
    have hlength := congrArg List.length h
    simp only [List.length_range, List.length_append, List.length_cons] at hlength
    omega
  calc
    before = (before ++ iter :: after).take iter := (List.take_left' hlen).symm
    _ = (List.range maxIter).take iter := by rw [h]
    _ = List.range iter := by rw [List.take_range, Nat.min_eq_left hle]

/-- A validator accepts a block time when the hash meets the target for its coin age. -/
theorem stakeFrom_true {blocktime : UInt32} {age : UInt64} (hnull : k.isNull blocktime = false)
    (htarget : k.bnTarget ≠ 0) (hage : k.validatorAge blocktime = some age)
    (hhits : k.hits age = .ok true) : k.stakeFrom true blocktime = .ok blocktime := by
  obtain ⟨iter, hfind, rfl⟩ := Option.map_eq_some_iff.1 hage
  unfold stakeFrom
  rw [hnull, if_neg Bool.false_ne_true, if_neg htarget, k.stakeLoop_true_some hfind, hhits]
  simp [except_ok_bind]

/-- At the first heights every block time is accepted, unless a division fails. -/
theorem stakeFrom_true_low {blocktime : UInt32} (hnull : k.isNull blocktime = false)
    (htarget : k.bnTarget ≠ 0) (hlow : k.nHeight < 10)
    (hages : ∀ age, k.validatorAge blocktime = some age → age + 1 ≠ 0) :
    k.stakeFrom true blocktime = .ok blocktime := by
  unfold stakeFrom
  rw [hnull, if_neg Bool.false_ne_true, if_neg htarget]
  cases hfind : (List.range maxIter).find? (k.passes blocktime) with
  | none =>
    rw [k.stakeLoop_true_none hfind, except_ok_bind, if_pos hlow]
  | some iter =>
    have hage : k.coinage blocktime iter + 1 ≠ 0 :=
      hages _ (Option.map_eq_some_iff.2 ⟨iter, hfind, rfl⟩)
    rw [k.stakeLoop_true_some hfind]
    unfold hits
    rw [if_neg hage, except_ok_bind, except_ok_bind, if_pos hlow]
    split <;> rfl

/-- What a staker finds: the start at the first heights, or the first second that wins. -/
theorem stakeFrom_false {start blocktime : UInt32}
    (h : k.stakeFrom false start = .ok blocktime) (hne : blocktime ≠ 0) :
    k.isNull start = false ∧ k.bnTarget ≠ 0 ∧
      ((k.nHeight < 10 ∧ blocktime = start) ∨
        ∃ iter < maxIter, k.passes start iter = true ∧
          k.hits (k.coinage start iter) = .ok true ∧ blocktime = k.candidateTime start iter ∧
          ∀ j < iter, k.passes start j = true → k.hits (k.coinage start j) = .ok false) := by
  unfold stakeFrom at h
  split at h
  · exact absurd (Except.ok.inj h).symm hne
  rename_i hnull
  split at h
  · cases h
  rename_i htarget
  refine ⟨Bool.eq_false_iff.2 hnull, htarget, ?_⟩
  rw [except_bind_eq_ok] at h
  obtain ⟨winner, hloop, h⟩ := h
  cases winner with
  | none =>
    dsimp only at h
    split at h
    · rename_i hlow
      exact Or.inl ⟨hlow, (Except.ok.inj h).symm⟩
    · exact absurd (Except.ok.inj h).symm hne
  | some iter =>
    obtain ⟨before, after, hiters, hpasses, hhits, hbefore⟩ := k.stakeLoop_false_some hloop
    have hmem : iter ∈ List.range maxIter := by
      rw [hiters]
      exact List.mem_append_right before List.mem_cons_self
    rw [range_split hiters] at hbefore
    refine Or.inr ⟨iter, List.mem_range.1 hmem, hpasses, hhits, ?_, fun j hj =>
      hbefore j (List.mem_range.2 hj)⟩
    dsimp only at h
    split at h
    · exact (Except.ok.inj h).symm
    · exact (Except.ok.inj h).symm

theorem isNull_of_ne {start blocktime : UInt32} (h : k.isNull start = false) (hne : blocktime ≠ 0) :
    k.isNull blocktime = false := by
  unfold isNull at h ⊢
  simp only [Bool.or_eq_false_iff, decide_eq_false_iff_not] at h ⊢
  exact ⟨⟨⟨h.1.1.1, hne⟩, h.1.2⟩, h.2⟩

/-! ## The target -/

theorem toNat_add_one {age : UInt64} (h : age + 1 ≠ 0) : (age + 1).toNat = age.toNat + 1 := by
  have hlt := age.toNat_lt
  have hne : (age + 1).toNat ≠ 0 := fun heq => h (UInt64.toNat_inj.1 heq)
  rw [UInt64.toNat_add] at hne ⊢
  change (age.toNat + 1) % 2 ^ 64 ≠ 0 at hne
  change (age.toNat + 1) % 2 ^ 64 = _
  omega

/-- The test of the hash, where nothing overflows. -/
theorem hits_eq {age : UInt64} (hage : age + 1 ≠ 0)
    (hfits : k.ratio.toNat * (k.hash.toNat / (age.toNat + 1)) < 2 ^ 256) :
    k.hits age = .ok (decide (k.ratio.toNat * (k.hash.toNat / (age.toNat + 1)) ≤
      k.bnTarget.toNat)) := by
  have hlt := age.toNat_lt
  have hdiv : (k.hash / BitVec.ofNat 256 (age + 1).toNat).toNat =
      k.hash.toNat / (age.toNat + 1) := by
    rw [BitVec.toNat_udiv, BitVec.toNat_ofNat, toNat_add_one hage, Nat.mod_eq_of_lt (by omega)]
  have hmul : (k.ratio * (k.hash / BitVec.ofNat 256 (age + 1).toNat)).toNat =
      k.ratio.toNat * (k.hash.toNat / (age.toNat + 1)) := by
    rw [BitVec.toNat_mul, hdiv, Nat.mod_eq_of_lt hfits]
  unfold hits
  rw [if_neg hage]
  refine congrArg Except.ok (decide_eq_decide.2 ?_)
  rw [BitVec.le_def, hmul]

/-- A larger coin age meets the target, too. -/
theorem hits_of_le {age age' : UInt64} (hle : age ≤ age') (hage' : age' + 1 ≠ 0)
    (hfits : k.ratio.toNat * (k.hash.toNat / (age.toNat + 1)) < 2 ^ 256)
    (h : k.hits age = .ok true) : k.hits age' = .ok true := by
  have hage : age + 1 ≠ 0 := by
    intro heq
    unfold hits at h
    rw [if_pos heq] at h
    cases h
  have hdiv : k.hash.toNat / (age'.toNat + 1) ≤ k.hash.toNat / (age.toNat + 1) :=
    Nat.div_le_div_left (Nat.succ_le_succ (UInt64.le_iff_toNat_le.1 hle)) (Nat.succ_pos _)
  have hmul := Nat.mul_le_mul_left k.ratio.toNat hdiv
  rw [k.hits_eq hage hfits] at h
  rw [k.hits_eq hage' (lt_of_le_of_lt hmul hfits)]
  have hle' := of_decide_eq_true (Except.ok.inj h)
  rw [decide_eq_true (hmul.trans hle')]

/-- Where the coin ages are covered, a validator accepts what a staker finds. -/
theorem accepted_of_kept {candidate : UInt32} (h : k.Kept (k.startTime candidate)) :
    k.Accepted candidate := by
  intro blocktime hmined hne
  change k.stakeFrom false (k.startTime candidate) = _ at hmined
  obtain ⟨hnull, htarget, hfound⟩ := k.stakeFrom_false hmined hne
  have hnull' := k.isNull_of_ne hnull hne
  refine ⟨blocktime, ?_, hne⟩
  change k.stakeFrom true blocktime = _
  unfold Kept at h
  by_cases hlow : k.nHeight < 10
  · rw [if_pos hlow] at h
    refine k.stakeFrom_true_low hnull' htarget hlow fun age hage => ?_
    refine h blocktime age ?_ hage
    rcases hfound with ⟨-, heq⟩ | ⟨iter, hiter, hpasses, -, heq, -⟩
    · exact Or.inl heq
    · exact Or.inr ⟨iter, hiter, hpasses, heq⟩
  · rw [if_neg hlow] at h
    rcases hfound with ⟨hlow', -⟩ | ⟨iter, hiter, hpasses, hhits, rfl, -⟩
    · exact absurd hlow' hlow
    · obtain ⟨age, hage, hle, hne', hfits⟩ := h iter hiter hpasses
      exact k.stakeFrom_true hnull' htarget hage (k.hits_of_le hle hne' hfits hhits)

/-! ## Without overflow -/

/-- Below this the hash meets the target for a coin age. -/
def bar (age : UInt64) : Nat :=
  (k.bnTarget.toNat / k.ratio.toNat + 1) * (age.toNat + 1)

/-- With any hash, the staker gets to the loop above the first heights, and no division by a
coin age fails or overflows. -/
structure Regular (start : UInt32) : Prop where
  /-- Not one of the first heights. -/
  height : ¬ k.nHeight < 10
  /-- There is something to stake. -/
  stakes : k.isNull start = false
  /-- The target is not zero. -/
  target : k.bnTarget ≠ 0
  /-- The target is at most the minimum difficulty. -/
  ratio_pos : 0 < k.ratio.toNat
  /-- The staker's divisions. -/
  mined : ∀ iter < maxIter, k.passes start iter = true → k.candidateTime start iter ≠ 0 ∧
    k.coinage start iter + 1 ≠ 0 ∧ k.ratio.toNat ≤ (k.coinage start iter).toNat + 1
  /-- The validator's divisions. -/
  validated : ∀ iter < maxIter, k.passes start iter = true → ∀ age,
    k.validatorAge (k.candidateTime start iter) = some age →
    age + 1 ≠ 0 ∧ k.ratio.toNat ≤ age.toNat + 1

/-- At each second that some hash wins first, the validator's coin age is at least the
staker's, or large enough for every hash. -/
def AgesKept (start : UInt32) : Prop :=
  ∀ iter < maxIter, k.passes start iter = true →
    (∀ j < iter, k.passes start j = true →
      k.coinage start j < k.coinage start iter ∧ k.bar (k.coinage start j) < 2 ^ 256) →
    ∃ age, k.validatorAge (k.candidateTime start iter) = some age ∧
      (k.coinage start iter ≤ age ∨ 2 ^ 256 ≤ k.bar age)

variable {k}

/-- A ratio that is not above the coin age does not overflow the hash. -/
theorem hash_fits {age : UInt64} (hle : k.ratio.toNat ≤ age.toNat + 1) :
    k.ratio.toNat * (k.hash.toNat / (age.toNat + 1)) < 2 ^ 256 :=
  calc
    _ ≤ (age.toNat + 1) * (k.hash.toNat / (age.toNat + 1)) := Nat.mul_le_mul_right _ hle
    _ ≤ k.hash.toNat := Nat.mul_div_le _ _
    _ < 2 ^ 256 := k.hash.isLt

/-- Where nothing overflows, the hash is compared with the bar. -/
theorem hits_bar {age : UInt64} (hratio : 0 < k.ratio.toNat) (hage : age + 1 ≠ 0)
    (hle : k.ratio.toNat ≤ age.toNat + 1) :
    k.hits age = .ok (decide (k.hash.toNat < k.bar age)) := by
  rw [k.hits_eq hage (hash_fits hle)]
  refine congrArg Except.ok (decide_eq_decide.2 ?_)
  unfold bar
  rw [← Nat.div_lt_iff_lt_mul (Nat.succ_pos _), Nat.lt_succ_iff, Nat.le_div_iff_mul_le hratio,
    Nat.mul_comm]

theorem bar_lt_bar {age age' : UInt64} (h : age < age') : k.bar age < k.bar age' := by
  have hlt := UInt64.lt_iff_toNat_lt.1 h
  exact Nat.mul_lt_mul_of_pos_left (Nat.succ_lt_succ hlt) (Nat.succ_pos _)

theorem bar_le_bar {age age' : UInt64} (h : age ≤ age') : k.bar age ≤ k.bar age' :=
  Nat.mul_le_mul_left _ (Nat.succ_le_succ (UInt64.le_iff_toNat_le.1 h))

/-- Where the ages are kept, a validator accepts what a staker finds. -/
theorem accepted_of_agesKept {candidate : UInt32} (hreg : k.Regular (k.startTime candidate))
    (hkept : k.AgesKept (k.startTime candidate)) : k.Accepted candidate := by
  intro blocktime hmined hne
  change k.stakeFrom false (k.startTime candidate) = _ at hmined
  obtain ⟨hnull, htarget, hfound⟩ := k.stakeFrom_false hmined hne
  refine ⟨blocktime, ?_, hne⟩
  rcases hfound with ⟨hlow, -⟩ | ⟨iter, hiter, hpasses, hhits, rfl, hbefore⟩
  · exact absurd hlow hreg.height
  obtain ⟨-, hage, hle⟩ := hreg.mined iter hiter hpasses
  rw [hits_bar hreg.ratio_pos hage hle] at hhits
  have hwins := of_decide_eq_true (Except.ok.inj hhits)
  have hreachable : ∀ j < iter, k.passes (k.startTime candidate) j = true →
      k.coinage (k.startTime candidate) j < k.coinage (k.startTime candidate) iter ∧
        k.bar (k.coinage (k.startTime candidate) j) < 2 ^ 256 := by
    intro j hj hpj
    obtain ⟨-, hagej, hlej⟩ := hreg.mined j (hj.trans hiter) hpj
    have hmiss := hbefore j hj hpj
    rw [hits_bar hreg.ratio_pos hagej hlej] at hmiss
    have hbar := Nat.not_lt.1 (of_decide_eq_false (Except.ok.inj hmiss))
    refine ⟨?_, lt_of_le_of_lt hbar k.hash.isLt⟩
    by_contra hnot
    have hbars := bar_le_bar (k := k) (UInt64.not_lt.1 hnot)
    omega
  obtain ⟨age, hvalidator, hcovers⟩ := hkept iter hiter hpasses hreachable
  obtain ⟨hage', hle'⟩ := hreg.validated iter hiter hpasses age hvalidator
  refine k.stakeFrom_true (k.isNull_of_ne hnull hne) htarget hvalidator ?_
  rw [hits_bar hreg.ratio_pos hage' hle']
  refine congrArg Except.ok (decide_eq_true ?_)
  rcases hcovers with hcovers | hcovers
  · exact lt_of_lt_of_le hwins (bar_le_bar hcovers)
  · exact lt_of_lt_of_le k.hash.isLt hcovers

/-- A second that is the first to win is what the staker finds. -/
theorem stake_false_eq {candidate : UInt32} (hreg : k.Regular (k.startTime candidate)) {iter : Nat}
    (hiter : iter < maxIter) (hpasses : k.passes (k.startTime candidate) iter = true)
    (hwins : k.hash.toNat < k.bar (k.coinage (k.startTime candidate) iter))
    (hbefore : ∀ j < iter, k.passes (k.startTime candidate) j = true →
      k.bar (k.coinage (k.startTime candidate) j) ≤ k.hash.toNat) :
    k.stake false candidate = .ok (k.candidateTime (k.startTime candidate) iter) := by
  obtain ⟨-, hage, hle⟩ := hreg.mined iter hiter hpasses
  have hhits : k.hits (k.coinage (k.startTime candidate) iter) = .ok true := by
    rw [hits_bar hreg.ratio_pos hage hle, decide_eq_true hwins]
  have hmiss : ∀ j ∈ List.range iter, k.passes (k.startTime candidate) j = true →
      k.hits (k.coinage (k.startTime candidate) j) = .ok false := by
    intro j hj hpj
    have hlt := List.mem_range.1 hj
    obtain ⟨-, hagej, hlej⟩ := hreg.mined j (hlt.trans hiter) hpj
    rw [hits_bar hreg.ratio_pos hagej hlej,
      decide_eq_false (Nat.not_lt.2 (hbefore j hlt hpj))]
  have hrange : ∃ after, List.range maxIter = List.range iter ++ iter :: after := by
    obtain ⟨m, hm⟩ : ∃ m, maxIter = iter + (m + 1) := ⟨maxIter - iter - 1, by omega⟩
    rw [hm, List.range_add, List.range_succ_eq_map, List.map_cons]
    exact ⟨_, rfl⟩
  obtain ⟨after, hrange⟩ := hrange
  change k.stakeFrom false (k.startTime candidate) = _
  unfold stakeFrom
  rw [hreg.stakes, if_neg Bool.false_ne_true, if_neg hreg.target, hrange,
    k.stakeLoop_false_eq hpasses hhits hmiss, except_ok_bind]
  dsimp only
  rw [if_neg hreg.height]
  rfl

/-- A validator refuses a block time when the hash is not below the bar of its coin age. -/
theorem stakeFrom_true_refused {blocktime : UInt32} (hheight : ¬ k.nHeight < 10)
    (hratio : 0 < k.ratio.toNat)
    (hages : ∀ age, k.validatorAge blocktime = some age →
      age + 1 ≠ 0 ∧ k.ratio.toNat ≤ age.toNat + 1 ∧ k.bar age ≤ k.hash.toNat)
    {verdict : UInt32} (h : k.stakeFrom true blocktime = .ok verdict) : verdict = 0 := by
  unfold stakeFrom at h
  split at h
  · exact (Except.ok.inj h).symm
  split at h
  · cases h
  cases hfind : (List.range maxIter).find? (k.passes blocktime) with
  | none =>
    rw [k.stakeLoop_true_none hfind, except_ok_bind] at h
    dsimp only at h
    exact (Except.ok.inj h).symm
  | some iter =>
    obtain ⟨hage, hle, hbar⟩ := hages _ (Option.map_eq_some_iff.2 ⟨iter, hfind, rfl⟩)
    rw [k.stakeLoop_true_some hfind, hits_bar hratio hage hle,
      decide_eq_false (Nat.not_lt.2 hbar), except_ok_bind, except_ok_bind] at h
    dsimp only at h
    exact (Except.ok.inj h).symm

/-- Where a validator accepts what a staker finds for every hash, the ages are kept. -/
theorem agesKept_of_accepted {candidate : UInt32} (hreg : k.Regular (k.startTime candidate))
    (h : ∀ hash, ({ k with hash := hash } : StakeKernel).Accepted candidate) :
    k.AgesKept (k.startTime candidate) := by
  intro iter hiter hpasses hreachable
  by_contra hnone
  obtain ⟨htime, -, -⟩ := hreg.mined iter hiter hpasses
  -- the largest hash that wins at this second
  have hpos : 0 < k.bar (k.coinage (k.startTime candidate) iter) :=
    Nat.mul_pos (Nat.succ_pos _) (Nat.succ_pos _)
  let top := min (k.bar (k.coinage (k.startTime candidate) iter)) (2 ^ 256) - 1
  have htop : top < 2 ^ 256 := by omega
  have hbelow : ∀ x, x < k.bar (k.coinage (k.startTime candidate) iter) → x < 2 ^ 256 →
      x ≤ top := by
    intro x hx hx'
    omega
  let k' : StakeKernel := { k with hash := BitVec.ofNat 256 top }
  have hhash : k'.hash.toNat = top := by
    change (BitVec.ofNat 256 top).toNat = top
    rw [BitVec.toNat_ofNat, Nat.mod_eq_of_lt htop]
  have hreg' : k'.Regular (k'.startTime candidate) :=
    ⟨hreg.height, hreg.stakes, hreg.target, hreg.ratio_pos, hreg.mined, hreg.validated⟩
  have hwins : k'.hash.toNat < k'.bar (k'.coinage (k'.startTime candidate) iter) := by
    rw [hhash]
    change top < k.bar (k.coinage (k.startTime candidate) iter)
    omega
  have hbefore : ∀ j < iter, k'.passes (k'.startTime candidate) j = true →
      k'.bar (k'.coinage (k'.startTime candidate) j) ≤ k'.hash.toNat := by
    intro j hj hpj
    obtain ⟨hlt, hsmall⟩ := hreachable j hj hpj
    rw [hhash]
    exact hbelow _ (bar_lt_bar hlt) hsmall
  have hmined := stake_false_eq hreg' hiter hpasses hwins hbefore
  obtain ⟨verdict, hverdict, hne⟩ := h (BitVec.ofNat 256 top) _ hmined htime
  refine hne (stakeFrom_true_refused hreg'.height hreg'.ratio_pos (fun age hage => ?_) hverdict)
  obtain ⟨hage', hle'⟩ := hreg'.validated iter hiter hpasses age hage
  refine ⟨hage', hle', ?_⟩
  rw [hhash]
  have hnot : ¬ (k.coinage (k.startTime candidate) iter ≤ age ∨ 2 ^ 256 ≤ k.bar age) :=
    fun hcovers => hnone ⟨age, hage, hcovers⟩
  rw [not_or, UInt64.not_le, Nat.not_le] at hnot
  exact hbelow _ (bar_lt_bar hnot.1) hnot.2

end StakeKernel

end IndexChain.Stake
