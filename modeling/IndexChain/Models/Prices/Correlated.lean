import IndexChain.Models.Prices.Opret
import IndexChain.Models.Prices.Synthetic
import Mathlib.Data.Int.ModEq
import Mathlib.Data.List.GetD
import Mathlib.Data.List.Rotate

/-!
# Correlated prices

`komodo_pricecorrelated` of `komodo_gateway.h`, as all its callers call it, without an array for
the prices that agree. Each price of the window is a candidate, from a position that the seed
gives, and the first one that more than half of the window is close to is returned. The position
is a sum of 64 bits, so a seed near the largest number passes over candidates
(`correlates_iff`).
-/

namespace IndexChain.Prices

open IndexChain.Core

/-! ## The window -/

namespace PriceConfig

variable (cfg : PriceConfig)

/-- `PRICES_DAYWINDOW`: the blocks of a day, and one. -/
def daywindow : Nat := (Int.tdiv (3600 * 24) cfg.blocktime + 1).toNat

/-- The number of prices of a block, the time among them. -/
def numprices : Nat := cfg.cbopretsize / 4

/-- `PriceMult`. -/
def priceMult : List Int :=
  List.replicate 4 10000 ++
    (if cfg.cbopret &&& 2 ≠ 0 then List.replicate forex.length 10000 else []) ++
    (if cfg.cbopret &&& 4 ≠ 0 then List.replicate (cryptos.length + cfg.prices.length) 1 else []) ++
    (if cfg.cbopret &&& 8 ≠ 0 then List.replicate cfg.stocks.length 1000000 else [])

/-- `komodo_pricemult`. -/
def pricemult (ind : Nat) : Int :=
  if cfg.cbopret &&& 1 ≠ 0 ∧ ind < komodoMaxprices then cfg.priceMult.getD ind 0 else 0

theorem length_priceMult : cfg.priceMult.length = 4 +
    (if cfg.cbopret &&& 2 ≠ 0 then forex.length else 0) +
    (if cfg.cbopret &&& 4 ≠ 0 then cryptos.length + cfg.prices.length else 0) +
    (if cfg.cbopret &&& 8 ≠ 0 then cfg.stocks.length else 0) := by
  simp only [priceMult, List.length_append, List.length_replicate, apply_ite List.length,
    List.length_nil]

/-- The multipliers are those of the prices. -/
theorem numprices_eq (h : cfg.cbopret &&& 1 ≠ 0) : cfg.numprices = cfg.priceMult.length := by
  rw [numprices, cbopretsize, if_pos h, length_priceMult, pricesSizebit0]
  split
  · split
    · split
      · omega
      · omega
    · split
      · omega
      · omega
  · split
    · split
      · omega
      · omega
    · split
      · omega
      · omega

theorem priceMult_pos {x : Int} (hx : x ∈ cfg.priceMult) : 0 < x ∧ x ≤ 1000000 := by
  rw [priceMult, List.mem_append, List.mem_append, List.mem_append] at hx
  rcases hx with ((hx | hx) | hx) | hx
  · rw [List.eq_of_mem_replicate hx]
    decide
  · split at hx
    · rw [List.eq_of_mem_replicate hx]
      decide
    · exact absurd hx List.not_mem_nil
  · split at hx
    · rw [List.eq_of_mem_replicate hx]
      decide
    · exact absurd hx List.not_mem_nil
  · split at hx
    · rw [List.eq_of_mem_replicate hx]
      decide
    · exact absurd hx List.not_mem_nil

variable {cfg}

/-- Every price of a chain has a multiplier. -/
theorem pricemult_pos {ind : Nat} (hind : ind < cfg.numprices)
    (hmax : cfg.numprices ≤ komodoMaxprices) :
    0 < cfg.pricemult ind ∧ cfg.pricemult ind ≤ 1000000 := by
  by_cases hbit : cfg.cbopret &&& 1 ≠ 0
  · have hlen : ind < cfg.priceMult.length := by rwa [← cfg.numprices_eq hbit]
    rw [pricemult, if_pos ⟨hbit, hind.trans_le hmax⟩, List.getD_eq_getElem _ _ hlen]
    exact cfg.priceMult_pos (List.getElem_mem hlen)
  · rw [numprices, cbopretsize, if_neg hbit] at hind
    exact absurd hind (by omega)

end PriceConfig

/-! ## Candidates -/

/-- The highest price that agrees with a reference price. -/
def correlatedHigh (refprice : Int) : Int :=
  let high := toInt64 (refprice * (COIN + pricesErrorrate * 5)) / COIN
  if high = refprice then high + 1 else high

/-- The lowest price that agrees with a reference price. -/
def correlatedLow (refprice : Int) : Int :=
  let low := toInt64 (refprice * (COIN - pricesErrorrate * 5)) / COIN
  if low = refprice then low - 1 else low

/-- A price agrees with a reference price. -/
def PricesAgree (refprice price : UInt32) : Prop :=
  correlatedLow refprice.toNat ≤ price.toNat ∧ (price.toNat : Int) ≤ correlatedHigh refprice.toNat

instance (refprice price : UInt32) : Decidable (PricesAgree refprice price) :=
  inferInstanceAs (Decidable (_ ∧ _))

/-- The inner loop, over the prices from the candidate on: what the function returns, if it
returns from it. -/
def correlateLoop (mult : Int) (half : Nat) (refprice : UInt32) : List UInt32 → Nat → Option Int
  | [], _ => none
  | price :: rest, correlation =>
    if price = 0 then some (-1)
    else if PricesAgree refprice price then
      if half < correlation + 1 then some (toInt64 (refprice.toNat * mult))
      else correlateLoop mult half refprice rest (correlation + 1)
    else correlateLoop mult half refprice rest correlation

/-- The position of a candidate. -/
def candidate (daywindow : Nat) (seed : UInt64) (iter : Nat) : Nat :=
  (iter + seed.toNat) % 2 ^ 64 % daywindow

/-- The outer loop, over the candidates that are left. -/
def candidateLoop (mult : Int) (daywindow : Nat) (seed : UInt64) (rawprices : List UInt32) :
    List Nat → Int
  | [] => 0
  | iter :: rest =>
    let i := candidate daywindow seed iter
    match correlateLoop mult (daywindow / 2) (rawprices.getD i 0) (rawprices.rotate i) 0 with
    | some r => r
    | none => candidateLoop mult daywindow seed rawprices rest

/-- `komodo_pricecorrelated` with `nonzprices` zero. -/
def pricecorrelated (cfg : PriceConfig) (seed : UInt64) (ind : Nat) (rawprices : List UInt32) :
    Int :=
  if cfg.daywindow < 2 ∨ komodoMaxprices ≤ ind then -1
  else candidateLoop (cfg.pricemult ind) cfg.daywindow seed rawprices (List.range cfg.daywindow)

/-! ## The price that is found -/

/-- More than half of a window agrees with a price. -/
def Majority (rawprices : List UInt32) (refprice : UInt32) : Prop :=
  rawprices.length / 2 < rawprices.countP fun price => decide (PricesAgree refprice price)

instance (rawprices : List UInt32) (refprice : UInt32) : Decidable (Majority rawprices refprice) :=
  inferInstanceAs (Decidable (_ < _))

/-- The inner loop counts the prices that agree. -/
theorem correlateLoop_eq {mult : Int} {half : Nat} {refprice : UInt32} {l : List UInt32}
    (hl : ∀ price ∈ l, price ≠ 0) {correlation : Nat} (hcorr : correlation ≤ half) :
    correlateLoop mult half refprice l correlation =
      if half < correlation + l.countP fun price => decide (PricesAgree refprice price) then
        some (toInt64 (refprice.toNat * mult))
      else none := by
  induction l generalizing correlation with
  | nil => rw [correlateLoop, List.countP_nil, Nat.add_zero, if_neg (not_lt.2 hcorr)]
  | cons price l ih =>
    obtain ⟨hprice, hl⟩ := List.forall_mem_cons.1 hl
    rw [correlateLoop, if_neg hprice, List.countP_cons]
    by_cases hagrees : PricesAgree refprice price
    · simp only [hagrees, decide_true, ↓reduceIte]
      by_cases hhalf : half < correlation + 1
      · rw [if_pos hhalf, if_pos (by omega)]
      · rw [if_neg hhalf, ih hl (not_lt.1 hhalf), Nat.add_right_comm, Nat.add_assoc]
    · simp only [hagrees, decide_false, Bool.false_eq_true, ↓reduceIte, Nat.add_zero]
      exact ih hl hcorr

/-- A candidate is returned when most of the window agrees with it. -/
theorem correlateLoop_rotate {mult : Int} {rawprices : List UInt32}
    (hnonz : ∀ price ∈ rawprices, price ≠ 0) (refprice : UInt32) (i : Nat) :
    correlateLoop mult (rawprices.length / 2) refprice (rawprices.rotate i) 0 =
      if Majority rawprices refprice then some (toInt64 (refprice.toNat * mult)) else none := by
  have hrotate : ∀ price ∈ rawprices.rotate i, price ≠ 0 := fun price hprice =>
    hnonz price (List.mem_rotate.1 hprice)
  rw [correlateLoop_eq hrotate (Nat.zero_le _), Nat.zero_add,
    (List.rotate_perm rawprices i).countP_eq]
  rfl

/-- The outer loop returns the first candidate that most of the window agrees with. -/
theorem candidateLoop_cases (mult : Int) (seed : UInt64) {rawprices : List UInt32}
    (hnonz : ∀ price ∈ rawprices, price ≠ 0) (iters : List Nat) :
    (candidateLoop mult rawprices.length seed rawprices iters = 0 ∧
      ∀ iter ∈ iters, ¬ Majority rawprices
        (rawprices.getD (candidate rawprices.length seed iter) 0)) ∨
    ∃ iter ∈ iters, ∃ refprice,
      refprice = rawprices.getD (candidate rawprices.length seed iter) 0 ∧
      Majority rawprices refprice ∧
      candidateLoop mult rawprices.length seed rawprices iters =
        toInt64 (refprice.toNat * mult) := by
  induction iters with
  | nil => exact Or.inl ⟨rfl, fun _ h => absurd h List.not_mem_nil⟩
  | cons iter iters ih =>
    rw [candidateLoop, correlateLoop_rotate hnonz]
    by_cases hmajor : Majority rawprices (rawprices.getD (candidate rawprices.length seed iter) 0)
    · rw [if_pos hmajor]
      exact Or.inr ⟨iter, List.mem_cons_self, _, rfl, hmajor, rfl⟩
    · rw [if_neg hmajor]
      rcases ih with ⟨hzero, hnone⟩ | ⟨iter', hmem, hfound⟩
      · exact Or.inl ⟨hzero, List.forall_mem_cons.2 ⟨hmajor, hnone⟩⟩
      · exact Or.inr ⟨iter', List.mem_cons_of_mem _ hmem, hfound⟩

/-! ## The candidates that are tried -/

/-- The candidate loop passes over a position: the sum of the seed and the iteration wraps around
before it gets there, and does not get there afterwards. -/
def Skipped (daywindow : Nat) (seed : UInt64) (j : Nat) : Prop :=
  2 ^ 64 < seed.toNat + daywindow ∧ daywindow - (2 ^ 64 - seed.toNat) ≤ j ∧
    2 ^ 64 - seed.toNat ≤ (2 ^ 64 - 1 - j) % daywindow

instance (daywindow : Nat) (seed : UInt64) (j : Nat) : Decidable (Skipped daywindow seed j) :=
  inferInstanceAs (Decidable (_ ∧ _ ∧ _))

/-- Two positions before the end that agree in the window. -/
theorem mod_eq_iff_of_le (daywindow : Nat) {n x y : Nat} (hx : x ≤ n) (hy : y ≤ n) :
    (n - x) % daywindow = (n - y) % daywindow ↔ x % daywindow = y % daywindow := by
  have hcast : ∀ z ≤ n, (((n - z : Nat) : Int)) = n - z := fun z hz => Int.ofNat_sub hz
  change (n - x) ≡ (n - y) [MOD daywindow] ↔ x ≡ y [MOD daywindow]
  rw [← Int.natCast_modEq_iff, ← Int.natCast_modEq_iff, hcast x hx, hcast y hy]
  constructor
  · intro h
    simpa using (Int.ModEq.sub_left (n : Int) h)
  · intro h
    exact Int.ModEq.sub_left (n : Int) h

/-- A run of as many numbers as the window has reaches every position. -/
theorem exists_residue {daywindow j : Nat} (hj : j < daywindow) (s : Nat) :
    ∃ iter < daywindow, (iter + s) % daywindow = j := by
  have hs := Nat.mod_lt s (by omega : 0 < daywindow)
  refine ⟨(j + (daywindow - s % daywindow)) % daywindow, Nat.mod_lt _ (by omega), ?_⟩
  rw [Nat.mod_add_mod, Nat.add_assoc, ← Nat.add_mod_mod, Nat.add_comm (_ - _) s]
  have hdiv := Nat.div_add_mod s daywindow
  have hsum : s + (daywindow - s % daywindow) = daywindow * (s / daywindow + 1) := by
    rw [Nat.mul_add, Nat.mul_one]
    omega
  rw [hsum, Nat.mul_mod_right, Nat.add_zero, Nat.mod_eq_of_lt hj]

/-- A position of the window is tried unless it is skipped. -/
theorem exists_candidate_iff {daywindow : Nat} {seed : UInt64} {j : Nat} (hj : j < daywindow)
    (hday : daywindow < 2 ^ 32) :
    (∃ iter < daywindow, candidate daywindow seed iter = j) ↔ ¬ Skipped daywindow seed j := by
  have hseed := seed.toNat_lt
  generalize hs : seed.toNat = s at hseed
  have hmod : j % daywindow = j := Nat.mod_eq_of_lt hj
  -- before the sum wraps around, a candidate lies a distance below 2^64 - s under 2^64
  have hbefore : ∀ t, t < 2 ^ 64 - s →
      ((2 ^ 64 - 1 - t) % daywindow = j ↔ t % daywindow = (2 ^ 64 - 1 - j) % daywindow) := by
    intro t ht
    have hback : 2 ^ 64 - 1 - (2 ^ 64 - 1 - j) = j := by omega
    have h := mod_eq_iff_of_le daywindow (by omega : t ≤ 2 ^ 64 - 1)
      (by omega : 2 ^ 64 - 1 - j ≤ 2 ^ 64 - 1)
    rw [hback, hmod] at h
    exact h
  have hunder : (2 ^ 64 - 1 - j) % daywindow < daywindow := Nat.mod_lt _ (by omega)
  rw [Skipped, hs]
  constructor
  · rintro ⟨iter, hiter, hcand⟩ ⟨hwrap, hlow, hhigh⟩
    rw [candidate, hs] at hcand
    by_cases hover : iter + s < 2 ^ 64
    · rw [Nat.mod_eq_of_lt hover] at hcand
      have ht := (hbefore (2 ^ 64 - 1 - (iter + s)) (by omega)).1
        (by rw [show 2 ^ 64 - 1 - (2 ^ 64 - 1 - (iter + s)) = iter + s by omega]; exact hcand)
      rw [Nat.mod_eq_of_lt (by omega)] at ht
      omega
    · have hsum : (iter + s) % 2 ^ 64 = iter + s - 2 ^ 64 := by
        rw [Nat.mod_eq_sub_mod (by omega), Nat.mod_eq_of_lt (by omega)]
      rw [hsum, Nat.mod_eq_of_lt (by omega)] at hcand
      omega
  · intro hnot
    by_cases hover : s + daywindow ≤ 2 ^ 64
    · -- the sum does not wrap around, and reaches every residue
      obtain ⟨iter, hiter, hres⟩ := exists_residue hj s
      have hsum : (iter + s) % 2 ^ 64 = iter + s := Nat.mod_eq_of_lt (by omega)
      exact ⟨iter, hiter, by rw [candidate, hs, hsum, hres]⟩
    by_cases hdist : (2 ^ 64 - 1 - j) % daywindow < 2 ^ 64 - s
    · -- the candidate before the sum wraps around
      generalize ht : (2 ^ 64 - 1 - j) % daywindow = t at hdist hunder hnot
      have h := (hbefore t hdist).2 (by rw [← ht, Nat.mod_mod])
      have hsum : (2 ^ 64 - 1 - s - t + s) % 2 ^ 64 = 2 ^ 64 - 1 - t := by
        rw [show 2 ^ 64 - 1 - s - t + s = 2 ^ 64 - 1 - t by omega, Nat.mod_eq_of_lt (by omega)]
      exact ⟨2 ^ 64 - 1 - s - t, by omega, by rw [candidate, hs, hsum, h]⟩
    · -- the candidate afterwards
      have hsum : (j + (2 ^ 64 - s) + s) % 2 ^ 64 = j := by
        rw [show j + (2 ^ 64 - s) + s = 2 ^ 64 + j by omega, Nat.add_mod_left,
          Nat.mod_eq_of_lt (by omega)]
      exact ⟨j + (2 ^ 64 - s), by omega, by rw [candidate, hs, hsum, hmod]⟩

/-! ## Exactly when the correlated price is found -/

section Correlates

variable {cfg : PriceConfig} {seed : UInt64} {ind : Nat} {rawprices : List UInt32}

/-- What is returned is a price of the window that most of the window agrees with, and zero
only when there is none. -/
structure Correlates (cfg : PriceConfig) (seed : UInt64) (ind : Nat) (rawprices : List UInt32) :
    Prop where
  /-- A price that is returned. -/
  found : pricecorrelated cfg seed ind rawprices ≠ 0 → ∃ refprice ∈ rawprices,
    Majority rawprices refprice ∧
      pricecorrelated cfg seed ind rawprices = refprice.toNat * cfg.pricemult ind
  /-- No price is passed over. -/
  complete : pricecorrelated cfg seed ind rawprices = 0 →
    ∀ refprice ∈ rawprices, ¬ Majority rawprices refprice

theorem daywindow_lt : cfg.daywindow < 2 ^ 32 := by
  have habs := Int.natAbs_tdiv_le_natAbs (3600 * 24) cfg.blocktime
  rw [PriceConfig.daywindow]
  omega

/-- What the function returns for a window of prices. -/
theorem pricecorrelated_cases (seed : UInt64) (hwindow : rawprices.length = cfg.daywindow)
    (hday : 2 ≤ cfg.daywindow) (hnonz : ∀ price ∈ rawprices, price ≠ 0)
    (hind : ind < cfg.numprices) (hmax : cfg.numprices ≤ komodoMaxprices) :
    (pricecorrelated cfg seed ind rawprices = 0 ∧
      ∀ j < cfg.daywindow, ¬ Skipped cfg.daywindow seed j →
        ¬ Majority rawprices (rawprices.getD j 0)) ∨
    ∃ j < cfg.daywindow, ¬ Skipped cfg.daywindow seed j ∧
      Majority rawprices (rawprices.getD j 0) ∧
      pricecorrelated cfg seed ind rawprices =
        (rawprices.getD j 0).toNat * cfg.pricemult ind ∧
      pricecorrelated cfg seed ind rawprices ≠ 0 := by
  obtain ⟨hpos, hle⟩ := PriceConfig.pricemult_pos hind hmax
  have htried : ∀ j < cfg.daywindow,
      (∃ iter < cfg.daywindow, candidate cfg.daywindow seed iter = j) ↔
        ¬ Skipped cfg.daywindow seed j := fun j hj => exists_candidate_iff hj daywindow_lt
  rw [pricecorrelated, if_neg (by omega)]
  rcases candidateLoop_cases (cfg.pricemult ind) seed hnonz
    (List.range cfg.daywindow) with ⟨hzero, hnone⟩ | ⟨iter, hiter, refprice, href, hmajor, hfound⟩
  · rw [hwindow] at hzero hnone
    refine Or.inl ⟨hzero, fun j hj hnot => ?_⟩
    obtain ⟨iter, hiter, rfl⟩ := (htried j hj).2 hnot
    exact hnone iter (List.mem_range.2 hiter)
  · rw [hwindow] at href hfound
    rw [List.mem_range] at hiter
    have hj : candidate cfg.daywindow seed iter < cfg.daywindow := Nat.mod_lt _ (by omega)
    have hmem : refprice ∈ rawprices := by
      rw [href, List.getD_eq_getElem _ _ (hwindow ▸ hj)]
      exact List.getElem_mem _
    have hne : 0 < (refprice.toNat : Int) := by
      have hnat : refprice.toNat ≠ 0 := fun h => hnonz refprice hmem (UInt32.toNat_inj.1 h)
      omega
    have hlt : (refprice.toNat : Int) < 2 ^ 32 := by
      have := refprice.toNat_lt
      omega
    have hprod : 0 < refprice.toNat * cfg.pricemult ind := mul_pos hne hpos
    have hbound : refprice.toNat * cfg.pricemult ind ≤ 2 ^ 32 * 1000000 :=
      mul_le_mul hlt.le hle hpos.le (by decide)
    have hval : toInt64 (refprice.toNat * cfg.pricemult ind) = refprice.toNat * cfg.pricemult ind :=
      toInt64_of_range (by omega) (by omega)
    rw [hval] at hfound
    refine Or.inr ⟨_, hj, (htried _ hj).1 ⟨iter, hiter, rfl⟩, href ▸ hmajor, ?_, ?_⟩
    · rw [hfound, href]
    · rw [hfound]
      exact hprod.ne'

/-- The correlated price is found exactly when a price that most of the window agrees with stands
at a position that the seed does not skip, if there is one at all. -/
theorem correlates_iff (hwindow : rawprices.length = cfg.daywindow) (hday : 2 ≤ cfg.daywindow)
    (hnonz : ∀ price ∈ rawprices, price ≠ 0) (hind : ind < cfg.numprices)
    (hmax : cfg.numprices ≤ komodoMaxprices) :
    Correlates cfg seed ind rawprices ↔
      ∀ j < cfg.daywindow, Majority rawprices (rawprices.getD j 0) →
        ∃ j' < cfg.daywindow, ¬ Skipped cfg.daywindow seed j' ∧
          Majority rawprices (rawprices.getD j' 0) := by
  have hget : ∀ j (hj : j < cfg.daywindow), rawprices.getD j 0 ∈ rawprices := fun j hj => by
    rw [List.getD_eq_getElem _ _ (hwindow ▸ hj)]
    exact List.getElem_mem _
  rcases pricecorrelated_cases seed hwindow hday hnonz hind hmax with
    ⟨hzero, hnone⟩ | ⟨j, hj, hnot, hmajor, hval, hne⟩
  · constructor
    · intro h j hj hmajor
      exact absurd hmajor (h.complete hzero _ (hget j hj))
    · intro h
      refine ⟨fun hne => absurd hzero hne, fun _ refprice hmem hmajor => ?_⟩
      obtain ⟨j, hj, rfl⟩ := List.getElem_of_mem hmem
      obtain ⟨j', hj', hnot, hmajor'⟩ := h j (hwindow ▸ hj)
        (by rw [List.getD_eq_getElem _ _ hj]; exact hmajor)
      exact hnone j' hj' hnot hmajor'
  · refine iff_of_true ⟨fun _ => ⟨_, hget j hj, hmajor, hval⟩, fun hzero => absurd hzero hne⟩ ?_
    exact fun _ _ _ => ⟨j, hj, hnot, hmajor⟩

end Correlates

/-! ## A window of three prices -/

namespace SampleWindow

/-- A chain with two blocks a day. -/
def cfg : PriceConfig where
  cbopret := 1
  prices := []
  stocks := []
  blocktime := 43200

end SampleWindow

open SampleWindow

/-- The last price agrees with the first one, but not the other way round. -/
theorem window_found : Correlates cfg 0 1 [95, 1000, 100] :=
  (correlates_iff (by decide) (by decide) (by simp) (by decide) (by decide)).2
    fun _ _ _ => ⟨2, by decide, by decide, by decide⟩

/-- For the largest seed the candidates are the first, the first and the second price. -/
theorem last_price_skipped :
    pricecorrelated cfg 0xffffffffffffffff 1 [95, 1000, 100] = 0 ∧
    Majority [95, 1000, 100] 100 ∧ Skipped cfg.daywindow 0xffffffffffffffff 2 ∧
    pricecorrelated cfg 0 1 [95, 1000, 100] = 1000000 ∧
    ¬ Correlates cfg 0xffffffffffffffff 1 [95, 1000, 100] := by
  have hzero : pricecorrelated cfg 0xffffffffffffffff 1 [95, 1000, 100] = 0 := by decide
  have hmajor : Majority [95, 1000, 100] 100 := by decide
  refine ⟨hzero, hmajor, by decide, by decide, fun h => ?_⟩
  exact h.complete hzero 100 (by decide) hmajor

end IndexChain.Prices
