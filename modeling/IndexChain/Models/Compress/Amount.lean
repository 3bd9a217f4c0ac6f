import Mathlib.Data.Int.ModEq
import Mathlib.Tactic.IntervalCases
import Mathlib.Tactic.Ring

/-!
# Amount compression

`CTxOutCompressor::CompressAmount` and `DecompressAmount` of `compressor.cpp`. An amount is
divided by its trailing zeros, at most nine, and the last digit that is left is not zero. The
result is computed in 64 bits and does not fit them when the amount has no trailing zero and
is above 2049638230412172402; such an amount is not restored (`decompress_compress_iff`).
-/

namespace IndexChain.Compress

/-- The loop of `CompressAmount`: divide by ten while the last digit is zero. -/
def trailingZeros : Nat → Nat → Nat → Nat × Nat
  | 0, n, e => (n, e)
  | fuel + 1, n, e => if n % 10 = 0 then trailingZeros fuel (n / 10) (e + 1) else (n, e)

/-- `CompressAmount`. -/
def compressAmount (n : Nat) : Nat :=
  if n = 0 then 0
  else
    let (n, e) := trailingZeros 9 n 0
    if e < 9 then
      let d := n % 10
      let n := n / 10
      (1 + (n * 9 + d - 1) * 10 + e) % 2 ^ 64
    else (1 + (n - 1) * 10 + 9) % 2 ^ 64

/-- The loop of `DecompressAmount`: multiply by ten. -/
def timesTen : Nat → Nat → Nat
  | 0, n => n
  | e + 1, n => timesTen e (n * 10 % 2 ^ 64)

/-- `DecompressAmount`. -/
def decompressAmount (x : Nat) : Nat :=
  if x = 0 then 0
  else
    let x := x - 1
    let e := x % 10
    let x := x / 10
    let n :=
      if e < 9 then
        let d := x % 9 + 1
        x / 9 * 10 + d
      else x + 1
    timesTen e n

/-- The compressed amount is a 64-bit number: the amount ends in a zero, or is small enough. -/
def Compressible (n : Nat) : Prop := n % 10 = 0 ∨ n ≤ 2049638230412172402

instance (n : Nat) : Decidable (Compressible n) := inferInstanceAs (Decidable (_ ∨ _))

/-! ## The loops -/

theorem timesTen_eq {e n : Nat} (h : n < 2 ^ 64) : timesTen e n = n * 10 ^ e % 2 ^ 64 := by
  induction e generalizing n with
  | zero =>
    rw [Nat.pow_zero, Nat.mul_one, Nat.mod_eq_of_lt h]
    rfl
  | succ e ih =>
    calc
      timesTen (e + 1) n = n * 10 % 2 ^ 64 * 10 ^ e % 2 ^ 64 := ih (Nat.mod_lt _ (by decide))
      _ = n * 10 ^ (e + 1) % 2 ^ 64 := by
        rw [Nat.mod_mul_mod, Nat.mul_assoc, ← Nat.pow_succ']

/-- What the loop leaves: a number whose last digit is not zero, unless the fuel is spent. -/
theorem trailingZeros_spec {fuel n e m e' : Nat} (h : trailingZeros fuel n e = (m, e')) :
    e ≤ e' ∧ e' ≤ e + fuel ∧ n = m * 10 ^ (e' - e) ∧ (e' < e + fuel → m % 10 ≠ 0) := by
  induction fuel generalizing n e with
  | zero =>
    obtain ⟨rfl, rfl⟩ := Prod.mk.inj h
    simp
  | succ fuel ih =>
    unfold trailingZeros at h
    split at h
    · rename_i hzero
      obtain ⟨hle, hub, hn, hlast⟩ := ih h
      have hexp : e' - e = e' - (e + 1) + 1 := by omega
      refine ⟨by omega, by omega, ?_, fun hlt => hlast (by omega)⟩
      rw [hexp, Nat.pow_succ, ← Nat.mul_assoc, ← hn]
      omega
    · rename_i hdigit
      obtain ⟨rfl, rfl⟩ := Prod.mk.inj h
      refine ⟨le_rfl, by omega, ?_, fun _ => hdigit⟩
      rw [Nat.sub_self, Nat.pow_zero, Nat.mul_one]

/-! ## Restoring an amount -/

/-- The code of `m * 10 ^ e`, for a last digit of `m` that is not zero. -/
def shortCode (m e : Nat) : Nat := 1 + (m / 10 * 9 + m % 10 - 1) * 10 + e

/-- A code that was not reduced is restored. -/
theorem decompressAmount_shortCode {m e : Nat} (he : e < 9) (hm : m % 10 ≠ 0)
    (hlt : m < 2 ^ 64) : decompressAmount (shortCode m e) = m * 10 ^ e % 2 ^ 64 := by
  have hcode : shortCode m e - 1 = (m / 10 * 9 + m % 10 - 1) * 10 + e := by
    unfold shortCode
    omega
  have hne : shortCode m e ≠ 0 := by
    unfold shortCode
    omega
  unfold decompressAmount
  rw [if_neg hne, hcode]
  dsimp only
  have hexp : ((m / 10 * 9 + m % 10 - 1) * 10 + e) % 10 = e := by omega
  have hrest : ((m / 10 * 9 + m % 10 - 1) * 10 + e) / 10 = m / 10 * 9 + m % 10 - 1 := by omega
  have hm' : (m / 10 * 9 + m % 10 - 1) / 9 * 10 + ((m / 10 * 9 + m % 10 - 1) % 9 + 1) = m := by
    omega
  rw [hexp, hrest, if_pos he, hm', timesTen_eq hlt]

/-- The code of a multiple of `10 ^ 9` is restored. -/
theorem decompressAmount_longCode {m : Nat} (hm : 0 < m) (hlt : m < 2 ^ 64) :
    decompressAmount (1 + (m - 1) * 10 + 9) = m * 10 ^ 9 % 2 ^ 64 := by
  unfold decompressAmount
  rw [if_neg (by omega)]
  dsimp only
  have hcode : 1 + (m - 1) * 10 + 9 - 1 = (m - 1) * 10 + 9 := by omega
  have hexp : ((m - 1) * 10 + 9) % 10 = 9 := by omega
  have hrest : ((m - 1) * 10 + 9) / 10 + 1 = m := by omega
  rw [hcode, hexp, if_neg (by decide), hrest, timesTen_eq hlt]

/-- An amount without a trailing zero has a 64-bit code up to the bound. -/
theorem compressible_iff {n : Nat} (hdigit : n % 10 ≠ 0) :
    Compressible n ↔ shortCode n 0 < 2 ^ 64 := by
  unfold Compressible shortCode
  omega

/-- What the last digit of a reduced code makes of the others. -/
theorem decompressAmount_digit {x q e : Nat} (hx : x = 10 * q + e + 1) (he : e < 9)
    (hq : q < 2 ^ 61) : decompressAmount x = (q + q / 9 + 1) * 10 ^ e % 2 ^ 64 := by
  have hexp : (10 * q + e + 1 - 1) % 10 = e := by omega
  have hrest : (10 * q + e + 1 - 1) / 10 = q := by omega
  have hn : q / 9 * 10 + (q % 9 + 1) = q + q / 9 + 1 := by omega
  unfold decompressAmount
  rw [hx, if_neg (Nat.succ_ne_zero _)]
  dsimp only
  rw [hexp, hrest, if_pos he, hn, timesTen_eq (by omega)]

/-- The digits that a reduction by a multiple of `2 ^ 64` leaves for the zeros, and the
differences it makes to the amount without them. -/
def Gap (e gap : Nat) : Prop :=
  (e = 4 ∧ (gap = 2049638230412172402 ∨ gap = 2049638230412172403)) ∨
    (e = 8 ∧ (gap = 4099276460824344804 ∨ gap = 4099276460824344805)) ∨
    (e = 2 ∧ (gap = 6148914691236517205 ∨ gap = 6148914691236517206)) ∨
    (e = 6 ∧ (gap = 8198552921648689607 ∨ gap = 8198552921648689608))

/-- A multiple of a number that differs by a constant from what is multiplied, modulo `M`. -/
theorem eq_of_scaled {m p u gap M : Nat} (hm : m < M) (hp : 0 < p) (hu : (p - 1) * u ≡ 1 [MOD M])
    (h : m * p ≡ m + gap [MOD M]) : m = gap * u % M := by
  have hsplit : m * p = m + m * (p - 1) := by
    rw [Nat.mul_sub_one, Nat.add_sub_of_le (Nat.le_mul_of_pos_right m hp)]
  rw [hsplit] at h
  have hgap : m * (p - 1) ≡ gap [MOD M] := Nat.ModEq.add_left_cancel' m h
  have hinverse : m * ((p - 1) * u) ≡ gap * u [MOD M] := by
    rw [← Nat.mul_assoc]
    exact hgap.mul_right u
  have hone : m * ((p - 1) * u) ≡ m * 1 [MOD M] := hu.mul_left m
  rw [Nat.mul_one] at hone
  calc
    m = m % M := (Nat.mod_eq_of_lt hm).symm
    _ = gap * u % M := hone.symm.trans hinverse

/-- No amount is the multiple of a power of ten that differs by `gap`, when the only one modulo
`2 ^ 64` is too large. -/
theorem scaled_ne_of_inverse {m e u gap : Nat} (hinverse : (10 ^ e - 1) * u ≡ 1 [MOD 2 ^ 64])
    (hlarge : 2 ^ 63 ≤ gap * u % 2 ^ 64 + gap) (h : m + gap < 2 ^ 63) :
    m * 10 ^ e % 2 ^ 64 ≠ m + gap := by
  intro heq
  have hlt : m < 2 ^ 64 := by omega
  have hmod : m * 10 ^ e ≡ m + gap [MOD 2 ^ 64] := by
    unfold Nat.ModEq
    rw [heq, Nat.mod_eq_of_lt (by omega)]
  have hpos : 0 < 10 ^ e := Nat.pow_pos (by decide)
  rw [eq_of_scaled hlt hpos hinverse hmod] at h
  exact absurd h (Nat.not_lt.2 hlarge)

/-- No amount is the multiple of a power of ten that a reduction makes of it. -/
theorem scaled_ne {m e gap : Nat} (hgap : Gap e gap) (h : m + gap < 2 ^ 63) :
    m * 10 ^ e % 2 ^ 64 ≠ m + gap := by
  obtain ⟨rfl, hgap⟩ | ⟨rfl, hgap⟩ | ⟨rfl, hgap⟩ | ⟨rfl, hgap⟩ := hgap
  · have hinverse : (10 ^ 4 - 1) * 13458245626333751279 ≡ 1 [MOD 2 ^ 64] := by decide
    refine scaled_ne_of_inverse hinverse ?_ h
    rcases hgap with rfl | rfl <;> decide
  · have hinverse : (10 ^ 8 - 1) * 300153063250403071 ≡ 1 [MOD 2 ^ 64] := by decide
    refine scaled_ne_of_inverse hinverse ?_ h
    rcases hgap with rfl | rfl <;> decide
  · have hinverse : (10 ^ 2 - 1) * 12670490878911611211 ≡ 1 [MOD 2 ^ 64] := by decide
    refine scaled_ne_of_inverse hinverse ?_ h
    rcases hgap with rfl | rfl <;> decide
  · have hinverse : (10 ^ 6 - 1) * 1672254362768354751 ≡ 1 [MOD 2 ^ 64] := by decide
    refine scaled_ne_of_inverse hinverse ?_ h
    rcases hgap with rfl | rfl <;> decide

/-- What a reduction by `k * 2 ^ 64` leaves of the other digits. -/
theorem reduced_by {m k c e : Nat} (hk : (10 * m + 1) / 2 ^ 64 = k)
    (hc : k * 2 ^ 64 + e = 10 * c) (he : e < 9) :
    ∃ q gap, (10 * m + 1) % 2 ^ 64 = 10 * q + e + 1 ∧ q < 2 ^ 61 ∧
      m + m / 9 + 1 = q + q / 9 + 1 + gap ∧ (gap = c + c / 9 ∨ gap = c + c / 9 + 1) := by
  have hdivide := Nat.div_add_mod (10 * m + 1) (2 ^ 64)
  have hrest := Nat.mod_lt (10 * m + 1) (Nat.two_pow_pos 64)
  rw [hk] at hdivide
  generalize (10 * m + 1) % 2 ^ 64 = rest at hdivide hrest ⊢
  clear hk
  obtain ⟨q, rfl⟩ : ∃ q, m = q + c := ⟨m - c, by omega⟩
  refine ⟨q, (q + c) / 9 + c - q / 9, by omega, by omega, ?_, ?_⟩
  · omega
  · omega

/-- A reduced code of the digits `q` and `e`. -/
theorem reduced_digits {a d : Nat} (hd : 0 < d) (hd' : d < 10) (h : 10 * a + d < 2 ^ 63)
    (hbig : 2 ^ 64 ≤ 10 * (9 * a + d - 1) + 1) :
    ∃ q e gap, (10 * (9 * a + d - 1) + 1) % 2 ^ 64 = 10 * q + e + 1 ∧ e < 9 ∧ q < 2 ^ 61 ∧
      10 * a + d = q + q / 9 + 1 + gap ∧ Gap e gap := by
  have hdigits : 10 * a + d = 9 * a + d - 1 + (9 * a + d - 1) / 9 + 1 := by omega
  rw [hdigits]
  -- the code is reduced by 2 ^ 64 once to four times
  obtain ⟨k, hk⟩ : ∃ k, (10 * (9 * a + d - 1) + 1) / 2 ^ 64 = k := ⟨_, rfl⟩
  have hk1 : 1 ≤ k := by omega
  have hk4 : k ≤ 4 := by omega
  interval_cases k
  · obtain ⟨q, gap, hx, hq, hn, hgap⟩ := reduced_by (c := 1844674407370955162) (e := 4) hk
      (by decide) (by decide)
    exact ⟨q, 4, gap, hx, by decide, hq, hn, Or.inl ⟨rfl, hgap⟩⟩
  · obtain ⟨q, gap, hx, hq, hn, hgap⟩ := reduced_by (c := 3689348814741910324) (e := 8) hk
      (by decide) (by decide)
    exact ⟨q, 8, gap, hx, by decide, hq, hn, Or.inr (Or.inl ⟨rfl, hgap⟩)⟩
  · obtain ⟨q, gap, hx, hq, hn, hgap⟩ := reduced_by (c := 5534023222112865485) (e := 2) hk
      (by decide) (by decide)
    exact ⟨q, 2, gap, hx, by decide, hq, hn, Or.inr (Or.inr (Or.inl ⟨rfl, hgap⟩))⟩
  · obtain ⟨q, gap, hx, hq, hn, hgap⟩ := reduced_by (c := 7378697629483820647) (e := 6) hk
      (by decide) (by decide)
    exact ⟨q, 6, gap, hx, by decide, hq, hn, Or.inr (Or.inr (Or.inr ⟨rfl, hgap⟩))⟩

/-- A reduced code gives another amount. -/
theorem decompressAmount_reduced {n : Nat} (h : n < 2 ^ 63) (hdigit : n % 10 ≠ 0)
    (hbig : 2 ^ 64 ≤ shortCode n 0) : decompressAmount (shortCode n 0 % 2 ^ 64) ≠ n := by
  obtain ⟨a, d, hd, hd', rfl⟩ : ∃ a d, 0 < d ∧ d < 10 ∧ n = 10 * a + d :=
    ⟨n / 10, n % 10, by omega, by omega, by omega⟩
  have hcode : shortCode (10 * a + d) 0 = 10 * (9 * a + d - 1) + 1 := by
    unfold shortCode
    omega
  rw [hcode] at hbig ⊢
  obtain ⟨q, e, gap, hx, he, hq, hn, hgap⟩ := reduced_digits hd hd' h hbig
  rw [decompressAmount_digit hx he hq]
  rw [hn] at h ⊢
  exact scaled_ne hgap h

/-- An amount is restored exactly when its code is a 64-bit number. -/
theorem decompress_compress_iff {n : Nat} (h : n < 2 ^ 63) :
    decompressAmount (compressAmount n) = n ↔ Compressible n := by
  by_cases hzero : n = 0
  · subst hzero
    decide
  obtain ⟨⟨m, e⟩, hloop⟩ : ∃ p, trailingZeros 9 n 0 = p := ⟨_, rfl⟩
  obtain ⟨-, he, hn, hlast⟩ := trailingZeros_spec hloop
  rw [Nat.sub_zero] at hn
  have hpos : 0 < 10 ^ e := Nat.pow_pos (by decide)
  have hm : m ≤ n := by
    rw [hn]
    exact Nat.le_mul_of_pos_right m hpos
  unfold compressAmount
  rw [if_neg hzero, hloop]
  dsimp only
  split
  · rename_i he9
    have hdigit := hlast (by omega)
    change decompressAmount (shortCode m e % 2 ^ 64) = n ↔ _
    by_cases hzeros : e = 0
    · subst hzeros
      rw [Nat.pow_zero, Nat.mul_one] at hn
      subst hn
      rw [compressible_iff hdigit]
      refine ⟨fun heq => ?_, fun hlt => ?_⟩
      · by_contra hbig
        exact decompressAmount_reduced h hdigit (Nat.not_lt.1 hbig) heq
      · rw [Nat.mod_eq_of_lt hlt, decompressAmount_shortCode he9 hdigit (by omega), Nat.pow_zero,
          Nat.mul_one, Nat.mod_eq_of_lt (by omega)]
    · -- the amount ends in a zero
      have hten : n % 10 = 0 := by
        rw [hn, ← Nat.succ_pred_eq_of_ne_zero hzeros, Nat.pow_succ, ← Nat.mul_assoc,
          Nat.mul_mod_left]
      have hsmall : m * 10 ≤ n := by
        rw [hn, ← Nat.succ_pred_eq_of_ne_zero hzeros, Nat.pow_succ, ← Nat.mul_assoc]
        exact Nat.mul_le_mul_right 10 (Nat.le_mul_of_pos_right m (Nat.pow_pos (by decide)))
      have hlt : shortCode m e < 2 ^ 64 := by
        unfold shortCode
        omega
      refine iff_of_true ?_ (Or.inl hten)
      rw [Nat.mod_eq_of_lt hlt, decompressAmount_shortCode he9 hdigit (by omega), ← hn,
        Nat.mod_eq_of_lt (by omega)]
  · rename_i he9
    have hnine : e = 9 := by omega
    subst hnine
    have hten : n % 10 = 0 := by omega
    refine iff_of_true ?_ (Or.inl hten)
    rw [Nat.mod_eq_of_lt (by omega), decompressAmount_longCode (by omega) (by omega), ← hn,
      Nat.mod_eq_of_lt (by omega)]

theorem compressAmount_lt (n : Nat) : compressAmount n < 2 ^ 64 := by
  unfold compressAmount
  split
  · decide
  · dsimp only
    split
    · exact Nat.mod_lt _ (by decide)
    · exact Nat.mod_lt _ (by decide)

theorem timesTen_lt {e n : Nat} (h : n < 2 ^ 64) : timesTen e n < 2 ^ 64 := by
  rw [timesTen_eq h]
  exact Nat.mod_lt _ (by decide)

theorem decompressAmount_lt {x : Nat} (h : x < 2 ^ 64) : decompressAmount x < 2 ^ 64 := by
  unfold decompressAmount
  split
  · decide
  · dsimp only
    refine timesTen_lt ?_
    split
    · omega
    · omega

end IndexChain.Compress
