import IndexChain.Core.Words
import IndexChain.Models.Mempool.Accept

/-!
# The amounts of a checked transaction

`CheckTransactionWithoutProofVerification` adds up what a transaction pays and what it
draws from the shielded pools; `GetValueOut` and `GetShieldedValueIn` add the same terms
up again, the second in another order. What passes the check never leaves the money range
in any of these sums (`amounts_of_checkTransaction`).
-/

namespace IndexChain

open IndexChain.Core

namespace CTransaction

/-- The terms of `nValueOut`, in the order in which they are added. -/
def termsOut (tx : CTransaction) : List Int :=
  tx.vout.map CTxOut.nValue ++ (if tx.valueBalance ≤ 0 then [-tx.valueBalance] else []) ++
    tx.vjoinsplit.map JSDescription.vpubOld

/-- The terms of `nValueIn` in the check. -/
def termsIn (tx : CTransaction) : List Int :=
  tx.vjoinsplit.map JSDescription.vpubNew ++ if 0 ≤ tx.valueBalance then [tx.valueBalance] else []

/-- The terms of `nValue` in `GetShieldedValueIn`. -/
def termsShielded (tx : CTransaction) : List Int :=
  (if 0 ≤ tx.valueBalance then [tx.valueBalance] else []) ++
    tx.vjoinsplit.map JSDescription.vpubNew

/-- The order of the terms does not matter for their total. -/
theorem sum_termsShielded (tx : CTransaction) : tx.termsShielded.sum = tx.termsIn.sum := by
  rw [termsShielded, termsIn, List.sum_append, List.sum_append, Int.add_comm]

theorem mem_termsShielded {tx : CTransaction} {v : Int} :
    v ∈ tx.termsShielded ↔ v ∈ tx.termsIn := by
  rw [termsShielded, termsIn, List.mem_append, List.mem_append, or_comm]

end CTransaction

namespace TxCheckEnv

variable {env : TxCheckEnv} {tx : CTransaction}

theorem moneyRange_iff {v : Int} : env.moneyRange v = true ↔ 0 ≤ v ∧ v ≤ env.maxMoney := by
  simp [moneyRange]

/-! ## One addition -/

/-- Two amounts in range whose stored sum is in range have not overflowed. -/
theorem toInt64_add_of_moneyRange (hmoney : env.maxMoney < 2 ^ 63) {n v : Int}
    (hn : env.moneyRange n = true) (hv : env.moneyRange v = true)
    (hsum : env.moneyRange (toInt64 (n + v)) = true) : toInt64 (n + v) = n + v := by
  rw [moneyRange_iff] at hn hv hsum
  obtain ⟨k, hk⟩ := toInt64_eq_sub (n + v)
  have hrange := toInt64_range (n + v)
  omega

/-- A sum that is in range is returned. -/
theorem addInRange_of_le (hmoney : env.maxMoney < 2 ^ 63) {n v : Int} (hn : 0 ≤ n) (hv : 0 ≤ v)
    (hsum : n + v ≤ env.maxMoney) : env.addInRange n v = some (n + v) := by
  have hreg : toInt64 (n + v) = n + v := toInt64_of_range (by omega) (by omega)
  have hrangeV : env.moneyRange v = true := moneyRange_iff.2 ⟨hv, by omega⟩
  have hrangeS : env.moneyRange (n + v) = true := moneyRange_iff.2 ⟨by omega, hsum⟩
  simp only [addInRange, hreg, hrangeV, hrangeS, Bool.and_self, if_true]

/-! ## The loops -/

/-- What a loop that accumulates terms has checked. -/
structure Totalled (env : TxCheckEnv) (terms : List Int) (n total : Int) : Prop where
  /-- No term is negative. -/
  nonneg : ∀ v ∈ terms, 0 ≤ v
  /-- The accumulator holds the exact total. -/
  total_eq : total = n + terms.sum
  /-- The total is in range. -/
  inRange : env.moneyRange total = true

/-- A loop whose iterations each add a term in range and test the sum. -/
theorem totalled_of_foldlM {σ α : Type} (hmoney : env.maxMoney < 2 ^ 63)
    {f : σ → α → Except String σ} (acc : σ → Int) (term : α → Int)
    (hstep : ∀ {s a s'}, f s a = .ok s' → env.moneyRange (term a) = true ∧
      acc s' = toInt64 (acc s + term a) ∧ env.moneyRange (acc s') = true)
    {l : List α} {s s' : σ} (hs : env.moneyRange (acc s) = true) (h : l.foldlM f s = .ok s') :
    env.Totalled (l.map term) (acc s) (acc s') := by
  induction l generalizing s with
  | nil =>
    cases h
    exact ⟨by simp, by simp, hs⟩
  | cons a l ih =>
    rw [List.foldlM_cons, except_bind_eq_ok] at h
    obtain ⟨s1, h1, h2⟩ := h
    obtain ⟨hterm, hacc, hrange⟩ := hstep h1
    have hrest := ih hrange h2
    have hexact : acc s1 = acc s + term a := by
      rw [hacc] at hrange ⊢
      exact toInt64_add_of_moneyRange hmoney hs hterm hrange
    refine ⟨?_, ?_, hrest.inRange⟩
    · intro v hv
      rcases List.mem_cons.1 hv with rfl | hmem
      · exact (moneyRange_iff.1 hterm).1
      · exact hrest.nonneg v hmem
    · rw [hrest.total_eq, hexact, List.map_cons, List.sum_cons, Int.add_assoc]

theorem checkOut_adds {s s' : OutTotals} {out : CTxOut} (h : env.checkOut tx s out = .ok s') :
    env.moneyRange out.nValue = true ∧ s'.nValueOut = toInt64 (s.nValueOut + out.nValue) ∧
      env.moneyRange s'.nValueOut = true := by
  simp only [checkOut, require_bind_eq_ok, decide_eq_true_eq] at h
  obtain ⟨hpos, hmax, -, hsum, hret⟩ := h
  cases hret
  exact ⟨moneyRange_iff.2 ⟨hpos, hmax⟩, rfl, hsum⟩

theorem checkJoinSplit_adds {s s' : JsTotals} {js : JSDescription}
    (h : env.checkJoinSplit s js = .ok s') :
    env.moneyRange js.vpubOld = true ∧ s'.nValueOut = toInt64 (s.nValueOut + js.vpubOld) ∧
      env.moneyRange s'.nValueOut = true := by
  simp only [checkJoinSplit, require_bind_eq_ok, decide_eq_true_eq] at h
  obtain ⟨-, -, hpos, -, hmax, -, -, hsum, hret⟩ := h
  have heq : s'.nValueOut = toInt64 (s.nValueOut + js.vpubOld) := by
    rw [← Except.ok.inj hret]
    split
    · rfl
    · split
      · rfl
      · split <;> rfl
  exact ⟨moneyRange_iff.2 ⟨hpos, hmax⟩, heq, heq ▸ hsum⟩

theorem checkValueIn_adds {n n' : Int} {js : JSDescription} (h : env.checkValueIn n js = .ok n') :
    env.moneyRange js.vpubNew = true ∧ n' = toInt64 (n + js.vpubNew) ∧
      env.moneyRange n' = true := by
  simp only [checkValueIn, require_bind_eq_ok, Bool.and_eq_true] at h
  obtain ⟨⟨hterm, hsum⟩, hret⟩ := h
  cases hret
  exact ⟨hterm, rfl, hsum⟩

/-- The accessors' loop: the terms are added when their total is in range. -/
theorem foldlM_addInRange {α : Type} (hmoney : env.maxMoney < 2 ^ 63) (term : α → Int)
    {l : List α} {n : Int} (hn : 0 ≤ n) (hl : ∀ v ∈ l.map term, 0 ≤ v)
    (htotal : n + (l.map term).sum ≤ env.maxMoney) :
    l.foldlM (fun n a => env.addInRange n (term a)) n = some (n + (l.map term).sum) := by
  induction l generalizing n with
  | nil => simp
  | cons a l ih =>
    rw [List.map_cons, List.sum_cons] at htotal
    have ha : 0 ≤ term a := hl _ (by simp)
    have hrest : ∀ v ∈ l.map term, 0 ≤ v := fun v hv => hl v (by simp [List.mem_map.1 hv])
    have hsum := List.sum_nonneg hrest
    rw [List.foldlM_cons, addInRange_of_le hmoney hn ha (by omega)]
    simp only [Option.bind_eq_bind, Option.bind_some]
    rw [ih (by omega) hrest (by omega), List.map_cons, List.sum_cons, Int.add_assoc]

/-! ## The check -/

/-- What the check leaves in its accumulators. -/
structure Checked (env : TxCheckEnv) (tx : CTransaction) : Prop where
  /-- What the transaction pays is in range. -/
  out_total : env.Totalled tx.termsOut 0 tx.termsOut.sum
  /-- So is what it draws from the shielded pools. -/
  in_total : env.Totalled tx.termsIn 0 tx.termsIn.sum

/-- A loop that goes on from the total of another. -/
theorem Totalled.append {us vs : List Int} {n m total : Int} (hu : env.Totalled us n m)
    (hv : env.Totalled vs m total) : env.Totalled (us ++ vs) n total where
  nonneg := by
    intro v hmem
    rcases List.mem_append.1 hmem with h | h
    · exact hu.nonneg v h
    · exact hv.nonneg v h
  total_eq := by rw [hv.total_eq, hu.total_eq, List.sum_append, Int.add_assoc]
  inRange := hv.inRange

/-- The addition of a term under a condition, when its sum is in range. -/
theorem Totalled.ofIf {c : Prop} [Decidable c] {n v : Int} (hmoney : env.maxMoney < 2 ^ 63)
    (hn : env.moneyRange n = true) (hv : c → env.moneyRange v = true)
    (hsum : c → env.moneyRange (toInt64 (n + v)) = true) :
    env.Totalled (if c then [v] else []) n (if c then toInt64 (n + v) else n) := by
  by_cases hc : c
  · simp only [if_pos hc]
    refine ⟨?_, ?_, hsum hc⟩
    · simpa using (moneyRange_iff.1 (hv hc)).1
    · simpa using toInt64_add_of_moneyRange hmoney hn (hv hc) (hsum hc)
  · simp only [if_neg hc]
    exact ⟨by simp, by simp, hn⟩

/-- The accumulators of an accepted transaction hold the exact totals. -/
theorem checked_of_checkTransaction (hmoney : env.maxMoney < 2 ^ 63)
    (h : env.checkTransaction tx = .ok ()) : env.Checked tx := by
  simp only [checkTransaction, except_bind_eq_ok, require_eq_ok] at h
  obtain ⟨-, -, -, -, -, -, -, -, out, hout, -, -, -, -, -, -, -, hbal, -, hneg, js, hjs, -, -,
    -, -,
    nValueIn, hin, -, hpos, -⟩ := h
  rw [Bool.and_eq_true, decide_eq_true_eq, decide_eq_true_eq] at hbal
  rw [Bool.or_eq_true, decide_eq_true_eq] at hneg hpos
  have hzero : env.moneyRange 0 = true := by
    refine moneyRange_iff.2 ⟨Int.le_refl 0, ?_⟩
    rcases hneg with hlt | hrange
    · omega
    · have := moneyRange_iff.1 hrange
      omega
  refine ⟨?_, ?_⟩
  · have houts := totalled_of_foldlM hmoney OutTotals.nValueOut CTxOut.nValue checkOut_adds hzero
      hout
    have hvb := Totalled.ofIf (c := tx.valueBalance ≤ 0) (v := -tx.valueBalance) hmoney
      houts.inRange
      (fun hle => moneyRange_iff.2 (by omega))
      (fun hle => by simpa only [if_pos hle] using hneg.resolve_left (Int.not_lt.2 hle))
    have hsplits := totalled_of_foldlM hmoney JsTotals.nValueOut JSDescription.vpubOld
      checkJoinSplit_adds hvb.inRange hjs
    have hall := (houts.append hvb).append hsplits
    have htotal := hall.total_eq
    rw [Int.zero_add] at htotal
    exact htotal ▸ hall
  · have hsplits := totalled_of_foldlM hmoney (fun n : Int => n) JSDescription.vpubNew
      checkValueIn_adds hzero hin
    have hvb := Totalled.ofIf (c := 0 ≤ tx.valueBalance) (v := tx.valueBalance) hmoney
      hsplits.inRange (fun hle => moneyRange_iff.2 (by omega))
      (fun hle => hpos.resolve_left (Int.not_lt.2 hle))
    have hall := hsplits.append hvb
    have htotal := hall.total_eq
    rw [Int.zero_add] at htotal
    exact htotal ▸ hall

/-! ## The accessors -/

/-- The addition of a term under a condition, and what follows. -/
theorem ite_addInRange {c : Prop} [Decidable c] (hmoney : env.maxMoney < 2 ^ 63) {n v : Int}
    (k : Int → Option Int) (hn : 0 ≤ n) (hv : ∀ w ∈ (if c then [v] else []), 0 ≤ w)
    (htotal : n + (if c then [v] else []).sum ≤ env.maxMoney) :
    (if c then (env.addInRange n v).bind k else (some n).bind k) =
      k (n + (if c then [v] else []).sum) := by
  by_cases hc : c
  · simp only [if_pos hc, List.sum_singleton] at htotal ⊢
    rw [addInRange_of_le hmoney hn (hv v (by simp [hc])) htotal, Option.bind_some]
  · simp only [if_neg hc, List.sum_nil, Int.add_zero, Option.bind_some]

/-- `GetValueOut` returns the exact total. -/
theorem Checked.getValueOut (hmoney : env.maxMoney < 2 ^ 63) (h : env.Checked tx) :
    env.getValueOut tx = some tx.termsOut.sum := by
  have hnonneg := h.out_total.nonneg
  have hle := (moneyRange_iff.1 h.out_total.inRange).2
  simp only [CTransaction.termsOut, List.mem_append, or_imp, forall_and] at hnonneg
  obtain ⟨⟨hvout, hvb⟩, hsplits⟩ := hnonneg
  have h1 := List.sum_nonneg hvout
  have h2 := List.sum_nonneg hvb
  have h3 := List.sum_nonneg hsplits
  simp only [CTransaction.termsOut, List.sum_append] at hle ⊢
  simp only [TxCheckEnv.getValueOut, Option.bind_eq_bind]
  rw [foldlM_addInRange hmoney CTxOut.nValue (Int.le_refl 0) hvout (by omega), Option.bind_some,
    ite_addInRange hmoney _ (by omega) hvb (by omega),
    foldlM_addInRange hmoney JSDescription.vpubOld (by omega) hsplits (by omega), Int.zero_add]

/-- `GetShieldedValueIn` returns the exact total. -/
theorem Checked.getShieldedValueIn (hmoney : env.maxMoney < 2 ^ 63) (h : env.Checked tx) :
    env.getShieldedValueIn tx = some tx.termsShielded.sum := by
  have hnonneg : ∀ v ∈ tx.termsShielded, 0 ≤ v := fun v hv =>
    h.in_total.nonneg v (CTransaction.mem_termsShielded.1 hv)
  have hle := (moneyRange_iff.1 h.in_total.inRange).2
  rw [← CTransaction.sum_termsShielded] at hle
  simp only [CTransaction.termsShielded, List.mem_append, or_imp, forall_and] at hnonneg
  obtain ⟨hvb, hsplits⟩ := hnonneg
  have h1 := List.sum_nonneg hvb
  have h2 := List.sum_nonneg hsplits
  simp only [CTransaction.termsShielded, List.sum_append] at hle ⊢
  simp only [TxCheckEnv.getShieldedValueIn, Option.bind_eq_bind]
  rw [ite_addInRange hmoney _ (Int.le_refl 0) hvb (by omega),
    foldlM_addInRange hmoney JSDescription.vpubNew (by omega) hsplits (by omega), Int.zero_add]

/-- A total in range bounds every sum on the way to it. -/
theorem Totalled.runningSums_range (hmoney : env.maxMoney < 2 ^ 63) {terms : List Int}
    (h : env.Totalled terms 0 terms.sum) : ∀ x ∈ runningSums 0 terms, 0 ≤ x ∧ x < 2 ^ 63 := by
  have hle := (moneyRange_iff.1 h.inRange).2
  exact Core.runningSums_range (Int.le_refl 0) h.nonneg (by omega)

/-- For a transaction that the check accepts neither accessor throws, no addition of the
check or of the accessors overflows, and no outpoint and no nullifier occurs twice. -/
theorem amounts_of_checkTransaction (hmoney : env.maxMoney < 2 ^ 63)
    (h : env.checkTransaction tx = .ok ()) :
    env.getValueOut tx = some tx.termsOut.sum ∧
    env.getShieldedValueIn tx = some tx.termsShielded.sum ∧
    (∀ x ∈ runningSums 0 tx.termsOut ++ runningSums 0 tx.termsIn ++ runningSums 0 tx.termsShielded,
      -2 ^ 63 ≤ x ∧ x < 2 ^ 63) ∧
    (tx.vin.map CTxIn.prevout).Nodup ∧ (tx.nullifiers .sprout).Nodup ∧
    (tx.nullifiers .sapling).Nodup := by
  have hchecked := checked_of_checkTransaction hmoney h
  obtain ⟨hinputs, hsprout, hsapling, -⟩ := checkTransaction_last h
  have hshielded : env.Totalled tx.termsShielded 0 tx.termsShielded.sum := by
    rw [CTransaction.sum_termsShielded]
    exact ⟨fun v hv => hchecked.in_total.nonneg v (CTransaction.mem_termsShielded.1 hv),
      by rw [CTransaction.sum_termsShielded, Int.zero_add], hchecked.in_total.inRange⟩
  refine ⟨hchecked.getValueOut hmoney, hchecked.getShieldedValueIn hmoney, ?_, hinputs, hsprout,
    hsapling⟩
  intro x hx
  simp only [List.mem_append] at hx
  rcases hx with (hx | hx) | hx
  · have := hchecked.out_total.runningSums_range hmoney x hx
    omega
  · have := hchecked.in_total.runningSums_range hmoney x hx
    omega
  · have := hshielded.runningSums_range hmoney x hx
    omega

end TxCheckEnv

namespace SampleAmounts

/-- A chain without a supply limit. -/
def env : TxCheckEnv where
  acpublic := false
  assetchainsPrivate := false
  txpow := 0
  maxMoney := 2 ^ 63 - 1
  tiptime := 0
  isNotaryVout _ := false
  serializeSize _ := 1000

/-- A transaction that pays all there is and draws it from the shielded pool. -/
def tx : CTransaction where
  hash := 7
  vin := [{ prevout := { hash := 1, n := 0 } }]
  vout := [{ nValue := 2 ^ 63 - 2 }, { nValue := 1 }]
  vjoinsplit := [{ vpubOld := 0, vpubNew := 2 ^ 63 - 1, anchor := 0, nullifiers := #v[1, 2]
                   commitments := #v[3, 4] }]

end SampleAmounts

/-- Amounts that add up to the limit. -/
theorem amounts_at_limit :
    SampleAmounts.env.checkTransaction SampleAmounts.tx = .ok () ∧
    SampleAmounts.env.getValueOut SampleAmounts.tx = some SampleAmounts.tx.termsOut.sum :=
  have hcheck : SampleAmounts.env.checkTransaction SampleAmounts.tx = .ok () :=
    eq_ok_of_isOk (by decide +kernel)
  ⟨hcheck, (TxCheckEnv.amounts_of_checkTransaction (by decide) hcheck).1⟩

end IndexChain
