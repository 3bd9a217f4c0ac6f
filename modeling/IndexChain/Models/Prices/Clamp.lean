import IndexChain.Models.Prices.Opret
import IndexChain.Models.Primitives.OpReturn

/-!
# Prices that a miner clamps

`komodo_priceclamp` and `komodo_mineropret` of `komodo_gateway.h`. The miner waits until
no local price is zero, and puts prices that are out of tolerance at the bound which
`komodo_pricenew` returns for them. A bound is never zero, which would mean that the price
is allowed, and it is itself allowed, so that the validation of the block finds nothing to
clamp.
-/

namespace IndexChain.Prices

open IndexChain.Core

open Notary (ScriptBuf)

/-! ## Clamping -/

/-- A price, or the bound when it is out of tolerance. -/
def clampPrice (price refprice : UInt32) (tolerance : Int) : UInt32 :=
  let newprice := (pricenew price refprice tolerance).1
  if newprice ≠ 0 then newprice else price

/-- `pricebits[i] = v` on the bytes of the array. -/
def setBits (buf : ScriptBuf) (i : Nat) (v : UInt32) : ScriptBuf := fun j =>
  if 4 * i ≤ j ∧ j < 4 * i + 4 then (leBytes 4 v.toNat).getD (j - 4 * i) 0 else buf j

/-- The loop of `komodo_priceclamp`. -/
def priceclampLoop (refprices : Nat → UInt32) (tolerance : Int) : List Nat → ScriptBuf → ScriptBuf
  | [], pricebits => pricebits
  | i :: rest, pricebits =>
    let newprice := (pricenew (bits pricebits i) (refprices i) tolerance).1
    priceclampLoop refprices tolerance rest
      (if newprice ≠ 0 then setBits pricebits i newprice else pricebits)

/-- `komodo_priceclamp` for `n` entries, the first of which is a time. -/
def priceclamp (n : Nat) (pricebits : ScriptBuf) (refprices : Nat → UInt32) (tolerance : Int) :
    ScriptBuf :=
  priceclampLoop refprices tolerance (List.range' 1 (n - 1)) pricebits

/-! ## The coinbase -/

/-- What a miner makes its op_return from. -/
structure PriceMiner extends PriceNode where
  /-- `Mineropret` after so many calls of `komodo_cbopretupdate`. -/
  updates : Nat → List UInt8
  /-- It has the value to start with. -/
  updates_zero : updates 0 = mineropret
  /-- An update keeps its size, which is `komodo_cbopretsize` from the start. -/
  length_updates : ∀ k, (updates k).length = mineropret.length

namespace PriceMiner

variable (miner : PriceMiner)

/-- `numzero` for some entries. -/
def numzero (n : Nat) (pricebits : ScriptBuf) : Nat :=
  (List.range n).countP fun i => bits pricebits i == 0

/-- The loop of `komodo_mineropret`, in at most so many rounds: the number of updates after
which no price is zero, and the prices then. -/
def awaitPrices (n : Nat) : Nat → Nat → ScriptBuf → Option (Nat × ScriptBuf)
  | 0, _, _ => none
  | rounds + 1, k, pricebits =>
    let pricebits := copyBytes pricebits (miner.heap.memcpy (miner.updates k))
      (miner.updates k).length
    if numzero n pricebits = 0 then some (k, pricebits)
    else awaitPrices n rounds (k + 1) pricebits

/-- `Mineropret` after the clamp. -/
def clamped (n : Nat) (mineropret : List UInt8) (pricebits prevbits : ScriptBuf) : List UInt8 :=
  match pricecmp n (bits pricebits) (bits prevbits) pricesErrorrate with
  | some _ => mineropret
  | none => (priceclamp n pricebits (bits prevbits) pricesErrorrate).slice 0 mineropret.length

/-- `komodo_mineropret`, if no more than so many rounds are needed. Prices are not clamped
when those of the block before cannot be read. -/
def mineropretScript (nHeight : Int) (rounds : Nat) : Option (Except Refusal CScript) :=
  if miner.mineropret.length < pricesSizebit0 then some (.ok [])
  else if maxpricesSize < miner.mineropret.length then some (.error .undefined)
  else
    let n := miner.mineropret.length / 4
    (miner.awaitPrices n rounds 0 miner.stackPrices).map fun (k, pricebits) =>
      match miner.heightpricebits (nHeight - 1) with
      | .error .undefined => .error .undefined
      | .error _ => .ok (CScript.opReturn (miner.updates k))
      | .ok prevbits =>
        let pricebits := copyBytes pricebits (miner.heap.memcpy (miner.updates k))
          (miner.updates k).length
        .ok (CScript.opReturn (clamped n (miner.updates k) pricebits prevbits))

end PriceMiner

/-! ## A clamped price is allowed -/

/-- Only a price beyond one of the bounds is clipped, to that bound. -/
theorem clip_ne_zero {high low : Int} {p : Nat} {newprice : UInt32} (hne : newprice ≠ 0)
    (h : ((if high ≤ p then
        if high < p then (UInt32.ofNat high.toNat, some 2) else (0, some 1)
      else if (p : Int) ≤ low then
        if (p : Int) < low then (UInt32.ofNat low.toNat, some (-2)) else (0, some (-1))
      else (0, none)) : UInt32 × Option Int).1 = newprice) :
    newprice = UInt32.ofNat high.toNat ∧ high < p ∨
      newprice = UInt32.ofNat low.toNat ∧ (p : Int) < low := by
  split at h
  · split at h
    · rename_i habove
      exact Or.inl ⟨h.symm, habove⟩
    · exact absurd h.symm hne
  · split at h
    · split at h
      · rename_i hbelow
        exact Or.inr ⟨h.symm, hbelow⟩
      · exact absurd h.symm hne
    · exact absurd h.symm hne

/-- What a price is clipped to is one of the bounds. -/
theorem toNat_pricenew {price refprice : UInt32} (hsmall : ¬ refprice < 2)
    (h : (pricenew price refprice pricesErrorrate).1 ≠ 0) :
    ((pricenew price refprice pricesErrorrate).1.toNat : Int) = highprice refprice pricesErrorrate ∨
      ((pricenew price refprice pricesErrorrate).1.toNat : Int) =
        lowprice refprice pricesErrorrate := by
  obtain ⟨hlow, hlow32, hle⟩ := price_bounds hsmall
  have hprice := price.toNat_lt
  generalize hnew : (pricenew price refprice pricesErrorrate).1 = newprice at h ⊢
  unfold pricenew at hnew
  simp only [hsmall, if_false] at hnew
  obtain ⟨heq, habove⟩ | ⟨heq, hbelow⟩ := clip_ne_zero h hnew
  · have hfits : (highprice refprice pricesErrorrate).toNat < 2 ^ 32 := by omega
    left
    rw [heq, UInt32.toNat_ofNat_of_lt' hfits]
    omega
  · have hfits : (lowprice refprice pricesErrorrate).toNat < 2 ^ 32 := by omega
    right
    rw [heq, UInt32.toNat_ofNat_of_lt' hfits]
    omega

/-- A clamped price is within the tolerance. -/
theorem clampPrice_within (price refprice : UInt32) :
    WithinTolerance (clampPrice price refprice pricesErrorrate) refprice := by
  unfold clampPrice
  dsimp only
  by_cases hallowed : (pricenew price refprice pricesErrorrate).1 = 0
  · rw [if_neg (not_not.2 hallowed)]
    exact pricenew_eq_zero_iff.1 hallowed
  · rw [if_pos hallowed]
    by_cases hsmall : refprice < 2
    · exact Or.inl hsmall
    · obtain ⟨-, -, hle⟩ := price_bounds hsmall
      obtain hhigh | hlow := toNat_pricenew hsmall hallowed
      · exact Or.inr ⟨hhigh ▸ hle, hhigh.le⟩
      · exact Or.inr ⟨hlow.ge, hlow ▸ hle⟩

/-- A price within the tolerance is left alone. -/
theorem clampPrice_of_within {price refprice : UInt32} (h : WithinTolerance price refprice) :
    clampPrice price refprice pricesErrorrate = price :=
  if_neg (not_not.2 (pricenew_eq_zero_iff.2 h))

/-- No price within the tolerance of a price from 2 on is zero. -/
theorem ne_zero_of_within {price refprice : UInt32} (h : WithinTolerance price refprice)
    (hsmall : ¬ refprice < 2) : price ≠ 0 := by
  obtain ⟨hlow, -, -⟩ := price_bounds hsmall
  obtain hlt | ⟨hbound, -⟩ := h
  · exact absurd hlt hsmall
  · rintro rfl
    change lowprice refprice pricesErrorrate ≤ 0 at hbound
    omega

/-! ## All prices -/

variable {refprices : Nat → UInt32}

/-- A number that is written is read back, and the others stay. -/
theorem bits_setBits (buf : ScriptBuf) (i k : Nat) (v : UInt32) :
    bits (setBits buf i v) k = if k = i then v else bits buf k := by
  unfold bits ScriptBuf.uint32
  split
  · rename_i hk
    subst hk
    have hslice : (setBits buf k v).slice (4 * k) 4 = leBytes 4 v.toNat := by
      apply List.ext_getElem
      · simp [ScriptBuf.slice]
      · intro j hj hj'
        have hlt : j < 4 := by simpa [ScriptBuf.slice] using hj
        simp only [ScriptBuf.slice, List.getElem_map, List.getElem_range, setBits]
        rw [if_pos (by omega), Nat.add_sub_cancel_left, List.getD_eq_getElem?_getD,
          List.getElem?_eq_getElem hj', Option.getD_some]
    rw [hslice, leNat_leBytes (by simpa using v.toNat_lt), UInt32.ofNat_toNat]
  · rename_i hk
    have hslice : (setBits buf i v).slice (4 * k) 4 = buf.slice (4 * k) 4 := by
      apply List.map_congr_left
      intro j hj
      have hlt := List.mem_range.1 hj
      exact if_neg (by omega)
    rw [hslice]

/-- The loop clamps the prices it comes to, once or more. -/
theorem bits_priceclampLoop (inds : List Nat) (pricebits : ScriptBuf) (k : Nat) :
    bits (priceclampLoop refprices pricesErrorrate inds pricebits) k =
      if k ∈ inds then clampPrice (bits pricebits k) (refprices k) pricesErrorrate
      else bits pricebits k := by
  induction inds generalizing pricebits with
  | nil => rfl
  | cons i rest ih =>
    have hstep : bits (if (pricenew (bits pricebits i) (refprices i) pricesErrorrate).1 ≠ 0 then
        setBits pricebits i (pricenew (bits pricebits i) (refprices i) pricesErrorrate).1
        else pricebits) k =
        if k = i then clampPrice (bits pricebits k) (refprices k) pricesErrorrate
        else bits pricebits k := by
      by_cases hki : k = i
      · subst hki
        rw [if_pos rfl, clampPrice]
        split
        · rw [bits_setBits, if_pos rfl]
        · rfl
      · rw [if_neg hki]
        split
        · rw [bits_setBits, if_neg hki]
        · rfl
    rw [priceclampLoop, ih, hstep]
    by_cases hki : k = i
    · subst hki
      rw [if_pos rfl, if_pos List.mem_cons_self]
      split
      · exact clampPrice_of_within (clampPrice_within _ _)
      · rfl
    · simp only [List.mem_cons, hki, if_false, false_or]

theorem bits_priceclamp (n : Nat) (pricebits : ScriptBuf) (k : Nat) :
    bits (priceclamp n pricebits refprices pricesErrorrate) k =
      if 1 ≤ k ∧ k < n then clampPrice (bits pricebits k) (refprices k) pricesErrorrate
      else bits pricebits k := by
  have hmem : k ∈ List.range' 1 (n - 1) ↔ 1 ≤ k ∧ k < n := by
    rw [List.mem_range'_1]
    omega
  rw [priceclamp, bits_priceclampLoop]
  simp only [hmem]

/-- Nothing is clamped when all prices are within the tolerance. -/
theorem priceclampLoop_of_within {inds : List Nat} {pricebits : ScriptBuf}
    (h : ∀ i ∈ inds, WithinTolerance (bits pricebits i) (refprices i)) :
    priceclampLoop refprices pricesErrorrate inds pricebits = pricebits := by
  induction inds with
  | nil => rfl
  | cons i rest ih =>
    rw [priceclampLoop, if_neg (not_not.2 (pricenew_eq_zero_iff.2 (h i List.mem_cons_self)))]
    exact ih fun j hj => h j (List.mem_cons_of_mem i hj)

/-- The comparison goes through when all prices are within the tolerance. -/
theorem pricecmpLoop_isSome {pricesA : Nat → UInt32} {inds : List Nat} {flags : MaxFlags}
    (h : ∀ i ∈ inds, WithinTolerance (pricesA i) (refprices i)) :
    (pricecmpLoop pricesA refprices pricesErrorrate inds flags).isSome = true := by
  induction inds generalizing flags with
  | nil => rfl
  | cons i rest ih =>
    rw [pricecmpLoop, if_neg (not_not.2 (pricenew_eq_zero_iff.2 (h i List.mem_cons_self)))]
    exact ih fun j hj => h j (List.mem_cons_of_mem i hj)

/-- Exactly then. -/
theorem pricecmp_isSome_iff {n : Nat} {pricesA : Nat → UInt32} :
    (pricecmp n pricesA refprices pricesErrorrate).isSome = true ↔
      ∀ i, 1 ≤ i → i < n → WithinTolerance (pricesA i) (refprices i) := by
  constructor
  · intro h i hi hn
    obtain ⟨flags, hflags⟩ := Option.isSome_iff_exists.1 h
    exact pricecmpLoop_within hflags i (List.mem_range'_1.2 ⟨hi, by omega⟩)
  · intro h
    apply pricecmpLoop_isSome
    intro i hi
    obtain ⟨hi, hn⟩ := List.mem_range'_1.1 hi
    exact h i hi (by omega)

theorem priceclamp_of_within {n : Nat} {pricebits : ScriptBuf}
    (h : ∀ i, 1 ≤ i → i < n → WithinTolerance (bits pricebits i) (refprices i)) :
    priceclamp n pricebits refprices pricesErrorrate = pricebits := by
  apply priceclampLoop_of_within
  intro i hi
  obtain ⟨hi, hn⟩ := List.mem_range'_1.1 hi
  exact h i hi (by omega)

theorem within_priceclamp (n : Nat) (pricebits : ScriptBuf) :
    ∀ i, 1 ≤ i → i < n → WithinTolerance
      (bits (priceclamp n pricebits refprices pricesErrorrate) i) (refprices i) := by
  intro i hi hn
  rw [bits_priceclamp, if_pos ⟨hi, hn⟩]
  exact clampPrice_within _ _

/-- What a comparison and a clamp say of an array of prices. -/
structure PricesPass (n : Nat) (pricebits : ScriptBuf) (refprices : Nat → UInt32) : Prop where
  /-- The comparison goes through. -/
  pricecmp : (pricecmp n (bits pricebits) refprices pricesErrorrate).isSome = true
  /-- The clamp changes nothing. -/
  priceclamp : priceclamp n pricebits refprices pricesErrorrate = pricebits
  /-- No price is zero after one from 2 on. -/
  ne_zero : ∀ i, 1 ≤ i → i < n → 2 ≤ refprices i → bits pricebits i ≠ 0

theorem pricesPass_of_within {n : Nat} {pricebits : ScriptBuf}
    (h : ∀ i, 1 ≤ i → i < n → WithinTolerance (bits pricebits i) (refprices i)) :
    PricesPass n pricebits refprices where
  pricecmp := pricecmp_isSome_iff.2 h
  priceclamp := priceclamp_of_within h
  ne_zero := fun i hi hn href => ne_zero_of_within (h i hi hn) (UInt32.not_lt.2 href)

/-! ## The op_return of the miner -/

namespace PriceMiner

variable {miner : PriceMiner}

/-- Copied bytes, read back. -/
theorem slice_copyBytes {dst heap : ScriptBuf} (data : List UInt8) :
    (copyBytes dst (heap.memcpy data) data.length).slice 0 data.length = data := by
  apply List.ext_getElem
  · simp [ScriptBuf.slice]
  · intro j hj hj'
    simp [ScriptBuf.slice, copyBytes, ScriptBuf.memcpy, hj']

/-- Two arrays with the same bytes have the same numbers. -/
theorem bits_congr {buf buf' : ScriptBuf} {len i : Nat} (hi : 4 * i + 4 ≤ len)
    (h : ∀ j < len, buf j = buf' j) : bits buf i = bits buf' i := by
  have hslice : buf.slice (4 * i) 4 = buf'.slice (4 * i) 4 := by
    apply List.map_congr_left
    intro j hj
    have hlt := List.mem_range.1 hj
    exact h _ (by omega)
  unfold bits ScriptBuf.uint32
  rw [hslice]

/-- The bytes of an array that are sent and copied are the bytes of the array. -/
theorem bits_copy_slice {dst heap buf : ScriptBuf} {len size i : Nat} (hi : 4 * i + 4 ≤ len)
    (hsize : len ≤ size) :
    bits (copyBytes dst (heap.memcpy (buf.slice 0 len)) size) i = bits buf i := by
  apply bits_congr hi
  intro j hj
  have hcopied : j < size := by omega
  simp [copyBytes, ScriptBuf.memcpy, ScriptBuf.slice, hcopied, hj]

/-- The op_return holds the bytes of an array of prices within the tolerance. -/
theorem clamped_spec {n : Nat} {mineropret : List UInt8} {pricebits prevbits : ScriptBuf}
    (hcopy : pricebits.slice 0 mineropret.length = mineropret) :
    ∃ buf, clamped n mineropret pricebits prevbits = buf.slice 0 mineropret.length ∧
      ∀ i, 1 ≤ i → i < n → WithinTolerance (bits buf i) (bits prevbits i) := by
  cases hcmp : pricecmp n (bits pricebits) (bits prevbits) pricesErrorrate with
  | some flags =>
    refine ⟨pricebits, by rw [clamped, hcmp, hcopy], ?_⟩
    exact pricecmp_isSome_iff.1 (by rw [hcmp]; rfl)
  | none => exact ⟨_, by rw [clamped, hcmp], within_priceclamp n pricebits⟩

/-- A validator that has as many local prices reads prices that pass. -/
theorem pricesPass_read {node : PriceNode} {buf prevbits : ScriptBuf} {len : Nat}
    (hwithin : ∀ i, 1 ≤ i → i < len / 4 → WithinTolerance (bits buf i) (bits prevbits i))
    (hsize : len ≤ node.mineropret.length) :
    PricesPass (len / 4) (node.pricebits (buf.slice 0 len)) (bits prevbits) := by
  apply pricesPass_of_within
  intro i hi hn
  rw [PriceNode.pricebits, bits_copy_slice (by omega) hsize]
  exact hwithin i hi hn

/-- The wait ends once no price is zero. -/
theorem awaitPrices_isSome {n k : Nat} (hready : ∀ buf, numzero n (copyBytes buf
      (miner.heap.memcpy (miner.updates k)) (miner.updates k).length) = 0) :
    ∀ d k₀ buf, k₀ + d = k → (miner.awaitPrices n (d + 1) k₀ buf).isSome = true := by
  intro d
  induction d with
  | zero =>
    intro k₀ buf hk
    obtain rfl : k₀ = k := hk
    rw [awaitPrices]
    simp only [hready, if_true, Option.isSome_some]
  | succ d ih =>
    intro k₀ buf hk
    rw [awaitPrices]
    split
    · rfl
    · exact ih _ _ (by omega)

/-- `komodo_mineropret` returns once no local price is zero. -/
theorem mineropretScript_isSome (nHeight : Int) {k : Nat}
    (hready : ∀ i < miner.mineropret.length / 4,
      bits (miner.heap.memcpy (miner.updates k)) i ≠ 0) :
    ∃ rounds, (miner.mineropretScript nHeight rounds).isSome = true := by
  refine ⟨k + 1, ?_⟩
  unfold mineropretScript
  split
  · rfl
  · split
    · rfl
    · rw [Option.isSome_map]
      apply awaitPrices_isSome (k := k) _ k 0 _ (Nat.zero_add k)
      intro buf
      apply List.countP_eq_zero.2
      intro i hi hzero
      have hlt := List.mem_range.1 hi
      have hcopied : bits (copyBytes buf (miner.heap.memcpy (miner.updates k))
          (miner.updates k).length) i = bits (miner.heap.memcpy (miner.updates k)) i := by
        have hfits : 4 * i + 4 ≤ (miner.updates k).length := by
          rw [miner.length_updates]
          omega
        exact bits_congr hfits fun j hj => if_pos hj
      exact hready i hlt (hcopied ▸ beq_iff_eq.1 hzero)

/-- What `komodo_mineropret` returns when the prices of the block before can be read. -/
theorem mineropretScript_spec {nHeight : Int} {rounds : Nat} {prevbits : ScriptBuf}
    {script : CScript} (hsize : pricesSizebit0 ≤ miner.mineropret.length)
    (hprev : miner.heightpricebits (nHeight - 1) = .ok prevbits)
    (h : miner.mineropretScript nHeight rounds = some (.ok script)) :
    ∃ buf : ScriptBuf,
      CScript.getOpReturnData script = buf.slice 0 miner.mineropret.length ∧
      ∀ i, 1 ≤ i → i < miner.mineropret.length / 4 →
        WithinTolerance (bits buf i) (bits prevbits i) := by
  unfold mineropretScript at h
  rw [if_neg (by omega)] at h
  split at h
  · cases h
  · rename_i hmax
    obtain ⟨⟨k, pricebits⟩, hawait, hscript⟩ := Option.map_eq_some_iff.1 h
    simp only [hprev] at hscript
    cases hscript
    have hlen := miner.length_updates k
    have hslice : (copyBytes pricebits (miner.heap.memcpy (miner.updates k))
        (miner.updates k).length).slice 0 (miner.updates k).length = miner.updates k :=
      slice_copyBytes (miner.updates k)
    obtain ⟨buf, hbuf, hwithin⟩ :
        ∃ buf, _ ∧ ∀ i, 1 ≤ i → i < miner.mineropret.length / 4 →
          WithinTolerance (bits buf i) (bits prevbits i) :=
      clamped_spec (n := miner.mineropret.length / 4) hslice
    refine ⟨buf, ?_, hwithin⟩
    rw [hbuf, hlen]
    apply CScript.getOpReturnData_opReturn_of_lt
    unfold maxpricesSize at hmax
    simp only [ScriptBuf.slice, List.length_map, List.length_range]
    omega

end PriceMiner

namespace SamplePrices

/-- A time and three prices. -/
def threePrices (price : Nat) : List UInt8 :=
  leBytes 4 1000 ++ (List.replicate 3 (leBytes 4 price)).flatten

/-- A miner whose prices have doubled since the block before. -/
def miner : PriceMiner where
  toPriceNode := { node with mineropret := threePrices 2000, refreshed := threePrices 2000 }
  updates := fun _ => threePrices 2000
  updates_zero := rfl
  length_updates := fun _ => rfl

theorem miner_clamps :
    miner.mineropretScript 3 1 = some (.ok (CScript.opReturn (threePrices 1010))) := by
  decide +kernel

/-- The prices of the block at height 2, as the miner reads them. -/
def prevbits : ScriptBuf :=
  copyBytes node.stackPrev (node.heap.memcpy (opret 35)) (opret 35).length

theorem miner_prev : miner.heightpricebits (3 - 1) = .ok prevbits := by
  have hactive : miner.active (3 - 1) = some prev := rfl
  have hopret : coinbaseOpret prev = some (opret 35) := by decide +kernel
  have hsize : ¬ (opret 35).length < pricesSizebit0 := by decide +kernel
  have hmax : ¬ maxpricesSize < (opret 35).length := by decide +kernel
  simp only [PriceNode.heightpricebits, hactive, hopret, hsize, hmax, if_false]
  rfl

end SamplePrices

end IndexChain.Prices
