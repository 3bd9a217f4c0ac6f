import IndexChain.Core.Checked
import IndexChain.Core.Words
import IndexChain.Models.Notary.Kv
import IndexChain.Models.Primitives.Script
import Mathlib.Algebra.Order.Ring.Int
import Mathlib.Tactic.Linarith

/-!
# Prices in the coinbase

`komodo_opretvalidate` of `komodo_gateway.h`: the last output of a coinbase carries a
time and prices, which may differ from those of the block before by one percent. How
many prices are compared is taken from the op_return itself, and only four numbers are
asked for. The prices of the block before are those of the active chain at its height.
`pricesKept_of_run` states which blocks keep all configured prices close to each other.
-/

namespace IndexChain.Prices

open IndexChain.Core

open Notary (ScriptBuf)

/-! ## Configuration -/

/-- `Forex`. -/
def forex : List String :=
  ["BGN", "NZD", "ILS", "RUB", "CAD", "PHP", "CHF", "AUD", "JPY", "TRY", "HKD", "MYR", "HRK",
    "CZK", "IDR", "DKK", "NOK", "HUF", "GBP", "MXN", "THB", "ISK", "ZAR", "BRL", "SGD", "PLN",
    "INR", "KRW", "RON", "CNY", "SEK", "EUR"]

/-- `Cryptos`. -/
def cryptos : List String := ["KMD", "ETH"]

/-- `PRICES_SIZEBIT0`: a time and three prices. -/
def pricesSizebit0 : Nat := 16

/-- `PRICES_ERRORRATE`. -/
def pricesErrorrate : Int := COIN / 100

/-- `KOMODO_LOCALPRICE_CACHESIZE`. -/
def localpriceCachesize : Nat := 13

/-- The size in bytes of an array of `KOMODO_MAXPRICES` numbers. -/
def maxpricesSize : Nat := 4 * 2048

/-- `testchain_exemption`. -/
def testchainExemption : Int := 0

/-- The parameters of a chain with prices. -/
structure PriceConfig where
  /-- `ASSETCHAINS_CBOPRET`. -/
  cbopret : UInt64
  /-- `ASSETCHAINS_PRICES`. -/
  prices : List String
  /-- `ASSETCHAINS_STOCKS`. -/
  stocks : List String
  /-- `ASSETCHAINS_BLOCKTIME`. -/
  blocktime : Int

/-- `komodo_cbopretsize`. -/
def PriceConfig.cbopretsize (cfg : PriceConfig) : Nat :=
  if cfg.cbopret &&& 1 ≠ 0 then
    pricesSizebit0 + (if cfg.cbopret &&& 2 ≠ 0 then forex.length * 4 else 0) +
      (if cfg.cbopret &&& 4 ≠ 0 then (cryptos.length + cfg.prices.length) * 4 else 0) +
      (if cfg.cbopret &&& 8 ≠ 0 then cfg.stocks.length * 4 else 0)
  else 0

/-! ## Comparing prices -/

/-- A price changed by a fraction of a coin. -/
def scaledPrice (refprice : UInt32) (factor : Int) : Int :=
  toUint64 (refprice.toNat * toUint64 factor) / COIN

/-- The highest price that is allowed after another one. -/
def highprice (refprice : UInt32) (tolerance : Int) : Int :=
  let high := scaledPrice refprice (COIN + tolerance)
  if high = refprice.toNat then high + 1 else high

/-- The lowest price that is allowed after another one. -/
def lowprice (refprice : UInt32) (tolerance : Int) : Int :=
  let low := scaledPrice refprice (COIN - tolerance)
  if low = refprice.toNat then low - 1 else low

/-- `komodo_pricenew`: the price to clip to, zero when the price is allowed, and the flag
that is set at the bounds. -/
def pricenew (price refprice : UInt32) (tolerance : Int) : UInt32 × Option Int :=
  if refprice < 2 then (0, none)
  else
    let high := highprice refprice tolerance
    let low := lowprice refprice tolerance
    if high ≤ price.toNat then
      if high < price.toNat then (UInt32.ofNat high.toNat, some 2) else (0, some 1)
    else if price.toNat ≤ low then
      if price.toNat < low then (UInt32.ofNat low.toNat, some (-2)) else (0, some (-1))
    else (0, none)

/-- The flags at the bounds, one for each price. -/
abbrev MaxFlags := Nat → Int

/-- Set a flag. -/
def MaxFlags.set (flags : MaxFlags) (i : Nat) : Option Int → MaxFlags
  | none => flags
  | some flag => fun j => if j = i then flag else flags j

/-- The loop of `komodo_pricecmp`. -/
def pricecmpLoop (pricesA pricesB : Nat → UInt32) (tolerance : Int) :
    List Nat → MaxFlags → Option MaxFlags
  | [], flags => some flags
  | i :: rest, flags =>
    let r := pricenew (pricesA i) (pricesB i) tolerance
    if r.1 ≠ 0 then none else pricecmpLoop pricesA pricesB tolerance rest (flags.set i r.2)

/-- `komodo_pricecmp` for `n` entries, the first of which is a time. -/
def pricecmp (n : Nat) (pricesA pricesB : Nat → UInt32) (tolerance : Int) : Option MaxFlags :=
  pricecmpLoop pricesA pricesB tolerance (List.range' 1 (n - 1)) (fun _ => 0)

/-- A price is within the tolerance of another one; one below two allows anything. -/
def WithinTolerance (price refprice : UInt32) : Prop :=
  refprice < 2 ∨ (lowprice refprice pricesErrorrate ≤ price.toNat ∧
    (price.toNat : Int) ≤ highprice refprice pricesErrorrate)

/-! ## Validation -/

/-- What happens to a block that is not accepted. -/
inductive Refusal where
  /-- An error is returned. -/
  | refused
  /-- A price moves against the local ones, and is remembered. -/
  | extreme (dir : Int) (ind : Nat) (pricebits : UInt32)
  /-- An array is overrun. -/
  | undefined
  deriving DecidableEq, Repr

/-- What a node validates prices with. -/
structure PriceNode where
  /-- The time. -/
  now : UInt32
  /-- `Mineropret`, the local prices. -/
  mineropret : List UInt8
  /-- `Mineropret` after `komodo_cbopretupdate`. -/
  refreshed : List UInt8
  /-- `PriceCache`, as the second iteration reads it. -/
  priceCache : Nat → Nat → UInt32
  /-- The blocks of the active chain by height. -/
  active : Int → Option CBlock
  /-- What follows an op_return in memory. -/
  heap : ScriptBuf
  /-- What `pricebits` holds before it is written. -/
  stackPrices : ScriptBuf
  /-- What `prevbits` holds before it is written. -/
  stackPrev : ScriptBuf
  /-- What `localbits` holds before it is written. -/
  stackLocal : ScriptBuf

/-- `memcpy(dst, src, n)`. -/
def copyBytes (dst src : ScriptBuf) (n : Nat) : ScriptBuf := fun i => if i < n then src i else dst i

/-- Number `i` of an array. -/
def bits (buf : ScriptBuf) (i : Nat) : UInt32 := buf.uint32 (4 * i)

/-- The op_return of the last output of a coinbase. -/
def coinbaseOpret (block : CBlock) : Option (List UInt8) :=
  block.vtx.head?.bind fun tx => tx.vout.getLast?.map fun out =>
    CScript.getOpReturnData out.scriptPubKey

namespace PriceNode

variable (node : PriceNode)

/-- `komodo_heightpricebits`. -/
def heightpricebits (height : Int) : Except Refusal ScriptBuf :=
  match node.active height with
  | none => .error .refused
  | some block => match coinbaseOpret block with
    | none => .error .undefined
    | some vopret =>
      if vopret.length < pricesSizebit0 then .error .refused
      else if maxpricesSize < vopret.length then .error .undefined
      else .ok (copyBytes node.stackPrev (node.heap.memcpy vopret) vopret.length)

/-- The times of the op_return, the node, the block and the one before. -/
def checkTimes (blocktime : Int) (block : CBlock) (previndex : CBlockIndex) (nHeight : Int)
    (timestamp : UInt32) : Except Refusal Unit := do
  let lag := toInt32 (node.now.toNat - timestamp.toNat : Int)
  let lag2 := toInt32 (timestamp.toNat - previndex.nTime : Int)
  let lag3 := toInt32 (block.nTime - timestamp.toNat : Int)
  require (decide (-60 ≤ lag)) .refused
  require (decide (-60 ≤ lag2) || decide (nHeight ≤ testchainExemption)) .refused
  require ((decide (-60 ≤ lag3) && decide (lag3 ≤ blocktime)) ||
    decide (nHeight ≤ testchainExemption)) .refused

/-- A local price moves against a price that is at its bound: in which direction. -/
def wrongWay (flags : MaxFlags) (localbits prevbits : Nat → UInt32) (i : Nat) : Option Int :=
  if flags i = 0 ∨ localbits i = 0 then none
  else if 0 < flags i ∧ localbits i < prevbits i then some 1
  else if flags i < 0 ∧ prevbits i < localbits i then some (-1)
  else none

/-- A recent local price is on the right side. -/
def cached (dir : Int) (refprice : UInt32) (i : Nat) : Bool :=
  (List.range localpriceCachesize).any fun j =>
    if 0 < dir then decide (refprice ≤ node.priceCache j i)
    else decide (node.priceCache j i ≤ refprice)

/-- The second iteration over the local prices: the first one that is off refuses the block. -/
def checkLocalLoop (flags : MaxFlags) (localbits prevbits : Nat → UInt32) :
    List Nat → Except Refusal Unit
  | [] => .ok ()
  | i :: rest => match wrongWay flags localbits prevbits i with
    | none => checkLocalLoop flags localbits prevbits rest
    | some dir =>
      if node.cached dir (prevbits i) i then checkLocalLoop flags localbits prevbits rest
      else .error (.extreme dir i (prevbits i))

/-- Both iterations over the local prices; they are refreshed when the first one finds a
price that is off. -/
def checkLocal (n : Nat) (flags : MaxFlags) (prevbits : Nat → UInt32) : Except Refusal Unit :=
  let localbits := copyBytes node.stackLocal (node.heap.memcpy node.mineropret)
    node.mineropret.length
  let inds := List.range' 1 (n - 1)
  if inds.any fun i => (wrongWay flags (bits localbits) prevbits i).isSome then
    if maxpricesSize < node.refreshed.length then .error .undefined
    else node.checkLocalLoop flags (bits (copyBytes localbits (node.heap.memcpy node.refreshed)
      node.refreshed.length)) prevbits inds
  else node.checkLocalLoop flags (bits localbits) prevbits inds

/-- `pricebits`: as many bytes as the local prices have are copied from the op_return. -/
def pricebits (vopret : List UInt8) : ScriptBuf :=
  copyBytes node.stackPrices (node.heap.memcpy vopret) node.mineropret.length

/-- The part of `komodo_opretvalidate` for heights above 2. The loops that replace null
prices are for heights below `testchain_exemption`, so they never run. -/
def checkPrices (cfg : PriceConfig) (block : CBlock) (previndex : CBlockIndex) (nHeight : Int)
    (vopret : List UInt8) : Except Refusal Unit := do
  let pricebits := node.pricebits vopret
  let n := vopret.length / 4
  node.checkTimes cfg.blocktime block previndex nHeight (bits pricebits 0)
  let prevbits ← node.heightpricebits (nHeight - 1)
  require (decide (vopret.length ≤ maxpricesSize)) .undefined
  match pricecmp n (bits pricebits) (bits prevbits) pricesErrorrate with
  | none => .error .refused
  | some flags =>
    if toInt32 (node.now.toNat - (bits pricebits 0).toNat : Int) < cfg.blocktime ∧
        pricesSizebit0 ≤ node.mineropret.length then
      node.checkLocal n flags (bits prevbits)
    else .ok ()

/-- `komodo_opretvalidate` on a chain with prices. -/
def opretvalidate (cfg : PriceConfig) (block : CBlock) (previndex : CBlockIndex) (nHeight : Int)
    (scriptPubKey : CScript) : Except Refusal Unit := do
  if cfg.cbopret ≠ 0 ∧ 0 < nHeight then do
    let vopret := CScript.getOpReturnData scriptPubKey
    require (decide (pricesSizebit0 ≤ vopret.length)) .refused
    require (decide (node.mineropret.length ≤ maxpricesSize)) .undefined
    if 2 < nHeight then node.checkPrices cfg block previndex nHeight vopret else .ok ()
  else .ok ()

end PriceNode

/-! ## Tolerance -/

theorem uint32_ofNat_ne_zero {x : Nat} (hpos : 0 < x) (hlt : x < 2 ^ 32) :
    UInt32.ofNat x ≠ 0 := by
  intro heq
  have hnat := congrArg UInt32.toNat heq
  rw [UInt32.toNat_ofNat_of_lt' hlt] at hnat
  change x = 0 at hnat
  omega

/-- Within 31 bits the scaled price is exact. -/
theorem scaledPrice_eq {refprice : UInt32} {factor : Int} (h0 : 0 ≤ factor)
    (h31 : factor < 2 ^ 31) :
    scaledPrice refprice factor = refprice.toNat * factor / COIN := by
  have hlt := refprice.toNat_lt
  have hself : toUint64 factor = factor := toUint64_of_range h0 (by omega)
  have hprod : 0 ≤ (refprice.toNat : Int) * factor := mul_nonneg (by omega) h0
  have hbound : (refprice.toNat : Int) * factor < 2 ^ 64 := by nlinarith
  unfold scaledPrice
  rw [hself, toUint64_of_range hprod hbound]

/-- The bounds of a price. -/
theorem price_bounds {refprice : UInt32} (h : ¬ refprice < 2) :
    0 < lowprice refprice pricesErrorrate ∧ lowprice refprice pricesErrorrate < 2 ^ 32 ∧
      lowprice refprice pricesErrorrate ≤ highprice refprice pricesErrorrate := by
  have h2 : 2 ≤ refprice.toNat := Nat.not_lt.1 h
  have hlt := refprice.toNat_lt
  have hlow : scaledPrice refprice (COIN - pricesErrorrate) =
      refprice.toNat * (COIN - pricesErrorrate) / COIN := scaledPrice_eq (by decide) (by decide)
  have hhigh : scaledPrice refprice (COIN + pricesErrorrate) =
      refprice.toNat * (COIN + pricesErrorrate) / COIN := scaledPrice_eq (by decide) (by decide)
  unfold lowprice highprice
  rw [hlow, hhigh]
  generalize refprice.toNat = r at h2 hlt
  unfold pricesErrorrate COIN
  dsimp only
  refine ⟨?_, ?_, ?_⟩
  · split <;> omega
  · split <;> omega
  · split <;> split <;> omega

/-- Nothing is clipped between the bounds. -/
theorem clip_eq_zero_iff {high low : Int} {p : Nat} (hlow : 0 < low) (hlow32 : low < 2 ^ 32)
    (hle : low ≤ high) (hp : p < 2 ^ 32) :
    ((if high ≤ p then
        if high < p then (UInt32.ofNat high.toNat, some 2) else (0, some 1)
      else if (p : Int) ≤ low then
        if (p : Int) < low then (UInt32.ofNat low.toNat, some (-2)) else (0, some (-1))
      else (0, none)) : UInt32 × Option Int).1 = 0 ↔ low ≤ p ∧ (p : Int) ≤ high := by
  by_cases habove : high < p
  · have hclip : UInt32.ofNat high.toNat ≠ 0 := uint32_ofNat_ne_zero (by omega) (by omega)
    rw [if_pos habove.le, if_pos habove]
    exact ⟨fun h => absurd h hclip, fun h => absurd h.2 (by omega)⟩
  · by_cases hbelow : (p : Int) < low
    · have hclip : UInt32.ofNat low.toNat ≠ 0 := uint32_ofNat_ne_zero (by omega) (by omega)
      rw [if_neg (by omega), if_pos hbelow.le, if_pos hbelow]
      exact ⟨fun h => absurd h hclip, fun h => absurd h.1 (by omega)⟩
    · refine ⟨fun _ => ⟨by omega, by omega⟩, fun _ => ?_⟩
      rw [if_neg habove, if_neg hbelow]
      split
      · rfl
      · split <;> rfl

/-- A price is allowed exactly when it is within the tolerance. -/
theorem pricenew_eq_zero_iff {price refprice : UInt32} :
    (pricenew price refprice pricesErrorrate).1 = 0 ↔ WithinTolerance price refprice := by
  unfold pricenew WithinTolerance
  by_cases hsmall : refprice < 2
  · rw [if_pos hsmall]
    exact ⟨fun _ => Or.inl hsmall, fun _ => rfl⟩
  · obtain ⟨hlow, hlow32, hle⟩ := price_bounds hsmall
    have hclip := clip_eq_zero_iff hlow hlow32 hle price.toNat_lt
    simp only [hsmall, if_false, false_or]
    exact hclip

/-- All prices that are compared are within the tolerance. -/
theorem pricecmpLoop_within {pricesA pricesB : Nat → UInt32} {inds : List Nat}
    {flags flags' : MaxFlags}
    (h : pricecmpLoop pricesA pricesB pricesErrorrate inds flags = some flags') :
    ∀ i ∈ inds, WithinTolerance (pricesA i) (pricesB i) := by
  induction inds generalizing flags with
  | nil => simp
  | cons i rest ih =>
    unfold pricecmpLoop at h
    dsimp only at h
    split at h
    · cases h
    · rename_i hzero
      intro j hj
      rcases List.mem_cons.1 hj with rfl | hmem
      · exact pricenew_eq_zero_iff.1 (not_not.1 hzero)
      · exact ih h j hmem

/-! ## Runs -/

/-- A block and the node that validates it. -/
structure PriceStep where
  /-- The block. -/
  block : CBlock
  /-- The node. -/
  node : PriceNode
  /-- The index entry of the block before, as the node knows it. -/
  previndex : CBlockIndex

/-- A block is not refused at a height: it is accepted, or an array is overrun. -/
def NotRefused (cfg : PriceConfig) (nHeight : Int) (step : PriceStep) : Prop :=
  ∃ tx out, step.block.vtx.head? = some tx ∧ tx.vout.getLast? = some out ∧
    (step.node.opretvalidate cfg step.block step.previndex nHeight out.scriptPubKey = .ok () ∨
      step.node.opretvalidate cfg step.block step.previndex nHeight out.scriptPubKey =
        .error .undefined)

/-- Blocks at consecutive heights above 2, none of which is refused. -/
inductive PriceRun (cfg : PriceConfig) : Int → CBlock → List PriceStep → Prop
  | nil (nHeight : Int) (prev : CBlock) : PriceRun cfg nHeight prev []
  | cons {nHeight : Int} {prev : CBlock} {step : PriceStep} {steps : List PriceStep}
      (height : 2 < nHeight) (accepted : NotRefused cfg nHeight step)
      (rest : PriceRun cfg (nHeight + 1) step.block steps) :
      PriceRun cfg nHeight prev (step :: steps)

/-- All prices of a chain are in an op_return, and it fits the arrays. -/
def Complete (cfg : PriceConfig) (opret : List UInt8) : Prop :=
  cfg.cbopretsize ≤ opret.length ∧ opret.length ≤ maxpricesSize

instance (cfg : PriceConfig) (opret : List UInt8) : Decidable (Complete cfg opret) :=
  inferInstanceAs (Decidable (_ ∧ _))

/-- A block and the one before have all prices, and so has the node; the block before is the
one of the active chain. -/
structure StepComplete (cfg : PriceConfig) (nHeight : Int) (prev : CBlock) (step : PriceStep) :
    Prop where
  /-- The block before is in the active chain. -/
  active : step.node.active (nHeight - 1) = some prev
  /-- The block before has all prices. -/
  before : ∃ opret, coinbaseOpret prev = some opret ∧ Complete cfg opret
  /-- The block has all prices. -/
  block : ∃ opret, coinbaseOpret step.block = some opret ∧ Complete cfg opret
  /-- So have the local prices. -/
  mineropret : Complete cfg step.node.mineropret

/-- Every step of a run has a property. -/
def StepsHave (P : Int → CBlock → PriceStep → Prop) : Int → CBlock → List PriceStep → Prop
  | _, _, [] => True
  | nHeight, prev, step :: steps =>
    P nHeight prev step ∧ StepsHave P (nHeight + 1) step.block steps

/-- Entry `i` of an op_return. -/
def opretBits (opret : List UInt8) (i : Nat) : Option UInt32 :=
  if 4 * i + 4 ≤ opret.length then some (UInt32.ofNat (leNat ((opret.drop (4 * i)).take 4)))
  else none

/-- Every configured price is in the op_return of a block, and within the tolerance of the
one in the block before. -/
def PricesKept (cfg : PriceConfig) (prev : CBlock) (step : PriceStep) : Prop :=
  ∃ before opret, coinbaseOpret prev = some before ∧ coinbaseOpret step.block = some opret ∧
    ∀ i, 1 ≤ i → i < cfg.cbopretsize / 4 → ∃ price refprice, opretBits opret i = some price ∧
      opretBits before i = some refprice ∧ WithinTolerance price refprice

/-- An entry that is copied is the entry of the op_return. -/
theorem opretBits_eq_bits {dst heap : ScriptBuf} {opret : List UInt8} {n i : Nat}
    (hlen : 4 * i + 4 ≤ opret.length) (hn : 4 * i + 4 ≤ n) :
    opretBits opret i = some (bits (copyBytes dst (heap.memcpy opret) n) i) := by
  have hslice : (copyBytes dst (heap.memcpy opret) n).slice (4 * i) 4 =
      (opret.drop (4 * i)).take 4 := by
    apply List.ext_getElem?
    intro k
    by_cases hk : k < 4
    · have hcopied : 4 * i + k < n := by omega
      have hin : 4 * i + k < opret.length := by omega
      rw [List.getElem?_take_of_lt hk, List.getElem?_drop, ScriptBuf.slice, List.getElem?_map,
        List.getElem?_range hk, List.getElem?_eq_getElem hin]
      simp [copyBytes, ScriptBuf.memcpy, hcopied, hin]
    · rw [List.getElem?_eq_none (by simp [ScriptBuf.slice]; omega),
        List.getElem?_eq_none (by simp; omega)]
  unfold opretBits bits ScriptBuf.uint32
  rw [if_pos hlen, hslice]

/-- Three checks with one error. -/
theorem requires_cases (a b d : Bool) (err : Refusal) :
    (do require a err; require b err; require d err : Except Refusal Unit) = .ok () ∨
      (do require a err; require b err; require d err : Except Refusal Unit) = .error err := by
  cases a with
  | false => exact Or.inr rfl
  | true => cases b with
    | false => exact Or.inr rfl
    | true => cases d with
      | false => exact Or.inr rfl
      | true => exact Or.inl rfl

theorem checkTimes_cases (node : PriceNode) (blocktime : Int) (block : CBlock)
    (previndex : CBlockIndex) (nHeight : Int) (timestamp : UInt32) :
    node.checkTimes blocktime block previndex nHeight timestamp = .ok () ∨
      node.checkTimes blocktime block previndex nHeight timestamp = .error .refused := by
  unfold PriceNode.checkTimes
  exact requires_cases _ _ _ _

/-- A block is refused when its prices differ too much from those of the block before. -/
theorem refused_of_pricecmp {cfg : PriceConfig} {node : PriceNode} {block prev : CBlock}
    {previndex : CBlockIndex} {nHeight : Int} {scriptPubKey : CScript} {before : List UInt8}
    (hcfg : cfg.cbopret ≠ 0) (hheight : 2 < nHeight)
    (hactive : node.active (nHeight - 1) = some prev)
    (hbefore : coinbaseOpret prev = some before) (hfits : before.length ≤ maxpricesSize)
    (hopret : (CScript.getOpReturnData scriptPubKey).length ≤ maxpricesSize)
    (hminer : node.mineropret.length ≤ maxpricesSize)
    (hcmp : pricecmp ((CScript.getOpReturnData scriptPubKey).length / 4)
      (bits (node.pricebits (CScript.getOpReturnData scriptPubKey)))
      (bits (copyBytes node.stackPrev (node.heap.memcpy before) before.length))
      pricesErrorrate = none) :
    node.opretvalidate cfg block previndex nHeight scriptPubKey = .error .refused := by
  have hprev : node.heightpricebits (nHeight - 1) = .error .refused ∨
      node.heightpricebits (nHeight - 1) =
        .ok (copyBytes node.stackPrev (node.heap.memcpy before) before.length) := by
    unfold PriceNode.heightpricebits
    rw [hactive]
    dsimp only
    rw [hbefore]
    dsimp only
    split
    · exact Or.inl rfl
    · rw [if_neg (by omega)]
      exact Or.inr rfl
  unfold PriceNode.opretvalidate
  rw [if_pos ⟨hcfg, by omega⟩]
  dsimp only
  cases hsize : decide (pricesSizebit0 ≤ (CScript.getOpReturnData scriptPubKey).length) with
  | false => rfl
  | true =>
    rw [decide_eq_true hminer, if_pos hheight]
    change node.checkPrices cfg block previndex nHeight _ = _
    unfold PriceNode.checkPrices
    dsimp only
    rcases checkTimes_cases node cfg.blocktime block previndex nHeight
      (bits (node.pricebits (CScript.getOpReturnData scriptPubKey)) 0) with htimes | htimes
    · rw [htimes]
      rcases hprev with hprev | hprev
      · rw [hprev]
        rfl
      · rw [hprev, decide_eq_true hopret]
        change (match pricecmp _ _ _ _ with
          | none => _
          | some flags => _) = _
        rw [hcmp]
    · rw [htimes]
      rfl

/-- A block that is not refused and complete keeps the prices. -/
theorem pricesKept_of_step {cfg : PriceConfig} {nHeight : Int} {prev : CBlock} {step : PriceStep}
    (hcfg : cfg.cbopret ≠ 0) (hheight : 2 < nHeight) (haccepted : NotRefused cfg nHeight step)
    (hcomplete : StepComplete cfg nHeight prev step) : PricesKept cfg prev step := by
  obtain ⟨tx, out, htx, hout, hverdict⟩ := haccepted
  obtain ⟨before, hbefore, hbeforeLow, hbeforeFits⟩ := hcomplete.before
  obtain ⟨opret, hopret, hopretLow, hopretFits⟩ := hcomplete.block
  obtain ⟨hminerLow, hminerFits⟩ := hcomplete.mineropret
  have hdata : CScript.getOpReturnData out.scriptPubKey = opret := by
    unfold coinbaseOpret at hopret
    rw [htx, Option.bind_some, hout] at hopret
    exact Option.some.inj hopret
  cases hcmp : pricecmp (opret.length / 4) (bits (step.node.pricebits opret))
      (bits (copyBytes step.node.stackPrev (step.node.heap.memcpy before) before.length))
      pricesErrorrate with
  | none =>
    rw [← hdata] at hcmp hopretFits
    have hrefused : step.node.opretvalidate cfg step.block step.previndex nHeight
        out.scriptPubKey = .error .refused :=
      refused_of_pricecmp hcfg hheight hcomplete.active hbefore hbeforeFits hopretFits hminerFits
        hcmp
    rw [hrefused] at hverdict
    rcases hverdict with h | h
    · cases h
    · cases h
  | some flags =>
    refine ⟨before, opret, hbefore, hopret, fun i hi hlt => ?_⟩
    have hmem : i ∈ List.range' 1 (opret.length / 4 - 1) := by
      rw [List.mem_range'_1]
      omega
    have hwithin := pricecmpLoop_within hcmp i hmem
    exact ⟨_, _, opretBits_eq_bits (by omega) (by omega), opretBits_eq_bits (by omega) (by omega),
      hwithin⟩

/-- Along every run of blocks that are not refused, if each is complete, every configured
price is in each block and within the tolerance of the block before. -/
theorem pricesKept_of_run {cfg : PriceConfig} {nHeight : Int} {prev : CBlock}
    {steps : List PriceStep} (hcfg : cfg.cbopret ≠ 0) (hrun : PriceRun cfg nHeight prev steps)
    (hcomplete : StepsHave (StepComplete cfg) nHeight prev steps) :
    StepsHave (fun _ prev step => PricesKept cfg prev step) nHeight prev steps := by
  induction hrun with
  | nil => trivial
  | cons height accepted rest ih =>
    exact ⟨pricesKept_of_step hcfg height accepted hcomplete.1, ih hcomplete.2⟩

namespace SamplePrices

/-- A chain with foreign exchange rates. -/
def cfg : PriceConfig where
  cbopret := 3
  prices := []
  stocks := []
  blocktime := 60

/-- A time and prices that are all 1000. -/
def opret (n : Nat) : List UInt8 :=
  leBytes 4 1000 ++ (List.replicate n (leBytes 4 1000)).flatten

/-- A block with prices in its coinbase. -/
def block (hash : Uint256) (hne : hash ≠ 0) (scriptPubKey : CScript) : CBlock where
  hash := hash
  hashFinalSaplingRoot := 0
  nTime := 1000
  vtx := [{ hash := hash, vout := [{ nValue := 0, scriptPubKey := scriptPubKey }] }]
  hash_ne_null := hne

/-- A coinbase output with all prices. -/
def fullScript : CScript := 0x6a :: CScript.pushBytes (opret 35)

/-- A coinbase output with three prices. -/
def shortScript : CScript := 0x6a :: CScript.pushBytes (opret 3)

theorem two_ne : (2 : Uint256) ≠ 0 := by decide

theorem three_ne : (3 : Uint256) ≠ 0 := by decide

theorem four_ne : (4 : Uint256) ≠ 0 := by decide

/-- The block at height 2. -/
def prev : CBlock := block 2 two_ne fullScript

/-- A block with all prices. -/
def full : CBlock := block 3 three_ne fullScript

/-- A block with three prices. -/
def short : CBlock := block 4 four_ne shortScript

/-- The index entry of the block at height 2. -/
def previndex : CBlockIndex where
  phashBlock := 2
  nHeight := 2
  nTime := 1000
  hashFinalSaplingRoot := 0

/-- A node with all local prices. -/
def node : PriceNode where
  now := 1000
  mineropret := opret 35
  refreshed := opret 35
  priceCache := fun _ _ => 1000
  active := fun nHeight => if nHeight = 2 then some prev else none
  heap := fun _ => 0
  stackPrices := fun _ => 0
  stackPrev := fun _ => 0
  stackLocal := fun _ => 0

theorem full_complete : coinbaseOpret full = some (opret 35) ∧ Complete cfg (opret 35) := by
  decide +kernel

theorem full_accepted :
    node.opretvalidate cfg full previndex 3 fullScript = .ok () := by
  decide +kernel

end SamplePrices

open SamplePrices in
/-- One block with all prices. -/
theorem pricesKept_of_run_full :
    StepsHave (fun _ prev step => PricesKept cfg prev step) 3 prev
      [{ block := full, node := node, previndex := previndex }] :=
  pricesKept_of_run (by decide)
    (PriceRun.cons (by decide)
      ⟨_, _, rfl, rfl, Or.inl full_accepted⟩
      (PriceRun.nil _ _))
    ⟨{ active := rfl
       before := ⟨opret 35, full_complete⟩
       block := ⟨opret 35, full_complete⟩
       mineropret := full_complete.2 }, trivial⟩

open SamplePrices in
/-- A block with three prices is accepted where the chain has 35. -/
theorem pricesDropped :
    cfg.cbopret ≠ 0 ∧ 2 < (3 : Int) ∧ coinbaseOpret prev = some (opret 35) ∧
      node.opretvalidate cfg short previndex 3 shortScript = .ok () ∧
      cfg.cbopretsize = 144 ∧ coinbaseOpret short = some (opret 3) ∧
      ¬ PricesKept cfg prev { block := short, node := node, previndex := previndex } := by
  have hopret : coinbaseOpret short = some (opret 3) := by decide +kernel
  have hsize : cfg.cbopretsize = 144 := by decide
  refine ⟨by decide, by decide, full_complete.1, by decide +kernel, hsize, hopret, ?_⟩
  rintro ⟨before, opret', -, hblock, hkept⟩
  obtain rfl : opret 3 = opret' := Option.some.inj (hopret.symm.trans hblock)
  obtain ⟨price, refprice, hprice, -, -⟩ := hkept 4 (by omega) (by rw [hsize]; omega)
  have habsent : opretBits (opret 3) 4 = none := by decide
  rw [habsent] at hprice
  cases hprice

end IndexChain.Prices
