import IndexChain.Core.Slots
import IndexChain.Models.Prices.Correlated
import Mathlib.Logic.Function.Iterate

/-!
# The price files

`komodo_pricesupdate` of `komodo_gateway.h`. A node keeps a file with the prices of every block
and for each price a file with a record for every block: the price, its time, the correlated price
and the average of a day. A connected block writes its records where the computations succeed,
and leaves the places as they are otherwise. Nothing is written when a block is disconnected.
-/

namespace IndexChain.Prices

open IndexChain.Core

/-! ## Records -/

/-- A record of a price file, less the places that are reserved. -/
structure PriceRecord where
  /-- The price of the block. -/
  price : UInt32
  /-- The time of the prices. -/
  timestamp : UInt32
  /-- The correlated price. -/
  correlated : Int
  /-- The average of a day. -/
  smoothed : Int
  deriving DecidableEq

/-- What a file holds where nothing has been written. -/
def PriceRecord.blank : PriceRecord := ⟨0, 0, 0, 0⟩

/-- A block, with the root of its transactions. -/
structure PricedBlock extends CBlock where
  /-- `hashMerkleRoot`. -/
  hashMerkleRoot : Uint256

/-- `_komodo_heightpricebits`: the seed and the prices of a block. An op_return that overruns the
array of prices has more of them than any chain. -/
def PricedBlock.heightpricebits (block : PricedBlock) : Option (UInt64 × List UInt32) :=
  (coinbaseOpret block.toCBlock).bind fun vopret =>
    if vopret.length < pricesSizebit0 then none
    else some (UInt64.ofNat block.hashMerkleRoot.toNat,
      (List.range (vopret.length / 4)).map fun i => (opretBits vopret i).getD 0)

/-- The loop of `komodo_priceave`: a price that is missing counts as the one before it. -/
def aveLoop (sum nonzprice : Int) : List Int → Int
  | [] => sum
  | price :: rest =>
    let nonzprice := if price ≠ 0 then price else nonzprice
    aveLoop (toInt64 (sum + nonzprice)) nonzprice rest

/-- `komodo_priceave`. -/
def priceave (daywindow : Nat) (correlated : List Int) : Int :=
  if daywindow < 2 then 0
  else match correlated.find? (· ≠ 0) with
    | none => -1
    | some nonzprice => (aveLoop 0 nonzprice correlated).tdiv daywindow

/-! ## Files -/

/-- `PRICES`. -/
structure PriceFiles where
  /-- The file `rawprices`: the prices of each height. -/
  raw : Nat → List UInt32
  /-- The file of each price: its records by height, up to the end of the file. -/
  records : Nat → List PriceRecord

namespace PriceFiles

/-- The files that `komodo_pricesinit` creates. -/
def created (cfg : PriceConfig) : PriceFiles where
  raw _ := List.replicate cfg.numprices 0
  records _ := List.replicate (2 * cfg.daywindow + 1) PriceRecord.blank

/-- Write the prices of a height. -/
def setRaw (files : PriceFiles) (height : Nat) (rawprices : List UInt32) : PriceFiles where
  raw h := if h = height then rawprices else files.raw h
  records := files.records

/-- Write the file of a price. -/
def setRecords (files : PriceFiles) (ind : Nat) (l : List PriceRecord) : PriceFiles where
  raw := files.raw
  records i := if i = ind then l else files.records i

/-- The prices of a day, from a height downwards. -/
def window (files : PriceFiles) (daywindow height ind : Nat) : List UInt32 :=
  (List.range daywindow).map fun i => (files.raw (height - i)).getD ind 0

end PriceFiles

/-- The record of a height, and the average over the records of a day. -/
def writeRecord (daywindow height : Nat) (l : List PriceRecord) (r : PriceRecord) :
    List PriceRecord :=
  let l := writeSlot PriceRecord.blank l height r
  if daywindow * 2 < height then
    let smoothed := priceave daywindow ((List.range daywindow).map fun i =>
      (l.getD (height - i) PriceRecord.blank).correlated)
    if 0 < smoothed then writeSlot PriceRecord.blank l height { r with smoothed := smoothed } else l
  else l

/-- The next random number. -/
def nextRngval (rngval : UInt64) : UInt64 := rngval * 11109 + 13849

/-- The body of the loop over the prices. -/
def recordsStep (cfg : PriceConfig) (height : Nat) (rawprices : List UInt32) (rngval : UInt64)
    (ind : Nat) (files : PriceFiles) : PriceFiles :=
  let correlated := pricecorrelated cfg rngval ind (files.window cfg.daywindow height ind)
  if 0 < correlated then
    files.setRecords ind (writeRecord cfg.daywindow height (files.records ind)
      { price := rawprices.getD ind 0, timestamp := rawprices.getD 0 0,
        correlated := correlated, smoothed := 0 })
  else files

/-- The loop of `komodo_pricesupdate` over the prices. -/
def recordsLoop (cfg : PriceConfig) (height : Nat) (rawprices : List UInt32) (seed : UInt64)
    (inds : List Nat) (files : PriceFiles) : PriceFiles :=
  (inds.foldl (fun state ind =>
    (nextRngval state.1, recordsStep cfg height rawprices (nextRngval state.1) ind state.2))
    (seed, files)).2

/-- `komodo_pricesupdate`, for heights whose positions in the files are numbers of 32 bits. -/
def pricesupdate (cfg : PriceConfig) (height : Nat) (block : PricedBlock) (files : PriceFiles) :
    PriceFiles :=
  match block.heightpricebits with
  | none => files
  | some (seed, rawprices) =>
    if rawprices.length = cfg.numprices then
      let files := files.setRaw height rawprices
      if cfg.daywindow < height then
        recordsLoop cfg height rawprices seed (List.range' 1 (cfg.numprices - 1)) files
      else files
    else files

/-- `komodo_priceget` for one block: nothing behind the end of the file. -/
def priceget (files : PriceFiles) (ind height : Nat) : Option PriceRecord :=
  if ind < komodoMaxprices then (files.records ind)[height]? else none

/-! ## What an update writes -/

/-- The random number of a price. -/
def rngval (seed : UInt64) (ind : Nat) : UInt64 := nextRngval^[ind] seed

theorem rngval_succ (seed : UInt64) (ind : Nat) :
    rngval seed (ind + 1) = nextRngval (rngval seed ind) :=
  Function.iterate_succ_apply' _ _ _

/-- The correlated price of a block, from the files that hold its prices. -/
def correlatedPrice (cfg : PriceConfig) (height : Nat) (seed : UInt64) (files : PriceFiles)
    (ind : Nat) : Int :=
  pricecorrelated cfg (rngval seed ind) ind (files.window cfg.daywindow height ind)

/-- The file of a price after an update. -/
def updatedRecords (cfg : PriceConfig) (height : Nat) (seed : UInt64) (rawprices : List UInt32)
    (files : PriceFiles) (ind : Nat) : List PriceRecord :=
  if 0 < correlatedPrice cfg height seed files ind then
    writeRecord cfg.daywindow height (files.records ind)
      { price := rawprices.getD ind 0, timestamp := rawprices.getD 0 0,
        correlated := correlatedPrice cfg height seed files ind, smoothed := 0 }
  else files.records ind

section Update

variable (cfg : PriceConfig) (height : Nat) (seed : UInt64) (rawprices : List UInt32)
  (files : PriceFiles)

@[simp] theorem setRaw_records (height : Nat) (rawprices : List UInt32) :
    (files.setRaw height rawprices).records = files.records := rfl

@[simp] theorem window_setRecords (ind : Nat) (l : List PriceRecord) (daywindow height ind' : Nat) :
    (files.setRecords ind l).window daywindow height ind' = files.window daywindow height ind' :=
    rfl

theorem recordsLoop_cons (r : UInt64) (ind : Nat) (rest : List Nat) :
    recordsLoop cfg height rawprices r (ind :: rest) files =
      recordsLoop cfg height rawprices (nextRngval r) rest
        (recordsStep cfg height rawprices (nextRngval r) ind files) := by
  rw [recordsLoop, List.foldl_cons]
  rfl

theorem recordsStep_raw (ind : Nat) :
    (recordsStep cfg height rawprices (rngval seed ind) ind files).raw = files.raw := by
  unfold recordsStep
  dsimp only
  split
  · rfl
  · rfl

/-- The body updates the file of its price. -/
theorem recordsStep_records (ind ind' : Nat) :
    (recordsStep cfg height rawprices (rngval seed ind) ind files).records ind' =
      if ind' = ind then updatedRecords cfg height seed rawprices files ind
      else files.records ind' := by
  unfold recordsStep updatedRecords correlatedPrice
  dsimp only
  split
  · rfl
  · split
    · rename_i hind
      rw [hind]
    · rfl

variable {files} in
/-- An update of one file reads the prices and this file only. -/
theorem updatedRecords_congr {files' : PriceFiles} {ind : Nat} (hraw : files'.raw = files.raw)
    (hrecords : files'.records ind = files.records ind) :
    updatedRecords cfg height seed rawprices files' ind =
      updatedRecords cfg height seed rawprices files ind := by
  rw [updatedRecords, updatedRecords, correlatedPrice, correlatedPrice, PriceFiles.window,
    PriceFiles.window, hraw, hrecords]

/-- The loop leaves the prices alone and updates each file once. -/
theorem recordsLoop_spec (start n : Nat) :
    (recordsLoop cfg height rawprices (rngval seed start) (List.range' (start + 1) n) files).raw =
      files.raw ∧
    ∀ ind, (recordsLoop cfg height rawprices (rngval seed start) (List.range' (start + 1) n)
        files).records ind =
      if start < ind ∧ ind ≤ start + n then updatedRecords cfg height seed rawprices files ind
      else files.records ind := by
  induction n generalizing start files with
  | zero =>
    refine ⟨rfl, fun ind => ?_⟩
    rw [if_neg (by omega)]
    rfl
  | succ n ih =>
    rw [List.range'_succ, recordsLoop_cons, ← rngval_succ]
    have hraw := recordsStep_raw cfg height seed rawprices files (start + 1)
    have hrecords := fun ind => recordsStep_records cfg height seed rawprices files (start + 1) ind
    generalize recordsStep cfg height rawprices (rngval seed (start + 1)) (start + 1) files = files'
      at hraw hrecords
    obtain ⟨hloopRaw, hloop⟩ := ih files' (start + 1)
    refine ⟨hloopRaw.trans hraw, fun ind => ?_⟩
    rw [hloop ind]
    by_cases hind : ind = start + 1
    · rw [if_neg (by omega), hrecords, if_pos hind, if_pos (by omega), hind]
    · have hkept : files'.records ind = files.records ind := by rw [hrecords, if_neg hind]
      rw [updatedRecords_congr cfg height seed rawprices hraw hkept, hkept]
      by_cases hlow : start < ind ∧ ind ≤ start + (n + 1)
      · rw [if_pos (by omega), if_pos hlow]
      · rw [if_neg (by omega), if_neg hlow]

end Update

section Blocks

variable {cfg : PriceConfig} {height : Nat} {seed : UInt64} {rawprices : List UInt32}
  {files : PriceFiles} {block : PricedBlock}

/-- A block carries the prices of the chain. -/
def Carries (cfg : PriceConfig) (block : PricedBlock) (seed : UInt64) (rawprices : List UInt32) :
    Prop :=
  block.heightpricebits = some (seed, rawprices) ∧ rawprices.length = cfg.numprices

/-- A block that does not carry them changes nothing. -/
theorem pricesupdate_of_not (h : ¬ ∃ seed rawprices, Carries cfg block seed rawprices) :
    pricesupdate cfg height block files = files := by
  unfold pricesupdate
  split
  · rfl
  · rename_i seed rawprices hbits
    rw [if_neg fun hlen => h ⟨seed, rawprices, hbits, hlen⟩]

theorem pricesupdate_raw (h : Carries cfg block seed rawprices) :
    (pricesupdate cfg height block files).raw = (files.setRaw height rawprices).raw := by
  rw [pricesupdate, h.1]
  dsimp only
  rw [if_pos h.2]
  split
  · exact (recordsLoop_spec cfg height seed rawprices _ 0 (cfg.numprices - 1)).1
  · rfl

/-- In the first day there are no records. -/
theorem pricesupdate_records_low (hheight : height ≤ cfg.daywindow) :
    (pricesupdate cfg height block files).records = files.records := by
  unfold pricesupdate
  split
  · rfl
  · split
    · rw [if_neg (by omega)]
      rfl
    · rfl

/-- Afterwards each price that is correlated has one. -/
theorem pricesupdate_records (h : Carries cfg block seed rawprices)
    (hheight : cfg.daywindow < height)
    {ind : Nat} (hlow : 1 ≤ ind) (hhigh : ind < cfg.numprices) :
    (pricesupdate cfg height block files).records ind =
      updatedRecords cfg height seed rawprices (files.setRaw height rawprices) ind := by
  rw [pricesupdate, h.1]
  dsimp only
  rw [if_pos h.2, if_pos hheight]
  have hloop := (recordsLoop_spec cfg height seed rawprices (files.setRaw height rawprices) 0
    (cfg.numprices - 1)).2 ind
  rw [if_pos (by omega)] at hloop
  exact hloop

end Blocks

end IndexChain.Prices
