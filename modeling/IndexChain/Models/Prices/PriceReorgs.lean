import IndexChain.Models.Prices.PriceFiles

/-!
# Price files and reorganisations

Blocks are connected and disconnected, and the price files follow the connected ones. Where a
block that replaces another one does not write a record, the record of the replaced block stays.
When every block either writes its records or finds their places as they were at first
(`Overwrites`), the records of the active chain are those that its blocks alone would have
written (`priceget_run`).
-/

namespace IndexChain.Prices

open IndexChain.Core

/-! ## Runs -/

/-- What happens to the active chain. -/
inductive ChainEvent where
  /-- A block is connected behind the tip. -/
  | connect (block : PricedBlock)
  /-- The tip is disconnected. -/
  | disconnect

/-- The active chain, from the genesis block on, and the price files. -/
structure PriceState where
  /-- The blocks of the active chain. -/
  chain : List PricedBlock
  /-- The price files. -/
  files : PriceFiles

namespace PriceState

variable (cfg : PriceConfig)

/-- A node that starts. -/
def created : PriceState := ⟨[], PriceFiles.created cfg⟩

/-- An event. The price files are not touched when a block is disconnected. -/
def step (s : PriceState) : ChainEvent → PriceState
  | .connect block => ⟨s.chain ++ [block], pricesupdate cfg s.chain.length block s.files⟩
  | .disconnect => ⟨s.chain.dropLast, s.files⟩

/-- A run of events. -/
def run (s : PriceState) (events : List ChainEvent) : PriceState := events.foldl (step cfg) s

end PriceState

/-- The files after the blocks of a chain, one after the other. -/
def activeFiles (cfg : PriceConfig) (chain : List PricedBlock) : PriceFiles :=
  (PriceState.run cfg (PriceState.created cfg) (chain.map ChainEvent.connect)).files

section Active

variable {cfg : PriceConfig} {chain : List PricedBlock} {block : PricedBlock}

theorem run_connect_chain (chain : List PricedBlock) (s : PriceState) :
    (PriceState.run cfg s (chain.map ChainEvent.connect)).chain = s.chain ++ chain := by
  induction chain generalizing s with
  | nil => exact (List.append_nil _).symm
  | cons block chain ih =>
    refine (ih (s.step cfg (.connect block))).trans ?_
    rw [PriceState.step, List.append_assoc]
    rfl

theorem activeFiles_append :
    activeFiles cfg (chain ++ [block]) =
      pricesupdate cfg chain.length block (activeFiles cfg chain) := by
  rw [activeFiles, List.map_append, PriceState.run, List.foldl_append]
  change pricesupdate cfg (PriceState.run cfg _ (chain.map ChainEvent.connect)).chain.length _ _ = _
  rw [run_connect_chain]
  rfl

end Active

/-! ## Steps that overwrite -/

/-- The place of a record is as it was created: blank, or behind the end of the file. -/
def Untouched (cfg : PriceConfig) (files : PriceFiles) (ind height : Nat) : Prop :=
  (files.records ind)[height]? = ((PriceFiles.created cfg).records ind)[height]?

/-- A block leaves nothing of a block that was at its height before. Its positions in the files
are numbers of 32 bits. If it does not carry the prices of the chain, then there are no prices of
its height. Behind the first day each record is written without a gap before it, or its place is
untouched. -/
structure Overwrites (cfg : PriceConfig) (files : PriceFiles) (height : Nat) (block : PricedBlock) :
    Prop where
  /-- The position of the prices. -/
  rawPosition : height * cfg.numprices < 2 ^ 31
  /-- The position of the average. -/
  recordPosition : height * 8 + 2 < 2 ^ 31
  /-- A block without the prices of the chain. -/
  missing : (∀ seed rawprices, ¬ Carries cfg block seed rawprices) →
    files.raw height = List.replicate cfg.numprices 0 ∧
    (cfg.daywindow < height → ∀ ind, 1 ≤ ind → ind < cfg.numprices →
      Untouched cfg files ind height)
  /-- A block with the prices of the chain. -/
  written : ∀ seed rawprices, Carries cfg block seed rawprices → cfg.daywindow < height →
    ∀ ind, 1 ≤ ind → ind < cfg.numprices →
      0 < correlatedPrice cfg height seed (files.setRaw height rawprices) ind ∧
          height ≤ (files.records ind).length ∨
        ¬ 0 < correlatedPrice cfg height seed (files.setRaw height rawprices) ind ∧
          Untouched cfg files ind height

/-- Every connected block of a run overwrites what was at its height. -/
def RunOverwrites (cfg : PriceConfig) : PriceState → List ChainEvent → Prop
  | _, [] => True
  | s, .connect block :: events =>
    Overwrites cfg s.files s.chain.length block ∧
      RunOverwrites cfg (s.step cfg (.connect block)) events
  | s, .disconnect :: events => RunOverwrites cfg (s.step cfg .disconnect) events

/-! ## Records that are written -/

section Records

variable {cfg : PriceConfig} {height : Nat} {seed : UInt64} {rawprices : List UInt32}
  {f g : PriceFiles} {block : PricedBlock}

/-- The record of a height, with its average. -/
def finalRecord (daywindow height : Nat) (l : List PriceRecord) (r : PriceRecord) : PriceRecord :=
  if daywindow * 2 < height then
    let smoothed := priceave daywindow ((List.range daywindow).map fun i =>
      ((writeSlot PriceRecord.blank l height r).getD (height - i) PriceRecord.blank).correlated)
    if 0 < smoothed then { r with smoothed := smoothed } else r
  else r

/-- The record and its average are one write. -/
theorem writeRecord_eq (daywindow height : Nat) (l : List PriceRecord) (r : PriceRecord) :
    writeRecord daywindow height l r =
      writeSlot PriceRecord.blank l height (finalRecord daywindow height l r) := by
  unfold writeRecord finalRecord
  dsimp only
  split
  · split
    · rw [writeSlot_writeSlot]
    · rfl
  · rfl

/-- The average reads the records below the height. -/
theorem finalRecord_congr {daywindow : Nat} {l l' : List PriceRecord} (r : PriceRecord)
    (h : ∀ i < height, l[i]? = l'[i]?) :
    finalRecord daywindow height l r = finalRecord daywindow height l' r := by
  have hget : ∀ i, (writeSlot PriceRecord.blank l height r).getD (height - i) PriceRecord.blank =
      (writeSlot PriceRecord.blank l' height r).getD (height - i) PriceRecord.blank := by
    intro i
    rw [List.getD_eq_getElem?_getD, List.getD_eq_getElem?_getD]
    rcases (Nat.sub_le height i).lt_or_eq with hlt | heq
    · rw [writeSlot_of_lt hlt, writeSlot_of_lt hlt, h _ hlt]
    · rw [heq, writeSlot_self, writeSlot_self]
  simp only [finalRecord, hget]

/-- The correlated price reads the prices up to the height. -/
theorem correlatedPrice_congr (h : ∀ i ≤ height, f.raw i = g.raw i) (ind : Nat) :
    correlatedPrice cfg height seed f ind = correlatedPrice cfg height seed g ind := by
  have hwindow : f.window cfg.daywindow height ind = g.window cfg.daywindow height ind := by
    rw [PriceFiles.window, PriceFiles.window]
    exact List.map_congr_left fun i _ => by rw [h _ (Nat.sub_le height i)]
  rw [correlatedPrice, correlatedPrice, hwindow]

/-- What an update may do to the file of a price: nothing, or a write at the height. -/
theorem pricesupdate_records_cases (height : Nat) (block : PricedBlock) (f : PriceFiles) {ind : Nat}
    (hlow : 1 ≤ ind) (hhigh : ind < cfg.numprices) :
    (pricesupdate cfg height block f).records ind = f.records ind ∨
    cfg.daywindow < height ∧ ∃ r, (pricesupdate cfg height block f).records ind =
      writeSlot PriceRecord.blank (f.records ind) height r := by
  by_cases hcarries : ∃ seed rawprices, Carries cfg block seed rawprices
  · obtain ⟨seed, rawprices, hcarries⟩ := hcarries
    rcases Nat.lt_or_ge cfg.daywindow height with hday | hday
    · rw [pricesupdate_records hcarries hday hlow hhigh, updatedRecords]
      split
      · exact Or.inr ⟨hday, _, writeRecord_eq _ _ _ _⟩
      · exact Or.inl rfl
    · rw [pricesupdate_records_low hday]
      exact Or.inl rfl
  · rw [pricesupdate_of_not hcarries]
    exact Or.inl rfl

/-- Prices of other heights are kept. -/
theorem pricesupdate_raw_of_ne {h : Nat} (hne : h ≠ height) :
    (pricesupdate cfg height block f).raw h = f.raw h := by
  by_cases hcarries : ∃ seed rawprices, Carries cfg block seed rawprices
  · obtain ⟨seed, rawprices, hcarries⟩ := hcarries
    rw [pricesupdate_raw hcarries]
    exact if_neg hne
  · rw [pricesupdate_of_not hcarries]

/-- Records above the height are kept. -/
theorem pricesupdate_records_of_gt {ind h : Nat} (hlow : 1 ≤ ind) (hhigh : ind < cfg.numprices)
    (hgt : height < h) :
    ((pricesupdate cfg height block f).records ind)[h]? = (f.records ind)[h]? := by
  rcases pricesupdate_records_cases height block f hlow hhigh with heq | ⟨-, r, heq⟩
  · rw [heq]
  · rw [heq, writeSlot_of_gt hgt]

/-- A block that overwrites keeps the records below its height. -/
theorem Overwrites.records_of_lt (hblock : Overwrites cfg f height block) {ind h : Nat}
    (hlow : 1 ≤ ind) (hhigh : ind < cfg.numprices) (hlt : h < height) :
    ((pricesupdate cfg height block f).records ind)[h]? = (f.records ind)[h]? := by
  by_cases hcarries : ∃ seed rawprices, Carries cfg block seed rawprices
  · obtain ⟨seed, rawprices, hcarries⟩ := hcarries
    rcases Nat.lt_or_ge cfg.daywindow height with hday | hday
    · rw [pricesupdate_records hcarries hday hlow hhigh, updatedRecords]
      obtain ⟨hpos, hfilled⟩ | ⟨hnot, -⟩ :=
        hblock.written seed rawprices hcarries hday ind hlow hhigh
      · rw [if_pos hpos, writeRecord_eq, setRaw_records, writeSlot_of_filled hlt hfilled]
      · rw [if_neg hnot, setRaw_records]
    · rw [pricesupdate_records_low hday]
  · rw [pricesupdate_of_not hcarries]

end Records

/-! ## Files that agree -/

/-- Two sets of files agree below a height. -/
structure Agree (cfg : PriceConfig) (k : Nat) (f g : PriceFiles) : Prop where
  /-- In the prices. -/
  raw : ∀ h < k, f.raw h = g.raw h
  /-- In the records of every price. -/
  records : ∀ ind, 1 ≤ ind → ind < cfg.numprices → ∀ h < k,
    (f.records ind)[h]? = (g.records ind)[h]?

/-- From a height on, the files are as they were created. -/
structure FreshFrom (cfg : PriceConfig) (k : Nat) (g : PriceFiles) : Prop where
  /-- There are no prices. -/
  raw : ∀ h, k ≤ h → g.raw h = List.replicate cfg.numprices 0
  /-- The places of records are untouched. -/
  records : ∀ ind, 1 ≤ ind → ind < cfg.numprices → ∀ h, k ≤ h → Untouched cfg g ind h

section Agreement

variable {cfg : PriceConfig} {height k : Nat} {f g : PriceFiles} {block : PricedBlock}

theorem FreshFrom.created (k : Nat) : FreshFrom cfg k (PriceFiles.created cfg) where
  raw _ _ := rfl
  records _ _ _ _ _ := rfl

theorem FreshFrom.step (hg : FreshFrom cfg height g) :
    FreshFrom cfg (height + 1) (pricesupdate cfg height block g) where
  raw h hh := by rw [pricesupdate_raw_of_ne (by omega), hg.raw h (by omega)]
  records ind hlow hhigh h hh :=
    (pricesupdate_records_of_gt hlow hhigh (by omega)).trans
      (hg.records ind hlow hhigh h (by omega))

theorem freshFrom_active (chain : List PricedBlock) :
    FreshFrom cfg chain.length (activeFiles cfg chain) := by
  induction chain using List.reverseRecOn with
  | nil => exact FreshFrom.created 0
  | append_singleton chain block ih =>
    rw [activeFiles_append, List.length_append]
    exact ih.step

/-- A place that is untouched in both. -/
theorem records_of_untouched (hg : FreshFrom cfg height g) {ind : Nat} (hlow : 1 ≤ ind)
    (hhigh : ind < cfg.numprices) (h : Untouched cfg f ind height) :
    (f.records ind)[height]? = (g.records ind)[height]? :=
  h.trans (hg.records ind hlow hhigh height le_rfl).symm

/-- A block that overwrites what was at its height makes files that agree below it agree at it. -/
theorem Agree.step (hagree : Agree cfg height f g) (hg : FreshFrom cfg height g)
    (hfirst : height ≤ cfg.daywindow → ∀ ind, 1 ≤ ind → ind < cfg.numprices →
      Untouched cfg f ind height)
    (hblock : Overwrites cfg f height block) :
    Agree cfg (height + 1) (pricesupdate cfg height block f) (pricesupdate cfg height block g) := by
  have hkept : ∀ f' g' : PriceFiles, f'.records = f.records → g'.records = g.records →
      (∀ ind, 1 ≤ ind → ind < cfg.numprices → Untouched cfg f ind height) →
      ∀ ind, 1 ≤ ind → ind < cfg.numprices → ∀ h < height + 1,
        (f'.records ind)[h]? = (g'.records ind)[h]? := by
    intro f' g' hf' hg' huntouched ind hlow hhigh h hh
    rw [hf', hg']
    rcases Nat.lt_succ_iff_lt_or_eq.1 hh with hlt | rfl
    · exact hagree.records ind hlow hhigh h hlt
    · exact records_of_untouched hg hlow hhigh (huntouched ind hlow hhigh)
  by_cases hcarries : ∃ seed rawprices, Carries cfg block seed rawprices
  · obtain ⟨seed, rawprices, hcarries⟩ := hcarries
    have hraw : ∀ h ≤ height, (f.setRaw height rawprices).raw h =
      (g.setRaw height rawprices).raw h := by
      intro h hh
      rw [PriceFiles.setRaw, PriceFiles.setRaw]
      dsimp only
      split
      · rfl
      · exact hagree.raw h (by omega)
    refine ⟨fun h hh => ?_, ?_⟩
    · rw [pricesupdate_raw hcarries, pricesupdate_raw hcarries]
      exact hraw h (by omega)
    · rcases Nat.lt_or_ge cfg.daywindow height with hday | hday
      · intro ind hlow hhigh h hh
        have hprice : correlatedPrice cfg height seed (f.setRaw height rawprices) ind =
            correlatedPrice cfg height seed (g.setRaw height rawprices) ind :=
          correlatedPrice_congr hraw ind
        rw [pricesupdate_records hcarries hday hlow hhigh,
          pricesupdate_records hcarries hday hlow hhigh, updatedRecords, updatedRecords, hprice,
          setRaw_records, setRaw_records]
        by_cases hpos : 0 < correlatedPrice cfg height seed (g.setRaw height rawprices) ind
        · rw [if_pos hpos, if_pos hpos, writeRecord_eq, writeRecord_eq,
            finalRecord_congr _ (hagree.records ind hlow hhigh)]
          rcases Nat.lt_succ_iff_lt_or_eq.1 hh with hlt | rfl
          · rw [writeSlot_of_lt hlt, writeSlot_of_lt hlt]
            rw [hagree.records ind hlow hhigh h hlt]
          · rw [writeSlot_self, writeSlot_self]
        · rw [if_neg hpos, if_neg hpos]
          rcases Nat.lt_succ_iff_lt_or_eq.1 hh with hlt | rfl
          · exact hagree.records ind hlow hhigh h hlt
          · obtain ⟨hwritten, -⟩ | ⟨-, huntouched⟩ :=
              hblock.written seed rawprices hcarries hday ind hlow hhigh
            · exact absurd (hprice ▸ hwritten) hpos
            · exact records_of_untouched hg hlow hhigh huntouched
      · exact hkept _ _ (pricesupdate_records_low hday) (pricesupdate_records_low hday)
          (hfirst hday)
  · have hnot : ∀ seed rawprices, ¬ Carries cfg block seed rawprices :=
      fun seed rawprices h => hcarries ⟨seed, rawprices, h⟩
    rw [pricesupdate_of_not hcarries, pricesupdate_of_not hcarries]
    refine ⟨fun h hh => ?_, hkept f g rfl rfl ?_⟩
    · rcases Nat.lt_succ_iff_lt_or_eq.1 hh with hlt | rfl
      · exact hagree.raw h hlt
      · rw [(hblock.missing hnot).1, hg.raw h le_rfl]
    · intro ind hlow hhigh
      rcases Nat.lt_or_ge cfg.daywindow height with hday | hday
      · exact (hblock.missing hnot).2 hday ind hlow hhigh
      · exact hfirst hday ind hlow hhigh

end Agreement

/-! ## Runs that overwrite -/

/-- The files agree with those of every part of the active chain, and have no record of the first
day. -/
structure Settled (cfg : PriceConfig) (s : PriceState) : Prop where
  /-- The files of the active chain, and of what is left of it after disconnecting blocks. -/
  agree : ∀ k ≤ s.chain.length, Agree cfg k s.files (activeFiles cfg (s.chain.take k))
  /-- The records of the first day are blank. -/
  first : ∀ ind, 1 ≤ ind → ind < cfg.numprices → ∀ h ≤ cfg.daywindow, Untouched cfg s.files ind h

section Run

variable {cfg : PriceConfig} {s : PriceState} {block : PricedBlock}

theorem Settled.created : Settled cfg (PriceState.created cfg) where
  agree k hk := by
    obtain rfl : k = 0 := Nat.le_zero.1 hk
    exact ⟨fun h hh => absurd hh (Nat.not_lt_zero h),
      fun _ _ _ h hh => absurd hh (Nat.not_lt_zero h)⟩
  first _ _ _ _ _ := rfl

theorem Settled.disconnect (h : Settled cfg s) : Settled cfg (s.step cfg .disconnect) where
  agree k hk := by
    rw [PriceState.step, List.length_dropLast] at hk
    have htake : s.chain.dropLast.take k = s.chain.take k := by
      rw [List.dropLast_eq_take, List.take_take, Nat.min_eq_left hk]
    have hagree := h.agree k (by omega)
    rw [← htake] at hagree
    exact hagree
  first := h.first

/-- Connecting a block that overwrites what was at its height. -/
theorem Settled.connect (h : Settled cfg s)
    (hblock : Overwrites cfg s.files s.chain.length block) :
    Settled cfg (s.step cfg (.connect block)) where
  agree k hk := by
    rw [PriceState.step, List.length_append, List.length_singleton] at hk
    rcases Nat.le_succ_iff.1 hk with hle | rfl
    · -- what is below the height is kept
      have hagree := h.agree k hle
      have htake : (s.chain ++ [block]).take k = s.chain.take k := List.take_append_of_le_length hle
      refine ⟨fun i hi => ?_, fun ind hlow hhigh i hi => ?_⟩
      · change (pricesupdate cfg s.chain.length block s.files).raw i = _
        rw [pricesupdate_raw_of_ne (by omega), hagree.raw i hi, PriceState.step, htake]
      · change ((pricesupdate cfg s.chain.length block s.files).records ind)[i]? = _
        rw [hblock.records_of_lt hlow hhigh (by omega), hagree.records ind hlow hhigh i hi,
          PriceState.step, htake]
    · have hagree := h.agree s.chain.length le_rfl
      rw [List.take_length] at hagree
      have hstep := hagree.step (freshFrom_active s.chain)
        (fun hday ind hlow hhigh => h.first ind hlow hhigh _ hday) hblock
      rw [← activeFiles_append] at hstep
      have htake : (s.chain ++ [block]).take (s.chain.length + 1) = s.chain ++ [block] :=
        List.take_of_length_le (by simp)
      rw [PriceState.step, htake]
      exact hstep
  first ind hlow hhigh i hi := by
    rcases Nat.lt_or_ge i s.chain.length with hlt | hge
    · exact (hblock.records_of_lt hlow hhigh hlt).trans (h.first ind hlow hhigh i hi)
    · have hrecords : (pricesupdate cfg s.chain.length block s.files).records = s.files.records :=
        pricesupdate_records_low (hge.trans hi)
      change ((pricesupdate cfg s.chain.length block s.files).records ind)[i]? = _
      rw [hrecords]
      exact h.first ind hlow hhigh i hi

/-- Every run of blocks that overwrite keeps the files settled. -/
theorem settled_run (hs : Settled cfg s) (events : List ChainEvent)
    (hrun : RunOverwrites cfg s events) : Settled cfg (s.run cfg events) := by
  induction events generalizing s with
  | nil => exact hs
  | cons event events ih =>
    cases event with
    | connect block => exact ih (hs.connect hrun.1) hrun.2
    | disconnect => exact ih hs.disconnect hrun

/-- A place above all blocks that were ever connected is untouched. -/
theorem untouched_run {events : List ChainEvent} {ind height : Nat} (hlow : 1 ≤ ind)
    (hhigh : ind < cfg.numprices) (h : Untouched cfg s.files ind height)
    (habove : ∀ n, (s.run cfg (events.take n)).chain.length ≤ height) :
    Untouched cfg (s.run cfg events).files ind height := by
  induction events generalizing s with
  | nil => exact h
  | cons event events ih =>
    refine ih ?_ fun n => habove (n + 1)
    cases event with
    | connect block =>
      have hlength := habove 1
      simp only [List.take_succ_cons, List.take_zero, PriceState.run, List.foldl_cons,
        List.foldl_nil, PriceState.step, List.length_append, List.length_singleton] at hlength
      exact (pricesupdate_records_of_gt hlow hhigh (by omega)).trans h
    | disconnect => exact h

/-- Along every run whose blocks overwrite what was at their heights, `komodo_priceget` returns for
each height of the active chain, for each height that no block has had, and for each price what it
would return if only the blocks of the active chain had been connected. -/
theorem priceget_run {events : List ChainEvent}
    (hrun : RunOverwrites cfg (PriceState.created cfg) events) {ind height : Nat} (hlow : 1 ≤ ind)
    (hhigh : ind < cfg.numprices)
    (hheight : height < ((PriceState.created cfg).run cfg events).chain.length ∨
      ∀ n, ((PriceState.created cfg).run cfg (events.take n)).chain.length ≤ height) :
    priceget ((PriceState.created cfg).run cfg events).files ind height =
      priceget (activeFiles cfg ((PriceState.created cfg).run cfg events).chain) ind height := by
  rcases hheight with hactive | habove
  · have hsettled := settled_run Settled.created events hrun
    have hagree := hsettled.agree _ le_rfl
    rw [List.take_length] at hagree
    rw [priceget, priceget, hagree.records ind hlow hhigh height hactive]
  · have hlength := habove events.length
    rw [List.take_length] at hlength
    have hreal := untouched_run hlow hhigh (s := PriceState.created cfg) rfl habove
    have hcreated : ∀ chain, FreshFrom cfg chain.length (activeFiles cfg chain) :=
      freshFrom_active
    have hfresh := (hcreated _).records ind hlow hhigh height hlength
    rw [priceget, priceget, hreal, hfresh]

end Run

/-! ## A record of a block that was replaced -/

/-- A block with the prices of the chain that writes all its records. -/
theorem Overwrites.of_written {cfg : PriceConfig} {files : PriceFiles} {height : Nat}
    {block : PricedBlock} {seed : UInt64} {rawprices : List UInt32}
    (hcarries : Carries cfg block seed rawprices) (hraw : height * cfg.numprices < 2 ^ 31)
    (hrecord : height * 8 + 2 < 2 ^ 31)
    (hwritten : cfg.daywindow < height → ∀ ind, 1 ≤ ind → ind < cfg.numprices →
      0 < correlatedPrice cfg height seed (files.setRaw height rawprices) ind ∧
        height ≤ (files.records ind).length) :
    Overwrites cfg files height block where
  rawPosition := hraw
  recordPosition := hrecord
  missing hnot := absurd hcarries (hnot seed rawprices)
  written seed' rawprices' hcarries' hday ind hlow hhigh := by
    have heq := hcarries.1.symm.trans hcarries'.1
    rw [Option.some_inj, Prod.mk.injEq] at heq
    rw [← heq.1, ← heq.2]
    exact Or.inl (hwritten hday ind hlow hhigh)

namespace SampleWindow

/-- A time and three prices. -/
def opret (price : Nat) : List UInt8 :=
  leBytes 4 1000 ++ leBytes 4 price ++ leBytes 4 price ++ leBytes 4 price

/-- A block with these in its coinbase. -/
def block (price : Nat) (root : Uint256) : PricedBlock where
  hash := 1
  hashFinalSaplingRoot := 0
  nTime := 1000
  vtx := [{ hash := 1,
            vout := [{ nValue := 0, scriptPubKey := 0x6a :: CScript.pushBytes (opret price) }] }]
  hashMerkleRoot := root

/-- The blocks below height 4. -/
def before : List ChainEvent :=
  [.connect (block 1 0), .connect (block 1 0), .connect (block 1 0), .connect (block 1 0)]

theorem carries_block {price : Nat} (h : (block price 0).heightpricebits =
    some (0, [1000, UInt32.ofNat price, UInt32.ofNat price, UInt32.ofNat price])) :
    Carries cfg (block price 0) 0
      [1000, UInt32.ofNat price, UInt32.ofNat price, UInt32.ofNat price] :=
  ⟨h, (by decide : 4 = cfg.numprices)⟩

end SampleWindow

open SampleWindow

/-- The tip at height 4 is replaced by a block that writes its records. -/
theorem replaced_tip :
    priceget ((PriceState.created cfg).run cfg
        (before ++ [.connect (block 2 0), .disconnect, .connect (block 1 0)])).files 1 4 =
      priceget (activeFiles cfg ((PriceState.created cfg).run cfg
        (before ++ [.connect (block 2 0), .disconnect, .connect (block 1 0)])).chain) 1 4 := by
  have hcarries : Carries cfg (block 1 0) 0 [1000, 1, 1, 1] := carries_block (by decide +kernel)
  have hcarries' : Carries cfg (block 2 0) 0 [1000, 2, 2, 2] :=
    carries_block (by decide +kernel)
  have hrun : RunOverwrites cfg (PriceState.created cfg)
      (before ++ [.connect (block 2 0), .disconnect, .connect (block 1 0)]) := by
    refine And.intro ?_ (And.intro ?_ (And.intro ?_ (And.intro ?_ (And.intro ?_
      (And.intro ?_ trivial)))))
    · exact Overwrites.of_written hcarries (by decide) (by decide) fun h => absurd h (by decide)
    · exact Overwrites.of_written hcarries (by decide) (by decide) fun h => absurd h (by decide)
    · exact Overwrites.of_written hcarries (by decide) (by decide) fun h => absurd h (by decide)
    · exact Overwrites.of_written hcarries (by decide) (by decide) fun h => absurd h (by decide)
    · refine Overwrites.of_written hcarries' (by decide) (by decide) fun _ => ?_
      decide +kernel
    · refine Overwrites.of_written hcarries (by decide) (by decide) fun _ => ?_
      decide +kernel
  exact priceget_run hrun (by decide) (by decide) (Or.inl (by decide))

/-- A block with null prices, which may follow prices of one, keeps the record of the block that
it replaces. -/
theorem record_of_replaced :
    (priceget ((PriceState.created cfg).run cfg
        (before ++ [.connect (block 2 0), .disconnect, .connect (block 0 (2 ^ 63))])).files 1 4).map
          PriceRecord.price = some 2 ∧
    priceget (activeFiles cfg ((PriceState.created cfg).run cfg
        (before ++ [.connect (block 2 0), .disconnect, .connect (block 0 (2 ^ 63))])).chain) 1 4 =
      some PriceRecord.blank := by
  constructor
  · decide +kernel
  · decide +kernel

end IndexChain.Prices
