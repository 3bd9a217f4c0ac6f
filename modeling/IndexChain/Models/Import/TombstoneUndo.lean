import IndexChain.Models.Import.Tombstone

/-!
# Taking a tombstone back

`AddImportTombstone` appends an output to the record under the id of the burn, whatever is
there, and `RemoveImportTombstone` clears that record. The second undoes the first only in
a view that has nothing under the id; `ConnectBlock` does not ask for that, and when the
block of a second import of one burn is disconnected, the tombstone of the first one goes
with it.
-/

namespace IndexChain

open IndexChain.Core

namespace CCoinsViewCache

variable {base : CCoinsView} {c c' : CCoinsViewCache} {tx : CTransaction} {nHeight : Nat}

variable (base) in
/-- Every lookup of coins has the same answer in both views. -/
structure SameCoinsAnswers (c c' : CCoinsViewCache) : Prop where
  /-- `GetCoins`, up to the equality of the source. -/
  getCoins : ∀ txid, sameCoins ((c'.view base).getCoins txid) ((c.view base).getCoins txid) = true
  /-- `HaveCoins`. -/
  haveCoins : ∀ txid, c'.haveCoins base txid = c.haveCoins base txid

variable (base) in
/-- The tombstone of an import is added and removed again. -/
def tombstoneRoundTrip (tx : CTransaction) (c : CCoinsViewCache) (nHeight : Nat) :
    CCoinsViewCache :=
  removeImportTombstone base tx (addImportTombstone base tx c nHeight)

theorem haveCoins_eq (c : CCoinsViewCache) (txid : Uint256) :
    c.haveCoins base txid = !(c.coinsAt base txid).vout.isEmpty := by
  rw [← getCoins_getD]
  unfold haveCoins
  cases (c.view base).getCoins txid <;> rfl

/-- There are coins where something is unspent, when records are canonical. -/
theorem haveCoins_eq_of_canonical {txid : Uint256} (h : (c.coinsAt base txid).Canonical) :
    c.haveCoins base txid = !(c.contents base txid).isPruned := by
  unfold contents
  rw [haveCoins_eq, CCoins.isPruned_live, Bool.not_inj_iff, Bool.eq_iff_iff, h.isPruned_iff,
    List.isEmpty_iff]

/-- An import names its burn. -/
theorem vin_of_isCoinImport (h : tx.isCoinImport = true) : ∃ txin, tx.vin = [txin] := by
  unfold CTransaction.isCoinImport at h
  split at h
  · rename_i txin hvin
    exact ⟨txin, hvin⟩
  · cases h

theorem existsImportTombstone_eq (h : tx.isCoinImport = true) :
    existsImportTombstone base tx c = c.haveCoins base tx.burnHash := by
  obtain ⟨txin, hvin⟩ := vin_of_isCoinImport h
  unfold existsImportTombstone CTransaction.burnHash
  rw [hvin]

variable (base c nHeight) in
/-- The round trip writes the record under the burn twice, and leaves it cleared. -/
theorem tombstoneRoundTrip_eq (h : tx.isCoinImport = true) :
    ∃ f : CCoins → CCoins, tombstoneRoundTrip base tx c nHeight =
      (c.modifyCoins base tx.burnHash f).modifyCoins base tx.burnHash fun _ => {} := by
  obtain ⟨txin, hvin⟩ := vin_of_isCoinImport h
  refine ⟨fun k => { k with nHeight := nHeight, nVersion := 4, vout := k.vout ++ [tombstone] }, ?_⟩
  unfold tombstoneRoundTrip removeImportTombstone addImportTombstone CTransaction.burnHash
  rw [hvin]

theorem CacheWf.tombstoneRoundTrip (hwf : c.CacheWf base) (h : tx.isCoinImport = true) :
    (tombstoneRoundTrip base tx c nHeight).CacheWf base := by
  obtain ⟨f, hf⟩ := tombstoneRoundTrip_eq base c nHeight h
  rw [hf]
  exact (hwf.modifyCoins _ f).modifyCoins _ _

variable (nHeight) in
/-- After the round trip nothing is left under the burn, and all else is as before. -/
theorem contents_tombstoneRoundTrip (hwf : c.CacheWf base) (h : tx.isCoinImport = true) :
    (tombstoneRoundTrip base tx c nHeight).contents base =
      Function.update (c.contents base) tx.burnHash {} := by
  obtain ⟨f, hf⟩ := tombstoneRoundTrip_eq base c nHeight h
  have hcleared : (({} : CCoins).cleanup).live = {} := by decide
  rw [hf, contents_modifyCoins (hwf.modifyCoins _ f), contents_modifyCoins hwf, hcleared,
    Function.update_idem]

variable (nHeight) in
/-- Its records are canonical. -/
theorem Sound.canonical_tombstoneRoundTrip (hs : c.Sound base) (h : tx.isCoinImport = true)
    (txid : Uint256) : ((tombstoneRoundTrip base tx c nHeight).coinsAt base txid).Canonical := by
  obtain ⟨f, hf⟩ := tombstoneRoundTrip_eq base c nHeight h
  rw [hf]
  by_cases hid : txid = tx.burnHash
  · rw [hid]
    exact canonical_modifyCoins_self hs.baseCanonical canonical_empty
  · rw [coinsAt_modifyCoins_of_ne hid, coinsAt_modifyCoins_of_ne hid]
    exact hs.canonical txid

/-- Adding the tombstone of an import and removing it again restores every answer of a view
if and only if the view has no coins under the id of the burn. -/
theorem tombstoneRoundTrip_restores_iff (hs : c.Sound base) (h : tx.isCoinImport = true)
    (nHeight : Nat) :
    SameCoinsAnswers base c (tombstoneRoundTrip base tx c nHeight) ↔
      existsImportTombstone base tx c = false := by
  have hcontents := contents_tombstoneRoundTrip nHeight hs.wf h
  have hhave := fun txid => haveCoins_eq_of_canonical
    (hs.canonical_tombstoneRoundTrip nHeight h txid)
  rw [existsImportTombstone_eq h]
  constructor
  · intro hsame
    rw [← hsame.haveCoins, hhave, hcontents, Function.update_self]
    rfl
  · intro hnone
    -- nothing is cleared where nothing was
    have hempty : c.contents base tx.burnHash = {} := by
      rw [haveCoins_eq_of_canonical (hs.canonical _), Bool.not_eq_false'] at hnone
      unfold contents at hnone ⊢
      rw [CCoins.isPruned_live] at hnone
      exact CCoins.live_of_isPruned hnone
    have hsame : (tombstoneRoundTrip base tx c nHeight).contents base = c.contents base := by
      rw [hcontents, ← hempty, Function.update_eq_self]
    refine ⟨fun txid => ?_, fun txid => ?_⟩
    · exact sameCoins_of_contents (hs.wf.tombstoneRoundTrip h) hs.wf (congrFun hsame txid)
    · rw [hhave, hsame, haveCoins_eq_of_canonical (hs.canonical txid)]

end CCoinsViewCache

/-- The state after a chain of blocks is sound. -/
theorem sound_connectChain {env : ConnectEnv} {base : CCoinsView} {blocks : List CBlock}
    {pprev : Option CBlockIndex} {c c' : CCoinsViewCache}
    (hs : c.Sound base ∧ c.AnchorsOk base env.trees)
    (h : env.connectChain base blocks pprev c = some c') : c'.Sound base := by
  induction blocks generalizing pprev c with
  | nil =>
    cases h
    exact hs.1
  | cons block rest ih =>
    simp only [ConnectEnv.connectChain, Option.bind_eq_bind, Option.bind_eq_some_iff,
      Prod.exists] at h
    obtain ⟨c1, undo, h1, hrest⟩ := h
    exact ih (sound_connectBlock hs h1) hrest

namespace SampleImports

/-- The state after the import of another burn. -/
def imported : CCoinsViewCache := endOf (chain [makeImport (burn 0x78) payouts 100])

theorem sound_imported : imported.Sound SampleChain.db :=
  sound_connectChain ⟨(ChainInv.start env).sound, (ChainInv.start env).anchors⟩
    (connectChain_endOf (by decide +kernel))

end SampleImports

open SampleImports CCoinsViewCache in
/-- The import of a burn whose tombstone is not there yet, though that of another one is. -/
theorem tombstoneRoundTrip_restores_first :
    existsImportTombstone SampleChain.db (makeImport (burn 0x78) payouts 101) imported = true ∧
      SameCoinsAnswers SampleChain.db imported
        (tombstoneRoundTrip SampleChain.db (makeImport burnTx payouts 100) imported 3) :=
  ⟨by decide +kernel, (tombstoneRoundTrip_restores_iff sound_imported (by decide) 3).2
    (by decide +kernel)⟩

open SampleImports CCoinsViewCache in
/-- In the state after the first import of a burn, the round trip of a second one takes the
tombstone of the first one away. -/
theorem tombstoneRoundTrip_loses_tombstone :
    env.connectChain SampleChain.db (chain [makeImport burnTx payouts 100]) none {} =
        some (endOf (chain [makeImport burnTx payouts 100])) ∧
      (makeImport burnTx payouts 101).isCoinImport = true ∧
      ¬ SameCoinsAnswers SampleChain.db (endOf (chain [makeImport burnTx payouts 100]))
        (tombstoneRoundTrip SampleChain.db (makeImport burnTx payouts 101)
          (endOf (chain [makeImport burnTx payouts 100])) 2) := by
  refine ⟨connectChain_endOf (by decide +kernel), by decide, ?_⟩
  intro hsame
  have hhave := hsame.haveCoins burnTx.hash
  revert hhave
  decide +kernel

end IndexChain
