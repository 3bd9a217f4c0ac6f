import IndexChain.Models.Import.ImportTx

/-!
# Imports and burns that come back

Together, for the payouts of coins, the payouts of tokens and the three forms of burn outputs:
what is written comes back exactly when it is within the limits of the readers. A Merkle branch
with a negative index, a vector longer than `MAX_SIZE`, and a burn transaction with fields that
its format does not have do not.
-/

namespace IndexChain.Wire

open IndexChain.Core

/-- What is put into an import or a burn output comes back exactly when it fits: coins with the
proof and the burn transaction, tokens also with the creation that carries them, and a burn
output with its symbol and its raw proof. -/
theorem import_burn_iff :
    (∀ (next : NextBlock) (proof : ImportProof) (burnTx : CTransaction) (payouts : List CTxOut)
        (last : CTxOut) (nExpiryHeightOverride : UInt32) (importData : List UInt8),
      (CMutableTransaction.ofTransaction burnTx).InFormat → burnTx.Hashed →
      marshalImportData proof burnTx = some importData → payouts.getLast? = some last →
      CScript.getOpReturnData last.scriptPubKey = [] →
      CScript.getOpReturnData (CScript.opReturn importData) = importData →
      (ImportInverted next proof burnTx payouts nExpiryHeightOverride ↔
        proof.Fits ∧ (CMutableTransaction.ofTransaction burnTx).Fits)) ∧
    (∀ (next : NextBlock) (proof : ImportProof) (burnTx : CTransaction) (payouts : List CTxOut)
        (nExpiryHeightOverride : UInt32) (importData origpubkey name description : List UInt8)
        (oprets : Oprets),
      (CMutableTransaction.ofTransaction burnTx).InFormat → burnTx.Hashed →
      marshalImportData proof burnTx = some importData →
      payouts.getLast? =
        some (zeroOut (encodeTokenCreateOpRet origpubkey name description oprets)) →
      (∀ o ∈ oprets, o.1 ≠ opretidImportdata) →
      CScript.getOpReturnData (encodeTokenCreateOpRet origpubkey name description
          (withIds oprets ++ [(opretidImportdata, importData)])) =
        tokenCreateData origpubkey name description
          (withIds oprets ++ [(opretidImportdata, importData)]) →
      (ImportInverted next proof burnTx payouts nExpiryHeightOverride ↔
        CreateFits origpubkey name description
            (withIds oprets ++ [(opretidImportdata, importData)]) ∧
          proof.Fits ∧ (CMutableTransaction.ofTransaction burnTx).Fits)) ∧
    ∀ (burnTx : IndexChain.CTransaction) (targetCCid : UInt32) (targetSymbol : List UInt8)
        (payouts : List IndexChain.CTxOut) (rawproof : List UInt8) (out : IndexChain.CTxOut)
        (data : List UInt8),
      IsBurnOutput targetCCid targetSymbol payouts rawproof out data →
      burnTx.vout.getLast? = some out → CScript.getOpReturnData out.scriptPubKey = data →
      (BurnData.unmarshalBurnTx burnTx =
          some { targetSymbol := stringOfBytes targetSymbol, targetCcid := targetCCid
                 payoutsHash := hashPayouts payouts, rawproof := rawproof } ↔
        targetSymbol.length ≤ maxSize ∧ rawproof.length ≤ maxSize) := by
  refine ⟨?_, ?_, ?_⟩
  · intro next proof burnTx payouts last nExpiryHeightOverride importData hformat hhash hmarshal
      hlast hcoins hpush
    exact importInverted_coins hformat hhash hmarshal hlast hcoins hpush
  · intro next proof burnTx payouts nExpiryHeightOverride importData origpubkey name description
      oprets hformat hhash hmarshal hlast hnew hpush
    exact importInverted_tokens hformat hhash hmarshal hlast hnew hpush
  · intro burnTx targetCCid targetSymbol payouts rawproof out data hout hlast hpush
    exact unmarshalBurnTx_iff hout hlast hpush

namespace SampleImports

open SampleTransactions

/-- A block after Sapling. -/
def next : NextBlock where
  nHeight := 1000
  overwinter := true
  sapling := true
  saplingHeight := 500
  expiryDelta := 200

/-- A burn transaction. -/
def burnTx : CTransaction := hashed plain

/-- A payout of coins. -/
def payout : CTxOut where
  nValue := 1000
  scriptPubKey := [0x51]

/-- A payload of a token creation. -/
def oprets : Oprets := [(opretidAssetsdata, [1, 2])]

/-- Transactions of notaries. -/
def proof : ImportProof := .notaryTxids [3, 4]

/-- The payouts of tokens. -/
def tokenPayouts : List CTxOut :=
  [payout, zeroOut (encodeTokenCreateOpRet [2] [0x78] [0x79] oprets)]

/-- A branch without a position. -/
def noIndex : ImportProof := .merkleBranch (7, { nIndex := -1, branch := [] })

/-- A Merkle block that is not read. -/
def longBlock : List UInt8 := List.replicate 0x02000001 0

/-- The burn transaction with a field that its format does not have. -/
def expiring : CTransaction := { burnTx with nExpiryHeight := 7 }

/-- The bytes of both. -/
def burnBytes : List UInt8 := burnTx.serialize.getD []

theorem burnTx_inFormat : (CMutableTransaction.ofTransaction burnTx).InFormat := plain_inFormat

theorem burnTx_fits : (CMutableTransaction.ofTransaction burnTx).Fits := plain_fits

theorem burnTx_hashed : burnTx.Hashed := hashed_hashed plain_inFormat

theorem serialize_burnTx : burnTx.serialize = some burnBytes := by decide +kernel

theorem serialize_expiring : expiring.serialize = some burnBytes := by decide +kernel

theorem proof_fits : proof.Fits := (by decide : [3, 4].length ≤ maxSize)

theorem length_longBlock : longBlock.length = 0x02000001 := List.length_replicate

theorem length_burnBytes : burnBytes.length = 62 := by decide +kernel

/-- The import data of the burn transaction. -/
def importData (proof : ImportProof) : List UInt8 :=
  [ImportEnv.evalImportcoin] ++ (proof.write ++ burnBytes)

theorem marshal_burnTx (proof : ImportProof) :
    marshalImportData proof burnTx = some (importData proof) := by
  unfold marshalImportData
  rw [serialize_burnTx]
  rfl

theorem marshal_expiring (proof : ImportProof) :
    marshalImportData proof expiring = some (importData proof) := by
  unfold marshalImportData
  rw [serialize_expiring]
  rfl

/-- Import data are pushed whole when the proof is not of several gigabytes. -/
theorem pushed_importData {proof : ImportProof} (h : proof.write.length ≤ 2 ^ 31) :
    CScript.getOpReturnData (CScript.opReturn (importData proof)) = importData proof := by
  apply CScript.getOpReturnData_opReturn_of_lt
  rw [importData, List.length_append, List.length_append, length_burnBytes, List.length_singleton]
  omega

/-- A number that is not above 127 has one digit. -/
theorem length_writeVarInt_of_le {n : Int} (h : n ≤ 127) : (writeVarInt n).length = 1 := by
  rw [length_writeVarInt, sizeOfVarInt, if_pos h]

theorem length_writeCompactSize_le (n : Nat) : (writeCompactSize n).length ≤ 9 := by
  unfold writeCompactSize
  split
  · simp
  · split
    · simp
    · split <;> simp

theorem length_noIndex : noIndex.write.length ≤ 2 ^ 31 := by
  have hindex : (writeVarInt (-1 : Int32).toInt).length = 1 := length_writeVarInt_of_le (by decide)
  simp only [noIndex, ImportProof.write, List.length_append, hindex]
  decide

theorem length_merkleBlock {block : List UInt8} (h : block.length ≤ 2 ^ 30) :
    (ImportProof.merkleBlock block).write.length ≤ 2 ^ 31 := by
  have hsize := length_writeCompactSize_le block.length
  simp only [ImportProof.write, Core.writeBytes, List.length_append, List.length_singleton]
  omega

/-- The burn transaction of coins. -/
def coinsTx (rawproof : List UInt8) : IndexChain.CTransaction where
  hash := 1
  vout := [makeBurnOutputReceipt 1000 100 [0x41] [] rawproof [0x52] [1, 2]]

/-- The data of its output. -/
def coinsData (rawproof : List UInt8) : List UInt8 :=
  burnFields 100 [0x41] [] rawproof ++ (Core.writeBytes [0x52] ++ Core.writeBytes [1, 2])

theorem pushed_coinsData {rawproof : List UInt8} (h : rawproof.length ≤ 2 ^ 30) :
    CScript.getOpReturnData (CScript.opReturn (coinsData rawproof)) = coinsData rawproof := by
  apply CScript.getOpReturnData_opReturn_of_lt
  have hsize := length_writeCompactSize_le rawproof.length
  have hccid : (writeVarInt (100 : UInt32).toNat).length = 1 :=
    length_writeVarInt_of_le (by decide)
  have hhash : (IndexChain.writeUint256 (hashPayouts [])).length = 32 := leBytes_length 32 _
  have hsymbol : (Core.writeBytes [0x41]).length = 2 := by decide
  have hmore : (Core.writeBytes [0x52] ++ Core.writeBytes [1, 2]).length = 5 := by decide
  rw [coinsData, burnFields, List.length_append, List.length_append, List.length_append,
    List.length_append, List.length_append, hccid, hhash, hsymbol, hmore, List.length_singleton,
    Core.writeBytes, List.length_append]
  omega

end SampleImports

open SampleImports

/-- Coins, tokens and a burn output with a receipt. -/
theorem import_burn_samples :
    ImportInverted next proof burnTx [payout] 0 ∧ ImportInverted next proof burnTx tokenPayouts 0 ∧
      BurnData.unmarshalBurnTx (coinsTx [9]) =
        some { targetSymbol := stringOfBytes [0x41], targetCcid := 100
               payoutsHash := hashPayouts [], rawproof := [9] } := by
  obtain ⟨hcoins, htokens, hburn⟩ := import_burn_iff
  refine ⟨?_, ?_, ?_⟩
  · refine (hcoins next proof burnTx [payout] payout 0 (importData proof) burnTx_inFormat
      burnTx_hashed (marshal_burnTx proof) rfl (by decide) (pushed_importData (by decide))).2 ?_
    exact ⟨proof_fits, burnTx_fits⟩
  · have hfits : CreateFits [2] [0x78] [0x79]
        (withIds oprets ++ [(opretidImportdata, importData proof)]) := by
      refine ⟨by decide, by decide, by decide, by decide, ?_, ?_⟩
      · decide +kernel
      · decide +kernel
    refine (htokens next proof burnTx tokenPayouts 0 (importData proof) [2] [0x78] [0x79] oprets
      burnTx_inFormat burnTx_hashed (marshal_burnTx proof) rfl (by decide)
      (data_encodeTokenCreateOpRet hfits.data)).2 ?_
    exact ⟨hfits, proof_fits, burnTx_fits⟩
  · exact (hburn (coinsTx [9]) 100 [0x41] [] [9] _ (coinsData [9]) (.receipt 1000 [0x52] [1, 2]) rfl
      (pushed_coinsData (by decide))).2 ⟨by decide, by decide⟩

/-- A transaction with the bytes of another one does not come back. -/
theorem expiring_not_inverted : ¬ ImportInverted next proof expiring [payout] 0 := by
  intro h
  have hsame : makeImportCoinTransaction next proof expiring [payout] 0 =
      makeImportCoinTransaction next proof burnTx [payout] 0 := by
    unfold makeImportCoinTransaction
    rw [marshal_expiring, marshal_burnTx]
    rfl
  have hburn : ImportInverted next proof burnTx [payout] 0 :=
    (importInverted_coins burnTx_inFormat burnTx_hashed (marshal_burnTx proof) rfl (by decide)
      (pushed_importData (by decide))).2 ⟨proof_fits, burnTx_fits⟩
  rw [ImportInverted, hsame, hburn] at h
  have hheight := congrArg (fun r => r.2.1.nExpiryHeight) (Option.some.inj h)
  exact absurd hheight (by decide)

/-- A negative index, a block that is too long, a field that the format does not have and a raw
proof that is too long do not come back, although their data are pushed whole. -/
theorem import_burn_not_inverted :
    CScript.getOpReturnData payout.scriptPubKey = [] ∧
      (∀ p ∈ [noIndex, .merkleBlock longBlock, proof],
        CScript.getOpReturnData (CScript.opReturn (importData p)) = importData p) ∧
      ¬ ImportInverted next noIndex burnTx [payout] 0 ∧
      ¬ ImportInverted next (.merkleBlock longBlock) burnTx [payout] 0 ∧
      ¬ ImportInverted next proof expiring [payout] 0 ∧
      CScript.getOpReturnData (CScript.opReturn (coinsData longBlock)) = coinsData longBlock ∧
      BurnData.unmarshalBurnTx (coinsTx longBlock) ≠
        some { targetSymbol := stringOfBytes [0x41], targetCcid := 100
               payoutsHash := hashPayouts [], rawproof := longBlock } := by
  have hlong : longBlock.length ≤ 2 ^ 30 := by
    rw [length_longBlock]
    decide
  have hbig : ¬ longBlock.length ≤ maxSize := by
    rw [length_longBlock]
    decide
  have hindex := pushed_importData length_noIndex
  have hblock := pushed_importData (length_merkleBlock hlong)
  have hproof := pushed_importData (by decide : proof.write.length ≤ 2 ^ 31)
  have hraw := pushed_coinsData hlong
  refine ⟨by decide, ?_, ?_, ?_, expiring_not_inverted, hraw, ?_⟩
  · intro p hp
    simp only [List.mem_cons, List.not_mem_nil, or_false] at hp
    rcases hp with rfl | rfl | rfl
    · exact hindex
    · exact hblock
    · exact hproof
  · intro h
    have hfits := (importInverted_coins burnTx_inFormat burnTx_hashed (marshal_burnTx _) rfl
      (by decide) hindex).1 h
    exact absurd hfits.1.1 (by decide)
  · intro h
    have hfits := (importInverted_coins burnTx_inFormat burnTx_hashed (marshal_burnTx _) rfl
      (by decide) hblock).1 h
    exact hbig hfits.1
  · intro h
    have hout : IsBurnOutput 100 [0x41] [] longBlock _ (coinsData longBlock) :=
      .receipt 1000 [0x52] [1, 2]
    exact hbig ((unmarshalBurnTx_iff hout rfl hraw).1 h).2

end IndexChain.Wire
