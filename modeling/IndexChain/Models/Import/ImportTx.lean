import IndexChain.Models.Import.BurnOutput
import IndexChain.Models.Wire.RoundTrip

/-!
# Import transactions

`MakeImportCoinTransaction` of `importcoin.cpp` writes the proof and the burn transaction into
the op_return of the last output: one of its own behind the payouts of coins, and one payload
more in the token creation that ends the payouts of tokens. `UnmarshalImportTx` takes the
payload out again and makes the creation anew. Both directions go through the limits of the
readers, and a Merkle branch keeps its index only when that is not negative.
-/

namespace IndexChain.Wire

open IndexChain.Core

open Reader (Reads ReadsWhen)

/-- `OPRETID_IMPORTDATA`. -/
def opretidImportdata : UInt8 := 0x81

/-! ## Proofs -/

/-- `MerkleBranch`. -/
structure MerkleBranch where
  /-- The position of the leaf. -/
  nIndex : Int32
  /-- The hashes beside the path. -/
  branch : List Uint256
  deriving DecidableEq

/-- `TxProof`. -/
abbrev TxProof := Uint256 × MerkleBranch

/-- `ImportProof` with what its kind has. -/
inductive ImportProof where
  | none
  | merkleBranch (proofBranch : TxProof)
  | notaryTxids (txids : List Uint256)
  | merkleBlock (block : List UInt8)
  deriving DecidableEq

namespace ImportProof

/-- `SerializationOp` of a writer. -/
def write : ImportProof → List UInt8
  | none => [0x00]
  | merkleBranch proofBranch => [0x11] ++ (writeUint256 proofBranch.1 ++
      (writeVarInt proofBranch.2.nIndex.toInt ++ writeVector writeUint256 proofBranch.2.branch))
  | notaryTxids txids => [0x12] ++ writeVector writeUint256 txids
  | merkleBlock block => [0x13] ++ Core.writeBytes block

/-- `SerializationOp` of a reader; another kind is trash and becomes `PROOF_NONE`. -/
def read : Reader ImportProof := do
  let proofKind ← Reader.byte
  if proofKind = 0x11 then do
    let hash ← readUint256
    let nIndex ← Reader.varIntSigned 32
    let branch ← Reader.vectorOf readUint256
    return merkleBranch (hash, { nIndex := Int32.ofInt nIndex, branch })
  else if proofKind = 0x12 then do
    let txids ← Reader.vectorOf readUint256
    return notaryTxids txids
  else if proofKind = 0x13 then do
    let block ← Reader.vector
    return merkleBlock block
  else return none

/-- No vector is longer than `MAX_SIZE`, and an index is not negative. -/
def Fits : ImportProof → Prop
  | none => True
  | merkleBranch proofBranch =>
    0 ≤ proofBranch.2.nIndex ∧ proofBranch.2.branch.length ≤ maxSize
  | notaryTxids txids => txids.length ≤ maxSize
  | merkleBlock block => block.length ≤ maxSize

theorem length_le_writeVector (xs : List Uint256) :
    xs.length ≤ (writeVector writeUint256 xs).length := by
  have hflat : (xs.flatMap writeUint256).length = xs.length * 32 := by
    induction xs with
    | nil => rfl
    | cons x xs ih =>
      have hx : (writeUint256 x).length = 32 := leBytes_length 32 _
      rw [List.flatMap_cons, List.length_append, ih, hx, List.length_cons]
      omega
  rw [writeVector, List.length_append, hflat]
  omega

theorem readsWhen_hashes {xs : List Uint256}
    (hshort : (writeVector writeUint256 xs).length < 2 ^ 32) :
    ReadsWhen (xs.length ≤ maxSize) (Reader.vectorOf readUint256) (writeVector writeUint256 xs)
      xs := by
  have hle := length_le_writeVector xs
  exact CMutableTransaction.readsWhen_vector (by omega) reads_uint256

/-- An index that is not negative is read back. -/
theorem reads_index {n : Int32} (h : 0 ≤ n) :
    Reads (Reader.varIntSigned 32) (writeVarInt n.toInt) n.toInt := by
  have hlow : 0 ≤ n.toInt := by simpa using Int32.le_iff_toInt_le.1 h
  exact Reader.Reads.varIntSigned hlow n.toInt_lt

/-- A negative index has only its last digit written. -/
theorem reads_negative {n : Int32} (h : ¬ 0 ≤ n) :
    Reads (Reader.varIntSigned 32) (writeVarInt n.toInt) (n.toInt % 128) := by
  have hneg : n.toInt < 0 := by simpa using mt Int32.le_iff_toInt_le.2 h
  have hdigit : writeVarInt n.toInt = writeVarInt (n.toInt % 128) := by
    unfold writeVarInt varIntDigits
    dsimp only
    rw [if_pos (by omega), if_pos (by omega), Int.emod_emod_of_dvd _ (dvd_refl 128)]
  rw [hdigit]
  exact Reader.Reads.varIntSigned (by omega) (by omega)

/-- A proof that fits is read back. -/
theorem reads_write {proof : ImportProof} (h : proof.Fits) : Reads read proof.write proof := by
  cases proof with
  | none => exact Reads.bind_pure (Reads.byte 0) (Reads.pure none)
  | merkleBranch proofBranch =>
    obtain ⟨hash, nIndex, branch⟩ := proofBranch
    have hpure : Reads (Pure.pure (merkleBranch (hash, { nIndex := Int32.ofInt nIndex.toInt
                                                         branch }))) []
        (merkleBranch (hash, { nIndex, branch })) := by
      rw [Int32.ofInt_toInt]
      exact Reads.pure _
    refine (Reads.byte 0x11).bind ((reads_uint256 hash).bind ((reads_index h.1).bind ?_))
    exact (Reads.vectorOf h.2 fun x _ => reads_uint256 x).bind_pure hpure
  | notaryTxids txids =>
    exact (Reads.byte 0x12).bind
      ((Reads.vectorOf h fun x _ => reads_uint256 x).bind_pure (Reads.pure _))
  | merkleBlock block =>
    exact (Reads.byte 0x13).bind ((Reads.vector h).bind_pure (Reads.pure _))

/-- A proof that is read back fits. -/
theorem fits_of_read {proof : ImportProof} (hshort : proof.write.length < 2 ^ 32)
    {rest rest' : List UInt8} (h : read (proof.write ++ rest) = some (proof, rest')) :
    proof.Fits := by
  cases proof with
  | none => trivial
  | merkleBranch proofBranch =>
    obtain ⟨hash, nIndex, branch⟩ := proofBranch
    simp only [write, List.length_append] at hshort
    simp only [write, List.append_assoc] at h
    obtain ⟨-, h⟩ := (Reads.byte 0x11).always.of_bind h
    obtain ⟨-, h⟩ := (reads_uint256 hash).always.of_bind h
    by_cases hindex : 0 ≤ nIndex
    · obtain ⟨-, h⟩ := (reads_index hindex).always.of_bind h
      obtain ⟨hsize, -⟩ := (readsWhen_hashes (by omega)).of_bind h
      exact ⟨hindex, hsize⟩
    · obtain ⟨-, h⟩ := (reads_negative hindex).always.of_bind h
      obtain ⟨-, h⟩ := (readsWhen_hashes (by omega)).of_bind h
      have heq := congrArg Prod.fst (Reader.pure_eq_some.1 h)
      simp only [merkleBranch.injEq, Prod.mk.injEq, MerkleBranch.mk.injEq, and_true,
        true_and] at heq
      refine absurd ?_ hindex
      rw [← heq, Int32.le_iff_toInt_le, Int32.toInt_ofInt_of_le (by omega) (by omega)]
      exact Int.emod_nonneg _ (by decide)
  | notaryTxids txids =>
    simp only [write, List.length_append] at hshort
    simp only [write, List.append_assoc] at h
    obtain ⟨-, h⟩ := (Reads.byte 0x12).always.of_bind h
    exact ((readsWhen_hashes (by omega)).of_bind h).1
  | merkleBlock block =>
    simp only [write, Core.writeBytes, List.length_append] at hshort
    simp only [write, List.append_assoc] at h
    obtain ⟨-, h⟩ := (Reads.byte 0x13).always.of_bind h
    exact ((Reader.ReadsWhen.bytes (by omega)).of_bind h).1

end ImportProof

/-! ## Import data -/

/-- The import data: the proof and the burn transaction behind the eval code. What cannot be
written has none. -/
def marshalImportData (proof : ImportProof) (burnTx : CTransaction) : Option (List UInt8) := do
  let bs ← burnTx.serialize
  return [ImportEnv.evalImportcoin] ++ (proof.write ++ bs)

theorem head_marshalImportData {proof : ImportProof} {burnTx : CTransaction}
    {importData : List UInt8} (h : marshalImportData proof burnTx = some importData) :
    importData.head? = some ImportEnv.evalImportcoin := by
  obtain ⟨bs, -, hdata⟩ := Option.bind_eq_some_iff.1 h
  rw [← Option.some.inj hdata]
  rfl

/-- Read the import data into new objects. -/
def readImportData : Reader (ImportProof × CTransaction) := do
  let _evalCode ← Reader.byte
  let proof ← ImportProof.read
  let burnTx ← CTransaction.null.unserialize
  return (proof, burnTx)

/-- A transaction is read into a new object exactly when it fits. -/
theorem readsWhen_transaction {tx : CTransaction}
    (hformat : (CMutableTransaction.ofTransaction tx).InFormat) (hhash : tx.Hashed) :
    ∃ bs, tx.serialize = some bs ∧
      ReadsWhen (CMutableTransaction.ofTransaction tx).Fits CTransaction.null.unserialize
        bs tx := by
  obtain ⟨bs, hserialize, hread⟩ := CMutableTransaction.readsWhen_unserialize hformat
    { nVersionGroupId := 0, nExpiryHeight := 0, valueBalance := 0 }
  rw [over_eq hformat ⟨fun _ => ⟨rfl, rfl⟩, fun _ => rfl⟩] at hread
  have hnull : ReadsWhen (CMutableTransaction.ofTransaction tx).Fits
      (CMutableTransaction.ofTransaction CTransaction.null).unserialize bs
      (CMutableTransaction.ofTransaction tx) := hread
  refine ⟨bs, hserialize, hnull.bind_pure ?_⟩
  rw [ofMutable_ofTransaction hhash]
  exact Reads.pure tx

/-- Import data of less than 4 GiB are read back exactly when the proof and the burn transaction
fit. -/
theorem readImportData_iff {proof : ImportProof} {burnTx : CTransaction} {importData : List UInt8}
    (hformat : (CMutableTransaction.ofTransaction burnTx).InFormat) (hhash : burnTx.Hashed)
    (hmarshal : marshalImportData proof burnTx = some importData)
    (hshort : importData.length < 2 ^ 32) :
    Reader.unmarshal readImportData importData = some (proof, burnTx) ↔
      proof.Fits ∧ (CMutableTransaction.ofTransaction burnTx).Fits := by
  obtain ⟨bs, hserialize, hburn⟩ := readsWhen_transaction hformat hhash
  obtain rfl : [ImportEnv.evalImportcoin] ++ (proof.write ++ bs) = importData := by
    unfold marshalImportData at hmarshal
    rw [hserialize] at hmarshal
    exact Option.some.inj hmarshal
  rw [List.length_append, List.length_append] at hshort
  rw [Reader.unmarshal_eq_some]
  constructor
  · intro h
    obtain ⟨-, h⟩ := (Reads.byte _).always.of_bind h
    obtain ⟨proof', rest, hproof, h⟩ := Reader.bind_eq_some.1 h
    obtain ⟨burnTx', rest', hburnTx, h⟩ := Reader.bind_eq_some.1 h
    obtain ⟨rfl, rfl⟩ : proof' = proof ∧ burnTx' = burnTx := by
      simpa using congrArg Prod.fst (Reader.pure_eq_some.1 h)
    have hfits := ImportProof.fits_of_read (by omega) hproof
    have hrest := (ImportProof.reads_write hfits) bs
    rw [hproof] at hrest
    obtain rfl : rest = bs := congrArg Prod.snd (Option.some.inj hrest)
    refine ⟨hfits, ?_⟩
    by_contra hbig
    have hnone := hburn.refuses hbig []
    rw [List.append_nil, hburnTx] at hnone
    cases hnone
  · rintro ⟨hproof, hfits⟩
    have hreads : Reads readImportData ([ImportEnv.evalImportcoin] ++ (proof.write ++ bs))
        (proof, burnTx) :=
      (Reads.byte _).bind ((ImportProof.reads_write hproof).bind ((hburn.reads hfits).bind_pure
        (Reads.pure (proof, burnTx))))
    have hnil := hreads []
    rwa [List.append_nil] at hnil

/-! ## Import transactions -/

/-- What `CreateNewContextualCMutableTransaction` asks of the next block. -/
structure NextBlock where
  /-- `komodo_nextheight()`. -/
  nHeight : UInt32
  /-- `NetworkUpgradeActive` for Overwinter. -/
  overwinter : Bool
  /-- `NetworkUpgradeActive` for Sapling. -/
  sapling : Bool
  /-- The height at which Sapling becomes active. -/
  saplingHeight : UInt32
  /-- `expiryDelta`. -/
  expiryDelta : UInt32

/-- `CreateNewContextualCMutableTransaction`. -/
def createNewContextualCMutableTransaction (next : NextBlock) : CMutableTransaction :=
  let mtx := CMutableTransaction.ofTransaction CTransaction.null
  if next.overwinter then
    let nExpiryHeight := next.nHeight + next.expiryDelta
    if next.sapling then
      { mtx with
        fOverwintered := true, nExpiryHeight := nExpiryHeight
        nVersionGroupId := 0x892F2085, nVersion := 4 }
    else
      { mtx with
        fOverwintered := true, nExpiryHeight := min nExpiryHeight (next.saplingHeight - 1)
        nVersionGroupId := 0x03C48270, nVersion := 3 }
  else mtx

/-- `CScript() << E_MARSHAL(ss << EVAL_IMPORTCOIN)`. -/
def importScriptSig : CScript := CScript.pushBytes [ImportEnv.evalImportcoin]

/-- The only input of an import. -/
def importVin (burnTx : CTransaction) : CTxIn where
  prevout := { hash := burnTx.hash, n := 1000000000 }
  scriptSig := importScriptSig
  nSequence := 0xFFFFFFFF

/-- `CTxOut(0, scriptPubKey)`. -/
def zeroOut (scriptPubKey : CScript) : CTxOut where
  nValue := 0
  scriptPubKey := scriptPubKey

@[simp] theorem zeroOut_scriptPubKey (scriptPubKey : CScript) :
    (zeroOut scriptPubKey).scriptPubKey = scriptPubKey := rfl

/-- The outputs with the import data. An op_return that does not create a token gets none. -/
def importVout (importData : List UInt8) (payouts : List CTxOut) (last : CTxOut) : List CTxOut :=
  if CScript.getOpReturnData last.scriptPubKey = [] then
    payouts ++ [zeroOut (CScript.opReturn importData)]
  else match decodeTokenCreateOpRet last.scriptPubKey with
    | some c => payouts.dropLast ++ [zeroOut (encodeTokenCreateOpRet c.origpubkey c.name
        c.description (c.oprets ++ [(opretidImportdata, importData)]))]
    | none => payouts

/-- The new transaction of an import, which does not expire. -/
def importBase (next : NextBlock) (payouts : List CTxOut) : CMutableTransaction :=
  let mtx := createNewContextualCMutableTransaction next
  { mtx with
    nExpiryHeight := if mtx.fOverwintered then 0 else mtx.nExpiryHeight
    vout := payouts }

/-- The import with its input and its outputs. -/
def importMutable (next : NextBlock) (burnTx : CTransaction) (payouts vout : List CTxOut)
    (nExpiryHeightOverride : UInt32) : CMutableTransaction :=
  let mtx := importBase next payouts
  { mtx with
    vin := mtx.vin ++ [importVin burnTx]
    nExpiryHeight := if nExpiryHeightOverride ≠ 0 then nExpiryHeightOverride else mtx.nExpiryHeight
    vout := vout }

/-- `MakeImportCoinTransaction`; without payouts it stops early. -/
def makeImportCoinTransaction (next : NextBlock) (proof : ImportProof) (burnTx : CTransaction)
    (payouts : List CTxOut) (nExpiryHeightOverride : UInt32) : Option CTransaction :=
  match payouts.getLast? with
  | none => CTransaction.ofMutable (importBase next payouts)
  | some last => do
    let importData ← marshalImportData proof burnTx
    let vout := importVout importData payouts last
    CTransaction.ofMutable (importMutable next burnTx payouts vout nExpiryHeightOverride)

/-- `UnmarshalImportTx`. -/
def unmarshalImportTx (importTx : CTransaction) :
    Option (ImportProof × CTransaction × List CTxOut) :=
  match importTx.vout.getLast? with
  | none => none
  | some last =>
    if importTx.vin.map CTxIn.scriptSig ≠ [importScriptSig] then none
    else
      let vImportData := CScript.getOpReturnData last.scriptPubKey
      if vImportData = [] then none
      else if vImportData.head? = some evalTokens then
        match decodeTokenCreateOpRet last.scriptPubKey with
        | none => none
        | some c =>
          let oprets := c.oprets.eraseP fun o => o.1 == opretidImportdata
          let payouts := importTx.vout.dropLast ++
            [zeroOut (encodeTokenCreateOpRet c.origpubkey c.name c.description oprets)]
          (Reader.unmarshal readImportData (getOpretBlob c.oprets opretidImportdata)).map
            fun read => (read.1, read.2, payouts)
      else
        (Reader.unmarshal readImportData vImportData).map
          fun read => (read.1, read.2, importTx.vout.dropLast)

/-- What an import is made of comes back. -/
def ImportInverted (next : NextBlock) (proof : ImportProof) (burnTx : CTransaction)
    (payouts : List CTxOut) (nExpiryHeightOverride : UInt32) : Prop :=
  (makeImportCoinTransaction next proof burnTx payouts nExpiryHeightOverride).bind
    unmarshalImportTx = some (proof, burnTx, payouts)

/-- A transaction of a known format without JoinSplits is written. -/
theorem exists_ofMutable (mtx : CMutableTransaction)
    (hformat : mtx.fOverwintered = true → mtx.isV3 = true ∨ mtx.isV4 = true)
    (hjs : mtx.vjoinsplit = []) :
    ∃ tx, CTransaction.ofMutable mtx = some tx ∧ tx.vin = mtx.vin ∧ tx.vout = mtx.vout := by
  have hknown : (mtx.fOverwintered && !(mtx.isV3 || mtx.isV4)) = false := by
    cases hflag : mtx.fOverwintered with
    | false => rfl
    | true => rcases hformat hflag with hv | hv <;> simp [hv]
  have hwrite : ∃ bs, mtx.serialize = some bs := by
    unfold CMutableTransaction.serialize CMutableTransaction.writeJoinSplits
    rw [hknown, hjs]
    by_cases hversion : 2 ≤ mtx.nVersion
    · rw [if_pos hversion]
      exact ⟨_, rfl⟩
    · rw [if_neg hversion]
      exact ⟨_, rfl⟩
  obtain ⟨bs, hbs⟩ := hwrite
  exact ⟨_, Option.bind_eq_some_iff.2 ⟨bs, hbs, rfl⟩, rfl, rfl⟩

/-- A new transaction has a known format, no inputs and no JoinSplits. -/
theorem importMutable_base (next : NextBlock) (burnTx : CTransaction) (payouts vout : List CTxOut)
    (nExpiryHeightOverride : UInt32) :
    let mtx := importMutable next burnTx payouts vout nExpiryHeightOverride
    (mtx.fOverwintered = true → mtx.isV3 = true ∨ mtx.isV4 = true) ∧
      mtx.vin = [importVin burnTx] ∧ mtx.vjoinsplit = [] := by
  obtain ⟨nHeight, overwinter, sapling, saplingHeight, expiryDelta⟩ := next
  cases overwinter with
  | false => exact ⟨fun h => absurd h Bool.false_ne_true, rfl, rfl⟩
  | true =>
    cases sapling with
    | false => exact ⟨fun _ => Or.inl rfl, rfl, rfl⟩
    | true => exact ⟨fun _ => Or.inr rfl, rfl, rfl⟩

section

variable {next : NextBlock} {proof : ImportProof} {burnTx : CTransaction}
  {payouts : List CTxOut} {last : CTxOut} {nExpiryHeightOverride : UInt32} {importData : List UInt8}

/-- The import has one input, and the outputs with the import data. -/
theorem exists_makeImportCoinTransaction (next : NextBlock) (nExpiryHeightOverride : UInt32)
    (hlast : payouts.getLast? = some last)
    (hmarshal : marshalImportData proof burnTx = some importData) :
    ∃ tx, makeImportCoinTransaction next proof burnTx payouts nExpiryHeightOverride = some tx ∧
      tx.vin = [importVin burnTx] ∧ tx.vout = importVout importData payouts last := by
  obtain ⟨hformat, hvin, hjs⟩ := importMutable_base next burnTx payouts
    (importVout importData payouts last) nExpiryHeightOverride
  obtain ⟨tx, htx, hin, hout⟩ := exists_ofMutable _ hformat hjs
  refine ⟨tx, ?_, hin.trans hvin, hout⟩
  unfold makeImportCoinTransaction
  rw [hlast, hmarshal]
  exact htx

/-- The outputs of an import whose op_return is its own. -/
theorem unmarshalImportTx_coins {tx : CTransaction} (hvin : tx.vin = [importVin burnTx])
    (hlast : tx.vout.getLast? = some last)
    (hhead : (CScript.getOpReturnData last.scriptPubKey).head? = some ImportEnv.evalImportcoin) :
    unmarshalImportTx tx =
      (Reader.unmarshal readImportData (CScript.getOpReturnData last.scriptPubKey)).map
        fun read => (read.1, read.2, tx.vout.dropLast) := by
  have hne : CScript.getOpReturnData last.scriptPubKey ≠ [] := by
    intro hnil
    rw [hnil] at hhead
    cases hhead
  have hsig : [importVin burnTx].map CTxIn.scriptSig = [importScriptSig] := rfl
  unfold unmarshalImportTx
  rw [hvin, hlast]
  dsimp only
  rw [if_neg (not_not.2 hsig), if_neg hne, hhead, if_neg (by decide)]

/-- The outputs of an import whose op_return creates a token. -/
theorem unmarshalImportTx_tokens {tx : CTransaction} (hvin : tx.vin = [importVin burnTx])
    (hlast : tx.vout.getLast? = some last)
    (hhead : (CScript.getOpReturnData last.scriptPubKey).head? = some evalTokens) :
    unmarshalImportTx tx = (decodeTokenCreateOpRet last.scriptPubKey).bind fun c =>
      (Reader.unmarshal readImportData (getOpretBlob c.oprets opretidImportdata)).map fun read =>
        (read.1, read.2, tx.vout.dropLast ++ [zeroOut (encodeTokenCreateOpRet c.origpubkey c.name
          c.description (c.oprets.eraseP fun o => o.1 == opretidImportdata))]) := by
  have hne : CScript.getOpReturnData last.scriptPubKey ≠ [] := by
    intro hnil
    rw [hnil] at hhead
    cases hhead
  have hsig : [importVin burnTx].map CTxIn.scriptSig = [importScriptSig] := rfl
  unfold unmarshalImportTx
  rw [hvin, hlast]
  dsimp only
  rw [if_neg (not_not.2 hsig), if_neg hne, if_pos hhead]
  cases decodeTokenCreateOpRet last.scriptPubKey with
  | none => rfl
  | some c => rfl

/-- An import of coins is read back exactly when the proof and the burn transaction fit. -/
theorem importInverted_coins (hformat : (CMutableTransaction.ofTransaction burnTx).InFormat)
    (hhash : burnTx.Hashed) (hmarshal : marshalImportData proof burnTx = some importData)
    (hlast : payouts.getLast? = some last)
    (hcoins : CScript.getOpReturnData last.scriptPubKey = [])
    (hpush : CScript.getOpReturnData (CScript.opReturn importData) = importData) :
    ImportInverted next proof burnTx payouts nExpiryHeightOverride ↔
      proof.Fits ∧ (CMutableTransaction.ofTransaction burnTx).Fits := by
  obtain ⟨tx, hmake, hvin, hvout⟩ := exists_makeImportCoinTransaction next nExpiryHeightOverride
    hlast hmarshal
  have hout : tx.vout = payouts ++ [zeroOut (CScript.opReturn importData)] := by
    rw [hvout, importVout, if_pos hcoins]
  have hshort := (CScript.getOpReturnData_opReturn_iff importData).1 hpush
  have hunmarshal := unmarshalImportTx_coins hvin (by rw [hout]; exact List.getLast?_concat)
    (by rw [zeroOut_scriptPubKey, hpush]; exact head_marshalImportData hmarshal)
  rw [zeroOut_scriptPubKey, hpush, hout, List.dropLast_concat] at hunmarshal
  rw [← readImportData_iff hformat hhash hmarshal hshort, ImportInverted, hmake, Option.bind_some,
    hunmarshal, Option.map_eq_some_iff]
  constructor
  · rintro ⟨read, hread, heq⟩
    obtain ⟨rfl, rfl, -⟩ : read.1 = proof ∧ read.2 = burnTx ∧ payouts = payouts := by
      simpa using heq
    exact hread
  · intro hread
    exact ⟨(proof, burnTx), hread, rfl⟩

section

variable {origpubkey name description : List UInt8} {oprets : Oprets}

/-- The payloads that are written. -/
def withIds (oprets : Oprets) : Oprets := oprets.filter fun o => o.1 ≠ 0

theorem encodeTokenCreateOpRet_withIds (origpubkey name description : List UInt8)
    (oprets : Oprets) :
    encodeTokenCreateOpRet origpubkey name description (withIds oprets) =
      encodeTokenCreateOpRet origpubkey name description oprets := by
  simp [encodeTokenCreateOpRet, tokenCreateData, encodeOprets, withIds, List.filter_filter]

/-- The payload that was put behind the others is found. -/
theorem getOpretBlob_concat (h : ∀ o ∈ oprets, o.1 ≠ opretidImportdata) :
    getOpretBlob (oprets ++ [(opretidImportdata, importData)]) opretidImportdata = importData := by
  have hnone : oprets.find? (fun o => o.1 == opretidImportdata) = none := by simpa using h
  simp [getOpretBlob, List.find?_append, hnone]

/-- Taking it out leaves the others. -/
theorem eraseP_concat (h : ∀ o ∈ oprets, o.1 ≠ opretidImportdata) :
    (oprets ++ [(opretidImportdata, importData)]).eraseP (fun o => o.1 == opretidImportdata) =
      oprets := by
  have hnot : ∀ o ∈ oprets, ¬ (o.1 == opretidImportdata) = true := by simpa using h
  rw [List.eraseP_append_right _ hnot]
  simp

theorem withIds_ids {oprets : Oprets} (o) (h : o ∈ withIds oprets) : o.1 ≠ 0 := by
  simpa using List.of_mem_filter h

/-- A payload more. -/
theorem length_tokenCreateData_concat (origpubkey name description : List UInt8) (oprets : Oprets)
    {id : UInt8} (hid : id ≠ 0) (data : List UInt8) :
    (tokenCreateData origpubkey name description (oprets ++ [(id, data)])).length =
      (tokenCreateData origpubkey name description oprets).length +
        (1 + ((writeCompactSize data.length).length + data.length)) := by
  simp only [tokenCreateData, encodeOprets, List.filter_append, List.flatMap_append,
    List.length_append]
  simp [hid, Core.writeBytes]
  omega

theorem data_encodeTokenCreateOpRet
    (hdata : (tokenCreateData origpubkey name description oprets).length < 2 ^ 32) :
    CScript.getOpReturnData (encodeTokenCreateOpRet origpubkey name description oprets) =
      tokenCreateData origpubkey name description oprets :=
  CScript.getOpReturnData_opReturn_of_lt hdata

/-- With one payload less it fits as well. -/
theorem createFits_of_concat {o : UInt8 × List UInt8}
    (h : CreateFits origpubkey name description (oprets ++ [o]))
    (hdata : (tokenCreateData origpubkey name description oprets).length < 2 ^ 32) :
    CreateFits origpubkey name description oprets where
  keySize := h.keySize
  nameSize := h.nameSize
  descriptionSize := h.descriptionSize
  ids := fun o' ho' => h.ids o' (List.mem_append_left _ ho')
  payloads := fun o' ho' => h.payloads o' (List.mem_append_left _ ho')
  data := hdata

/-- A creation that fits without the import data gets them, and it comes down to whether they
fit as well. -/
theorem importInverted_of_createFits
    (hmarshal : marshalImportData proof burnTx = some importData)
    (hlast : payouts.getLast? =
      some (zeroOut (encodeTokenCreateOpRet origpubkey name description oprets)))
    (hids : ∀ o ∈ oprets, o.1 ≠ 0) (hnew : ∀ o ∈ oprets, o.1 ≠ opretidImportdata)
    (hfull : (tokenCreateData origpubkey name description
      (oprets ++ [(opretidImportdata, importData)])).length < 2 ^ 32)
    (hfits : CreateFits origpubkey name description oprets) :
    ImportInverted next proof burnTx payouts nExpiryHeightOverride ↔
      CreateFits origpubkey name description (oprets ++ [(opretidImportdata, importData)]) ∧
        Reader.unmarshal readImportData importData = some (proof, burnTx) := by
  obtain ⟨tx, hmake, hvin, hvout⟩ := exists_makeImportCoinTransaction next nExpiryHeightOverride
    hlast hmarshal
  obtain ⟨init, rfl⟩ := List.getLast?_eq_some_iff.1 hlast
  have hdecode := (createInverted_iff origpubkey name description oprets).2 hfits
  have hne : CScript.getOpReturnData (encodeTokenCreateOpRet origpubkey name description oprets) ≠
      [] := by
    rw [data_encodeTokenCreateOpRet hfits.data]
    exact List.cons_ne_nil _ _
  have hout : tx.vout = init ++ [zeroOut (encodeTokenCreateOpRet origpubkey name description
      (oprets ++ [(opretidImportdata, importData)]))] := by
    rw [hvout, importVout, zeroOut_scriptPubKey, if_neg hne, hdecode, List.dropLast_concat]
  have hids' : ∀ o ∈ oprets ++ [(opretidImportdata, importData)], o.1 ≠ 0 := by
    intro o ho
    rcases List.mem_append.1 ho with ho | ho
    · exact hids o ho
    · rw [List.mem_singleton.1 ho]
      exact (by decide : opretidImportdata ≠ 0)
  have hunmarshal := unmarshalImportTx_tokens hvin (by rw [hout]; exact List.getLast?_concat)
    (by rw [zeroOut_scriptPubKey, data_encodeTokenCreateOpRet hfull]; rfl)
  rw [ImportInverted, hmake, Option.bind_some, hunmarshal, hout, List.dropLast_concat]
  constructor
  · intro h
    obtain ⟨c, hc, h⟩ := Option.bind_eq_some_iff.1 h
    have hcreate := createFits_of_decode hids' hfull hc
    rw [zeroOut_scriptPubKey, (createInverted_iff _ _ _ _).2 hcreate] at hc
    obtain rfl := Option.some.inj hc
    obtain ⟨read, hread, heq⟩ := Option.map_eq_some_iff.1 h
    rw [getOpretBlob_concat hnew] at hread
    obtain ⟨rfl, rfl⟩ : read.1 = proof ∧ read.2 = burnTx := by
      exact ⟨congrArg (fun r => r.1) heq, congrArg (fun r => r.2.1) heq⟩
    exact ⟨hcreate, hread⟩
  · rintro ⟨hcreate, hread⟩
    have hc := (createInverted_iff _ _ _ _).2 hcreate
    rw [zeroOut_scriptPubKey, hc, Option.bind_some, getOpretBlob_concat hnew, eraseP_concat hnew,
      hread]
    rfl

/-- An import of tokens is read back exactly when its op_return, the proof and the burn
transaction fit. -/
theorem importInverted_tokens (hformat : (CMutableTransaction.ofTransaction burnTx).InFormat)
    (hhash : burnTx.Hashed) (hmarshal : marshalImportData proof burnTx = some importData)
    (hlast : payouts.getLast? =
      some (zeroOut (encodeTokenCreateOpRet origpubkey name description oprets)))
    (hnew : ∀ o ∈ oprets, o.1 ≠ opretidImportdata)
    (hpush : CScript.getOpReturnData (encodeTokenCreateOpRet origpubkey name description
        (withIds oprets ++ [(opretidImportdata, importData)])) =
      tokenCreateData origpubkey name description
        (withIds oprets ++ [(opretidImportdata, importData)])) :
    ImportInverted next proof burnTx payouts nExpiryHeightOverride ↔
      CreateFits origpubkey name description
          (withIds oprets ++ [(opretidImportdata, importData)]) ∧
        proof.Fits ∧ (CMutableTransaction.ofTransaction burnTx).Fits := by
  have hfull : (tokenCreateData origpubkey name description
      (withIds oprets ++ [(opretidImportdata, importData)])).length < 2 ^ 32 :=
    (CScript.getOpReturnData_opReturn_iff _).1 hpush
  have hlength := length_tokenCreateData_concat origpubkey name description (withIds oprets)
    (by decide : opretidImportdata ≠ 0) importData
  have hdata : (tokenCreateData origpubkey name description (withIds oprets)).length < 2 ^ 32 := by
    omega
  have hnew' : ∀ o ∈ withIds oprets, o.1 ≠ opretidImportdata :=
    fun o ho => hnew o (List.mem_of_mem_filter ho)
  rw [← readImportData_iff hformat hhash hmarshal (by omega)]
  rw [← encodeTokenCreateOpRet_withIds] at hlast
  by_cases hfits : CreateFits origpubkey name description (withIds oprets)
  · exact importInverted_of_createFits hmarshal hlast withIds_ids hnew' hfull hfits
  · -- the creation is not decoded either time
    have hnone : decodeTokenCreateOpRet (encodeTokenCreateOpRet origpubkey name description
        (withIds oprets)) = none := by
      rw [Option.eq_none_iff_forall_ne_some]
      exact fun c hc => hfits (createFits_of_decode withIds_ids hdata hc)
    obtain ⟨tx, hmake, hvin, hvout⟩ := exists_makeImportCoinTransaction next
      nExpiryHeightOverride hlast hmarshal
    have hpushed := data_encodeTokenCreateOpRet hdata
    have hne : CScript.getOpReturnData (encodeTokenCreateOpRet origpubkey name description
        (withIds oprets)) ≠ [] := by
      rw [hpushed]
      exact List.cons_ne_nil _ _
    rw [importVout, zeroOut_scriptPubKey, if_neg hne, hnone] at hvout
    have hunmarshal := unmarshalImportTx_tokens hvin (by rw [hvout]; exact hlast)
      (by rw [zeroOut_scriptPubKey, hpushed]; rfl)
    rw [zeroOut_scriptPubKey, hnone, Option.bind_none] at hunmarshal
    rw [ImportInverted, hmake, Option.bind_some, hunmarshal]
    constructor
    · intro h
      cases h
    · rintro ⟨hcreate, -⟩
      exact absurd (createFits_of_concat hcreate hdata) hfits

end

end

end IndexChain.Wire
