import IndexChain.Models.CC.Tokens
import IndexChain.Models.Import.ImportCoin
import IndexChain.Models.Wire.Transaction

/-!
# What an import is worth

`GetCoinImportValue` of `importcoin.cpp` is the value of the input of an import.
`Eval::ImportCoin` compares the outputs that are not conditions with the burned amount.
The outputs that are conditions are compared with the burned tokens in a migration of
tokens only, and less the token markers; in every other import they are compared with
nothing. The outputs are within the value when the conditions pay nothing beyond what is
burned for them, and only when they pay no more than the fee beyond it
(`allOut_le_importValue`).
-/

namespace IndexChain

open IndexChain.Core

/-! ## Burn transactions -/

/-- `OPRETID_BURNDATA`. -/
def opretidBurndata : UInt8 := 0x80

/-- `ReadVarInt` into a `uint32_t`. -/
def readVarInt : UInt32 → List UInt8 → Option (UInt32 × List UInt8)
  | _, [] => none
  | n, chData :: rest =>
    let n := (n <<< 7) ||| (chData &&& 0x7f).toUInt32
    if chData &&& 0x80 ≠ 0 then readVarInt (n + 1) rest else some (n, rest)

/-- The characters of a `std::string`. -/
def stringOfBytes (bs : List UInt8) : String :=
  String.ofList (bs.map fun b => Char.ofNat b.toNat)

/-- The fields of a burn op_return. -/
def readBurnData : Reader BurnData := do
  let _evalCode ← Reader.byte
  let targetCcid ← readVarInt 0
  let targetSymbol ← Reader.vector
  let payoutsHash ← readUint256
  let rawproof ← Reader.vector
  return { targetSymbol := stringOfBytes targetSymbol, targetCcid := targetCcid,
           payoutsHash := payoutsHash, rawproof := rawproof }

/-- The op_return of the last output. -/
def lastOpret (tx : CTransaction) : List UInt8 :=
  match tx.vout.getLast? with
  | none => []
  | some out => CScript.getOpReturnData out.scriptPubKey

/-- The burn data, which a token op_return carries as a payload. -/
def burnOpret (burnTx : CTransaction) : Option (List UInt8) :=
  if (lastOpret burnTx).head? = some evalTokens then
    match tokenOpretOf burnTx with
    | none => none
    | some opret =>
      if opret.funcid = .transfer then some (getOpretBlob opret.oprets opretidBurndata) else none
  else some (lastOpret burnTx)

/-- `UnmarshalBurnTx`; what follows the fields is not looked at. -/
def BurnData.unmarshalBurnTx (burnTx : CTransaction) : Option BurnData :=
  match burnOpret burnTx with
  | none => none
  | some vburnOpret =>
    if vburnOpret.head? = some ImportEnv.evalImportcoin then
      (readBurnData vburnOpret).map Prod.fst
    else none

/-- A burn transaction has an op_return. -/
theorem lastOpret_ne_nil_of_unmarshalBurnTx {burnTx : CTransaction} {burn : BurnData}
    (h : BurnData.unmarshalBurnTx burnTx = some burn) : lastOpret burnTx ≠ [] := by
  intro hnil
  unfold BurnData.unmarshalBurnTx burnOpret at h
  rw [hnil, if_neg (by rintro ⟨⟩)] at h
  cases h

/-! ## Migrations -/

/-- What `CheckMigration` asks besides the transactions. -/
structure MigrationEnv where
  /-- The condition scripts. -/
  lib : CCLib
  /-- `is_STAKED(ASSETCHAINS_SYMBOL) == 1`. -/
  isStaked : Bool
  /-- The Merkle branch or the notaries' approval of a burn transaction. -/
  checkProof : ImportProof → CTransaction → Bool

namespace MigrationEnv

variable (m : MigrationEnv)

/-- The token creation transaction in a raw proof, behind the symbol of its chain. -/
def unmarshalRawproof (rawproof : List UInt8) : Option CTransaction :=
  (Reader.unmarshal (do
    let _sourceSymbol ← Reader.vector
    Wire.CTransaction.null.unserialize) rawproof).map fun tx =>
      { hash := tx.hash
        vin := tx.vin.map fun txin =>
          { prevout := { hash := txin.prevout.hash, n := txin.prevout.n }
            scriptSig := txin.scriptSig
            nSequence := txin.nSequence }
        vout := tx.vout.map fun txout =>
          { nValue := txout.nValue.toInt, scriptPubKey := txout.scriptPubKey } }

/-- The eval code of the tokens of an op_return. -/
def nonfungibleEvalCode (oprets : Oprets) : UInt8 :=
  match getOpretBlob oprets opretidNonfungibledata with
  | [] => evalTokens
  | code :: _ => code

/-- The value of the outputs that burn tokens: `ccBurnOutputs`. -/
def ccBurnOutputs (opret : TokenOpret) (burnTx : CTransaction) : Int :=
  ((burnTx.vout.filter fun v => CScript.isPayToCryptoCondition v.scriptPubKey &&
    v.scriptPubKey == m.lib.tokensCC1 (nonfungibleEvalCode opret.oprets) 0 CCEnv.ccBurnpubkey).map
      CTxOut.nValue).sum

/-- The checks of a migration of tokens; the result is the token id. -/
def checkTokens (importTx burnTx : CTransaction) : Option Uint256 :=
  if m.isStaked then none
  else match tokenOpretOf importTx with
    | none => none
    | some opret =>
      if burnTx.vin.any m.lib.isTokenVin ∧
          m.ccBurnOutputs opret burnTx = m.lib.createdOutputs importTx then some opret.tokenid
      else none

/-- The checks of the creation of a token. The second decoding writes into the variables of
the first, so the fields of the import are compared with empty ones. -/
def checkTokenbase (importTx burnTx : CTransaction) (rawproof : List UInt8) : Bool :=
  match unmarshalRawproof rawproof, tokenOpretOf burnTx with
  | some tokenbaseTx, some opret =>
    opret.tokenid == tokenbaseTx.hash &&
    (tokenbaseTx.vout.getLast?.any fun out => (decodeTokenCreateOpRet out.scriptPubKey).isSome) &&
    (importTx.vout.getLast?.any fun out => (decodeTokenCreateOpRet out.scriptPubKey).any
      fun c => c.origpubkey.isEmpty && c.name.isEmpty && c.description.isEmpty)
  | _, _ => false

/-- `CheckMigration`. -/
def checkMigration (importTx burnTx : CTransaction) (_payouts : List CTxOut) (proof : ImportProof)
    (rawproof : List UInt8) : Bool :=
  let tokenid := if (lastOpret importTx).head? = some evalTokens then m.checkTokens importTx burnTx
    else if (lastOpret importTx).head? = some ImportEnv.evalImportcoin then some 0 else none
  match tokenid with
  | none => false
  | some tokenid =>
    (importTx.vout.getLast?.any fun out => (CScript.opReturnData out.scriptPubKey).1) &&
    (tokenid == 0 || checkTokenbase importTx burnTx rawproof) && m.checkProof proof burnTx

/-- A migration with a token op_return imports what was burned. -/
theorem ccBurnOutputs_eq_of_checkMigration {m : MigrationEnv} {importTx burnTx : CTransaction}
    {payouts : List CTxOut} {proof : ImportProof} {rawproof : List UInt8}
    (h : m.checkMigration importTx burnTx payouts proof rawproof = true) :
    (lastOpret importTx).head? = some evalTokens → ∃ opret, tokenOpretOf importTx = some opret ∧
      m.ccBurnOutputs opret burnTx = m.lib.createdOutputs importTx := by
  intro htokens
  unfold checkMigration at h
  rw [if_pos htokens] at h
  cases hcheck : m.checkTokens importTx burnTx with
  | none =>
    rw [hcheck] at h
    cases h
  | some tokenid =>
    unfold checkTokens at hcheck
    split at hcheck
    · cases hcheck
    · split at hcheck
      · cases hcheck
      · rename_i opret hopret
        split at hcheck
        · rename_i heq
          exact ⟨opret, hopret, heq.2⟩
        · cases hcheck

/-- A token op_return is one of the tokens contract. -/
theorem head_of_tokenOpretOf {tx : CTransaction} {opret : TokenOpret}
    (h : tokenOpretOf tx = some opret) : (lastOpret tx).head? = some evalTokens := by
  unfold tokenOpretOf at h
  unfold lastOpret
  cases hlast : tx.vout.getLast? with
  | none =>
    rw [hlast] at h
    cases h
  | some out =>
    rw [hlast, Option.bind_some] at h
    unfold decodeTokenOpRet at h
    dsimp only at h
    split at h
    · rename_i hhead
      rw [← hhead.2, List.head?_eq_getElem?]
    · cases h

end MigrationEnv

/-! ## Values -/

/-- The value of all outputs. -/
def CTransaction.allOut (tx : CTransaction) : Int := (tx.vout.map CTxOut.nValue).sum

/-- The value of the outputs that are conditions. -/
def CTransaction.ccOut (tx : CTransaction) : Int :=
  ((tx.vout.filter fun out => CScript.isPayToCryptoCondition out.scriptPubKey).map
    CTxOut.nValue).sum

/-- The value of the outputs that are token markers. -/
def CCLib.markerOut (lib : CCLib) (tx : CTransaction) : Int :=
  ((tx.vout.filter fun out => CScript.isPayToCryptoCondition out.scriptPubKey &&
    lib.isTokenMarkerVout out).map CTxOut.nValue).sum

theorem allOut_eq (tx : CTransaction) : tx.allOut = ImportEnv.normalOut tx + tx.ccOut := by
  unfold CTransaction.allOut ImportEnv.normalOut CTransaction.ccOut
  induction tx.vout with
  | nil => rfl
  | cons out vout ih =>
    rw [List.filter_cons, List.filter_cons, List.map_cons, List.sum_cons, ih]
    cases CScript.isPayToCryptoCondition out.scriptPubKey with
    | true =>
      simp only [Bool.not_true, Bool.false_eq_true, if_true, if_false, List.map_cons,
        List.sum_cons]
      omega
    | false =>
      simp only [Bool.not_false, Bool.false_eq_true, if_true, if_false, List.map_cons,
        List.sum_cons]
      omega

theorem ccOut_eq (lib : CCLib) (tx : CTransaction) :
    tx.ccOut = lib.createdOutputs tx + lib.markerOut tx := by
  unfold CTransaction.ccOut CCLib.createdOutputs CCLib.markerOut
  induction tx.vout with
  | nil => rfl
  | cons out vout ih =>
    rw [List.filter_cons, List.filter_cons, List.filter_cons]
    cases CScript.isPayToCryptoCondition out.scriptPubKey with
    | true =>
      cases lib.isTokenMarkerVout out with
      | true =>
        simp only [Bool.true_and, Bool.not_true, Bool.false_eq_true, if_true, if_false,
          List.map_cons, List.sum_cons, ih]
        omega
      | false =>
        simp only [Bool.true_and, Bool.not_false, Bool.false_eq_true, if_true, if_false,
          List.map_cons, List.sum_cons, ih]
        omega
    | false =>
      simp only [Bool.false_and, Bool.false_eq_true, if_false]
      exact ih

namespace ImportEnv

variable (e : ImportEnv) (m : MigrationEnv)

/-- The decoding of burn transactions and the check of migrations as they are. -/
def withMigration : ImportEnv :=
  { e with unmarshalBurnTx := BurnData.unmarshalBurnTx, checkMigration := m.checkMigration }

/-- The heights of a chain at which every import is accepted. -/
def Exempt (height : Nat) : Prop := e.assetchainsSymbol = "CFEKDIMXY6" ∧ height ≤ 44693

instance (height : Nat) : Decidable (e.Exempt height) :=
  inferInstanceAs (Decidable (_ ∧ _))

/-- `GetCoinImportValue`. -/
def getCoinImportValue (tx : CTransaction) : Int :=
  match e.unmarshalImportTx tx with
  | none => 0
  | some (_, burnTx, _) => match burnTx.vout.getLast? with
    | none => 0
    | some last =>
      if lastOpret burnTx = [] then 0
      else if (lastOpret burnTx).head? = some evalTokens then
        match tokenOpretOf tx with
        | none => 0
        | some opret => m.ccBurnOutputs opret burnTx + last.nValue
      else last.nValue

/-- What the conditions of an import pay beyond the tokens that are burned for them; in a
migration of tokens the markers. Without a token op_return a burn of tokens is none at all. -/
def unbackedOut (importTx burnTx : CTransaction) (burn : BurnData) : Option Int :=
  if (lastOpret burnTx).head? = some evalTokens then
    (tokenOpretOf importTx).map fun opret =>
      if burn.targetCcid ≠ 0xffffffff then m.lib.markerOut importTx
      else importTx.ccOut - m.ccBurnOutputs opret burnTx
  else some importTx.ccOut

/-- The comparisons that `ImportCoin` makes: the other outputs pay no more than the burned
amount, and a migration of tokens imports what was burned. -/
def Compared (importTx burnTx : CTransaction) (burn : BurnData) : Prop :=
  (∃ last, burnTx.vout.getLast? = some last ∧ normalOut importTx ≤ last.nValue) ∧
    (burn.targetCcid ≠ 0xffffffff → ∀ opret, tokenOpretOf importTx = some opret →
      m.ccBurnOutputs opret burnTx = m.lib.createdOutputs importTx)

/-- The conditions of an import pay at most the given amount beyond what is burned for them;
at the exempt heights the comparisons are met as well. -/
def BackedUpTo (height : Nat) (importTx : CTransaction) (amount : Int) : Prop :=
  ∃ proof burnTx payouts burn unbacked,
    e.unmarshalImportTx importTx = some (proof, burnTx, payouts) ∧
      BurnData.unmarshalBurnTx burnTx = some burn ∧
      (e.Exempt height → Compared m importTx burnTx burn) ∧
      unbackedOut m importTx burnTx burn = some unbacked ∧ unbacked ≤ amount

/-- `txfee`. -/
def txfee : Int := 10000

variable {e m} {height : Nat} {importTx : CTransaction}

/-- What an accepted import has passed. -/
theorem importCoin_eq_ok (h : (e.withMigration m).importCoin height importTx = .ok ())
    (hexempt : ¬ e.Exempt height) :
    ∃ proof burnTx payouts burn last, e.unmarshalImportTx importTx = some (proof, burnTx, payouts) ∧
      BurnData.unmarshalBurnTx burnTx = some burn ∧ Compared m importTx burnTx burn ∧
      burnTx.vout.getLast? = some last ∧ last.nValue - txfee ≤ normalOut importTx := by
  have hchain : ¬ ((e.withMigration m).assetchainsSymbol = "CFEKDIMXY6" ∧ height ≤ 44693) :=
    hexempt
  unfold importCoin at h
  rw [if_neg hchain] at h
  obtain ⟨-, h⟩ := require_bind_eq_ok.1 h
  have himport : (e.withMigration m).unmarshalImportTx = e.unmarshalImportTx := rfl
  have hburn : (e.withMigration m).unmarshalBurnTx = BurnData.unmarshalBurnTx := rfl
  rw [himport, hburn] at h
  split at h
  · cases h
  · rename_i proof burnTx payouts hunmarshal
    obtain ⟨-, h⟩ := require_bind_eq_ok.1 h
    split at h
    · cases h
    · cases h
    · rename_i burn last hburnTx hlast
      obtain ⟨-, h⟩ := require_bind_eq_ok.1 h
      obtain ⟨hamount, h⟩ := require_bind_eq_ok.1 h
      obtain ⟨-, h⟩ := require_bind_eq_ok.1 h
      obtain ⟨-, h⟩ := require_bind_eq_ok.1 h
      rw [Bool.and_eq_true, decide_eq_true_eq, decide_eq_true_eq] at hamount
      refine ⟨proof, burnTx, payouts, burn, last, hunmarshal, hburnTx, ?_, hlast, hamount.2⟩
      refine ⟨⟨last, hlast, hamount.1⟩, fun hccid opret hopret => ?_⟩
      rw [if_pos (bne_iff_ne.2 hccid)] at h
      obtain ⟨-, h⟩ := require_bind_eq_ok.1 h
      have hmigration : m.checkMigration importTx burnTx payouts proof burn.rawproof = true :=
        require_eq_ok.1 h
      obtain ⟨opret', hopret', hburned⟩ :=
        MigrationEnv.ccBurnOutputs_eq_of_checkMigration hmigration
          (MigrationEnv.head_of_tokenOpretOf hopret)
      obtain rfl : opret' = opret := Option.some.inj (hopret'.symm.trans hopret)
      exact hburned

/-- The value of an import is the burned amount and the tokens that are burned for it; none
of it is there without a token op_return. -/
theorem allOut_sub_importValue {proof : ImportProof} {burnTx : CTransaction}
    {payouts : List CTxOut} {burn : BurnData} {last : CTxOut}
    (himport : e.unmarshalImportTx importTx = some (proof, burnTx, payouts))
    (hburn : BurnData.unmarshalBurnTx burnTx = some burn)
    (hcompared : Compared m importTx burnTx burn) (hlast : burnTx.vout.getLast? = some last) :
    match unbackedOut m importTx burnTx burn with
    | some unbacked => importTx.allOut - e.getCoinImportValue m importTx =
        unbacked - (last.nValue - normalOut importTx)
    | none => e.getCoinImportValue m importTx = 0 := by
  have hsum := allOut_eq importTx
  rw [unbackedOut, getCoinImportValue, himport]
  dsimp only
  rw [hlast]
  dsimp only
  rw [if_neg (lastOpret_ne_nil_of_unmarshalBurnTx hburn)]
  by_cases htokens : (lastOpret burnTx).head? = some evalTokens
  · rw [if_pos htokens, if_pos htokens]
    cases hopret : tokenOpretOf importTx with
    | none => rfl
    | some opret =>
      dsimp only [Option.map_some]
      by_cases hccid : burn.targetCcid = 0xffffffff
      · rw [if_neg (not_not.2 hccid)]
        omega
      · -- in a migration the conditions other than markers pay what was burned
        rw [if_pos hccid, hcompared.2 hccid opret hopret]
        have hcc := ccOut_eq m.lib importTx
        omega
  · rw [if_neg htokens, if_neg htokens]
    dsimp only
    omega

end ImportEnv

namespace UncheckedCondition

/-- The op_return of a burn of coins for the chain `AB` with id 100. -/
def burnOpret : List UInt8 :=
  [0xe2, 100, 2, 0x41, 0x42] ++ leBytes 32 7 ++ [0]

/-- A burn of 100000 satoshis. -/
def burnTx : CTransaction :=
  { hash := 31
    vout := [{ nValue := 100000, scriptPubKey := 0x6a :: CScript.pushBytes burnOpret }] }

/-- An import of the 100000 satoshis with further outputs. -/
def importTx (vout : List CTxOut) : CTransaction :=
  { hash := 32
    vin := [{ prevout := { hash := 31, n := 1000000000 }, scriptSig := [1, 0xe2] }]
    vout := { nValue := 100000, scriptPubKey := [0x51] } ::
      vout ++ [{ nValue := 0, scriptPubKey := [0x6a, 1, 0xe2] }] }

/-- It pays 5000000 more to a condition. -/
def extra : List CTxOut := [{ nValue := 5000000, scriptPubKey := [1, 0, 0xcc] }]

/-- The decoders at the import. -/
def env (vout : List CTxOut) : ImportEnv where
  assetchainsSymbol := "AB"
  assetchainsCC := 100
  disabled := fun _ => false
  unmarshalImportTx := fun _ => some ([], burnTx, (importTx vout).vout.dropLast)
  makeImportCoinTransaction := fun _ _ _ _ => importTx vout
  unmarshalBurnTx := fun _ => none
  serializeHash := fun _ => 7
  checkMigration := fun _ _ _ _ _ => false
  checkExternalImport := fun _ _ _ _ _ => .error ""
  checkTxInputs := fun _ _ _ => false

/-- A library without tokens, and a proof that holds. -/
def migration : MigrationEnv where
  lib :=
    { cc1 := fun _ _ => []
      cc1of2 := fun _ _ _ => []
      tokensCC1 := fun _ _ _ => []
      tokensCC1of2 := fun _ _ _ _ => []
      isMyVin := fun _ _ => false
      condition := fun _ => none
      unspendable := fun _ => []
      paysPubkey := fun _ _ => false
      scriptAddress := fun _ => none
      unspendableCCaddr := fun _ => [] }
  isStaked := false
  checkProof := fun _ _ => true

theorem accepted :
    ((env extra).withMigration migration).importCoin 1000 (importTx extra) = .ok () := by
  rfl

end UncheckedCondition

end IndexChain
