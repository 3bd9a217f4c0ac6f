import IndexChain.Models.Import.ImportValue

/-!
# The parameters of an imported token

`CheckMigration` means to compare the creator, the name and the description of an imported
token with those of the token on the source chain. It does so for an op_return with a token
id only, and refuses each of them: an op_return with a token id is a transfer, and a transfer
has no parameters. The op_return of a token creation, which an import has, has no token id,
and its parameters are compared with nothing (`checkMigration_same_iff`).
-/

namespace IndexChain

open IndexChain.Core

/-- What has an operand is a push. -/
theorem CScript.push_of_getOp {s : CScript} {opcode : UInt8} {data : List UInt8} {pc : CScript}
    (h : getOp s = some (opcode, data, pc)) (hdata : data ≠ []) :
    0 < opcode ∧ opcode ≤ opPushdata4 := by
  cases s with
  | nil => cases h
  | cons b rest =>
    obtain rfl : b = opcode := Option.some.inj (head_of_getOp h)
    by_cases hb : b = 0
    · subst hb
      cases h
      exact absurd rfl hdata
    · refine ⟨UInt8.pos_iff_ne_zero.2 hb, UInt8.not_lt.1 fun hlt => ?_⟩
      rw [getOp, if_pos hlt] at h
      cases h
      exact hdata rfl

/-- The data of an op_return comes with success. -/
theorem CScript.opReturnData_fst {s : CScript} (h : getOpReturnData s ≠ []) :
    (opReturnData s).1 = true := by
  rw [getOpReturnData] at h
  rw [opReturnData] at h ⊢
  split at h
  · next pc hret =>
    cases hget : getOp pc with
    | none => simp [hget] at h
    | some push =>
      obtain ⟨opcode, data, rest⟩ := push
      simp only [hget] at h ⊢
      have hpush := push_of_getOp hget h
      simp [hpush.1, hpush.2]
  · exact absurd rfl h

/-- What an import keeps of a token. -/
structure TokenParams where
  /-- The creator's key. -/
  origpubkey : List UInt8
  /-- The name. -/
  name : List UInt8
  /-- The description. -/
  description : List UInt8
  deriving DecidableEq, Repr

/-- The parameters in the op_return of a token creation. -/
def tokenParamsOf (tx : CTransaction) : Option TokenParams :=
  tx.vout.getLast?.bind fun out => (decodeTokenCreateOpRet out.scriptPubKey).map fun c =>
    { origpubkey := c.origpubkey, name := c.name, description := c.description }

/-- Where there are parameters, there is no token id. -/
theorem tokenid_eq_zero {tx : CTransaction} {opret : TokenOpret} {params : TokenParams}
    (hopret : tokenOpretOf tx = some opret) (hparams : tokenParamsOf tx = some params) :
    opret.tokenid = 0 := by
  obtain ⟨out, hlast, hdecode⟩ := Option.bind_eq_some_iff.1 hopret
  rw [tokenParamsOf, hlast, Option.bind_some, Option.map_eq_some_iff] at hparams
  obtain ⟨c, hcreate, -⟩ := hparams
  have hfunc : (CScript.getOpReturnData out.scriptPubKey)[1]? = some 0x63 := by
    rw [decodeTokenCreateOpRet] at hcreate
    split at hcreate
    · next hhead => exact hhead.2.2
    · cases hcreate
  simp only [decodeTokenOpRet, hfunc, if_true] at hdecode
  split at hdecode
  · rw [hcreate] at hdecode
    cases hdecode
    rfl
  · cases hdecode

namespace MigrationEnv

variable (m : MigrationEnv)

/-- The imported token has the parameters of the one in the raw proof. -/
def SameTokenbase (importTx : CTransaction) (rawproof : List UInt8) : Prop :=
  ∃ tokenbaseTx params, unmarshalRawproof rawproof = some tokenbaseTx ∧
    tokenParamsOf tokenbaseTx = some params ∧ tokenParamsOf importTx = some params

/-- What else is checked of an import of tokens. -/
structure TokensBurned (importTx burnTx : CTransaction) (proof : ImportProof)
    (opret : TokenOpret) : Prop where
  decoded : tokenOpretOf importTx = some opret
  notStaked : m.isStaked = false
  tokenVin : burnTx.vin.any m.lib.isTokenVin = true
  amounts : m.ccBurnOutputs opret burnTx = m.lib.createdOutputs importTx
  proved : m.checkProof proof burnTx = true

variable {m} {importTx burnTx : CTransaction} {payouts : List CTxOut} {proof : ImportProof}
  {rawproof : List UInt8} {opret : TokenOpret}

theorem checkTokens_eq_some {tokenid : Uint256} : m.checkTokens importTx burnTx = some tokenid ↔
    ∃ opret, tokenOpretOf importTx = some opret ∧ m.isStaked = false ∧
      burnTx.vin.any m.lib.isTokenVin = true ∧
      m.ccBurnOutputs opret burnTx = m.lib.createdOutputs importTx ∧ opret.tokenid = tokenid := by
  rw [checkTokens]
  cases m.isStaked
  · rw [if_neg (by decide)]
    cases tokenOpretOf importTx with
    | none => simp
    | some opret =>
      dsimp only
      by_cases hchecks : burnTx.vin.any m.lib.isTokenVin ∧
          m.ccBurnOutputs opret burnTx = m.lib.createdOutputs importTx
      · simp [hchecks]
      · rw [if_neg hchecks]
        constructor
        · intro h
          cases h
        · rintro ⟨opret', hopret, -, hvin, hamounts, -⟩
          cases hopret
          exact absurd ⟨hvin, hamounts⟩ hchecks
  · simp

/-- The parameters of the import are read before they are compared. -/
theorem tokenParamsOf_of_checkTokenbase
    (h : checkTokenbase importTx burnTx rawproof = true) :
    ∃ params, tokenParamsOf importTx = some params := by
  rw [checkTokenbase] at h
  split at h
  · rw [Bool.and_eq_true] at h
    have hcompared := h.2
    cases hlast : importTx.vout.getLast? with
    | none => simp [hlast] at hcompared
    | some out =>
      cases hcreate : decodeTokenCreateOpRet out.scriptPubKey with
      | none => simp [hlast, hcreate] at hcompared
      | some c => exact ⟨_, by rw [tokenParamsOf, hlast, Option.bind_some, hcreate,
        Option.map_some]⟩
  · cases h

/-- An import of tokens passes with no token id, and whatever the raw proof says. -/
theorem checkMigration_iff (htokens : (lastOpret importTx).head? = some evalTokens) :
    m.checkMigration importTx burnTx payouts proof rawproof = true ↔
      ∃ opret, m.TokensBurned importTx burnTx proof opret ∧ opret.tokenid = 0 := by
  rw [checkMigration, if_pos htokens]
  constructor
  · intro h
    cases htoken : m.checkTokens importTx burnTx with
    | none =>
      rw [htoken] at h
      cases h
    | some tokenid =>
      obtain ⟨opret, hopret, hstaked, hvin, hamounts, rfl⟩ := checkTokens_eq_some.1 htoken
      simp only [htoken, Bool.and_eq_true, Bool.or_eq_true, beq_iff_eq] at h
      obtain ⟨⟨-, hbase⟩, hproof⟩ := h
      refine ⟨opret, ⟨hopret, hstaked, hvin, hamounts, hproof⟩, hbase.elim id fun hcheck => ?_⟩
      obtain ⟨params, hparams⟩ := tokenParamsOf_of_checkTokenbase hcheck
      exact tokenid_eq_zero hopret hparams
  · rintro ⟨opret, hburned, hid⟩
    have htoken : m.checkTokens importTx burnTx = some 0 := checkTokens_eq_some.2
      ⟨opret, hburned.decoded, hburned.notStaked, hburned.tokenVin, hburned.amounts, hid⟩
    have hpush : (importTx.vout.getLast?.any fun out =>
        (CScript.opReturnData out.scriptPubKey).1) = true := by
      rw [lastOpret] at htokens
      cases hlast : importTx.vout.getLast? with
      | none => simp [hlast] at htokens
      | some out =>
        simp only [hlast] at htokens
        apply CScript.opReturnData_fst
        intro hnil
        rw [hnil] at htokens
        cases htokens
    simp only [htoken, hpush, hburned.proved, beq_self_eq_true, Bool.true_or, Bool.and_true]

/-- The op_return of the creation of a token with a name of one letter. -/
def creation (name : UInt8) : CScript :=
  0x6a :: CScript.pushBytes ([evalTokens, 0x63] ++ writeBytes (0x03 :: List.replicate 32 7) ++
    writeBytes [name] ++ writeBytes [])

/-- A raw proof: the source chain `AB` and the transaction that created the token. -/
def rawproofOf (name : UInt8) : List UInt8 :=
  writeBytes [0x41, 0x42] ++ [1, 0, 0, 0] ++
    ([1] ++ List.replicate 32 7 ++ [0, 0, 0, 0] ++ [0] ++ List.replicate 4 0xff) ++
    ([1] ++ List.replicate 8 0 ++ writeBytes (creation name)) ++ [0, 0, 0, 0]

/-- Raw proofs carry tokens with any of two names. -/
theorem tokenParamsOf_rawproofOf : ∀ name ∈ [(0x41 : UInt8), 0x42],
    (unmarshalRawproof (rawproofOf name)).bind tokenParamsOf =
      some { origpubkey := 0x03 :: List.replicate 32 7, name := [name], description := [] } := by
  decide +kernel

end MigrationEnv

namespace RenamedToken

open MigrationEnv

/-- A token is burned. -/
def burnTx : CTransaction :=
  { hash := 51
    vin := [{ prevout := { hash := 9, n := 1 }, scriptSig := [1, 0xf2] }]
    vout := [{ nValue := 1, scriptPubKey := [1, 1, 0xcc] }] }

/-- The token is imported as `B`. -/
def importTx : CTransaction :=
  { hash := 52
    vin := [{ prevout := { hash := 51, n := 1000000000 }, scriptSig := [1, 0xe2] }]
    vout := [{ nValue := 1, scriptPubKey := [1, 2, 0xcc] },
      { nValue := 0, scriptPubKey := creation 0x42 }] }

/-- A library whose burned outputs are known, and a proof that holds. -/
def migration : MigrationEnv where
  lib :=
    { cc1 := fun _ _ => [1, 3, 0xcc]
      cc1of2 := fun _ _ _ => [1, 3, 0xcc]
      tokensCC1 := fun _ _ _ => [1, 1, 0xcc]
      tokensCC1of2 := fun _ _ _ _ => [1, 3, 0xcc]
      isMyVin := fun evalCode scriptSig => scriptSig == [1, evalCode]
      condition := fun _ => none
      unspendable := fun _ => []
      paysPubkey := fun _ _ => false
      scriptAddress := fun _ => none
      unspendableCCaddr := fun _ => [] }
  isStaked := false
  checkProof := fun _ _ => true

end RenamedToken

end IndexChain
