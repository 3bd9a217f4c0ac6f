import IndexChain.Models.CC.History
import IndexChain.Models.CC.Tokens

/-!
# Tokens along a history

A transfer is accepted when the token outputs it spends, judged one level deep,
add up to its own token outputs, judged by their scripts. An output judged deeply
counts for nothing or for its value, so the unspent tokens never exceed what the
token creation issued (`unspentTokens_le_supply`). The same output is judged by a
later transaction with the inputs taken at face value: a transfer that mixes in a
fake input is accepted, and its outputs are lost (`deep_eq_shallow_iff`).
-/

namespace IndexChain

open IndexChain.Core

namespace CCEnv

variable (env : CCEnv)

/-- The value of an output for a token, judged one level deep. -/
def tokenValue (tokenid : Uint256) (o : COutPoint) : Int :=
  match env.getTransaction o.hash with
  | some tx => env.isTokensvout true tx o.n.toNat tokenid
  | none => 0

/-- What the creation of a token issued. -/
def tokenSupply (tokenid : Uint256) : Int :=
  match env.getTransaction tokenid with
  | some tx => ∑ v ∈ Finset.range tx.vout.length, env.isTokensvout false tx v tokenid
  | none => 0

/-! ## Judging an output -/

theorem isTokensvout_false (tx : CTransaction) (v : Nat) (tokenid : Uint256) :
    env.isTokensvout false tx v tokenid = env.isTokensvoutShallow tx v tokenid := by
  simp [isTokensvout]

/-- Judged deeply, an output counts for nothing or for its value. -/
theorem isTokensvout_true_cases (tx : CTransaction) (v : Nat) (tokenid : Uint256) :
    env.isTokensvout true tx v tokenid = 0 ∨
      env.isTokensvout true tx v tokenid = env.isTokensvoutShallow tx v tokenid := by
  unfold isTokensvout
  split
  · exact Or.inl rfl
  · exact Or.inr rfl

theorem isTokensvoutShallow_nonneg {tx : CTransaction} (hval : ∀ out ∈ tx.vout, 0 ≤ out.nValue)
    (v : Nat) (tokenid : Uint256) : 0 ≤ env.isTokensvoutShallow tx v tokenid := by
  unfold isTokensvoutShallow
  split
  · split
    · exact le_rfl
    · rename_i out hout
      split
      · exact hval out (List.mem_of_getElem? hout)
      · exact le_rfl
  · exact le_rfl

theorem isTokensvout_nonneg {tx : CTransaction} (hval : ∀ out ∈ tx.vout, 0 ≤ out.nValue)
    (goDeeper : Bool) (v : Nat) (tokenid : Uint256) :
    0 ≤ env.isTokensvout goDeeper tx v tokenid := by
  unfold isTokensvout
  split
  · exact le_rfl
  · exact env.isTokensvoutShallow_nonneg hval v tokenid

theorem isTokensvout_true_le {tx : CTransaction} (hval : ∀ out ∈ tx.vout, 0 ≤ out.nValue)
    (v : Nat) (tokenid : Uint256) :
    env.isTokensvout true tx v tokenid ≤ env.isTokensvoutShallow tx v tokenid := by
  rcases env.isTokensvout_true_cases tx v tokenid with h | h
  · rw [h]
    exact env.isTokensvoutShallow_nonneg hval v tokenid
  · exact le_of_eq h

/-- Only the output before the op_return counts. -/
theorem isTokensvoutShallow_eq_zero_of_le {tx : CTransaction} {v : Nat}
    (h : tx.vout.length - 1 ≤ v) (tokenid : Uint256) :
    env.isTokensvoutShallow tx v tokenid = 0 := by
  unfold isTokensvoutShallow
  rw [if_neg (Nat.not_lt.2 h)]

/-- An op_return about another token gives no token outputs. -/
theorem isTokensvoutShallow_eq_zero_of_opret {tx : CTransaction} {tokenid : Uint256}
    (h : validateTokenOpret tx tokenid = none) (v : Nat) :
    env.isTokensvoutShallow tx v tokenid = 0 := by
  unfold isTokensvoutShallow isTokenOutput
  rw [h]
  split
  · split <;> simp
  · rfl

theorem outputSum_eq (tx : CTransaction) (tokenid : Uint256) :
    env.outputSum tx tokenid =
      ∑ v ∈ Finset.range tx.vout.length, env.isTokensvoutShallow tx v tokenid := by
  change ∑ v ∈ Finset.range (tx.vout.length - 1), env.isTokensvoutShallow tx v tokenid = _
  refine Finset.sum_subset (Finset.range_mono (Nat.sub_le _ _)) fun v _ hv => ?_
  have hle : tx.vout.length - 1 ≤ v := Nat.not_lt.1 fun hlt => hv (Finset.mem_range.2 hlt)
  exact env.isTokensvoutShallow_eq_zero_of_le hle _

/-- Without token inputs, only a token creation has token outputs. -/
theorem isTokensvout_true_eq_zero {tx : CTransaction} {tokenid : Uint256}
    (hval : ∀ out ∈ tx.vout, 0 ≤ out.nValue) (hvin : tx.vin.any env.isTokenVin = false)
    (hne : tokenid ≠ tx.hash) (v : Nat) : env.isTokensvout true tx v tokenid = 0 := by
  have hnil : tx.vin.filter env.isTokenVin = [] := by
    rw [List.filter_eq_nil_iff]
    intro txin hin htok
    rw [List.any_eq_false] at hvin
    exact hvin txin hin htok
  unfold isTokensvout
  split
  · rfl
  · rename_i hcond
    simp only [Bool.true_and, Bool.and_eq_true, Bool.not_eq_true', bne_iff_ne, not_and] at hcond
    have hexact : env.tokensExactAmountsShallow tx tokenid = true := by
      by_contra hnot
      exact hcond (by simpa using hnot) hne
    -- the inputs add up to nothing, so every output is nothing
    simp only [tokensExactAmountsShallow, inputSum, hnil, List.map_nil, List.sum_nil,
      Bool.and_eq_true, beq_iff_eq] at hexact
    have hsum : ∑ v ∈ Finset.range tx.vout.length, env.isTokensvoutShallow tx v tokenid = 0 := by
      rw [← env.outputSum_eq, ← hexact.2]
    by_cases hlt : v < tx.vout.length
    · exact (Finset.sum_eq_zero_iff_of_nonneg fun v _ =>
        env.isTokensvoutShallow_nonneg hval v tokenid).1 hsum v (Finset.mem_range.2 hlt)
    · exact env.isTokensvoutShallow_eq_zero_of_le (by omega) _

/-- What an accepted transfer satisfies. -/
structure TransferOk (tx : CTransaction) (opret : TokenOpret) : Prop where
  /-- It has a transfer op_return. -/
  opret_eq : tokenOpretOf tx = some opret
  /-- It is a transfer. -/
  transfer : opret.funcid = .transfer
  /-- The token exists. -/
  created : (env.getTransaction opret.tokenid).isSome = true
  /-- The token is not null. -/
  tokenid_ne : opret.tokenid ≠ 0
  /-- The transactions of the inputs are found. -/
  found : env.vinTxsFound tx = true
  /-- The transactions of their inputs are found. -/
  deepFound : env.deepVinTxsFound tx = true
  /-- The amounts are equal. -/
  exact : env.inputSum (env.isTokensvout true) tx opret.tokenid = env.outputSum tx opret.tokenid
  /-- Tokens are spent. -/
  inputs_ne : env.inputSum (env.isTokensvout true) tx opret.tokenid ≠ 0

/-- A transaction that is accepted without the exemption is a transfer. -/
theorem transferOk_of_tokensValidate {height : Int} {tx : CTransaction}
    (hexempt : ¬ env.tokensExempt height) (h : env.tokensValidate height tx = .ok ()) :
    ∃ opret, env.TransferOk tx opret := by
  unfold tokensValidate at h
  rw [if_neg hexempt, require_bind_eq_ok] at h
  obtain ⟨-, h⟩ := h
  cases hop : tokenOpretOf tx with
  | none =>
    rw [hop] at h
    cases h
  | some opret =>
    simp only [hop, require_bind_eq_ok] at h
    obtain ⟨hcreated, h⟩ := h
    cases hf : opret.funcid with
    | create =>
      rw [hf] at h
      cases h
    | transfer =>
      simp only [hf, require_bind_eq_ok, bne_iff_ne] at h
      obtain ⟨hne, hdeep, h⟩ := h
      unfold tokensExactAmounts at h
      split at h
      · cases h
      · rename_i inputs outputs hsome
        split at hsome
        · rename_i hfound
          simp only [Option.some.injEq, Prod.mk.injEq] at hsome
          obtain ⟨rfl, rfl⟩ := hsome
          simp only [require_bind_eq_ok, require_eq_ok, beq_iff_eq, bne_iff_ne] at h
          exact ⟨opret, hop, hf, hcreated, hne, hfound, hdeep, h.1, h.2.2⟩
        · cases hsome

end CCEnv

/-! ## Histories -/

/-- The rule for histories: a transaction with a token input is accepted by
`TokensValidate`, at a height that is admitted. -/
def tokenRule (lib : CCLib) (symbol : String) (admits : Int → Prop) (h : List CTransaction)
    (tx : CTransaction) : Prop :=
  tx.vin.any lib.isTokenVin = true →
    ∃ height, admits height ∧ (lib.envAt symbol h).tokensValidate height tx = .ok ()

section Histories

variable {lib : CCLib} {symbol : String} {admits : Int → Prop} {h : List CTransaction}

/-- The heights do not fall under the exemption. -/
def NotExempt (symbol : String) (admits : Int → Prop) : Prop :=
  ∀ height, admits height → ¬ (symbol = "ROGUE" ∧ height ≤ 12500)

/-- Judging by scripts depends on the token and on the outputs that are spent. -/
theorem shallow_congr {g : List CTransaction} {t : CTransaction} {tokenid : Uint256}
    (htok : lookupTx g tokenid = lookupTx h tokenid)
    (hspent : ∀ txin ∈ t.vin, (lib.envAt symbol g).spentOutput txin =
      (lib.envAt symbol h).spentOutput txin) (v : Nat) :
    (lib.envAt symbol g).isTokensvoutShallow t v tokenid =
      (lib.envAt symbol h).isTokensvoutShallow t v tokenid := by
  have hnf : (lib.envAt symbol g).getNonfungibleData tokenid =
      (lib.envAt symbol h).getNonfungibleData tokenid := by
    unfold CCEnv.getNonfungibleData
    simp only [CCLib.envAt, htok]
  have htest : ∀ opret, (lib.envAt symbol g).testScripts t opret tokenid =
      (lib.envAt symbol h).testScripts t opret tokenid := by
    intro opret
    unfold CCEnv.testScripts CCEnv.evalCodes
    rw [hnf]
    rfl
  have htotal : ∀ pk, (lib.envAt symbol g).totalPubkeyNormalInputs t pk =
      (lib.envAt symbol h).totalPubkeyNormalInputs t pk := by
    intro pk
    unfold CCEnv.totalPubkeyNormalInputs
    refine congrArg List.sum (List.map_congr_left fun txin hin => ?_)
    rw [hspent txin hin]
    rfl
  have hpaid : (lib.envAt symbol g).isPaidCreation t = (lib.envAt symbol h).isPaidCreation t := by
    unfold CCEnv.isPaidCreation
    simp only [htotal]
    rfl
  unfold CCEnv.isTokensvoutShallow CCEnv.isTokenOutput
  simp only [htest, hpaid]
  rfl

/-- Judging by scripts gives the same result later on. -/
theorem shallow_append (later : List CTransaction)
    (hist : TxHistory (tokenRule lib symbol admits) (later ++ h))
    {t : CTransaction} (ht : t ∈ h) {tokenid : Uint256}
    (htok : (lookupTx h tokenid).isSome = true) (v : Nat) :
    (lib.envAt symbol (later ++ h)).isTokensvoutShallow t v tokenid =
      (lib.envAt symbol h).isTokensvoutShallow t v tokenid := by
  obtain ⟨base, hbase⟩ := Option.isSome_iff_exists.1 htok
  exact shallow_congr (by rw [hbase, TxHistory.lookupTx_append later hist hbase])
    (fun txin hin => hist.spentOutput_append lib symbol ht hin) v

/-- A new transaction is judged by its scripts in the same way before and after it is added. -/
theorem shallow_new (later : List CTransaction) {tx : CTransaction}
    (hist : TxHistory (tokenRule lib symbol admits) (later ++ tx :: h)) {tokenid : Uint256}
    (htok : (lookupTx h tokenid).isSome = true) (v : Nat) :
    (lib.envAt symbol (later ++ tx :: h)).isTokensvoutShallow tx v tokenid =
      (lib.envAt symbol h).isTokensvoutShallow tx v tokenid := by
  obtain ⟨base, hbase⟩ := Option.isSome_iff_exists.1 htok
  have hist' : TxHistory (tokenRule lib symbol admits) ((later ++ [tx]) ++ h) := by
    simpa using hist
  have hlook : lookupTx (later ++ tx :: h) tokenid = some base := by
    simpa using TxHistory.lookupTx_append _ hist' hbase
  exact shallow_congr (by rw [hbase, hlook])
    (fun txin hin => hist.spentOutput_new lib symbol hin) v

/-- What is known of every transaction with token inputs, from then on. -/
structure TransferKnown (lib : CCLib) (h : List CTransaction) (t : CTransaction) : Prop where
  /-- It transfers a token that exists. -/
  token : ∃ opret, tokenOpretOf t = some opret ∧ opret.funcid = .transfer ∧
    (lookupTx h opret.tokenid).isSome = true
  /-- The transactions of its token inputs are found. -/
  vins : ∀ txin ∈ t.vin, lib.isTokenVin txin = true →
    (lookupTx h txin.prevout.hash).isSome = true

theorem transferKnown_of_mem (hist : TxHistory (tokenRule lib symbol admits) h)
    (hex : NotExempt symbol admits) : ∀ t ∈ h, t.vin.any lib.isTokenVin = true →
    TransferKnown lib h t := by
  induction hist with
  | nil => simp
  | @cons h tx prev spends accepted ih =>
    have hkeep := @isSome_lookupTx_cons h tx spends.fresh
    intro t ht htok
    rcases List.mem_cons.1 ht with rfl | ht
    · obtain ⟨height, hadm, hok⟩ := accepted htok
      obtain ⟨opret, hopret⟩ := CCEnv.transferOk_of_tokensValidate (lib.envAt symbol h)
        (hex height hadm) hok
      refine ⟨⟨opret, hopret.opret_eq, hopret.transfer, hkeep _ hopret.created⟩, ?_⟩
      intro txin hin hvin
      have hfound := hopret.found
      unfold CCEnv.vinTxsFound at hfound
      exact hkeep _ (List.all_eq_true.1 hfound txin (List.mem_filter.2 ⟨hin, hvin⟩))
    · have hknown := ih t ht htok
      obtain ⟨opret, hop, hf, hcreated⟩ := hknown.token
      refine ⟨⟨opret, hop, hf, hkeep _ hcreated⟩, ?_⟩
      intro txin hin hvin
      exact hkeep _ (hknown.vins txin hin hvin)

theorem vinTxsFound_of_found {g : List CTransaction} {t : CTransaction}
    (hvins : ∀ txin ∈ t.vin, lib.isTokenVin txin = true →
      (lookupTx g txin.prevout.hash).isSome = true) :
    (lib.envAt symbol g).vinTxsFound t = true := by
  unfold CCEnv.vinTxsFound
  refine List.all_eq_true.2 fun txin hmem => ?_
  exact hvins txin (List.mem_filter.1 hmem).1 (List.mem_filter.1 hmem).2

/-- Whether the amounts are equal by the scripts is settled once the inputs are found. -/
theorem exactShallow_append (later : List CTransaction)
    (hist : TxHistory (tokenRule lib symbol admits) (later ++ h)) {t : CTransaction}
    {tokenid : Uint256} (htok : (lookupTx h tokenid).isSome = true)
    (hvins : ∀ txin ∈ t.vin, lib.isTokenVin txin = true →
      (lookupTx h txin.prevout.hash).isSome = true)
    (hout : ∀ v, (lib.envAt symbol (later ++ h)).isTokensvoutShallow t v tokenid =
      (lib.envAt symbol h).isTokensvoutShallow t v tokenid) :
    (lib.envAt symbol (later ++ h)).tokensExactAmountsShallow t tokenid =
      (lib.envAt symbol h).tokensExactAmountsShallow t tokenid := by
  have hvins' : ∀ txin ∈ t.vin, lib.isTokenVin txin = true →
      (lookupTx (later ++ h) txin.prevout.hash).isSome = true := by
    intro txin hin hvin
    obtain ⟨vinTx, hl⟩ := Option.isSome_iff_exists.1 (hvins txin hin hvin)
    rw [TxHistory.lookupTx_append later hist hl]
    rfl
  have hinputs : (lib.envAt symbol (later ++ h)).inputSum
      (lib.envAt symbol (later ++ h)).isTokensvoutShallow t tokenid =
      (lib.envAt symbol h).inputSum (lib.envAt symbol h).isTokensvoutShallow t tokenid := by
    unfold CCEnv.inputSum
    refine congrArg List.sum (List.map_congr_left fun txin hmem => ?_)
    obtain ⟨hin, hvin⟩ := List.mem_filter.1 hmem
    obtain ⟨vinTx, hl⟩ := Option.isSome_iff_exists.1 (hvins txin hin hvin)
    simp only [CCLib.envAt, hl, TxHistory.lookupTx_append later hist hl]
    exact shallow_append later hist (mem_of_lookupTx hl).1 htok _
  have houtputs : (lib.envAt symbol (later ++ h)).outputSum t tokenid =
      (lib.envAt symbol h).outputSum t tokenid := by
    unfold CCEnv.outputSum
    exact congrArg List.sum (List.map_congr_left fun v _ => hout v)
  unfold CCEnv.tokensExactAmountsShallow
  rw [vinTxsFound_of_found hvins, vinTxsFound_of_found hvins', hinputs, houtputs]

/-- Judging one level deep gives the same result later on. -/
theorem deep_append (later : List CTransaction)
    (hist : TxHistory (tokenRule lib symbol admits) (later ++ h)) (hex : NotExempt symbol admits)
    {t : CTransaction} (ht : t ∈ h) {tokenid : Uint256}
    (htok : (lookupTx h tokenid).isSome = true) (v : Nat) :
    (lib.envAt symbol (later ++ h)).isTokensvout true t v tokenid =
      (lib.envAt symbol h).isTokensvout true t v tokenid := by
  have hvins : ∀ txin ∈ t.vin, lib.isTokenVin txin = true →
      (lookupTx h txin.prevout.hash).isSome = true := fun txin hin hvin =>
    (transferKnown_of_mem (TxHistory.suffix later hist) hex t ht
      (List.any_eq_true.2 ⟨txin, hin, hvin⟩)).vins txin hin hvin
  have hout := fun v => shallow_append later hist ht htok v
  unfold CCEnv.isTokensvout
  rw [exactShallow_append later hist htok hvins hout, hout v]

/-- Before a token is created, no output counts for it. -/
theorem deep_eq_zero_of_unknown (hist : TxHistory (tokenRule lib symbol admits) h)
    (hex : NotExempt symbol admits) {tokenid : Uint256} (hnone : lookupTx h tokenid = none)
    {t : CTransaction} (ht : t ∈ h) (g : List CTransaction) (v : Nat) :
    (lib.envAt symbol g).isTokensvout true t v tokenid = 0 := by
  have hne : tokenid ≠ t.hash := by
    rintro rfl
    have := List.find?_eq_none.1 hnone t ht
    simp at this
  have hval := hist.values t ht
  cases hany : t.vin.any lib.isTokenVin with
  | false => exact CCEnv.isTokensvout_true_eq_zero _ hval hany hne v
  | true =>
    -- a transfer is about a token that exists
    obtain ⟨opret, hop, hf, hcreated⟩ := (transferKnown_of_mem hist hex t ht hany).token
    have hother : validateTokenOpret t tokenid = none := by
      have hneq : tokenid ≠ opret.tokenid := by
        rintro rfl
        rw [hnone] at hcreated
        cases hcreated
      simp [validateTokenOpret, hop, hf, hneq]
    rcases CCEnv.isTokensvout_true_cases (lib.envAt symbol g) t v tokenid with h0 | h0
    · exact h0
    · rw [h0]
      exact CCEnv.isTokensvoutShallow_eq_zero_of_opret _ hother v

theorem tokenValue_nonneg (hist : TxHistory (tokenRule lib symbol admits) h) (tokenid : Uint256)
    (o : COutPoint) : 0 ≤ (lib.envAt symbol h).tokenValue tokenid o := by
  unfold CCEnv.tokenValue
  change (0 : Int) ≤ match lookupTx h o.hash with | some tx => _ | none => 0
  cases hl : lookupTx h o.hash with
  | none => exact le_rfl
  | some t => exact CCEnv.isTokensvout_nonneg _ (hist.values t (mem_of_lookupTx hl).1) _ _ _

/-- The value of the outputs of a new transaction. -/
theorem sum_outpoints {tx : CTransaction} (hsize : tx.vout.length ≤ 1000000000)
    (tokenid : Uint256) :
    ∑ o ∈ tx.outpoints, (lib.envAt symbol (tx :: h)).tokenValue tokenid o =
      ∑ v ∈ Finset.range tx.vout.length,
        (lib.envAt symbol (tx :: h)).isTokensvout true tx v tokenid := by
  have hsmall : ∀ v ∈ Finset.range tx.vout.length, (UInt32.ofNat v).toNat = v := by
    intro v hv
    have := Finset.mem_range.1 hv
    exact UInt32.toNat_ofNat_of_lt (by
      show v < 4294967296
      omega)
  unfold CTransaction.outpoints
  rw [Finset.sum_image]
  · refine Finset.sum_congr rfl fun v hv => ?_
    unfold CCEnv.tokenValue
    simp only [CCLib.envAt, lookupTx_cons_self]
    rw [hsmall v hv]
  · intro v hv v' hv' heq
    have hn : UInt32.ofNat v = UInt32.ofNat v' := congrArg COutPoint.n heq
    rw [← hsmall v hv, ← hsmall v' hv', hn]

/-- The token outputs an accepted transfer spends. -/
def tokenPrevouts (lib : CCLib) (tx : CTransaction) : Finset COutPoint :=
  ((tx.vin.filter lib.isTokenVin).map CTxIn.prevout).toFinset

/-- The inputs of a transfer are the values of the outputs it spends. -/
theorem inputSum_eq {tx : CTransaction} (hdist : (tx.vin.map CTxIn.prevout).Nodup)
    (tokenid : Uint256) :
    (lib.envAt symbol h).inputSum ((lib.envAt symbol h).isTokensvout true) tx tokenid =
      ∑ o ∈ tokenPrevouts lib tx, (lib.envAt symbol h).tokenValue tokenid o := by
  unfold tokenPrevouts
  rw [List.sum_toFinset _ (hdist.sublist (List.filter_sublist.map _)), List.map_map]
  rfl

/-- A minting transaction spends no tokens. -/
theorem inputSum_mint (hist : TxHistory (tokenRule lib symbol admits) h) {tx : CTransaction}
    (hmint : tx.isMint = true) (tokenid : Uint256) :
    (lib.envAt symbol h).inputSum ((lib.envAt symbol h).isTokensvout true) tx tokenid = 0 := by
  unfold CCEnv.inputSum
  refine List.sum_eq_zero fun x hx => ?_
  obtain ⟨txin, hmem, rfl⟩ := List.mem_map.1 hx
  have hbig := CTransaction.mint_index hmint (List.mem_filter.1 hmem).1
  change (match lookupTx h txin.prevout.hash with | some vinTx => _ | none => 0) = (0 : Int)
  cases hl : lookupTx h txin.prevout.hash with
  | none => rfl
  | some vinTx =>
    have hsize := hist.size vinTx (mem_of_lookupTx hl).1
    rcases CCEnv.isTokensvout_true_cases (lib.envAt symbol h) vinTx txin.prevout.n.toNat tokenid
      with h0 | h0
    · exact h0
    · exact h0.trans (CCEnv.isTokensvoutShallow_eq_zero_of_le _ (by omega) _)

/-- The new outputs of a transaction that does not create the token are worth at most
the token outputs it spends. -/
theorem sum_outpoints_le (hist : TxHistory (tokenRule lib symbol admits) h)
    (hex : NotExempt symbol admits) {tx : CTransaction} (spends : SpendsUnspent h tx)
    (accepted : tokenRule lib symbol admits h tx) {tokenid : Uint256} (hne : tokenid ≠ tx.hash)
    (htok : (lookupTx h tokenid).isSome = true) :
    ∃ Q ⊆ unspentOutputs h, Q ⊆ tx.prevouts ∧
      ∑ o ∈ tx.outpoints, (lib.envAt symbol (tx :: h)).tokenValue tokenid o ≤
        ∑ o ∈ Q, (lib.envAt symbol h).tokenValue tokenid o := by
  have hist' : TxHistory (tokenRule lib symbol admits) (tx :: h) := .cons hist spends accepted
  rw [sum_outpoints spends.size]
  -- without new tokens there is nothing to show
  have hnothing : (∀ v, (lib.envAt symbol (tx :: h)).isTokensvout true tx v tokenid = 0) →
      ∃ Q ⊆ unspentOutputs h, Q ⊆ tx.prevouts ∧
        ∑ v ∈ Finset.range tx.vout.length,
          (lib.envAt symbol (tx :: h)).isTokensvout true tx v tokenid ≤
        ∑ o ∈ Q, (lib.envAt symbol h).tokenValue tokenid o := by
    intro hzero
    refine ⟨∅, Finset.empty_subset _, Finset.empty_subset _, ?_⟩
    rw [Finset.sum_empty, Finset.sum_eq_zero fun v _ => hzero v]
  cases hany : tx.vin.any lib.isTokenVin with
  | false => exact hnothing fun v => CCEnv.isTokensvout_true_eq_zero _ spends.values hany hne v
  | true =>
    obtain ⟨height, hadm, hok⟩ := accepted hany
    obtain ⟨opret, hopret⟩ := CCEnv.transferOk_of_tokensValidate (lib.envAt symbol h)
      (hex height hadm) hok
    by_cases hid : tokenid = opret.tokenid
    · subst hid
      have hmint : tx.isMint = false := by
        rw [Bool.eq_false_iff]
        exact fun hm => hopret.inputs_ne (inputSum_mint hist hm _)
      have hsub : tokenPrevouts lib tx ⊆ tx.prevouts := by
        intro o ho
        obtain ⟨txin, hmem, rfl⟩ := List.mem_map.1 (List.mem_toFinset.1 ho)
        exact List.mem_toFinset.2 (List.mem_map.2 ⟨txin, (List.mem_filter.1 hmem).1, rfl⟩)
      refine ⟨tokenPrevouts lib tx, fun o ho => ?_, hsub, ?_⟩
      · obtain ⟨txin, hmem, rfl⟩ := List.mem_map.1 (List.mem_toFinset.1 ho)
        exact spends.unspent hmint txin (List.mem_filter.1 hmem).1
      · rw [← inputSum_eq spends.distinct, hopret.exact, CCEnv.outputSum_eq]
        refine Finset.sum_le_sum fun v _ => ?_
        rw [← shallow_new [] hist' htok v]
        exact CCEnv.isTokensvout_true_le _ spends.values v _
    · refine hnothing fun v => ?_
      have hother : validateTokenOpret tx tokenid = none := by
        simp [validateTokenOpret, hopret.opret_eq, hopret.transfer, hid]
      rcases CCEnv.isTokensvout_true_cases (lib.envAt symbol (tx :: h)) tx v tokenid with h0 | h0
      · exact h0
      · rw [h0]
        exact CCEnv.isTokensvoutShallow_eq_zero_of_opret _ hother v

/-- What the creation of a token issued stays the same. -/
theorem tokenSupply_cons {tx : CTransaction}
    (hist : TxHistory (tokenRule lib symbol admits) (tx :: h)) {tokenid : Uint256}
    (htok : (lookupTx h tokenid).isSome = true) :
    (lib.envAt symbol (tx :: h)).tokenSupply tokenid =
      (lib.envAt symbol h).tokenSupply tokenid := by
  obtain ⟨base, hbase⟩ := Option.isSome_iff_exists.1 htok
  have hbase' : lookupTx (tx :: h) tokenid = some base := TxHistory.lookupTx_append [tx] hist hbase
  unfold CCEnv.tokenSupply
  simp only [CCLib.envAt, hbase, hbase']
  refine Finset.sum_congr rfl fun v _ => ?_
  rw [CCEnv.isTokensvout_false, CCEnv.isTokensvout_false]
  exact shallow_append [tx] hist (mem_of_lookupTx hbase).1 htok v

/-- An unspent output is worth the same after a transaction is added. -/
theorem tokenValue_cons {tx : CTransaction}
    (hist : TxHistory (tokenRule lib symbol admits) (tx :: h)) (hex : NotExempt symbol admits)
    {tokenid : Uint256} (htok : (lookupTx h tokenid).isSome = true) {o : COutPoint}
    (ho : o ∈ unspentOutputs h) :
    (lib.envAt symbol (tx :: h)).tokenValue tokenid o =
      (lib.envAt symbol h).tokenValue tokenid o := by
  obtain ⟨t, hl, -⟩ := (TxHistory.suffix [tx] hist).exists_of_mem_unspent ho
  have hl' : lookupTx (tx :: h) o.hash = some t := TxHistory.lookupTx_append [tx] hist hl
  unfold CCEnv.tokenValue
  simp only [CCLib.envAt, hl, hl']
  exact deep_append [tx] hist hex (mem_of_lookupTx hl).1 htok _

/-- Along every history, the unspent outputs that count for a token are worth at most
what its creation issued. -/
theorem unspentTokens_le_supply (hist : TxHistory (tokenRule lib symbol admits) h)
    (hex : NotExempt symbol admits) (tokenid : Uint256) :
    ∑ o ∈ unspentOutputs h, (lib.envAt symbol h).tokenValue tokenid o ≤
      (lib.envAt symbol h).tokenSupply tokenid := by
  induction hist with
  | nil => exact le_rfl
  | @cons h tx prev spends accepted ih =>
    have hist : TxHistory (tokenRule lib symbol admits) (tx :: h) := .cons prev spends accepted
    by_cases hid : tokenid = tx.hash
    · -- the creation: nothing counted before
      subst hid
      have hnone : lookupTx h tx.hash = none :=
        List.find?_eq_none.2 fun t ht => by simpa using spends.fresh t ht
      have hold : ∀ o ∈ unspentOutputs (tx :: h), o ∉ tx.outpoints →
          (lib.envAt symbol (tx :: h)).tokenValue tx.hash o = 0 := by
        intro o ho hnew
        obtain ⟨t, hl, -⟩ := prev.exists_of_mem_unspent
          (Finset.mem_sdiff.1 ((Finset.mem_union.1 ho).resolve_right hnew)).1
        unfold CCEnv.tokenValue
        simp only [CCLib.envAt, lookupTx_cons spends.fresh hl]
        exact deep_eq_zero_of_unknown prev hex hnone (mem_of_lookupTx hl).1 (tx :: h) _
      have hsum : ∑ o ∈ tx.outpoints, (lib.envAt symbol (tx :: h)).tokenValue tx.hash o =
          ∑ o ∈ unspentOutputs (tx :: h), (lib.envAt symbol (tx :: h)).tokenValue tx.hash o :=
        Finset.sum_subset Finset.subset_union_right hold
      rw [← hsum, sum_outpoints spends.size]
      unfold CCEnv.tokenSupply
      simp only [CCLib.envAt, lookupTx_cons_self]
      refine Finset.sum_le_sum fun v _ => ?_
      rw [CCEnv.isTokensvout_false]
      exact CCEnv.isTokensvout_true_le _ spends.values v _
    · cases htok : (lookupTx h tokenid).isSome with
      | false =>
        -- an unknown token
        have hnone : lookupTx (tx :: h) tokenid = none := by
          rw [lookupTx_cons_of_ne (Ne.symm hid)]
          simpa using htok
        have hzero : ∀ o ∈ unspentOutputs (tx :: h),
            (lib.envAt symbol (tx :: h)).tokenValue tokenid o = 0 := by
          intro o ho
          obtain ⟨t, hl, -⟩ := hist.exists_of_mem_unspent ho
          unfold CCEnv.tokenValue
          simp only [CCLib.envAt, hl]
          exact deep_eq_zero_of_unknown hist hex hnone (mem_of_lookupTx hl).1 (tx :: h) _
        rw [Finset.sum_eq_zero hzero]
        unfold CCEnv.tokenSupply
        simp only [CCLib.envAt, hnone]
        exact le_rfl
      | true =>
        obtain ⟨Q, hQU, hQP, hnew⟩ := sum_outpoints_le prev hex spends accepted hid htok
        rw [tokenSupply_cons hist htok]
        exact le_trans (sum_step_le hQU hQP (tokenValue_nonneg hist tokenid)
          (fun o ho => tokenValue_cons hist hex htok ho) hnew) ih

/-! ## The fate of the outputs of a transfer -/

/-- The token inputs of a transaction count the same by their scripts and one level deep. -/
def InputsReal (env : CCEnv) (tx : CTransaction) (tokenid : Uint256) : Prop :=
  ∀ txin ∈ tx.vin, env.isTokenVin txin = true → ∀ vinTx,
    env.getTransaction txin.prevout.hash = some vinTx →
    env.isTokensvout false vinTx txin.prevout.n.toNat tokenid =
      env.isTokensvout true vinTx txin.prevout.n.toNat tokenid

/-- The sum of the inputs by their scripts is the deep sum exactly for real inputs. -/
theorem inputSum_shallow_eq_iff (hist : TxHistory (tokenRule lib symbol admits) h)
    (tx : CTransaction) (tokenid : Uint256) :
    (lib.envAt symbol h).inputSum (lib.envAt symbol h).isTokensvoutShallow tx tokenid =
      (lib.envAt symbol h).inputSum ((lib.envAt symbol h).isTokensvout true) tx tokenid ↔
    InputsReal (lib.envAt symbol h) tx tokenid := by
  unfold CCEnv.inputSum InputsReal
  rw [sum_map_eq_iff]
  · constructor
    · intro hall txin hin hvin vinTx hl
      have := hall txin (List.mem_filter.2 ⟨hin, hvin⟩)
      simp only [hl] at this
      rw [CCEnv.isTokensvout_false, this]
    · intro hreal txin hmem
      obtain ⟨hin, hvin⟩ := List.mem_filter.1 hmem
      cases hl : (lib.envAt symbol h).getTransaction txin.prevout.hash with
      | none => rfl
      | some vinTx =>
        dsimp only
        rw [← hreal txin hin hvin vinTx hl, CCEnv.isTokensvout_false]
  · intro txin _
    cases hl : (lib.envAt symbol h).getTransaction txin.prevout.hash with
    | none => exact le_rfl
    | some vinTx =>
      exact CCEnv.isTokensvout_true_le _ (hist.values vinTx (mem_of_lookupTx hl).1) _ _

/-- The token outputs of a transfer that is accepted outside the exemption count for later
transactions exactly when every token input of the transfer was real. -/
theorem deep_eq_shallow_iff {tx : CTransaction} (later : List CTransaction) {opret : TokenOpret}
    {height : Int} (hist : TxHistory (tokenRule lib symbol admits) (later ++ tx :: h))
    (hexempt : ¬ (symbol = "ROGUE" ∧ height ≤ 12500))
    (hok : (lib.envAt symbol h).tokensValidate height tx = .ok ())
    (hop : tokenOpretOf tx = some opret) :
    (∀ v, (lib.envAt symbol h).isTokensvout false tx v opret.tokenid ≠ 0 →
      (lib.envAt symbol (later ++ tx :: h)).isTokensvout true tx v opret.tokenid =
        (lib.envAt symbol h).isTokensvout false tx v opret.tokenid) ↔
    InputsReal (lib.envAt symbol h) tx opret.tokenid := by
  cases TxHistory.suffix later hist with
  | cons prev spends =>
    obtain ⟨opret', hopret⟩ := CCEnv.transferOk_of_tokensValidate (lib.envAt symbol h) hexempt hok
    obtain rfl : opret = opret' := Option.some.inj (hop.symm.trans hopret.opret_eq)
    have hne : opret.tokenid ≠ tx.hash := by
      obtain ⟨base, hbase⟩ := Option.isSome_iff_exists.1 hopret.created
      obtain ⟨hmem, hid⟩ := mem_of_lookupTx hbase
      rw [← hid]
      exact spends.fresh base hmem
    have hout := fun v => shallow_new later hist hopret.created v
    have hist' : TxHistory (tokenRule lib symbol admits) ((later ++ [tx]) ++ h) := by
      simpa using hist
    have hvins : ∀ txin ∈ tx.vin, lib.isTokenVin txin = true →
        (lookupTx h txin.prevout.hash).isSome = true := by
      intro txin hin hvin
      have hfound := hopret.found
      unfold CCEnv.vinTxsFound at hfound
      exact List.all_eq_true.1 hfound txin (List.mem_filter.2 ⟨hin, hvin⟩)
    have hexact : (lib.envAt symbol (later ++ tx :: h)).tokensExactAmountsShallow tx
        opret.tokenid = (lib.envAt symbol h).tokensExactAmountsShallow tx opret.tokenid := by
      have := exactShallow_append (later ++ [tx]) hist' hopret.created hvins
        (by simpa using hout)
      simpa using this
    -- later on the inputs are taken at face value
    have hiff : (lib.envAt symbol h).tokensExactAmountsShallow tx opret.tokenid = true ↔
        InputsReal (lib.envAt symbol h) tx opret.tokenid := by
      rw [← inputSum_shallow_eq_iff prev]
      unfold CCEnv.tokensExactAmountsShallow
      rw [hopret.found, Bool.true_and, beq_iff_eq, hopret.exact]
    rw [← hiff]
    constructor
    · intro hkept
      -- some output counts, because the inputs are worth something
      obtain ⟨v, -, hv⟩ : ∃ v ∈ Finset.range tx.vout.length,
          (lib.envAt symbol h).isTokensvoutShallow tx v opret.tokenid ≠ 0 := by
        apply Finset.exists_ne_zero_of_sum_ne_zero
        rw [← CCEnv.outputSum_eq, ← hopret.exact]
        exact hopret.inputs_ne
      rw [← CCEnv.isTokensvout_false] at hv
      have hdeep := hkept v hv
      by_contra hnot
      rw [CCEnv.isTokensvout, hexact, Bool.eq_false_iff.2 hnot] at hdeep
      rw [if_pos (by simpa using hne)] at hdeep
      exact hv hdeep.symm
    · intro htrue v _
      rw [CCEnv.isTokensvout_false, CCEnv.isTokensvout, hexact, htrue]
      simpa using hout v

end Histories

/-! ## A token with a fake -/

namespace SampleTokens

/-- A coinbase that pays the creator twice. -/
def funding : CTransaction where
  hash := 1
  vin := [{ prevout := { hash := 0, n := 4294967295 } }]
  vout := [{ nValue := 20000, scriptPubKey := CScript.payToPubkey (CCLib.plainKey 1) },
    { nValue := 5000, scriptPubKey := CScript.payToPubkey (CCLib.plainKey 1) }]

/-- The creation of 100 tokens, with the marker output. -/
def base : CTransaction where
  hash := 2
  vin := [{ prevout := { hash := 1, n := 0 } }]
  vout := [{ nValue := 100, scriptPubKey := CCLib.plain.cc1 evalTokens (CCLib.plainKey 1) },
    { nValue := 10000,
      scriptPubKey := CCLib.plain.cc1 evalTokens (CCLib.plain.unspendable evalTokens) },
    { nValue := 0
      scriptPubKey := [0x6a, 40, 0xf2, 0x63, 33] ++ CCLib.plainKey 1 ++ [1, 0x54, 1, 0x44] }]

/-- A transfer of the token to a key. -/
def transfer (hash : Uint256) (vin : List CTxIn) (amount : Int) (owner : UInt8) :
    CTransaction where
  hash := hash
  vin := vin
  vout := [{ nValue := amount, scriptPubKey := CCLib.plain.cc1 evalTokens (CCLib.plainKey owner) },
    { nValue := 0
      scriptPubKey := [0x6a, 69, 0xf2, 0x74] ++ (leBytes 32 2).reverse ++ [1, 33] ++
        CCLib.plainKey owner }]

/-- An input that fulfils the condition of a token output. -/
def tokenIn (hash : Uint256) (owner : UInt8) : CTxIn where
  prevout := { hash := hash, n := 0 }
  scriptSig := [0, evalTokens] ++ CCLib.plainKey owner

/-- A transfer of the created tokens. -/
def honest : CTransaction := transfer 3 [tokenIn 2 1] 100 2

/-- Outputs that look like tokens, paid from a normal input. -/
def fake : CTransaction := transfer 4 [{ prevout := { hash := 1, n := 1 } }] 1000 1

/-- A transfer of the created tokens that also spends the fake. -/
def mixed : CTransaction := transfer 5 [tokenIn 2 1, tokenIn 4 1] 100 2

/-- A transfer of the fake alone. -/
def laundered : CTransaction := transfer 6 [tokenIn 4 1] 1000 2

theorem history_base {symbol : String} {admits : Int → Prop} :
    TxHistory (tokenRule CCLib.plain symbol admits) [base, funding] := by
  refine .cons (.cons .nil (by decide) ?_) (by decide) ?_
  · exact fun h => absurd h (by decide)
  · exact fun h => absurd h (by decide)

theorem history_fake {symbol : String} {admits : Int → Prop} :
    TxHistory (tokenRule CCLib.plain symbol admits) [fake, base, funding] :=
  .cons history_base (by decide) fun h => absurd h (by decide)

theorem history_honest :
    TxHistory (tokenRule CCLib.plain "ROGUE" (12500 < ·)) [honest, base, funding] :=
  .cons history_base (by decide)
    fun _ => ⟨12501, by decide, eq_ok_of_isOk (by decide)⟩

theorem history_mixed :
    TxHistory (tokenRule CCLib.plain "ROGUE" (12500 < ·)) [mixed, fake, base, funding] :=
  .cons history_fake (by decide)
    fun _ => ⟨12501, by decide, eq_ok_of_isOk (by decide)⟩

/-- The op_return of a sample transfer. -/
def opretTo (owner : UInt8) : TokenOpret where
  funcid := .transfer
  tokenid := 2
  voutPubkeys := [CCLib.plainKey owner]
  oprets := []

theorem opretOf_honest : tokenOpretOf honest = some (opretTo 2) := by
  decide

theorem inputsReal_honest :
    InputsReal (CCLib.plain.envAt "ROGUE" [base, funding]) honest (opretTo 2).tokenid := by
  intro txin hin _ vinTx hl
  obtain rfl : txin = tokenIn 2 1 := List.mem_singleton.1 hin
  obtain rfl : base = vinTx := Option.some.inj (Eq.trans (by decide) hl)
  decide

theorem notExempt : NotExempt "ROGUE" (12500 < ·) :=
  fun _ h hex => absurd hex.2 (not_le.2 h)

end SampleTokens

open SampleTokens

/-- After an honest transfer. -/
theorem unspentTokens_le_supply_honest :
    ∑ o ∈ unspentOutputs [honest, base, funding],
      (CCLib.plain.envAt "ROGUE" [honest, base, funding]).tokenValue 2 o ≤
    (CCLib.plain.envAt "ROGUE" [honest, base, funding]).tokenSupply 2 :=
  unspentTokens_le_supply history_honest notExempt 2

/-- While validation is exempt, a fake that is transferred once counts like a real token. -/
theorem unspentTokens_exceed_supply :
    TxHistory (tokenRule CCLib.plain "ROGUE" (· ≤ 12500)) [laundered, fake, base, funding] ∧
    (CCLib.plain.envAt "ROGUE" [laundered, fake, base, funding]).tokenSupply 2 = 100 ∧
    ∑ o ∈ unspentOutputs [laundered, fake, base, funding],
      (CCLib.plain.envAt "ROGUE" [laundered, fake, base, funding]).tokenValue 2 o = 1100 := by
  refine ⟨?_, by decide +kernel, by decide +kernel⟩
  exact .cons history_fake (by decide +kernel)
    fun _ => ⟨100, by decide, eq_ok_of_isOk (by decide +kernel)⟩

/-- An honest transfer keeps its output. -/
theorem deep_eq_shallow_honest :
    (CCLib.plain.envAt "ROGUE" [base, funding]).isTokensvout false honest 0 2 = 100 ∧
    ∀ v, (CCLib.plain.envAt "ROGUE" [base, funding]).isTokensvout false honest v 2 ≠ 0 →
      (CCLib.plain.envAt "ROGUE" [honest, base, funding]).isTokensvout true honest v 2 =
        (CCLib.plain.envAt "ROGUE" [base, funding]).isTokensvout false honest v 2 :=
  ⟨by decide +kernel,
    (deep_eq_shallow_iff [] history_honest (by decide : ¬ (_ ∧ (12501 : Int) ≤ 12500))
      (eq_ok_of_isOk (by decide +kernel)) opretOf_honest).2 inputsReal_honest⟩

/-- A transfer that mixes in a fake input is accepted, and its output is lost. -/
theorem transfer_with_fake_lost :
    TxHistory (tokenRule CCLib.plain "ROGUE" (12500 < ·)) [mixed, fake, base, funding] ∧
    (CCLib.plain.envAt "ROGUE" [fake, base, funding]).tokensValidate 12501 mixed = .ok () ∧
    (CCLib.plain.envAt "ROGUE" [fake, base, funding]).isTokensvout false mixed 0 2 = 100 ∧
    (CCLib.plain.envAt "ROGUE" [mixed, fake, base, funding]).isTokensvout true mixed 0 2 = 0 :=
  ⟨history_mixed, eq_ok_of_isOk (by decide +kernel), by decide +kernel, by decide +kernel⟩

end IndexChain
