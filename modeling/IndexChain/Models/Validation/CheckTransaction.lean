import IndexChain.Core.Bytes
import IndexChain.Core.Checked
import IndexChain.Models.Coins.View

/-!
# Context-free transaction checks

`CheckTransactionWithoutProofVerification` of `main.cpp`, with its reject reasons.
The chain's configuration and the serialized size are read from `TxCheckEnv`.
Sums are kept in `int64_t`, so they are reduced modulo `2 ^ 64` after each
addition.
-/

namespace IndexChain

open IndexChain.Core

/-- The configuration the context-free checks read. -/
structure TxCheckEnv where
  /-- `komodo_acpublic(tiptime)`. -/
  acpublic : Bool
  /-- `ASSETCHAINS_PRIVATE != 0`. -/
  assetchainsPrivate : Bool
  /-- `ASSETCHAINS_TXPOW`. -/
  txpow : UInt32
  /-- `MAX_MONEY`. -/
  maxMoney : Int
  /-- The time of the previous block. -/
  tiptime : Nat
  /-- `komodo_isnotaryvout` of the address of a script. -/
  isNotaryVout : CScript → Bool
  /-- `GetSerializeSize(tx, SER_NETWORK, PROTOCOL_VERSION)`. -/
  serializeSize : CTransaction → Nat

namespace TxCheckEnv

variable (env : TxCheckEnv)

/-- `MoneyRange`. -/
def moneyRange (v : Int) : Bool :=
  decide (0 ≤ v) && decide (v ≤ env.maxMoney)

/-- The version rules. -/
def checkVersion (tx : CTransaction) : Except String Unit :=
  if !tx.fOverwintered then
    require (decide (1 ≤ tx.nVersion)) "bad-txns-version-too-low"
  else do
    require (decide (3 ≤ tx.nVersion)) "bad-tx-overwinter-version-too-low"
    require (tx.nVersionGroupId == overwinterVersionGroupId ||
      tx.nVersionGroupId == saplingVersionGroupId) "bad-tx-version-group-id"
    require (decide (tx.nExpiryHeight.toNat < 500000000)) "bad-tx-expiry-height-too-high"

/-- The running totals of the output loop. -/
structure OutTotals where
  /-- The sum so far. -/
  nValueOut : Int := 0
  /-- A transparent output on a private chain was seen. -/
  invalidPrivateTaddr : Bool := false

/-- One iteration of the output loop. -/
def checkOut (tx : CTransaction) (s : OutTotals) (txout : CTxOut) : Except String OutTotals := do
  require (decide (0 ≤ txout.nValue)) "bad-txns-vout-negative"
  require (decide (txout.nValue ≤ env.maxMoney)) "bad-txns-vout-toolarge"
  let invalid := env.assetchainsPrivate && !tx.isCoinBase && decide (0 < txout.nValue) &&
    !env.isNotaryVout txout.scriptPubKey
  require (decide (txout.scriptPubKey.length ≤ 10001)) "bad-txns-opret-too-big"
  let nValueOut := toInt64 (s.nValueOut + txout.nValue)
  require (env.moneyRange nValueOut) "bad-txns-txouttotal-toolarge"
  return { nValueOut := nValueOut, invalidPrivateTaddr := s.invalidPrivateTaddr || invalid }

/-- The running totals of the JoinSplit loop. -/
structure JsTotals where
  /-- The sum so far. -/
  nValueOut : Int
  /-- JoinSplits within the shielded pool. -/
  zz : Nat := 0
  /-- JoinSplits out of the shielded pool. -/
  zt : Nat := 0
  /-- JoinSplits into the shielded pool. -/
  tz : Nat := 0

/-- `KOMODO_SAPLING_DEADLINE`. -/
def saplingDeadline : Nat := 1550188800

/-- One iteration of the JoinSplit loop. -/
def checkJoinSplit (s : JsTotals) (js : JSDescription) : Except String JsTotals := do
  require (!env.acpublic) "bad-txns-acpublic-chain"
  require (decide (env.tiptime < saplingDeadline)) "bad-txns-sprout-expired"
  require (decide (0 ≤ js.vpubOld)) "bad-txns-vpub_old-negative"
  require (decide (0 ≤ js.vpubNew)) "bad-txns-vpub_new-negative"
  require (decide (js.vpubOld ≤ env.maxMoney)) "bad-txns-vpub_old-toolarge"
  require (decide (js.vpubNew ≤ env.maxMoney)) "bad-txns-vpub_new-toolarge"
  require (js.vpubNew == 0 || js.vpubOld == 0) "bad-txns-vpubs-both-nonzero"
  let nValueOut := toInt64 (s.nValueOut + js.vpubOld)
  require (env.moneyRange nValueOut) "bad-txns-txouttotal-toolarge"
  let s := { s with nValueOut := nValueOut }
  return if js.vpubNew == 0 && js.vpubOld == 0 then { s with zz := s.zz + 1 }
    else if js.vpubNew == 0 then { s with tz := s.tz + 1 }
    else if js.vpubOld == 0 then { s with zt := s.zt + 1 }
    else s

/-- One iteration of the loop over the value the JoinSplits add. -/
def checkValueIn (nValueIn : Int) (js : JSDescription) : Except String Int := do
  let nValueIn := toInt64 (nValueIn + js.vpubNew)
  require (env.moneyRange js.vpubNew && env.moneyRange nValueIn) "bad-txns-txintotal-toolarge"
  return nValueIn

/-- The txid of the genesis coinbase, exempt from the txpow rule. -/
def genesisTxid : Uint256 :=
  0x4a5e1e4baab89f3a32518a88c31bc87f618f76673e2cc77ab2127b7afdeda33b

/-- On a txpow chain the first and last byte of a txid are zero. -/
def checkTxPow (tx : CTransaction) : Bool :=
  let applies := (env.txpow &&& 2 != 0 && tx.isCoinBase) ||
    (env.txpow &&& 1 != 0 && !tx.isCoinBase)
  !applies || (tx.hash.extractLsb' 0 8 == 0 && tx.hash.extractLsb' 248 8 == 0) ||
    tx.hash == genesisTxid

/-- The rules for minting transactions and for null prevouts in the others. -/
def checkMint (tx : CTransaction) : Except String Unit :=
  if tx.isMint then do
    require tx.vjoinsplit.isEmpty "bad-cb-has-joinsplits"
    require tx.vShieldedSpend.isEmpty "bad-cb-has-spend-description"
    require tx.vShieldedOutput.isEmpty "bad-cb-has-output-description"
    let size := (tx.vin.head?.map fun i => i.scriptSig.length).getD 0
    require (decide (2 ≤ size) && decide (size ≤ 100)) "bad-cb-length"
  else require (tx.vin.all fun i => !i.prevout.isNull) "bad-txns-prevout-null"

/-- `CheckTransactionWithoutProofVerification`. -/
def checkTransaction (tx : CTransaction) : Except String Unit := do
  checkVersion tx
  require (!(tx.vin.isEmpty && tx.vjoinsplit.isEmpty && tx.vShieldedSpend.isEmpty))
    "bad-txns-vin-empty"
  require (!(tx.vout.isEmpty && tx.vjoinsplit.isEmpty && tx.vShieldedOutput.isEmpty))
    "bad-txns-vout-empty"
  require (decide (env.serializeSize tx ≤ 200000)) "bad-txns-oversize"
  let out ← tx.vout.foldlM (env.checkOut tx) {}
  require (!(tx.vShieldedSpend.isEmpty && tx.vShieldedOutput.isEmpty && tx.valueBalance != 0))
    "bad-txns-valuebalance-nonzero"
  require (!(env.acpublic && !(tx.vShieldedSpend.isEmpty && tx.vShieldedOutput.isEmpty)))
    "bad-txns-acpublic-chain"
  require (!(env.assetchainsPrivate && out.invalidPrivateTaddr && !tx.vShieldedSpend.isEmpty))
    "bad-txns-acprivate-chain"
  require (decide (tx.valueBalance ≤ env.maxMoney) && decide (-env.maxMoney ≤ tx.valueBalance))
    "bad-txns-valuebalance-toolarge"
  let nValueOut := if tx.valueBalance ≤ 0 then toInt64 (out.nValueOut + -tx.valueBalance)
    else out.nValueOut
  require (decide (0 < tx.valueBalance) || env.moneyRange nValueOut) "bad-txns-txouttotal-toolarge"
  let js ← tx.vjoinsplit.foldlM env.checkJoinSplit { nValueOut := nValueOut }
  require (!(env.assetchainsPrivate && out.invalidPrivateTaddr &&
    (js.zt == 0 || js.zz != 0 || js.tz != 0 || !tx.vin.isEmpty))) "bad-txns-acprivacy-chain"
  require (env.checkTxPow tx) "bad-txns-actxpow-chain"
  let nValueIn ← tx.vjoinsplit.foldlM env.checkValueIn 0
  require (decide (tx.valueBalance < 0) || env.moneyRange (toInt64 (nValueIn + tx.valueBalance)))
    "bad-txns-txintotal-toolarge"
  require (decide (tx.vin.map CTxIn.prevout).Nodup) "bad-txns-inputs-duplicate"
  require (decide (tx.nullifiers .sprout).Nodup) "bad-joinsplits-nullifiers-duplicate"
  require (decide (tx.nullifiers .sapling).Nodup) "bad-spend-description-nullifiers-duplicate"
  checkMint tx

/-! ## What an accepted transaction satisfies -/

variable {env}

private theorem foldlM_checkOut_nonneg {tx : CTransaction} {l : List CTxOut} {s s' : OutTotals}
    (h : l.foldlM (env.checkOut tx) s = .ok s') : ∀ o ∈ l, 0 ≤ o.nValue := by
  induction l generalizing s with
  | nil => simp
  | cons o l ih =>
    rw [List.foldlM_cons, except_bind_eq_ok] at h
    obtain ⟨s1, h1, h2⟩ := h
    intro o' ho'
    rcases List.mem_cons.1 ho' with rfl | hmem
    · unfold checkOut at h1
      rw [require_bind_eq_ok] at h1
      exact of_decide_eq_true h1.1
    · exact ih h2 o' hmem

/-- The accepted outputs are not negative. -/
theorem vout_nonneg {tx : CTransaction} (h : env.checkTransaction tx = .ok ()) :
    ∀ o ∈ tx.vout, 0 ≤ o.nValue := by
  unfold checkTransaction at h
  simp only [except_bind_eq_ok, require_eq_ok] at h
  obtain ⟨-, -, -, -, -, -, -, -, out, hout, -⟩ := h
  exact foldlM_checkOut_nonneg hout

/-- Hence they are not null. -/
theorem vout_not_null {tx : CTransaction} (h : env.checkTransaction tx = .ok ()) :
    ∀ o ∈ tx.vout, o.isNull = false := by
  intro o ho
  have hpos := vout_nonneg h o ho
  unfold CTxOut.isNull
  rw [beq_eq_false_iff_ne]
  omega

/-- The checks that do not look at amounts come last. -/
theorem checkTransaction_last {tx : CTransaction} (h : env.checkTransaction tx = .ok ()) :
    (tx.vin.map CTxIn.prevout).Nodup ∧ (tx.nullifiers .sprout).Nodup ∧
      (tx.nullifiers .sapling).Nodup ∧ checkMint tx = .ok () := by
  unfold checkTransaction at h
  simp only [except_bind_eq_ok] at h
  obtain ⟨-, -, -, -, -, -, -, -, -, -, -, -, -, -, -, -, -, -, -, -, -, -, -, -, -, -, -, -, -, -,
    _, hinputs, _, hsprout, _, hsapling, hmint⟩ := h
  simp only [require_eq_ok, decide_eq_true_eq] at hinputs hsprout hsapling
  exact ⟨hinputs, hsprout, hsapling, hmint⟩

/-- An accepted minting transaction has no shielded part. -/
theorem mint_transparent {tx : CTransaction} (h : env.checkTransaction tx = .ok ())
    (hm : tx.isMint = true) :
    tx.vjoinsplit = [] ∧ tx.vShieldedSpend = [] ∧ tx.vShieldedOutput = [] := by
  obtain ⟨-, -, -, hmint⟩ := checkTransaction_last h
  unfold checkMint at hmint
  rw [if_pos hm] at hmint
  simp only [require_bind_eq_ok, List.isEmpty_iff] at hmint
  exact ⟨hmint.1, hmint.2.1, hmint.2.2.1⟩

end TxCheckEnv

end IndexChain
