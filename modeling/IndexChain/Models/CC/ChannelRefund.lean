import IndexChain.Models.CC.Channels
import IndexChain.Models.CC.History

/-!
# Refunds of a channel

The validator reads two earlier transactions: the one that opened the channel and the
one whose output input 1 spends. Of the close transaction that a refund names it only
asks for the depth, so any transaction that is deep enough will do
(`refund_closed_iff`).
-/

namespace IndexChain

open IndexChain.Core

namespace ChannelsEnv

variable (env : ChannelsEnv)

/-- The environment with other transactions. -/
def withTxs (g : Uint256 → Option CTransaction) : ChannelsEnv :=
  { env with getTransaction := g }

/-- A transaction whose content the validator reads. -/
def Reads (tx : CTransaction) (opret : ChannelOpret) (txid : Uint256) : Prop :=
  txid = opret.opentxid ∨ ∃ vin1, tx.vin[1]? = some vin1 ∧ txid = vin1.prevout.hash

/-- Transactions with the same ids, and the same content where the validator reads it. -/
structure SameReads (tx : CTransaction) (opret : ChannelOpret)
    (g : Uint256 → Option CTransaction) : Prop where
  /-- The same ids are found. -/
  found : ∀ txid, (g txid).isSome = (env.getTransaction txid).isSome
  /-- What is read is the same. -/
  read : ∀ txid, Reads tx opret txid → g txid = env.getTransaction txid

/-- A close of the channel with a given opening transaction. -/
def IsCloseOf (closetxid opentxid : Uint256) : Prop :=
  ∃ closeTx close, env.getTransaction closetxid = some closeTx ∧
    channelOpretOf closeTx = some close ∧ close.funcid = .channelClose ∧ close.opentxid = opentxid

/-- The transaction that a refund names is a close of the channel, and deep enough. -/
structure ClosedBefore (opret : ChannelOpret) : Prop where
  /-- It is notarised. -/
  notarised : env.txnotarizedconfirmed opret.param3 = true
  /-- It closes the channel. -/
  close : env.IsCloseOf opret.param3 opret.opentxid

/-! ## What the validator reads -/

section Reads

variable {env} {tx : CTransaction} {opret : ChannelOpret} {g : Uint256 → Option CTransaction}

theorem SameReads.notarized_eq (h : env.SameReads tx opret g) (txid : Uint256) :
    (env.withTxs g).txnotarizedconfirmed txid = env.txnotarizedconfirmed txid := by
  unfold CCChainEnv.txnotarizedconfirmed
  change ((g txid).isSome && _) = _
  rw [h.found]
  rfl

theorem SameReads.vin1_eq (h : env.SameReads tx opret g) {vin1 : CTxIn}
    (hvin : tx.inp 1 = .ok vin1) :
    (env.withTxs g).getTransaction vin1.prevout.hash = env.getTransaction vin1.prevout.hash := by
  refine h.read _ (Or.inr ⟨vin1, ?_, rfl⟩)
  unfold CTransaction.inp at hvin
  split at hvin
  · rename_i txin htxin
    cases hvin
    exact htxin
  · cases hvin

theorem SameReads.channelsExactAmounts_eq (h : env.SameReads tx opret g) :
    (env.withTxs g).channelsExactAmounts tx = env.channelsExactAmounts tx := by
  have hvin1 : (env.withTxs g).vin1Value tx = env.vin1Value tx := by
    refine except_bind_congr fun vin1 hvin => ?_
    rw [h.vin1_eq hvin]
  unfold channelsExactAmounts
  rw [hvin1]

theorem SameReads.checkOpen_eq (h : env.SameReads tx opret g) (ch : Channel) (opentxid : Uint256)
    (openTx : CTransaction) :
    (env.withTxs g).checkOpen ch opentxid openTx = env.checkOpen ch opentxid openTx := by
  unfold checkOpen
  rw [h.notarized_eq]
  rfl

theorem SameReads.withPrev_eq (h : env.SameReads tx opret g)
    (check : CTransaction → Except Failure Unit) :
    (env.withTxs g).withPrev tx check = env.withPrev tx check := by
  refine except_bind_congr fun vin1 hvin => ?_
  rw [h.vin1_eq hvin]

theorem SameReads.checkRefund_eq (h : env.SameReads tx opret g) (ch : Channel)
    (openTx : CTransaction) :
    (env.withTxs g).checkRefund ch openTx tx opret = env.checkRefund ch openTx tx opret := by
  unfold checkRefund
  rw [h.checkOpen_eq, h.notarized_eq]
  simp only [h.withPrev_eq]
  rfl

/-- A refund is judged by the transactions it reads and by which others are found. -/
theorem SameReads.channelsValidate_eq (h : env.SameReads tx opret g)
    (hop : channelOpretOf tx = some opret) (hf : opret.funcid = .channelRefund) :
    (env.withTxs g).channelsValidate tx = env.channelsValidate tx := by
  have hopen : (env.withTxs g).getTransaction opret.opentxid = env.getTransaction opret.opentxid :=
    h.read _ (Or.inl rfl)
  unfold channelsValidate
  rw [h.channelsExactAmounts_eq, hop]
  simp only [hopen, channelsCase, hf, h.checkRefund_eq]

end Reads

/-! ## Closes -/

theorem Accepted.notarised {tx : CTransaction} {opret : ChannelOpret} {openTx : CTransaction}
    {ch : Channel} (h : env.Accepted tx opret openTx ch) (hf : opret.funcid = .channelRefund) :
    env.txnotarizedconfirmed opret.param3 = true := by
  have hchecked := h.checked
  simp only [channelsCase, hf, checkRefund] at hchecked
  obtain ⟨-, -, hchecked⟩ := except_bind_eq_ok.1 hchecked
  exact (require_bind_eq_ok.1 hchecked).1

/-- The opening transaction is not a close. -/
theorem Accepted.open_not_close {tx : CTransaction} {opret : ChannelOpret}
    {openTx : CTransaction} {ch : Channel} (h : env.Accepted tx opret openTx ch) :
    ¬ env.IsCloseOf opret.opentxid opret.opentxid := by
  rintro ⟨closeTx, close, hclose, hdecode, hfunc, -⟩
  obtain rfl : openTx = closeTx := Option.some.inj (h.open_eq.symm.trans hclose)
  have hne : openTx.vout.isEmpty = false := by
    cases hv : openTx.vout with
    | nil => simp [channelOpretOf, hv] at hdecode
    | cons out rest => rfl
  have hch := h.channel_eq
  unfold channelOf at hch
  rw [hne, hdecode] at hch
  simp [hfunc] at hch

/-- Accepted refunds come after a close of the channel, whatever the transactions are that
the validator does not read, exactly when the close is the transaction that input 1 spends. -/
theorem refund_closed_iff {tx : CTransaction} {opret : ChannelOpret}
    (hop : channelOpretOf tx = some opret) (hf : opret.funcid = .channelRefund)
    (hok : env.channelsValidate tx = .ok ()) :
    (∀ g, env.SameReads tx opret g → (env.withTxs g).channelsValidate tx = .ok () →
      (env.withTxs g).ClosedBefore opret) ↔
    (∃ vin1, tx.vin[1]? = some vin1 ∧ vin1.prevout.hash = opret.param3) ∧
      env.IsCloseOf opret.param3 opret.opentxid := by
  obtain ⟨openTx, ch, hacc⟩ := env.accepted_of_ok hop hok
  constructor
  · intro hall
    have hself : env.IsCloseOf opret.param3 opret.opentxid :=
      (hall env.getTransaction ⟨fun _ => rfl, fun _ _ => rfl⟩ hok).close
    refine ⟨?_, hself⟩
    by_contra hvin
    -- the close is not read, so it may as well be a transaction without outputs
    have hunread : ¬ Reads tx opret opret.param3 := by
      rintro (heq | ⟨vin1, hvin1, heq⟩)
      · rw [heq] at hself
        exact hacc.open_not_close env hself
      · exact hvin ⟨vin1, hvin1, heq.symm⟩
    have hsame : env.SameReads tx opret
        (Function.update env.getTransaction opret.param3 (some { hash := opret.param3 })) := by
      refine ⟨fun txid => ?_, fun txid hread => ?_⟩
      · by_cases heq : txid = opret.param3
        · subst heq
          obtain ⟨closeTx, close, hclose, -⟩ := hself
          simp [hclose]
        · rw [Function.update_of_ne heq]
      · rw [Function.update_of_ne]
        rintro rfl
        exact hunread hread
    obtain ⟨closeTx, close, hclose, hdecode, -⟩ :=
      (hall _ hsame ((hsame.channelsValidate_eq hop hf).trans hok)).close
    have hempty : { hash := opret.param3 } = closeTx := by
      have : (env.withTxs (Function.update env.getTransaction opret.param3
          (some { hash := opret.param3 }))).getTransaction opret.param3 =
          some { hash := opret.param3 } := Function.update_self ..
      exact Option.some.inj (this.symm.trans hclose)
    rw [← hempty] at hdecode
    cases hdecode
  · rintro ⟨⟨vin1, hvin1, hhash⟩, closeTx, close, hclose, hdecode, hfunc, hopen⟩ g hsame hok'
    obtain ⟨openTx', ch', hacc'⟩ := (env.withTxs g).accepted_of_ok hop hok'
    refine ⟨hacc'.notarised _ hf, closeTx, close, ?_, hdecode, hfunc, hopen⟩
    exact (hsame.read _ (Or.inr ⟨vin1, hvin1, hhash.symm⟩)).trans hclose

end ChannelsEnv

/-! ## A channel with two payments -/

namespace SampleChannels

/-- The value that the first payment reveals. -/
def secret : Uint256 := 7

/-- The op_return of a transaction of the channel. -/
def opretOut (funcid : UInt8) (opentxid : Uint256) (param1 param2 : Nat) (param3 : Uint256) :
    CTxOut where
  nValue := 0
  scriptPubKey := [0x6a, 0x4c, 146, 0xeb, funcid] ++ leBytes 32 opentxid.toNat ++ [33] ++
    CCLib.plainKey 1 ++ [33] ++ CCLib.plainKey 2 ++ leBytes 4 param1 ++ leBytes 8 param2 ++
    leBytes 32 param3.toNat

/-- Funds in the address of the channel. -/
def funds (amount : Int) : CTxOut where
  nValue := amount
  scriptPubKey := CCLib.plain.cc1of2 evalChannels (CCLib.plainKey 1) (CCLib.plainKey 2)

/-- The marker of a party. -/
def marker (b : UInt8) : CTxOut where
  nValue := ccMarkerValue
  scriptPubKey := CCLib.plain.cc1 evalChannels (CCLib.plainKey b)

/-- A normal payment. -/
def pay (b : UInt8) (amount : Int) : CTxOut where
  nValue := amount
  scriptPubKey := CScript.payToPubkey (CCLib.plainKey b)

/-- Normal inputs for everyone. -/
def funding : CTransaction where
  hash := 29
  vin := [{ prevout := { hash := 0, n := 4294967295 } }]
  vout := [pay 1 100000, pay 1 100000, pay 1 100000]

/-- The opening transaction of a channel for two payments of 10. -/
def openTx : CTransaction where
  hash := 30
  vin := [{ prevout := { hash := 29, n := 0 } }]
  vout := [funds 20, marker 1, marker 2, opretOut 0x4f 0 2 10 (hashStep secret)]

/-- The inputs of a transaction that continues the channel: a normal one, the funds and the
sender's marker. -/
def vins (n : UInt32) (prev : Uint256) : List CTxIn :=
  [{ prevout := { hash := 29, n := n } },
    { prevout := { hash := prev, n := 0 }, scriptSig := [1, evalChannels] ++ CCLib.plainKey 1 },
    { prevout := { hash := prev, n := 1 }, scriptSig := [0, evalChannels] ++ CCLib.plainKey 1 }]

/-- The close of the channel. -/
def closeTx : CTransaction where
  hash := 32
  vin := vins 1 30
  vout := [funds 20, marker 1, marker 2, opretOut 0x43 30 2 10 0]

/-- A refund that names a close transaction. -/
def refundTx (prev closetxid : Uint256) : CTransaction where
  hash := 33
  vin := vins 2 prev
  vout := [marker 1, marker 2, pay 1 20, opretOut 0x52 30 2 10 closetxid]

/-- A view of the channel in which every transaction is notarised. -/
def env (h : List CTransaction) : ChannelsEnv where
  toCCEnv := CCLib.plain.envAt "" h
  height := 105
  txHeight _ := some 5
  notarizedHeight := 50
  uninitHash := 0

/-- The op_return of a refund. -/
def refundOpret (closetxid : Uint256) : ChannelOpret where
  funcid := .channelRefund
  tokenid := 0
  opentxid := 30
  srcpub := CCLib.plainKey 1
  destpub := CCLib.plainKey 2
  param1 := 2
  param2 := 10
  param3 := closetxid

end SampleChannels

open SampleChannels

/-- A refund of a channel that is closed. -/
theorem refund_after_close :
    (env [closeTx, openTx, funding]).channelsValidate (refundTx 32 32) = .ok () ∧
    ∀ g, (env [closeTx, openTx, funding]).SameReads (refundTx 32 32) (refundOpret 32) g →
      ((env [closeTx, openTx, funding]).withTxs g).channelsValidate (refundTx 32 32) = .ok () →
      ((env [closeTx, openTx, funding]).withTxs g).ClosedBefore (refundOpret 32) := by
  have hok : (env [closeTx, openTx, funding]).channelsValidate (refundTx 32 32) = .ok () :=
    eq_ok_of_isOk (by decide +kernel)
  have hop : channelOpretOf (refundTx 32 32) = some (refundOpret 32) := by decide +kernel
  refine ⟨hok, (ChannelsEnv.refund_closed_iff _ hop rfl hok).2 ⟨⟨_, rfl, rfl⟩, ?_⟩⟩
  exact ⟨closeTx, { refundOpret 0 with funcid := .channelClose }, by decide +kernel,
    by decide +kernel, rfl, rfl⟩

/-- A refund of a channel that was never closed: it names the opening transaction. -/
theorem refund_without_close :
    (env [openTx, funding]).channelsValidate (refundTx 30 30) = .ok () ∧
    channelOpretOf (refundTx 30 30) = some (refundOpret 30) ∧
    ¬ (env [openTx, funding]).ClosedBefore (refundOpret 30) := by
  refine ⟨eq_ok_of_isOk (by decide +kernel), by decide +kernel, ?_⟩
  rintro ⟨-, tx, close, htx, hdecode, hfunc, -⟩
  obtain rfl : openTx = tx := Option.some.inj (Eq.trans (by decide +kernel) htx)
  have hopen : (channelOpretOf openTx).map ChannelOpret.funcid = some .channelOpen := by
    decide +kernel
  rw [hdecode, Option.map_some, hfunc] at hopen
  cases hopen

end IndexChain
