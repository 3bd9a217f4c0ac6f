import Mathlib.Tactic.Ring
import IndexChain.Models.CC.ChannelRefund

/-!
# Channels along a history

The validator takes the number of payments that are left from the op_return of the
transaction that input 1 spends, whatever that transaction is, and compares the value
of input 1 alone with the outputs. As long as every transaction of a channel spends
the channel's own last output and nothing else at the address of a channel, keeps the
count when it closes and proves at least one step, the receiver gets no more than the
steps that were proved, and nothing else leaves an address (`channel_run`).
-/

namespace IndexChain

open IndexChain.Core

/-! ## Numbers of an op_return -/

theorem ranges_of_readChannelOpret {bs rest : List UInt8} {o : ChannelOpret}
    (h : readChannelOpret bs = some (some o, rest)) :
    (-(2 ^ 31) ≤ o.param1 ∧ o.param1 ≤ 2 ^ 31) ∧ (-(2 ^ 63) ≤ o.param2 ∧ o.param2 ≤ 2 ^ 63) := by
  unfold readChannelOpret at h
  simp only [Reader.bind_eq_some, Reader.pure_eq_some] at h
  obtain ⟨_, _, _, f, _, _, _, _, _, _, _, _, _, _, _, p1, _, hp1, p2, _, hp2, _, _, _, h⟩ := h
  have hp1 := Reader.int_range hp1
  have hp2 := Reader.int_range hp2
  obtain ⟨funcid, -, rfl⟩ := Option.map_eq_some_iff.1 (congrArg Prod.fst h)
  dsimp only
  omega

/-- The numbers of an op_return have 32 and 64 bits. -/
theorem ranges_of_channelOpretOf {tx : CTransaction} {o : ChannelOpret}
    (h : channelOpretOf tx = some o) :
    (-(2 ^ 31) ≤ o.param1 ∧ o.param1 ≤ 2 ^ 31) ∧ (-(2 ^ 63) ≤ o.param2 ∧ o.param2 ≤ 2 ^ 63) := by
  obtain ⟨out, -, h⟩ := Option.bind_eq_some_iff.1 h
  unfold decodeChannelsOpRet at h
  extract_lets token extra vopret at h
  split at h
  · split at h
    · rename_i opret hread
      have hranges := ranges_of_readChannelOpret (Reader.exists_of_unmarshal hread)
      cases h
      exact hranges
    · cases h
  · cases h

namespace ChannelsEnv

variable (env : ChannelsEnv)

/-! ## What an accepted transaction has passed -/

/-- The output that input 1 spends. -/
structure SpendsPrev (tx : CTransaction) (vin1 : CTxIn) (prevTx : CTransaction) (prev : CTxOut) :
    Prop where
  /-- Input 1. -/
  vin_eq : tx.vin[1]? = some vin1
  /-- The transaction it spends. -/
  tx_eq : env.getTransaction vin1.prevout.hash = some prevTx
  /-- The output it spends. -/
  out_eq : prevTx.vout[vin1.prevout.n.toNat]? = some prev

theorem spendsPrev_of_vin1Value {tx : CTransaction} {v : Int}
    (h : env.vin1Value tx = .ok (some v)) :
    ∃ vin1 prevTx prev, env.SpendsPrev tx vin1 prevTx prev ∧ prev.nValue = v := by
  unfold vin1Value at h
  obtain ⟨vin1, hvin, h⟩ := except_bind_eq_ok.1 h
  split at h
  · cases h
  · rename_i prevTx hprev
    obtain ⟨prev, hout, h⟩ := except_bind_eq_ok.1 h
    refine ⟨vin1, prevTx, prev, ⟨CTransaction.inp_eq_ok.1 hvin, hprev,
      CTransaction.spent_eq_ok.1 hout⟩, ?_⟩
    exact Option.some.inj (Except.ok.inj h)

/-- Input 1 matches the outputs of a transaction that continues a channel. -/
theorem exactAmounts_matched {tx : CTransaction} {opret : ChannelOpret}
    (hop : channelOpretOf tx = some opret) (hne : opret.funcid ≠ .channelOpen)
    (h : env.channelsExactAmounts tx = .ok true) :
    ∃ vin1 prevTx prev, env.SpendsPrev tx vin1 prevTx prev ∧
      matchedOutputs tx opret.funcid = .ok prev.nValue := by
  unfold channelsExactAmounts at h
  rw [hop] at h
  dsimp only at h
  split at h
  · exact absurd ‹_› hne
  · cases h
  · obtain ⟨inputs, hinputs, h⟩ := except_bind_eq_ok.1 h
    cases inputs with
    | none => cases h
    | some v =>
      obtain ⟨outputs, houtputs, h⟩ := except_bind_eq_ok.1 h
      obtain ⟨vin1, prevTx, prev, hspends, hv⟩ := env.spendsPrev_of_vin1Value hinputs
      refine ⟨vin1, prevTx, prev, hspends, ?_⟩
      have heq : v = outputs := by simpa using Except.ok.inj h
      rw [hv, heq]
      exact houtputs

theorem withPrev_eq_ok {tx prevTx : CTransaction} {vin1 : CTxIn} {prev : CTxOut}
    {check : CTransaction → Except Failure Unit} (hprev : env.SpendsPrev tx vin1 prevTx prev)
    (h : env.withPrev tx check = .ok ()) : check prevTx = .ok () := by
  unfold withPrev at h
  obtain ⟨vin1', hvin, h⟩ := except_bind_eq_ok.1 h
  obtain rfl : vin1 = vin1' :=
    Option.some.inj (hprev.vin_eq.symm.trans (CTransaction.inp_eq_ok.1 hvin))
  rw [hprev.tx_eq] at h
  exact h

theorem exists_opret_of_ok {tx : CTransaction} (h : env.channelsValidate tx = .ok ()) :
    ∃ o, channelOpretOf tx = some o := by
  unfold channelsValidate at h
  obtain ⟨-, h⟩ := require_bind_eq_ok.1 h
  obtain ⟨exact, -, h⟩ := except_bind_eq_ok.1 h
  obtain ⟨-, h⟩ := require_bind_eq_ok.1 h
  cases hop : channelOpretOf tx with
  | some o => exact ⟨o, rfl⟩
  | none =>
    rw [hop] at h
    cases h

/-- The opening transaction funds the channel. -/
theorem funds_of_checkOpen {ch : Channel} {opentxid : Uint256} {openTx : CTransaction}
    (h : env.checkOpen ch opentxid openTx = .ok ()) :
    ∃ vout0, openTx.vout[0]? = some vout0 ∧
      env.constrainVout vout0 true (some (env.channeladdress ch))
        (toInt64 (ch.numpayments * ch.payment)) = true := by
  unfold checkOpen at h
  split at h
  · cases h
  · obtain ⟨-, h⟩ := require_bind_eq_ok.1 h
    obtain ⟨vout0, hvout, h⟩ := except_bind_eq_ok.1 h
    exact ⟨vout0, CTransaction.spent_eq_ok.1 hvout, (require_bind_eq_ok.1 h).1⟩

/-- What an accepted payment has passed. -/
structure PaymentFacts (tx : CTransaction) (opret : ChannelOpret) (openTx : CTransaction)
    (ch : Channel) (prevTx : CTransaction) (prev vout0 vout3 : CTxOut) : Prop where
  /-- The opening transaction is fine. -/
  opened : env.checkOpen ch opret.opentxid openTx = .ok ()
  /-- The secret leads to the end of the hash chain. -/
  secret : ch.hashchain =
    env.genhashchain opret.param3 (toInt32 (ch.numpayments - opret.param1))
  /-- The change. -/
  vout0_eq : tx.vout[0]? = some vout0
  /-- The payment. -/
  vout3_eq : tx.vout[3]? = some vout3
  /-- They add up to input 1. -/
  sum_eq : prev.nValue = vout0.nValue + vout3.nValue
  /-- The change goes to the channel. -/
  change : env.constrainVout vout0 true (some (env.channeladdress ch)) 0 = true
  /-- The payment goes to the receiver. -/
  payout : env.constrainPayout ch ch.destpub vout3 0 = true
  /-- The payment has the right amount. -/
  amount : vout3.nValue = toInt64 (opret.param2 * ch.payment)
  /-- The payments that are left and those made now are those that were left before. -/
  depth : ∃ p, channelOpretOf prevTx = some p ∧ toInt64 (opret.param1 + opret.param2) = p.param1

/-- What an accepted close has passed. -/
structure CloseFacts (tx : CTransaction) (opret : ChannelOpret) (openTx : CTransaction)
    (ch : Channel) (prev vout0 : CTxOut) : Prop where
  /-- The opening transaction is fine. -/
  opened : env.checkOpen ch opret.opentxid openTx = .ok ()
  /-- The funds. -/
  vout0_eq : tx.vout[0]? = some vout0
  /-- They are those of input 1. -/
  sum_eq : prev.nValue = vout0.nValue
  /-- They stay in the channel. -/
  change : env.constrainVout vout0 true (some (env.channeladdress ch)) 0 = true

/-- What an accepted refund has passed. -/
structure RefundFacts (tx : CTransaction) (opret : ChannelOpret) (openTx : CTransaction)
    (ch : Channel) (prev vout2 : CTxOut) : Prop where
  /-- The opening transaction is fine. -/
  opened : env.checkOpen ch opret.opentxid openTx = .ok ()
  /-- The refund. -/
  vout2_eq : tx.vout[2]? = some vout2
  /-- It is all of input 1. -/
  sum_eq : prev.nValue = vout2.nValue
  /-- It goes to the sender. -/
  payout : env.constrainPayout ch ch.srcpub vout2 0 = true

theorem constrainPayout_zero {ch : Channel} {pk : CPubKey} {out : CTxOut} {nValue : Int}
    (h : env.constrainPayout ch pk out nValue = true) : env.constrainPayout ch pk out 0 = true := by
  unfold CCLib.constrainPayout at h ⊢
  split
  · rename_i htok
    rw [if_pos htok] at h
    exact env.constrainVout_zero h
  · rename_i htok
    rw [if_neg htok] at h
    exact env.constrainVout_zero h

/-- What an accepted payment has been checked for. -/
theorem Accepted.paymentFacts {tx : CTransaction} {opret : ChannelOpret} {openTx : CTransaction}
    {ch : Channel} (h : env.Accepted tx opret openTx ch) (hop : channelOpretOf tx = some opret)
    (hf : opret.funcid = .channelPayment) :
    ∃ vin1 prevTx prev vout0 vout3, env.SpendsPrev tx vin1 prevTx prev ∧
      env.PaymentFacts tx opret openTx ch prevTx prev vout0 vout3 := by
  obtain ⟨vin1, prevTx, prev, hspends, hmatched⟩ :=
    env.exactAmounts_matched hop (by simp [hf]) h.exact_eq
  simp only [hf, matchedOutputs, CTransaction.out_bind_eq_ok] at hmatched
  obtain ⟨vout0, h0, vout3, h3, hsum⟩ := hmatched
  have hchecked := h.checked
  simp only [channelsCase, hf, checkPayment] at hchecked
  obtain ⟨u, hopen, hchecked⟩ := except_bind_eq_ok.1 hchecked
  obtain ⟨-, -, hchecked⟩ := except_bind_eq_ok.1 hchecked
  obtain ⟨-, -, hchecked⟩ := except_bind_eq_ok.1 hchecked
  simp only [CTransaction.out_bind_eq_ok, require_bind_eq_ok, h3, Option.some.injEq,
    exists_eq_left', beq_iff_eq] at hchecked
  obtain ⟨hpay, -, hhash, hamount, hprev⟩ := hchecked
  have hprev := env.withPrev_eq_ok hspends hprev
  unfold checkPaymentPrev prevOpret at hprev
  cases hp : channelOpretOf prevTx with
  | none =>
    rw [hp] at hprev
    cases hprev
  | some p =>
    rw [hp] at hprev
    obtain ⟨p', hp', hprev⟩ := except_bind_eq_ok.1 hprev
    cases hp'
    simp only [CTransaction.out_bind_eq_ok, require_bind_eq_ok, h0, Option.some.injEq,
      exists_eq_left'] at hprev
    obtain ⟨hchange, hprev⟩ := hprev
    obtain ⟨-, -, hprev⟩ := except_bind_eq_ok.1 hprev
    simp only [require_bind_eq_ok, beq_iff_eq] at hprev
    exact ⟨vin1, prevTx, prev, vout0, vout3, hspends, hopen, hhash, h0, h3,
      (Except.ok.inj hsum).symm, env.constrainVout_zero hchange, env.constrainPayout_zero hpay,
      hamount, p, hp, hprev.1⟩

theorem Accepted.closeFacts {tx : CTransaction} {opret : ChannelOpret} {openTx : CTransaction}
    {ch : Channel} (h : env.Accepted tx opret openTx ch) (hop : channelOpretOf tx = some opret)
    (hf : opret.funcid = .channelClose) :
    ∃ vin1 prevTx prev vout0, env.SpendsPrev tx vin1 prevTx prev ∧
      env.CloseFacts tx opret openTx ch prev vout0 := by
  obtain ⟨vin1, prevTx, prev, hspends, hmatched⟩ :=
    env.exactAmounts_matched hop (by simp [hf]) h.exact_eq
  simp only [hf, matchedOutputs, CTransaction.out_bind_eq_ok] at hmatched
  obtain ⟨vout0, h0, hsum⟩ := hmatched
  have hchecked := h.checked
  simp only [channelsCase, hf, checkClose] at hchecked
  obtain ⟨u, hopen, hchecked⟩ := except_bind_eq_ok.1 hchecked
  obtain ⟨-, -, hchecked⟩ := except_bind_eq_ok.1 hchecked
  simp only [CTransaction.out_bind_eq_ok, require_bind_eq_ok, h0, Option.some.injEq,
    exists_eq_left'] at hchecked
  exact ⟨vin1, prevTx, prev, vout0, hspends, hopen, h0, (Except.ok.inj hsum).symm, hchecked.1⟩

theorem Accepted.refundFacts {tx : CTransaction} {opret : ChannelOpret} {openTx : CTransaction}
    {ch : Channel} (h : env.Accepted tx opret openTx ch) (hop : channelOpretOf tx = some opret)
    (hf : opret.funcid = .channelRefund) :
    ∃ vin1 prevTx prev vout2, env.SpendsPrev tx vin1 prevTx prev ∧
      env.RefundFacts tx opret openTx ch prev vout2 := by
  obtain ⟨vin1, prevTx, prev, hspends, hmatched⟩ :=
    env.exactAmounts_matched hop (by simp [hf]) h.exact_eq
  simp only [hf, matchedOutputs, CTransaction.out_bind_eq_ok] at hmatched
  obtain ⟨vout2, h2, hsum⟩ := hmatched
  have hchecked := h.checked
  simp only [channelsCase, hf, checkRefund] at hchecked
  obtain ⟨u, hopen, hchecked⟩ := except_bind_eq_ok.1 hchecked
  obtain ⟨-, hchecked⟩ := require_bind_eq_ok.1 hchecked
  obtain ⟨-, -, hchecked⟩ := except_bind_eq_ok.1 hchecked
  obtain ⟨-, -, hchecked⟩ := except_bind_eq_ok.1 hchecked
  simp only [CTransaction.out_bind_eq_ok, require_bind_eq_ok, h2, Option.some.injEq,
    exists_eq_left'] at hchecked
  exact ⟨vin1, prevTx, prev, vout2, hspends, hopen, h2, (Except.ok.inj hsum).symm,
    env.constrainPayout_zero hchecked.1⟩

end ChannelsEnv

/-! ## Transactions of a channel -/

/-- What a node knows besides the transactions. -/
structure ChannelsTip where
  /-- The height of the active chain. -/
  height : Int
  /-- The height of the block of a transaction. -/
  txHeight : Uint256 → Option Int
  /-- `NOTARIZED_HEIGHT` of the chain. -/
  notarizedHeight : Int
  /-- What is in `hashdest` before the first step of a hash chain. -/
  uninitHash : Uint256

/-- The channels contract's view of a history. -/
def CCLib.channelsEnvAt (lib : CCLib) (symbol : String) (tip : ChannelsTip)
    (h : List CTransaction) : ChannelsEnv :=
  { lib.envAt symbol h with
    height := tip.height
    txHeight := tip.txHeight
    notarizedHeight := tip.notarizedHeight
    uninitHash := tip.uninitHash }

/-- A channel that has been opened. -/
def ChannelOpened (h : List CTransaction) (opentxid : Uint256) (ch : Channel) : Prop :=
  ∃ openTx oo, lookupTx h opentxid = some openTx ∧ channelOpretOf openTx = some oo ∧
    oo.funcid = .channelOpen ∧ oo.channel = ch

namespace CCLib

variable (lib : CCLib)

/-- A transaction that spends an output of the channels contract. -/
def hasChannelVin (tx : CTransaction) : Bool :=
  tx.vin.any fun txin => lib.isMyVin evalChannels txin.scriptSig

/-- The op_return of a transaction of the channel with a given opening transaction. -/
def memberOpret (opentxid : Uint256) (tx : CTransaction) : Option ChannelOpret :=
  if lib.hasChannelVin tx then (channelOpretOf tx).filter fun o => o.opentxid == opentxid
  else none

/-- An output at the address of a channel. -/
def atChannel (ch : Channel) (out : CTxOut) : Bool :=
  lib.constrainVout out true (some (lib.channeladdress ch)) 0

/-- What a transaction pays to the receiver of a channel. -/
def paidBy (opentxid : Uint256) (tx : CTransaction) : Int :=
  match lib.memberOpret opentxid tx with
  | some o => if o.funcid = .channelPayment then (tx.vout[3]?.map CTxOut.nValue).getD 0 else 0
  | none => 0

/-- What was paid to the receiver of a channel. -/
def paid (opentxid : Uint256) (h : List CTransaction) : Int :=
  (h.map (lib.paidBy opentxid)).sum

/-- The steps of the hash chain that a transaction proves. -/
def stepsBy (opentxid : Uint256) (ch : Channel) (tx : CTransaction) : Int :=
  match lib.memberOpret opentxid tx with
  | some o => if o.funcid = .channelPayment then ch.numpayments - o.param1 else 0
  | none => 0

/-- The steps of the hash chain that were proved. -/
def proved (opentxid : Uint256) (ch : Channel) (h : List CTransaction) : Int :=
  (h.map (lib.stepsBy opentxid ch)).foldr max 0

/-- The opening transaction of a channel, a payment or a close: its output 0 holds the
funds. -/
def Continues (opentxid : Uint256) (tx : CTransaction) : Prop :=
  tx.hash = opentxid ∨ ∃ o, lib.memberOpret opentxid tx = some o ∧
    (o.funcid = .channelPayment ∨ o.funcid = .channelClose)

/-- The value of the outputs at the address of a channel that a transaction spends. -/
def channelInputs (symbol : String) (h : List CTransaction) (ch : Channel) (tx : CTransaction) :
    Int :=
  (tx.vin.map fun txin => match (lib.envAt symbol h).spentOutput txin with
    | some out => if lib.atChannel ch out then out.nValue else 0
    | none => 0).sum

/-- A transaction spends an output at the address of a channel. -/
def SpendsFrom (symbol : String) (h : List CTransaction) (ch : Channel) (tx : CTransaction) :
    Prop :=
  ∃ txin ∈ tx.vin, ∃ out, (lib.envAt symbol h).spentOutput txin = some out ∧
    lib.atChannel ch out = true

/-- Where an amount goes: to the channel and the receiver, to the channel, or to the
sender. -/
def SendsOn (ch : Channel) (tx : CTransaction) (amount : Int) : ChannelFuncId → Prop
  | .channelPayment => ∃ vout0 vout3, tx.vout[0]? = some vout0 ∧ tx.vout[3]? = some vout3 ∧
      lib.atChannel ch vout0 = true ∧ lib.constrainPayout ch ch.destpub vout3 0 = true ∧
      amount = vout0.nValue + vout3.nValue
  | .channelClose => ∃ vout0, tx.vout[0]? = some vout0 ∧ lib.atChannel ch vout0 = true ∧
      amount = vout0.nValue
  | .channelRefund => ∃ vout2, tx.vout[2]? = some vout2 ∧
      lib.constrainPayout ch ch.srcpub vout2 0 = true ∧ amount = vout2.nValue
  | _ => False

/-- A payment proves at least one step of the hash chain. -/
def ProvesStep (ch : Channel) (o : ChannelOpret) : Prop :=
  1 ≤ ch.numpayments - o.param1 ∧
    hashStep^[(ch.numpayments - o.param1).toNat] o.param3 = ch.hashchain

/-- What holds of a channel in a history: the receiver has got no more than the proved
steps are worth, payments prove a step, and all that is taken from the channel's address
goes to the channel, the receiver or the sender. Channels of the same two keys have the same
address, so what a transaction takes may belong to another channel, which it names. -/
structure ChannelKept (symbol : String) (h : List CTransaction) (opentxid : Uint256)
    (ch : Channel) : Prop where
  /-- The receiver's payments are proved. -/
  bounded : lib.paid opentxid h ≤ ch.payment * lib.proved opentxid ch h
  /-- The funds go where they should, whatever channel a transaction names. -/
  conserved : ∀ tx rest, tx :: rest <:+ h → ChannelOpened rest opentxid ch →
    lib.SpendsFrom symbol rest ch tx → ∃ o ch', channelOpretOf tx = some o ∧
      ChannelOpened rest o.opentxid ch' ∧ lib.channeladdress ch' = lib.channeladdress ch ∧
      lib.SendsOn ch' tx (lib.channelInputs symbol rest ch tx) o.funcid
  /-- Every payment proves a step. -/
  steps : ∀ tx ∈ h, ∀ o, lib.memberOpret opentxid tx = some o → o.funcid = .channelPayment →
    ProvesStep ch o

/-- The rule for histories: what is at the address of a channel is spent with the condition
of the contract, as the interpreter asks, and a transaction with such an input is accepted by
`ChannelsValidate`. -/
def channelRule (symbol : String) (h : List CTransaction) (tx : CTransaction) : Prop :=
  (∀ ch, lib.SpendsFrom symbol h ch tx → lib.hasChannelVin tx = true) ∧
    (lib.hasChannelVin tx = true →
      ∃ tip, (lib.channelsEnvAt symbol tip h).channelsValidate tx = .ok ())

/-- What the validator leaves to the one who makes a transaction. -/
structure Careful (symbol : String) (h : List CTransaction) (tx : CTransaction)
    (o : ChannelOpret) (ch : Channel) : Prop where
  /-- Only input 1 spends from the address of an opened channel. -/
  single : ∀ i txin, i ≠ 1 → tx.vin[i]? = some txin → ∀ out,
    (lib.envAt symbol h).spentOutput txin = some out → ∀ opentxid ch',
        ChannelOpened h opentxid ch' →
      lib.atChannel ch' out = false
  /-- Input 1 spends output 0 of the channel's opening transaction, a payment or a close;
  a close keeps the number of payments that are left. -/
  prev : ∃ vin1 prevTx, tx.vin[1]? = some vin1 ∧ vin1.prevout.n = 0 ∧
    lookupTx h vin1.prevout.hash = some prevTx ∧ lib.Continues o.opentxid prevTx ∧
    (o.funcid = .channelClose → ∃ p, channelOpretOf prevTx = some p ∧ o.param1 = p.param1)
  /-- A payment proves at least one step. -/
  steps : o.funcid = .channelPayment →
    1 ≤ ch.numpayments - o.param1 ∧ ch.numpayments - o.param1 < 2 ^ 31
  /-- The amount of a payment does not overflow. -/
  fits : o.funcid = .channelPayment → toInt64 (o.param2 * ch.payment) = o.param2 * ch.payment

/-- The rule for histories in which every transaction is made with care. -/
def carefulRule (symbol : String) (h : List CTransaction) (tx : CTransaction) : Prop :=
  lib.channelRule symbol h tx ∧
    (lib.hasChannelVin tx = true → ∀ o openTx ch, channelOpretOf tx = some o →
      lookupTx h o.opentxid = some openTx → ChannelsEnv.channelOf openTx o = .ok ch →
      lib.Careful symbol h tx o ch)

theorem memberOpret_eq_some {opentxid : Uint256} {tx : CTransaction} {o : ChannelOpret} :
    lib.memberOpret opentxid tx = some o ↔
      lib.hasChannelVin tx = true ∧ channelOpretOf tx = some o ∧ o.opentxid = opentxid := by
  unfold memberOpret
  split
  · rename_i hvin
    simp [hvin, Option.filter_eq_some_iff]
  · rename_i hvin
    simp [hvin]

/-- An output at the address of a channel has that address. -/
theorem scriptAddress_of_atChannel {ch : Channel} {out : CTxOut}
    (h : lib.atChannel ch out = true) :
    lib.scriptAddress out.scriptPubKey = some (lib.channeladdress ch) := by
  unfold atChannel constrainVout at h
  simp only [Bool.and_eq_true, Option.all_some, beq_iff_eq] at h
  exact h.1.2

/-- An output without a condition is at the address of no channel. -/
theorem atChannel_eq_false {ch : Channel} {out : CTxOut}
    (h : CScript.isPayToCryptoCondition out.scriptPubKey = false) :
    lib.atChannel ch out = false := by
  unfold atChannel constrainVout
  rw [h]
  rfl

@[simp] theorem paid_cons (opentxid : Uint256) (tx : CTransaction) (h : List CTransaction) :
    lib.paid opentxid (tx :: h) = lib.paidBy opentxid tx + lib.paid opentxid h := rfl

@[simp] theorem proved_cons (opentxid : Uint256) (ch : Channel) (tx : CTransaction)
    (h : List CTransaction) : lib.proved opentxid ch (tx :: h) =
      max (lib.stepsBy opentxid ch tx) (lib.proved opentxid ch h) := rfl

theorem proved_nonneg (opentxid : Uint256) (ch : Channel) (h : List CTransaction) :
    0 ≤ lib.proved opentxid ch h := by
  induction h with
  | nil => exact le_rfl
  | cons tx h ih =>
    rw [proved_cons]
    exact le_max_of_le_right ih

end CCLib

/-! ## One step -/

section Step

variable {lib : CCLib} {symbol : String} {h : List CTransaction} {tx openTx : CTransaction}
  {o oo : ChannelOpret}

theorem channelOf_eq {ch : Channel} (hoo : channelOpretOf openTx = some oo)
    (hch : ChannelsEnv.channelOf openTx o = .ok ch) : ch = oo.channel := by
  unfold ChannelsEnv.channelOf at hch
  have hne : openTx.vout.isEmpty = false := by
    cases hv : openTx.vout with
    | nil => simp [channelOpretOf, hv] at hoo
    | cons out rest => rfl
  simp only [hne, hoo, Bool.false_eq_true, if_false] at hch
  split at hch
  · exact (Except.ok.inj hch).symm
  · cases hch

/-- A transaction of a channel is accepted, and made with care. -/
theorem accepted_of_carefulRule (hrule : lib.carefulRule symbol h tx)
    (hmem : lib.memberOpret o.opentxid tx = some o) :
    ∃ tip openTx ch, (lib.channelsEnvAt symbol tip h).Accepted tx o openTx ch ∧
      lib.Careful symbol h tx o ch := by
  obtain ⟨hvin, hop, -⟩ := lib.memberOpret_eq_some.1 hmem
  obtain ⟨tip, hok⟩ := hrule.1.2 hvin
  obtain ⟨openTx, ch, hacc⟩ := ChannelsEnv.accepted_of_ok _ hop hok
  exact ⟨tip, openTx, ch, hacc, hrule.2 hvin o openTx ch hop hacc.open_eq hacc.channel_eq⟩

/-- What a transaction of a channel does that is accepted and made with care. -/
structure StepOk (lib : CCLib) (h : List CTransaction) (tx openTx : CTransaction)
    (o : ChannelOpret) (ch : Channel) (vin1 : CTxIn) (prevTx : CTransaction) (prev : CTxOut) :
    Prop where
  /-- Input 1. -/
  vin_eq : tx.vin[1]? = some vin1
  /-- It spends output 0 of a transaction. -/
  prevout_eq : vin1.prevout = { hash := prevTx.hash, n := 0 }
  /-- The transaction is there. -/
  prev_eq : lookupTx h prevTx.hash = some prevTx
  /-- So is the output. -/
  out_eq : prevTx.vout[0]? = some prev
  /-- It holds the funds of the channel. -/
  continues : lib.Continues o.opentxid prevTx
  /-- The opening transaction holds funds of the channel. -/
  opened : ∃ vout0, openTx.vout[0]? = some vout0 ∧ lib.atChannel ch vout0 = true
  /-- The funds go on. -/
  sends : lib.SendsOn ch tx prev.nValue o.funcid
  /-- A payment is worth the steps that are made. -/
  amount : o.funcid = .channelPayment → ∃ p vout3, channelOpretOf prevTx = some p ∧
    tx.vout[3]? = some vout3 ∧ vout3.nValue = (p.param1 - o.param1) * ch.payment
  /-- A payment proves a step. -/
  proves : o.funcid = .channelPayment → CCLib.ProvesStep ch o
  /-- A close keeps the number of payments that are left. -/
  close : o.funcid = .channelClose → ∃ p, channelOpretOf prevTx = some p ∧ o.param1 = p.param1

/-- The payments that are left and those made now, as the numbers of op_returns are. -/
theorem param2_eq {prevTx : CTransaction} {p : ChannelOpret} (ho : channelOpretOf tx = some o)
    (hp : channelOpretOf prevTx = some p) (h : toInt64 (o.param1 + o.param2) = p.param1) :
    o.param2 = p.param1 - o.param1 := by
  obtain ⟨ho1, ho2⟩ := ranges_of_channelOpretOf ho
  obtain ⟨hp1, -⟩ := ranges_of_channelOpretOf hp
  unfold toInt64 at h
  rw [Int.bmod_def] at h
  split at h
  · omega
  · omega

/-- With at least one step the result is that of the steps. -/
theorem provesStep_of_genhashchain {env : ChannelsEnv} {ch : Channel}
    (hsteps : 1 ≤ ch.numpayments - o.param1 ∧ ch.numpayments - o.param1 < 2 ^ 31)
    (h : ch.hashchain = env.genhashchain o.param3 (toInt32 (ch.numpayments - o.param1))) :
    CCLib.ProvesStep ch o := by
  have hsame : toInt32 (ch.numpayments - o.param1) = ch.numpayments - o.param1 := by
    unfold toInt32
    rw [Int.bmod_def]
    split
    · omega
    · omega
  rw [hsame] at h
  unfold ChannelsEnv.genhashchain at h
  rw [if_neg (by omega)] at h
  exact ⟨hsteps.1, h.symm⟩

/-- The transaction that input 1 spends is one of the channel. -/
theorem CCLib.Careful.prev_of_spends {tip : ChannelsTip} {ch : Channel} {vin1 : CTxIn}
    {prevTx : CTransaction} {prev : CTxOut} (hcare : lib.Careful symbol h tx o ch)
    (hspends : (lib.channelsEnvAt symbol tip h).SpendsPrev tx vin1 prevTx prev) :
    vin1.prevout = { hash := prevTx.hash, n := 0 } ∧ lookupTx h prevTx.hash = some prevTx ∧
      prevTx.vout[0]? = some prev ∧ lib.Continues o.opentxid prevTx ∧
      (o.funcid = .channelClose → ∃ p, channelOpretOf prevTx = some p ∧ o.param1 = p.param1) := by
  obtain ⟨vin1', prevTx', hvin, hn, hlook, hcont, hclose⟩ := hcare.prev
  obtain rfl : vin1 = vin1' := Option.some.inj (hspends.vin_eq.symm.trans hvin)
  obtain rfl : prevTx = prevTx' := Option.some.inj (hspends.tx_eq.symm.trans hlook)
  have hhash := (mem_of_lookupTx hlook).2
  have hout := hspends.out_eq
  rw [hn] at hout
  refine ⟨?_, by rw [hhash]; exact hlook, hout, hcont, hclose⟩
  rw [hhash, ← hn]

theorem opened_of_checkOpen {tip : ChannelsTip} {ch : Channel} {opentxid : Uint256}
    (h : (lib.channelsEnvAt symbol tip h).checkOpen ch opentxid openTx = .ok ()) :
    ∃ vout0, openTx.vout[0]? = some vout0 ∧ lib.atChannel ch vout0 = true := by
  obtain ⟨vout0, hvout, hfunds⟩ := ChannelsEnv.funds_of_checkOpen _ h
  exact ⟨vout0, hvout, lib.constrainVout_zero hfunds⟩

/-- The cases of an accepted transaction of a channel. -/
theorem stepOk_of_accepted {tip : ChannelsTip} {ch : Channel} (hop : channelOpretOf tx = some o)
    (hacc : (lib.channelsEnvAt symbol tip h).Accepted tx o openTx ch)
    (hcare : lib.Careful symbol h tx o ch) :
    ∃ vin1 prevTx prev, StepOk lib h tx openTx o ch vin1 prevTx prev := by
  cases hf : o.funcid with
  | channelOpen =>
    have hchecked := hacc.checked
    simp only [ChannelsEnv.channelsCase, hf] at hchecked
    cases hchecked
  | illegal =>
    have hchecked := hacc.checked
    simp only [ChannelsEnv.channelsCase, hf] at hchecked
    cases hchecked
  | channelPayment =>
    obtain ⟨vin1, prevTx, prev, vout0, vout3, hspends, hfacts⟩ := hacc.paymentFacts _ hop hf
    obtain ⟨hprevout, hprev, hout, hcont, -⟩ := hcare.prev_of_spends hspends
    refine ⟨vin1, prevTx, prev, hspends.vin_eq, hprevout, hprev, hout, hcont,
      opened_of_checkOpen hfacts.opened, ?_, fun _ => ?_, fun _ => ?_, by simp [hf]⟩
    · rw [hf]
      exact ⟨vout0, vout3, hfacts.vout0_eq, hfacts.vout3_eq, hfacts.change, hfacts.payout,
        hfacts.sum_eq⟩
    · obtain ⟨p, hp, hdepth⟩ := hfacts.depth
      refine ⟨p, vout3, hp, hfacts.vout3_eq, ?_⟩
      rw [hfacts.amount, hcare.fits hf, param2_eq hop hp hdepth]
    · exact provesStep_of_genhashchain (hcare.steps hf) hfacts.secret
  | channelClose =>
    obtain ⟨vin1, prevTx, prev, vout0, hspends, hfacts⟩ := hacc.closeFacts _ hop hf
    obtain ⟨hprevout, hprev, hout, hcont, hclose⟩ := hcare.prev_of_spends hspends
    refine ⟨vin1, prevTx, prev, hspends.vin_eq, hprevout, hprev, hout, hcont,
      opened_of_checkOpen hfacts.opened, ?_, by simp [hf], by simp [hf], hclose⟩
    rw [hf]
    exact ⟨vout0, hfacts.vout0_eq, hfacts.change, hfacts.sum_eq⟩
  | channelRefund =>
    obtain ⟨vin1, prevTx, prev, vout2, hspends, hfacts⟩ := hacc.refundFacts _ hop hf
    obtain ⟨hprevout, hprev, hout, hcont, -⟩ := hcare.prev_of_spends hspends
    refine ⟨vin1, prevTx, prev, hspends.vin_eq, hprevout, hprev, hout, hcont,
      opened_of_checkOpen hfacts.opened, ?_, by simp [hf], by simp [hf], by simp [hf]⟩
    rw [hf]
    exact ⟨vout2, hfacts.vout2_eq, hfacts.payout, hfacts.sum_eq⟩

/-- A transaction of a channel that is there. -/
theorem stepOk_of_carefulRule (hrule : lib.carefulRule symbol h tx)
    (hopen : lookupTx h o.opentxid = some openTx) (hoo : channelOpretOf openTx = some oo)
    (hmem : lib.memberOpret o.opentxid tx = some o) :
    lib.Careful symbol h tx o oo.channel ∧
      ∃ vin1 prevTx prev, StepOk lib h tx openTx o oo.channel vin1 prevTx prev := by
  obtain ⟨tip, openTx', ch, hacc, hcare⟩ := accepted_of_carefulRule hrule hmem
  obtain rfl : openTx = openTx' := Option.some.inj (hopen.symm.trans hacc.open_eq)
  obtain rfl := channelOf_eq hoo hacc.channel_eq
  exact ⟨hcare, stepOk_of_accepted (lib.memberOpret_eq_some.1 hmem).2.1 hacc hcare⟩

end Step

/-! ## Whole histories -/

section Run

variable {lib : CCLib} {symbol : String} {h : List CTransaction} {opentxid : Uint256}

/-- A transaction whose output 0 holds the funds of a channel now. -/
structure Live (lib : CCLib) (opentxid : Uint256) (h : List CTransaction) (m : CTransaction) :
    Prop where
  /-- It is there. -/
  found : lookupTx h m.hash = some m
  /-- It is one of the channel. -/
  continues : lib.Continues opentxid m
  /-- Its output 0 is unspent. -/
  unspent : { hash := m.hash, n := 0 } ∈ unspentOutputs h

/-- The books of a channel: one transaction holds the funds, and it says how much has been
paid. -/
structure Books (lib : CCLib) (opentxid : Uint256) (ch : Channel) (h : List CTransaction) :
    Prop where
  /-- One transaction holds the funds. -/
  unique : ∀ m m', Live lib opentxid h m → Live lib opentxid h m' → m = m'
  /-- The payments that are not left have been paid and proved. -/
  live : ∀ m, Live lib opentxid h m → ∀ p, channelOpretOf m = some p →
    lib.paid opentxid h = ch.payment * (ch.numpayments - p.param1) ∧
      ch.numpayments - p.param1 ≤ lib.proved opentxid ch h
  /-- What has been paid is proved. -/
  bounded : lib.paid opentxid h ≤ ch.payment * lib.proved opentxid ch h

/-- A transaction holds the funds after a step only if it did before and is not spent, or
if it is the new one. -/
theorem live_cons {tx m : CTransaction} (hm : Live lib opentxid (tx :: h) m) :
    m = tx ∨ (Live lib opentxid h m ∧ { hash := m.hash, n := 0 } ∉ tx.prevouts) := by
  by_cases heq : tx.hash = m.hash
  · left
    have hfound := hm.found
    rw [← heq, lookupTx_cons_self] at hfound
    exact (Option.some.inj hfound).symm
  · right
    have hfound := hm.found
    rw [lookupTx_cons_of_ne heq] at hfound
    rcases Finset.mem_union.1 hm.unspent with hold | hnew
    · obtain ⟨hunspent, hspent⟩ := Finset.mem_sdiff.1 hold
      exact ⟨⟨hfound, hm.continues, hunspent⟩, hspent⟩
    · obtain ⟨v, -, hv⟩ := Finset.mem_image.1 hnew
      exact absurd (congrArg COutPoint.hash hv) heq

/-- The channel of a transaction is opened before it. -/
theorem opened_of_member {tx : CTransaction} {o : ChannelOpret}
    (hrule : lib.channelRule symbol h tx) (hmem : lib.memberOpret opentxid tx = some o) :
    (lookupTx h opentxid).isSome = true := by
  obtain ⟨hvin, hop, rfl⟩ := lib.memberOpret_eq_some.1 hmem
  obtain ⟨tip, hok⟩ := hrule.2 hvin
  obtain ⟨openTx, ch, hacc⟩ := ChannelsEnv.accepted_of_ok _ hop hok
  exact Option.isSome_iff_exists.2 ⟨openTx, hacc.open_eq⟩

theorem memberOpret_eq_none (hist : TxHistory (lib.channelRule symbol) h)
    (hnone : lookupTx h opentxid = none) : ∀ t ∈ h, lib.memberOpret opentxid t = none := by
  induction hist with
  | nil => simp
  | @cons h tx prev spends accepted ih =>
    have hne : tx.hash ≠ opentxid := by
      rintro rfl
      rw [lookupTx_cons_self] at hnone
      cases hnone
    rw [lookupTx_cons_of_ne hne] at hnone
    intro t ht
    rcases List.mem_cons.1 ht with rfl | ht
    · cases hmem : lib.memberOpret opentxid t with
      | none => rfl
      | some o =>
        have hopened := opened_of_member accepted hmem
        rw [hnone] at hopened
        cases hopened
    · exact ih hnone t ht

/-- The channel of a transaction of the history is opened in it. -/
theorem opened_of_mem (hist : TxHistory (lib.channelRule symbol) h) {t : CTransaction}
    {o : ChannelOpret} (ht : t ∈ h) (hmem : lib.memberOpret opentxid t = some o) :
    (lookupTx h opentxid).isSome = true := by
  cases hl : lookupTx h opentxid with
  | some openTx => rfl
  | none =>
    rw [memberOpret_eq_none hist hl t ht] at hmem
    cases hmem

theorem paidBy_eq_zero {tx : CTransaction} (hmem : lib.memberOpret opentxid tx = none) :
    lib.paidBy opentxid tx = 0 := by
  unfold CCLib.paidBy
  rw [hmem]

theorem stepsBy_eq_zero {tx : CTransaction} (hmem : lib.memberOpret opentxid tx = none)
    (ch : Channel) : lib.stepsBy opentxid ch tx = 0 := by
  unfold CCLib.stepsBy
  rw [hmem]

/-- Before a channel is opened nothing is paid and nothing is proved. -/
theorem paid_proved_eq_zero (ch : Channel) (hnone : ∀ t ∈ h, lib.memberOpret opentxid t = none) :
    lib.paid opentxid h = 0 ∧ lib.proved opentxid ch h = 0 := by
  induction h with
  | nil => exact ⟨rfl, rfl⟩
  | cons tx h ih =>
    have htx := hnone tx (by simp)
    obtain ⟨hpaid, hproved⟩ := ih fun t ht => hnone t (List.mem_cons_of_mem tx ht)
    rw [CCLib.paid_cons, CCLib.proved_cons, paidBy_eq_zero htx, stepsBy_eq_zero htx, hpaid, hproved]
    exact ⟨rfl, rfl⟩

theorem paid_nonneg (hval : ∀ t ∈ h, ∀ out ∈ t.vout, 0 ≤ out.nValue) :
    0 ≤ lib.paid opentxid h := by
  refine List.sum_nonneg fun v hv => ?_
  obtain ⟨t, ht, rfl⟩ := List.mem_map.1 hv
  unfold CCLib.paidBy
  split
  · split
    · cases hout : t.vout[3]? with
      | none => exact le_rfl
      | some out => exact hval t ht out (List.mem_of_getElem? hout)
    · exact le_rfl
  · exact le_rfl

/-- Opening a channel starts its books. -/
theorem books_open {tx : CTransaction} {oo : ChannelOpret}
    (hist : TxHistory (lib.channelRule symbol) h) (hfresh : ∀ t ∈ h, t.hash ≠ tx.hash)
    (hrule : lib.channelRule symbol h tx) (hoo : channelOpretOf tx = some oo) :
    Books lib tx.hash oo.channel (tx :: h) := by
  have hnone : lookupTx h tx.hash = none := by
    cases hl : lookupTx h tx.hash with
    | none => rfl
    | some t => exact absurd (mem_of_lookupTx hl).2 (hfresh t (mem_of_lookupTx hl).1)
  have hmembers := memberOpret_eq_none hist hnone
  have htx : lib.memberOpret tx.hash tx = none := by
    cases hmem : lib.memberOpret tx.hash tx with
    | none => rfl
    | some o =>
      have hopened := opened_of_member hrule hmem
      rw [hnone] at hopened
      cases hopened
  obtain ⟨hpaid, hproved⟩ : lib.paid tx.hash (tx :: h) = 0 ∧
      lib.proved tx.hash oo.channel (tx :: h) = 0 :=
    paid_proved_eq_zero oo.channel (by simpa using ⟨htx, hmembers⟩)
  have hself : ∀ m, Live lib tx.hash (tx :: h) m → m = tx := by
    intro m hm
    rcases live_cons hm with heq | ⟨hlive, -⟩
    · exact heq
    · have hmem := (mem_of_lookupTx hlive.found).1
      rcases hlive.continues with hid | ⟨o, ho, -⟩
      · exact absurd hid (hfresh m hmem)
      · rw [hmembers m hmem] at ho
        cases ho
  refine ⟨fun m m' hm hm' => (hself m hm).trans (hself m' hm').symm, ?_, ?_⟩
  · intro m hm p hp
    rw [hself m hm, hoo] at hp
    obtain rfl := Option.some.inj hp
    rw [hpaid, hproved]
    exact ⟨by simp [ChannelOpret.channel], by simp [ChannelOpret.channel]⟩
  · rw [hpaid, hproved, mul_zero]

/-- A transaction of another kind leaves the books of a channel alone. -/
theorem books_other {tx : CTransaction} {ch : Channel} (hbooks : Books lib opentxid ch h)
    (hne : tx.hash ≠ opentxid) (hmem : lib.memberOpret opentxid tx = none) :
    Books lib opentxid ch (tx :: h) := by
  have hold : ∀ m, Live lib opentxid (tx :: h) m → Live lib opentxid h m := by
    intro m hm
    rcases live_cons hm with rfl | ⟨hlive, -⟩
    · rcases hm.continues with hid | ⟨o, ho, -⟩
      · exact absurd hid hne
      · rw [hmem] at ho
        cases ho
    · exact hlive
  have hpaid : lib.paid opentxid (tx :: h) = lib.paid opentxid h := by
    rw [CCLib.paid_cons, paidBy_eq_zero hmem, zero_add]
  have hproved : lib.proved opentxid ch (tx :: h) = lib.proved opentxid ch h := by
    rw [CCLib.proved_cons, stepsBy_eq_zero hmem, max_eq_right (lib.proved_nonneg _ _ _)]
  refine ⟨fun m m' hm hm' => hbooks.unique m m' (hold m hm) (hold m' hm'), ?_, ?_⟩
  · intro m hm p hp
    rw [hpaid, hproved]
    exact hbooks.live m (hold m hm) p hp
  · rw [hpaid, hproved]
    exact hbooks.bounded

/-- The funds pass from the transaction that held them to the new one. -/
theorem live_step {tx openTx : CTransaction} {o : ChannelOpret} {ch : Channel} {vin1 : CTxIn}
    {prevTx : CTransaction} {prev : CTxOut} (hbooks : Books lib o.opentxid ch h)
    (hspends : SpendsUnspent h tx) (hstep : StepOk lib h tx openTx o ch vin1 prevTx prev) :
    Live lib o.opentxid h prevTx ∧ ∀ m, Live lib o.opentxid (tx :: h) m → m = tx := by
  have hvin : vin1 ∈ tx.vin := List.mem_of_getElem? hstep.vin_eq
  have hunspent := hspends.unspent (CTransaction.isMint_eq_false hstep.vin_eq) vin1 hvin
  rw [hstep.prevout_eq] at hunspent
  have hlive : Live lib o.opentxid h prevTx := ⟨hstep.prev_eq, hstep.continues, hunspent⟩
  refine ⟨hlive, fun m hm => ?_⟩
  rcases live_cons hm with heq | ⟨hm, hspent⟩
  · exact heq
  · exfalso
    apply hspent
    rw [hbooks.unique m prevTx hm hlive, ← hstep.prevout_eq]
    exact List.mem_toFinset.2 (List.mem_map.2 ⟨vin1, hvin, rfl⟩)

/-- A payment is entered in the books. -/
theorem books_payment {tx openTx : CTransaction} {o : ChannelOpret} {ch : Channel} {vin1 : CTxIn}
    {prevTx : CTransaction} {prev : CTxOut} (hbooks : Books lib o.opentxid ch h)
    (hval : ∀ t ∈ tx :: h, ∀ out ∈ t.vout, 0 ≤ out.nValue) (hspends : SpendsUnspent h tx)
    (hmem : lib.memberOpret o.opentxid tx = some o) (hf : o.funcid = .channelPayment)
    (hstep : StepOk lib h tx openTx o ch vin1 prevTx prev) :
    Books lib o.opentxid ch (tx :: h) := by
  obtain ⟨hlive, hself⟩ := live_step hbooks hspends hstep
  obtain ⟨p, vout3, hp, hvout3, hamount⟩ := hstep.amount hf
  obtain ⟨hpaid, -⟩ := hbooks.live prevTx hlive p hp
  have hpaid' : lib.paid o.opentxid (tx :: h) = ch.payment * (ch.numpayments - o.param1) := by
    rw [CCLib.paid_cons, hpaid, CCLib.paidBy, hmem]
    simp only [hf, if_true, hvout3, Option.map_some, Option.getD_some, hamount]
    ring
  have hproved' : ch.numpayments - o.param1 ≤ lib.proved o.opentxid ch (tx :: h) := by
    rw [CCLib.proved_cons, CCLib.stepsBy, hmem]
    simp only [hf, if_true]
    exact le_max_left _ _
  refine ⟨fun m m' hm hm' => (hself m hm).trans (hself m' hm').symm, ?_, ?_⟩
  · intro m hm p' hp'
    rw [hself m hm, (lib.memberOpret_eq_some.1 hmem).2.1] at hp'
    obtain rfl := Option.some.inj hp'
    exact ⟨hpaid', hproved'⟩
  · have hnonneg : 0 ≤ lib.paid o.opentxid (tx :: h) := paid_nonneg hval
    have hk : 1 ≤ ch.numpayments - o.param1 := (hstep.proves hf).1
    rw [hpaid'] at hnonneg ⊢
    -- a channel with negative payments pays nothing
    have hpay : 0 ≤ ch.payment := by
      by_contra hneg
      have hpos : 0 < ch.numpayments - o.param1 := by omega
      have hpaidNeg := Int.mul_neg_of_neg_of_pos (not_le.1 hneg) hpos
      omega
    exact Int.mul_le_mul_of_nonneg_left hproved' hpay

/-- A close or a refund does not change the amounts in the books. -/
theorem books_close {tx openTx : CTransaction} {o : ChannelOpret} {ch : Channel} {vin1 : CTxIn}
    {prevTx : CTransaction} {prev : CTxOut} (hbooks : Books lib o.opentxid ch h)
    (hspends : SpendsUnspent h tx) (hne : tx.hash ≠ o.opentxid)
    (hmem : lib.memberOpret o.opentxid tx = some o) (hf : o.funcid ≠ .channelPayment)
    (hstep : StepOk lib h tx openTx o ch vin1 prevTx prev) :
    Books lib o.opentxid ch (tx :: h) := by
  obtain ⟨hlive, hself⟩ := live_step hbooks hspends hstep
  have hpaid : lib.paid o.opentxid (tx :: h) = lib.paid o.opentxid h := by
    rw [CCLib.paid_cons, CCLib.paidBy, hmem]
    simp only [hf, if_false, zero_add]
  have hproved : lib.proved o.opentxid ch (tx :: h) = lib.proved o.opentxid ch h := by
    rw [CCLib.proved_cons, CCLib.stepsBy, hmem]
    simp only [hf, if_false]
    exact max_eq_right (lib.proved_nonneg _ _ _)
  refine ⟨fun m m' hm hm' => (hself m hm).trans (hself m' hm').symm, ?_, ?_⟩
  · intro m hm p' hp'
    obtain rfl := hself m hm
    rw [(lib.memberOpret_eq_some.1 hmem).2.1] at hp'
    obtain rfl := Option.some.inj hp'
    -- only a close goes on
    have hclose : o.funcid = .channelClose := by
      rcases hm.continues with hid | ⟨o', ho', hf'⟩
      · exact absurd hid hne
      · rw [hmem] at ho'
        obtain rfl := Option.some.inj ho'
        exact hf'.resolve_left hf
    obtain ⟨p, hp, hparam⟩ := hstep.close hclose
    rw [hpaid, hproved, hparam]
    exact hbooks.live prevTx hlive p hp
  · rw [hpaid, hproved]
    exact hbooks.bounded

theorem channelHistory_of_careful (hist : TxHistory (lib.carefulRule symbol) h) :
    TxHistory (lib.channelRule symbol) h :=
  hist.mono fun _ _ hrule => hrule.1

/-- The books of a channel are right in every history. -/
theorem books_of_history (hist : TxHistory (lib.carefulRule symbol) h) {openTx : CTransaction}
    {oo : ChannelOpret} (hopen : lookupTx h opentxid = some openTx)
    (hoo : channelOpretOf openTx = some oo) : Books lib opentxid oo.channel h := by
  induction hist with
  | nil => cases hopen
  | @cons h tx prev spends accepted ih =>
    by_cases hid : tx.hash = opentxid
    · subst hid
      obtain rfl : tx = openTx := by
        rw [lookupTx_cons_self] at hopen
        exact Option.some.inj hopen
      exact books_open (channelHistory_of_careful prev) spends.fresh accepted.1 hoo
    · rw [lookupTx_cons_of_ne hid] at hopen
      have hbooks := ih hopen
      cases hmem : lib.memberOpret opentxid tx with
      | none => exact books_other hbooks hid hmem
      | some o =>
        obtain rfl := (lib.memberOpret_eq_some.1 hmem).2.2
        obtain ⟨-, vin1, prevTx, prevOut, hstep⟩ :=
          stepOk_of_carefulRule accepted hopen hoo hmem
        by_cases hf : o.funcid = .channelPayment
        · have hval := (TxHistory.cons prev spends accepted).values
          exact books_payment hbooks hval spends hmem hf hstep
        · exact books_close hbooks spends hid hmem hf hstep

/-- Every transaction of a channel sends on what it takes, and every payment proves a step. -/
theorem sends_of_history (hist : TxHistory (lib.carefulRule symbol) h) {openTx : CTransaction}
    {oo : ChannelOpret} (hopen : lookupTx h opentxid = some openTx)
    (hoo : channelOpretOf openTx = some oo) : ∀ t ∈ h, ∀ o, lib.memberOpret opentxid t = some o →
    (∃ amount, lib.SendsOn oo.channel t amount o.funcid) ∧
      (o.funcid = .channelPayment → CCLib.ProvesStep oo.channel o) := by
  induction hist with
  | nil => simp
  | @cons h tx prev spends accepted ih =>
    intro t ht o hmem
    rcases List.mem_cons.1 ht with rfl | ht
    · obtain rfl := (lib.memberOpret_eq_some.1 hmem).2.2
      have hid : t.hash ≠ o.opentxid := by
        intro hid
        obtain ⟨t', ht'⟩ := Option.isSome_iff_exists.1 (opened_of_member accepted.1 hmem)
        exact spends.fresh t' (mem_of_lookupTx ht').1 ((mem_of_lookupTx ht').2.trans hid.symm)
      rw [lookupTx_cons_of_ne hid] at hopen
      obtain ⟨-, vin1, prevTx, prevOut, hstep⟩ := stepOk_of_carefulRule accepted hopen hoo hmem
      exact ⟨⟨_, hstep.sends⟩, hstep.proves⟩
    · have hopen' : lookupTx h opentxid = some openTx := by
        obtain ⟨t', ht'⟩ := Option.isSome_iff_exists.1 (opened_of_mem
          (channelHistory_of_careful prev) ht hmem)
        rw [lookupTx_cons spends.fresh ht'] at hopen
        rw [ht', hopen]
      exact ih hopen' t ht o hmem

/-- What input 1 spends is at the address of the channel. -/
theorem atChannel_prev (hist : TxHistory (lib.carefulRule symbol) h) {tx openTx : CTransaction}
    {o oo : ChannelOpret} {vin1 : CTxIn} {prevTx : CTransaction} {prev : CTxOut}
    (hopen : lookupTx h o.opentxid = some openTx) (hoo : channelOpretOf openTx = some oo)
    (hstep : StepOk lib h tx openTx o oo.channel vin1 prevTx prev) :
    lib.atChannel oo.channel prev = true := by
  rcases hstep.continues with hid | ⟨p, hp, hf⟩
  · obtain ⟨vout0, hvout0, hat⟩ := hstep.opened
    have hprev := hstep.prev_eq
    rw [hid, hopen] at hprev
    obtain rfl := Option.some.inj hprev
    rw [hstep.out_eq] at hvout0
    obtain rfl := Option.some.inj hvout0
    exact hat
  · obtain ⟨⟨amount, hsends⟩, -⟩ :=
      sends_of_history hist hopen hoo prevTx (mem_of_lookupTx hstep.prev_eq).1 p hp
    obtain ⟨vout0, hvout0, hat⟩ : ∃ vout0, prevTx.vout[0]? = some vout0 ∧
        lib.atChannel oo.channel vout0 = true := by
      rcases hf with hf | hf
      · rw [hf] at hsends
        obtain ⟨vout0, vout3, hvout0, -, hat, -⟩ := hsends
        exact ⟨vout0, hvout0, hat⟩
      · rw [hf] at hsends
        obtain ⟨vout0, hvout0, hat, -⟩ := hsends
        exact ⟨vout0, hvout0, hat⟩
    rw [hstep.out_eq] at hvout0
    obtain rfl := Option.some.inj hvout0
    exact hat

/-- All that a transaction made with care spends from the address of a channel is input 1. -/
theorem channelInputs_eq {tx openTx : CTransaction} {o : ChannelOpret} {ch ch' : Channel}
    {vin1 : CTxIn} {prevTx : CTransaction} {prev : CTxOut} (hcare : lib.Careful symbol h tx o ch')
    (hstep : StepOk lib h tx openTx o ch' vin1 prevTx prev) (hopened : ChannelOpened h opentxid ch)
    (hfrom : lib.SpendsFrom symbol h ch tx) :
    lib.atChannel ch prev = true ∧ lib.channelInputs symbol h ch tx = prev.nValue := by
  have hvin1 : (lib.envAt symbol h).spentOutput vin1 = some prev := by
    change (lookupTx h vin1.prevout.hash).bind _ = _
    rw [hstep.prevout_eq, hstep.prev_eq]
    exact hstep.out_eq
  have hat : lib.atChannel ch prev = true := by
    obtain ⟨txin, hin, out, hout, hat⟩ := hfrom
    obtain ⟨i, hget⟩ := List.mem_iff_getElem?.1 hin
    by_cases hi : i = 1
    · subst hi
      obtain rfl : vin1 = txin := Option.some.inj (hstep.vin_eq.symm.trans hget)
      obtain rfl : prev = out := Option.some.inj (hvin1.symm.trans hout)
      exact hat
    · rw [hcare.single i txin hi hget out hout opentxid ch hopened] at hat
      exact absurd hat Bool.false_ne_true
  refine ⟨hat, ?_⟩
  unfold CCLib.channelInputs
  rw [sum_map_eq_single hstep.vin_eq, hvin1]
  · exact if_pos hat
  · intro i txin hi hget
    cases hout : (lib.envAt symbol h).spentOutput txin with
    | none => rfl
    | some out => simp [hcare.single i txin hi hget out hout opentxid ch hopened]

/-- The channel of an accepted transaction has been opened. -/
theorem opened_of_accepted {tip : ChannelsTip} {tx openTx : CTransaction} {o : ChannelOpret}
    {ch : Channel} {vin1 : CTxIn} {prevTx : CTransaction} {prev : CTxOut}
    (hacc : (lib.channelsEnvAt symbol tip h).Accepted tx o openTx ch)
    (hstep : StepOk lib h tx openTx o ch vin1 prevTx prev) :
    ∃ oo, channelOpretOf openTx = some oo ∧ oo.funcid = .channelOpen ∧ oo.channel = ch := by
  obtain ⟨vout0, hvout0, -⟩ := hstep.opened
  have hne : openTx.vout.isEmpty = false := by
    cases hv : openTx.vout with
    | nil => simp [hv] at hvout0
    | cons out rest => rfl
  have hch := hacc.channel_eq
  unfold ChannelsEnv.channelOf at hch
  rw [hne, if_neg Bool.false_ne_true] at hch
  split at hch
  · rename_i oo hoo
    split at hch
    · rename_i hf
      exact ⟨oo, hoo, hf, Except.ok.inj hch⟩
    · cases hch
  · cases hch

/-- A transaction that spends from the address of a channel sends on all of it, as the channel
that it names asks. -/
theorem sendsOn_of_spendsFrom (hist : TxHistory (lib.carefulRule symbol) h) {tx : CTransaction}
    (hrule : lib.carefulRule symbol h tx) {ch : Channel} (hopened : ChannelOpened h opentxid ch)
    (hfrom : lib.SpendsFrom symbol h ch tx) :
    ∃ o ch', channelOpretOf tx = some o ∧ ChannelOpened h o.opentxid ch' ∧
      lib.channeladdress ch' = lib.channeladdress ch ∧
      lib.SendsOn ch' tx (lib.channelInputs symbol h ch tx) o.funcid := by
  have hvin := hrule.1.1 ch hfrom
  obtain ⟨tip, hok⟩ := hrule.1.2 hvin
  obtain ⟨o, hop⟩ := ChannelsEnv.exists_opret_of_ok _ hok
  obtain ⟨openTx, ch', hacc⟩ := ChannelsEnv.accepted_of_ok _ hop hok
  have hcare := hrule.2 hvin o openTx ch' hop hacc.open_eq hacc.channel_eq
  obtain ⟨vin1, prevTx, prev, hstep⟩ := stepOk_of_accepted hop hacc hcare
  obtain ⟨oo, hoo, hf, rfl⟩ := opened_of_accepted hacc hstep
  obtain ⟨hat, hinputs⟩ := channelInputs_eq hcare hstep hopened hfrom
  have hat' := atChannel_prev hist hacc.open_eq hoo hstep
  refine ⟨o, oo.channel, hop, ⟨openTx, oo, hacc.open_eq, hoo, hf, rfl⟩, ?_, ?_⟩
  · exact Option.some.inj ((lib.scriptAddress_of_atChannel hat').symm.trans
      (lib.scriptAddress_of_atChannel hat))
  · rw [hinputs]
    exact hstep.sends

/-- In every history of transactions that are made with care, a channel is kept: the
receiver gets no more than the proved steps are worth, and nothing else leaves. -/
theorem channel_run (hist : TxHistory (lib.carefulRule symbol) h) {ch : Channel}
    (hopened : ChannelOpened h opentxid ch) : lib.ChannelKept symbol h opentxid ch := by
  obtain ⟨openTx, oo, hopen, hoo, -, rfl⟩ := hopened
  refine ⟨(books_of_history hist hopen hoo).bounded, ?_,
    fun t ht o hmem => (sends_of_history hist hopen hoo t ht o hmem).2⟩
  intro tx rest hsuffix hopened hfrom
  obtain ⟨later, rfl⟩ := hsuffix
  cases hist.suffix later with
  | cons prev spends accepted => exact sendsOn_of_spendsFrom prev accepted hopened hfrom

end Run

/-! ## A payment and a theft -/

namespace SampleChannels

/-- A tip at which every transaction is notarised. -/
def tip : ChannelsTip where
  height := 105
  txHeight _ := some 5
  notarizedHeight := 50
  uninitHash := 0

/-- The first payment of the channel. -/
def payTx : CTransaction where
  hash := 34
  vin := vins 1 30
  vout := [funds 10, marker 1, marker 2, pay 2 10, opretOut 0x50 30 1 1 secret]

/-- The op_return of the first payment. -/
def payOpret : ChannelOpret where
  funcid := .channelPayment
  tokenid := 0
  opentxid := 30
  srcpub := CCLib.plainKey 1
  destpub := CCLib.plainKey 2
  param1 := 1
  param2 := 1
  param3 := secret

/-- The op_return of the opening transaction. -/
def openOpret : ChannelOpret :=
  { payOpret with
    funcid := .channelOpen
    opentxid := 0
    param1 := 2
    param2 := 10
    param3 := hashStep secret }

/-- A transaction that looks like one of the channel and holds one satoshi. -/
def fakeTx : CTransaction where
  hash := 35
  vin := [{ prevout := { hash := 29, n := 1 } }]
  vout := [funds 1, marker 2, opretOut 0x43 30 2 10 0]

/-- A close that takes the fake for the channel, and the funds of the channel besides. -/
def theftTx : CTransaction where
  hash := 36
  vin := [{ prevout := { hash := 29, n := 2 } },
    { prevout := { hash := 35, n := 0 }, scriptSig := [1, evalChannels] ++ CCLib.plainKey 2 },
    { prevout := { hash := 30, n := 0 }, scriptSig := [1, evalChannels] ++ CCLib.plainKey 2 },
    { prevout := { hash := 35, n := 1 }, scriptSig := [0, evalChannels] ++ CCLib.plainKey 2 }]
  vout := [funds 1, marker 1, marker 2, pay 2 20, opretOut 0x43 30 2 10 0]

set_option maxRecDepth 8000 in
theorem opretOf_openTx : channelOpretOf openTx = some openOpret := by
  decide

set_option maxRecDepth 8000 in
theorem opretOf_payTx : channelOpretOf payTx = some payOpret := by
  decide

/-- Only one channel is opened. -/
theorem channel_of_opened {opentxid : Uint256} {ch : Channel}
    (h : ChannelOpened [openTx, funding] opentxid ch) : ch = openOpret.channel := by
  obtain ⟨t, oo, hl, hoo, -, rfl⟩ := h
  rcases List.mem_cons.1 (mem_of_lookupTx hl).1 with rfl | ht
  · rw [opretOf_openTx] at hoo
    rw [Option.some.inj hoo]
  · obtain rfl := List.mem_singleton.1 ht
    have hnone : channelOpretOf funding = none := by decide
    rw [hnone] at hoo
    cases hoo

/-- Outputs without a condition belong to no channel. -/
theorem not_spendsFrom {h : List CTransaction} {tx : CTransaction} {ch : Channel}
    (hplain : ∀ txin ∈ tx.vin, ∀ out ∈ (CCLib.plain.envAt "" h).spentOutput txin,
      CScript.isPayToCryptoCondition out.scriptPubKey = false) :
    ¬ CCLib.plain.SpendsFrom "" h ch tx := by
  rintro ⟨txin, hin, out, hout, hat⟩
  rw [CCLib.atChannel_eq_false _ (hplain txin hin out hout)] at hat
  cases hat

/-- A transaction without a channels input keeps the rule when it spends no conditions. -/
theorem carefulRule_of_plain {h : List CTransaction} {tx : CTransaction}
    (hvin : CCLib.plain.hasChannelVin tx = false)
    (hplain : ∀ txin ∈ tx.vin, ∀ out ∈ (CCLib.plain.envAt "" h).spentOutput txin,
      CScript.isPayToCryptoCondition out.scriptPubKey = false) :
    CCLib.plain.carefulRule "" h tx := by
  refine ⟨⟨fun ch hfrom => absurd hfrom (not_spendsFrom hplain), fun htrue => ?_⟩,
    fun htrue => ?_⟩
  · exact absurd (hvin.symm.trans htrue) Bool.false_ne_true
  · exact absurd (hvin.symm.trans htrue) Bool.false_ne_true

theorem history_open : TxHistory (CCLib.plain.carefulRule "") [openTx, funding] :=
  .cons (.cons .nil (by decide) (carefulRule_of_plain (by decide) (by decide))) (by decide)
    (carefulRule_of_plain (by decide) (by decide))

set_option maxRecDepth 8000 in
theorem careful_payTx :
    CCLib.plain.Careful "" [openTx, funding] payTx payOpret openOpret.channel := by
  refine ⟨?_, ?_, fun _ => by decide, fun _ => by decide⟩
  · intro i txin hi hget out hout opentxid ch' hopened
    obtain rfl := channel_of_opened hopened
    match i with
    | 0 =>
      obtain rfl := Option.some.inj hget
      obtain rfl : pay 1 100000 = out := Option.some.inj (Eq.trans (by decide) hout)
      decide
    | 1 => exact absurd rfl hi
    | 2 =>
      obtain rfl := Option.some.inj hget
      obtain rfl : marker 1 = out := Option.some.inj (Eq.trans (by decide) hout)
      decide
  · exact ⟨_, openTx, rfl, rfl, by decide, Or.inl rfl, fun h => absurd h (by decide)⟩

set_option maxRecDepth 8000 in
theorem history_payTx : TxHistory (CCLib.plain.carefulRule "") [payTx, openTx, funding] := by
  refine .cons history_open (by decide) ⟨⟨fun _ _ => by decide, ?_⟩, ?_⟩
  · exact fun _ => ⟨tip, eq_ok_of_isOk (by decide)⟩
  · intro _ o openTx' ch ho hopen hch
    obtain rfl := Option.some.inj (opretOf_payTx.symm.trans ho)
    obtain rfl : openTx = openTx' := Option.some.inj (Eq.trans (by decide) hopen)
    obtain rfl := channelOf_eq opretOf_openTx hch
    exact careful_payTx

set_option maxRecDepth 8000 in
theorem history_theftTx :
    TxHistory (CCLib.plain.channelRule "") [theftTx, fakeTx, openTx, funding] := by
  refine .cons (.cons (channelHistory_of_careful history_open) (by decide)
    (carefulRule_of_plain (by decide) (by decide)).1) (by decide) ⟨fun _ _ => by decide, ?_⟩
  exact fun _ => ⟨tip, eq_ok_of_isOk (by decide)⟩

end SampleChannels

open SampleChannels

/-- The first payment is taken from the address of the channel, and the channel is kept. -/
theorem channelKept_payment :
    CCLib.plain.paid 30 [payTx, openTx, funding] = 10 ∧
    CCLib.plain.SpendsFrom "" [openTx, funding] openOpret.channel payTx ∧
    CCLib.plain.ChannelKept "" [payTx, openTx, funding] 30 openOpret.channel := by
  refine ⟨by decide +kernel, ?_, channel_run history_payTx ?_⟩
  · exact ⟨payTx.vin[1], by decide, funds 20, by decide +kernel, by decide +kernel⟩
  · exact ⟨openTx, openOpret, by decide +kernel, opretOf_openTx, rfl, rfl⟩

/-- A close of a fake that also spends the funds of the channel: they go to the receiver,
and no step is proved. -/
theorem theft_accepted :
    TxHistory (CCLib.plain.channelRule "") [theftTx, fakeTx, openTx, funding] ∧
    ChannelOpened [theftTx, fakeTx, openTx, funding] 30 openOpret.channel ∧
    ¬ CCLib.plain.ChannelKept "" [theftTx, fakeTx, openTx, funding] 30 openOpret.channel := by
  refine ⟨history_theftTx, ⟨openTx, openOpret, by decide +kernel, opretOf_openTx, rfl, rfl⟩,
    fun hkept => ?_⟩
  have hopened : ChannelOpened [fakeTx, openTx, funding] 30 openOpret.channel :=
    ⟨openTx, openOpret, by decide +kernel, opretOf_openTx, rfl, rfl⟩
  obtain ⟨o, ch', ho, -, -, hsends⟩ := hkept.conserved theftTx _ (List.suffix_refl _) hopened
    ⟨theftTx.vin[2], by decide, funds 20, by decide +kernel, by decide +kernel⟩
  have hop : channelOpretOf theftTx =
      some { openOpret with funcid := .channelClose, opentxid := 30, param3 := 0 } := by
    decide +kernel
  obtain rfl := Option.some.inj (hop.symm.trans ho)
  have hinputs : CCLib.plain.channelInputs "" [fakeTx, openTx, funding]
      openOpret.channel theftTx = 21 := by
    decide +kernel
  rw [hinputs] at hsends
  obtain ⟨vout0, hvout0, -, hamount⟩ := hsends
  obtain rfl : funds 1 = vout0 := Option.some.inj hvout0
  cases hamount

end IndexChain
