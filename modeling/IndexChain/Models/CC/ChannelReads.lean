import IndexChain.Models.CC.Channels

/-!
# What the validation of a channel reads

`ChannelsExactAmounts` reads input 1 and fixed outputs before anything is known about
their number, and the last input is judged by an output of the transaction that input 1
spends. `channelsValidate_judged_iff` says for which transactions every read is inside.
-/

namespace IndexChain

open IndexChain.Core

/-!
## Crashes

A validator that reads what is not there, or divides by zero, gives no verdict. The
equivalences below take a validator apart into its tests and reads, so that what is left
says exactly when each read is reached and whether it is inside.
-/

/-- The validation ends without a verdict. -/
def Failure.IsCrash (err : Failure) : Prop := ∀ reason, err ≠ .invalid reason

theorem Failure.not_isCrash_invalid (reason : String) : ¬ (Failure.invalid reason).IsCrash :=
  fun h => h reason rfl

/-- The validation ends with a verdict. -/
abbrev Judged {α : Type} (e : Except Failure α) : Prop := Avoids Failure.IsCrash e

namespace Judged

variable {α β : Type}

theorem ok (a : α) : Judged (.ok a) := Avoids.ok a

theorem invalid (reason : String) : Judged (.error (.invalid reason) : Except Failure α) :=
  Avoids.error (Failure.not_isCrash_invalid reason)

theorem require (b : Bool) (reason : String) : Judged (Core.require b (.invalid reason)) :=
  Avoids.require (Failure.not_isCrash_invalid reason)

theorem bind_iff {e : Except Failure α} {k : α → Except Failure β} :
    Judged (e >>= k) ↔ Judged e ∧ ∀ a, e = .ok a → Judged (k a) :=
  Avoids.bind_iff

/-- After a test that ends with a verdict. -/
theorem unit_bind_iff {e : Except Failure Unit} (he : Judged e) {k : Unit → Except Failure β} :
    Judged (e >>= k) ↔ (e = .ok () → Judged (k ())) := by
  rw [bind_iff]
  exact ⟨fun h hok => h.2 () hok, fun h => ⟨he, fun _ hok => h hok⟩⟩

theorem require_bind_iff {b : Bool} {reason : String} {k : Unit → Except Failure β} :
    Judged (Core.require b (.invalid reason) >>= k) ↔ (b = true → Judged (k ())) :=
  Avoids.require_bind_iff (Failure.not_isCrash_invalid reason)

theorem out_bind_iff {tx : CTransaction} {v : Nat} {k : CTxOut → Except Failure β} :
    Judged (tx.out v >>= k) ↔ ∃ out, tx.vout[v]? = some out ∧ Judged (k out) := by
  unfold CTransaction.out
  cases tx.vout[v]? with
  | none =>
    refine ⟨fun h => absurd (fun _ => nofun) (h (.outOfBounds v) rfl), ?_⟩
    rintro ⟨out, hget, -⟩
    cases hget
  | some out => simp [except_ok_bind]

theorem inp_bind_iff {tx : CTransaction} {i : Nat} {k : CTxIn → Except Failure β} :
    Judged (tx.inp i >>= k) ↔ ∃ txin, tx.vin[i]? = some txin ∧ Judged (k txin) := by
  unfold CTransaction.inp
  cases tx.vin[i]? with
  | none =>
    refine ⟨fun h => absurd (fun _ => nofun) (h (.vinOutOfBounds i) rfl), ?_⟩
    rintro ⟨txin, hget, -⟩
    cases hget
  | some txin => simp [except_ok_bind]

theorem spent_bind_iff {tx : CTransaction} {v : Nat} {k : CTxOut → Except Failure β} :
    Judged (tx.spent v >>= k) ↔ ∃ out, tx.vout[v]? = some out ∧ Judged (k out) := by
  unfold CTransaction.spent
  cases tx.vout[v]? with
  | none =>
    refine ⟨fun h => absurd (fun _ => nofun) (h (.spentOutOfBounds v) rfl), ?_⟩
    rintro ⟨out, hget, -⟩
    cases hget
  | some out => simp [except_ok_bind]

end Judged

/-! ## Op_returns are no conditions -/

theorem head_of_decodeTokenOpRet {s : CScript} {t : TokenOpret} (h : decodeTokenOpRet s = some t) :
    s.head? = some 0x6a := by
  apply CScript.head_of_getOpReturnData
  intro hnil
  simp [decodeTokenOpRet, hnil] at h

theorem head_of_decodeChannelsOpRet {s : CScript} {o : ChannelOpret}
    (h : decodeChannelsOpRet s = some o) : s.head? = some 0x6a := by
  cases htoken : decodeTokenOpRet s with
  | some t => exact head_of_decodeTokenOpRet htoken
  | none =>
    apply CScript.head_of_getOpReturnData
    intro hnil
    simp [decodeChannelsOpRet, htoken, hnil] at h

/-- A condition output of a channels transaction is not its last. -/
theorem exists_next_vout {tx : CTransaction} {o : ChannelOpret} (hop : channelOpretOf tx = some o)
    {v : Nat} {out : CTxOut} (hget : tx.vout[v]? = some out)
    (hcc : CScript.isPayToCryptoCondition out.scriptPubKey = true) :
    ∃ out', tx.vout[v + 1]? = some out' := by
  obtain ⟨last, hlast, hdecode⟩ := Option.bind_eq_some_iff.1 hop
  obtain ⟨hv, rfl⟩ := List.getElem?_eq_some_iff.1 hget
  rcases Nat.eq_or_lt_of_le (Nat.succ_le_of_lt hv) with heq | hlt
  · have hgetLast : tx.vout[v]? = some last := by
      rw [List.getLast?_eq_getElem?] at hlast
      rw [← hlast, ← heq, Nat.succ_sub_one]
    rw [hget] at hgetLast
    have hhead := head_of_decodeChannelsOpRet hdecode
    rw [Option.some.inj hgetLast, CScript.isPayToCryptoCondition_of_head hhead] at hcc
    cases hcc
  · exact ⟨_, List.getElem?_eq_getElem hlt⟩

namespace CCLib

theorem isCC_of_constrainVout {lib : CCLib} {out : CTxOut} {addr : Option Address} {n : Int}
    (h : lib.constrainVout out true addr n = true) :
    CScript.isPayToCryptoCondition out.scriptPubKey = true := by
  unfold constrainVout at h
  simp only [Bool.and_eq_true, beq_iff_eq] at h
  exact h.1.1

end CCLib

/-- The function spends from a channel. -/
def ChannelFuncId.Spends : ChannelFuncId → Prop
  | .channelPayment => True
  | .channelClose => True
  | .channelRefund => True
  | _ => False

/-- How many outputs `ChannelsExactAmounts` reads. -/
def ChannelFuncId.minVouts : ChannelFuncId → Nat
  | .channelPayment => 4
  | .channelRefund => 3
  | _ => 1

namespace ChannelsEnv

variable (env : ChannelsEnv)

/-! ## The reads -/

/-- Input 1 is there; when the transaction that it spends is found, it has the output, and
the transaction has the outputs that are compared with it. -/
def AmountReads (tx : CTransaction) (funcid : ChannelFuncId) : Prop :=
  ∃ vin1, tx.vin[1]? = some vin1 ∧ ∀ vinTx, env.getTransaction vin1.prevout.hash = some vinTx →
    vin1.prevout.n.toNat < vinTx.vout.length ∧ funcid.minVouts ≤ tx.vout.length

/-- The opening transaction has an input, and outputs if that is a normal one. -/
def OpenReads (openTx : CTransaction) : Prop :=
  ∃ vin0, openTx.vin[0]? = some vin0 ∧
    (env.isCCInput vin0.scriptSig = false → openTx.vout ≠ [])

/-- The amounts match and the opening transaction is found. -/
structure Opened (tx : CTransaction) (opret : ChannelOpret) (openTx : CTransaction)
    (ch : Channel) : Prop where
  /-- The op_return. -/
  opret_eq : channelOpretOf tx = some opret
  /-- It spends from the channel. -/
  spends : opret.funcid.Spends
  /-- Input 1 matches the outputs. -/
  exact_eq : env.channelsExactAmounts tx = .ok true
  /-- The opening transaction is found. -/
  open_eq : env.getTransaction opret.opentxid = some openTx
  /-- It describes the channel. -/
  channel_eq : channelOf openTx opret = .ok ch

/-- What a payment has passed before its last input is looked at. -/
structure PaymentPassed (ch : Channel) (openTx tx prevTx : CTransaction) (opret : ChannelOpret) :
    Prop where
  /-- The opening transaction. -/
  opened : env.checkOpen ch opret.opentxid openTx = .ok ()
  /-- The kinds of two inputs. -/
  kinds : env.checkVinKinds tx "channelpayment" " is CC for " = .ok ()
  /-- The markers. -/
  markers : env.checkMarkers ch tx 1 "channelpayment" = .ok ()
  /-- The payout. -/
  payout : ∃ vout3, tx.vout[3]? = some vout3 ∧
    env.constrainPayout ch ch.destpub vout3 (toInt64 (opret.param2 * ch.payment)) = true ∧
    vout3.nValue = toInt64 (opret.param2 * ch.payment)
  /-- The number of payments. -/
  few : opret.param1 ≤ channelsMaxpayments
  /-- The secret. -/
  secret : ch.hashchain =
    env.genhashchain opret.param3 (toInt32 (ch.numpayments - opret.param1))
  /-- The change, by the op_return before. -/
  change : ∃ p vout0, channelOpretOf prevTx = some p ∧ tx.vout[0]? = some vout0 ∧
    env.constrainVout vout0 true (some (env.channeladdress ch))
      (toInt64 ((p.param1 - opret.param2) * ch.payment)) = true

/-- What a close has passed before its last input is looked at. -/
structure ClosePassed (ch : Channel) (openTx tx prevTx : CTransaction) (opret : ChannelOpret) :
    Prop where
  /-- The opening transaction. -/
  opened : env.checkOpen ch opret.opentxid openTx = .ok ()
  /-- The kinds of two inputs. -/
  kinds : env.checkVinKinds tx "channelclose" " is CC for " = .ok ()
  /-- The funds. -/
  funds : ∃ vout0, tx.vout[0]? = some vout0 ∧
    env.constrainVout vout0 true (some (env.channeladdress ch)) 0 = true
  /-- The markers. -/
  markers : env.checkMarkers ch tx 1 "channelclose" = .ok ()
  /-- The number of payments. -/
  few : opret.param1 ≤ channelsMaxpayments
  /-- The op_return before. -/
  prev : (channelOpretOf prevTx).isSome

/-- What a refund has passed before its last input is looked at. -/
structure RefundPassed (ch : Channel) (openTx tx prevTx : CTransaction) (opret : ChannelOpret) :
    Prop where
  /-- The opening transaction. -/
  opened : env.checkOpen ch opret.opentxid openTx = .ok ()
  /-- The depth of the close. -/
  closed : env.txnotarizedconfirmed opret.param3 = true
  /-- The kinds of two inputs. -/
  kinds : env.checkVinKinds tx "channelrefund" " CC for " = .ok ()
  /-- The markers. -/
  markers : env.checkMarkers ch tx 0 "channelrefund" = .ok ()
  /-- The payout. -/
  payout : ∃ vout2, tx.vout[2]? = some vout2 ∧
    env.constrainPayout ch ch.srcpub vout2 (toInt64 (opret.param1 * ch.payment)) = true
  /-- The number of payments. -/
  few : opret.param1 ≤ channelsMaxpayments
  /-- The op_return before. -/
  prev : (channelOpretOf prevTx).isSome

/-- What a transaction has passed before its last input is looked at. -/
def LastVinPassed (ch : Channel) (openTx tx prevTx : CTransaction) (opret : ChannelOpret) : Prop :=
  match opret.funcid with
  | .channelPayment => env.PaymentPassed ch openTx tx prevTx opret
  | .channelClose => env.ClosePassed ch openTx tx prevTx opret
  | .channelRefund => env.RefundPassed ch openTx tx prevTx opret
  | _ => False

/-- The last input, when it is one of the contract, spends an output with a number that the
transaction of input 1 has. -/
def LastVinReads (tx prevTx : CTransaction) : Prop :=
  ∀ vin, tx.vin[tx.vin.length - 1]? = some vin → env.isMyVin evalChannels vin.scriptSig = true →
    vin.prevout.n.toNat < prevTx.vout.length

/-- Every read of the validation that is reached is inside. -/
structure ReadsInside (tx : CTransaction) : Prop where
  /-- The amounts. -/
  amounts : ∀ opret, channelOpretOf tx = some opret → opret.funcid.Spends →
    env.AmountReads tx opret.funcid
  /-- The opening transaction. -/
  opening : ∀ opret openTx ch, env.Opened tx opret openTx ch → env.OpenReads openTx
  /-- The last input. -/
  last : ∀ opret openTx ch vin1 prevTx, env.Opened tx opret openTx ch →
    tx.vin[1]? = some vin1 → env.getTransaction vin1.prevout.hash = some prevTx →
    env.LastVinPassed ch openTx tx prevTx opret → env.LastVinReads tx prevTx

/-! ## The parts of the validation -/

variable {env} {tx openTx prevTx : CTransaction} {opret : ChannelOpret} {ch : Channel}

/-- The outputs are compared when there are enough of them. -/
theorem judged_matchedOutputs_iff (hop : channelOpretOf tx = some opret) {funcid : ChannelFuncId}
    (hspends : funcid.Spends) {k : Int → Bool} :
    Judged (matchedOutputs tx funcid >>= fun outputs => return k outputs) ↔
      funcid.minVouts ≤ tx.vout.length := by
  have hpos : 0 < tx.vout.length := by
    obtain ⟨last, hlast, -⟩ := Option.bind_eq_some_iff.1 hop
    exact List.length_pos_of_mem (List.mem_of_getLast? hlast)
  have hret : ∀ b : Bool, Judged (return b : Except Failure Bool) := fun b => Judged.ok b
  cases funcid with
  | channelOpen => cases hspends
  | illegal => cases hspends
  | channelPayment =>
    simp only [matchedOutputs, bind_assoc, Judged.out_bind_iff, pure_bind, hret, and_true,
      ChannelFuncId.minVouts]
    constructor
    · rintro ⟨_, _, _, hget⟩
      exact (List.getElem?_eq_some_iff.1 hget).1
    · intro hlen
      exact ⟨_, List.getElem?_eq_getElem hpos, _, List.getElem?_eq_getElem hlen⟩
  | channelClose =>
    simp only [matchedOutputs, bind_assoc, Judged.out_bind_iff, pure_bind, hret, and_true,
      ChannelFuncId.minVouts]
    exact ⟨fun _ => hpos, fun _ => ⟨_, List.getElem?_eq_getElem hpos⟩⟩
  | channelRefund =>
    simp only [matchedOutputs, bind_assoc, Judged.out_bind_iff, pure_bind, hret, and_true,
      ChannelFuncId.minVouts]
    constructor
    · rintro ⟨_, hget⟩
      exact (List.getElem?_eq_some_iff.1 hget).1
    · intro hlen
      exact ⟨_, List.getElem?_eq_getElem hlen⟩

/-- `ChannelsExactAmounts` of a transaction that spends from a channel. -/
theorem channelsExactAmounts_eq (hop : channelOpretOf tx = some opret)
    (hspends : opret.funcid.Spends) :
    env.channelsExactAmounts tx = (tx.inp 1 >>= fun vin1 =>
      match env.getTransaction vin1.prevout.hash with
      | none => return false
      | some vinTx => vinTx.spent vin1.prevout.n.toNat >>= fun out =>
        matchedOutputs tx opret.funcid >>= fun outputs => return out.nValue == outputs) := by
  have hinputs : ∀ k : Option Int → Except Failure Bool, (env.vin1Value tx >>= k) =
      (tx.inp 1 >>= fun vin1 => match env.getTransaction vin1.prevout.hash with
        | none => k none
        | some vinTx => vinTx.spent vin1.prevout.n.toNat >>= fun out => k (some out.nValue)) := by
    intro k
    unfold vin1Value
    rw [bind_assoc]
    congr 1
    funext vin1
    cases env.getTransaction vin1.prevout.hash with
    | none => rfl
    | some vinTx => simp only [bind_assoc, pure_bind]
  unfold channelsExactAmounts
  rw [hop]
  cases hf : opret.funcid with
  | channelOpen =>
    rw [hf] at hspends
    cases hspends
  | illegal =>
    rw [hf] at hspends
    cases hspends
  | channelPayment =>
    simp only [hf]
    exact hinputs _
  | channelClose =>
    simp only [hf]
    exact hinputs _
  | channelRefund =>
    simp only [hf]
    exact hinputs _

theorem judged_exactAmounts_iff (hop : channelOpretOf tx = some opret)
    (hspends : opret.funcid.Spends) :
    Judged (env.channelsExactAmounts tx) ↔ env.AmountReads tx opret.funcid := by
  rw [channelsExactAmounts_eq hop hspends, Judged.inp_bind_iff]
  unfold AmountReads
  apply exists_congr
  intro vin1
  apply and_congr_right
  intro hvin1
  cases hfound : env.getTransaction vin1.prevout.hash with
  | none => exact ⟨(fun _ _ h => nomatch h), fun _ => Judged.ok _⟩
  | some vinTx =>
    simp only [Judged.spent_bind_iff, judged_matchedOutputs_iff hop hspends, Option.some.injEq,
      forall_eq']
    constructor
    · rintro ⟨out, hget, hlen⟩
      exact ⟨(List.getElem?_eq_some_iff.1 hget).1, hlen⟩
    · rintro ⟨hn, hlen⟩
      exact ⟨_, List.getElem?_eq_getElem hn, hlen⟩

/-- The opening transaction: what follows a condition output is there. -/
theorem judged_checkOpen_iff {txid : Uint256} (hch : channelOf openTx opret = .ok ch) :
    Judged (env.checkOpen ch txid openTx) ↔ env.OpenReads openTx := by
  unfold checkOpen OpenReads
  cases hvin : openTx.vin[0]? with
  | none =>
    refine ⟨fun h => absurd (fun _ => nofun) (h (.spentOutOfBounds 0) rfl), ?_⟩
    rintro ⟨vin0, hvin0, -⟩
    cases hvin0
  | some vin0 =>
    simp only [Judged.require_bind_iff, Judged.spent_bind_iff, Bool.not_eq_true', Option.some.injEq,
      exists_eq_left']
    apply imp_congr_right
    intro _
    constructor
    · rintro ⟨vout0, hget, -⟩ hnil
      rw [hnil] at hget
      cases hget
    · intro hne
      -- outputs that are there end with the op_return that opens the channel
      have hopen : ∃ o, channelOpretOf openTx = some o := by
        unfold channelOf at hch
        rw [if_neg (by simpa using hne)] at hch
        cases ho : channelOpretOf openTx with
        | none =>
          rw [ho] at hch
          cases hch
        | some o => exact ⟨o, rfl⟩
      obtain ⟨o, ho⟩ := hopen
      obtain ⟨vout0, rest, hvout⟩ := List.exists_cons_of_ne_nil hne
      refine ⟨vout0, by rw [hvout]; rfl, fun hc0 => ?_⟩
      have hget0 : openTx.vout[0]? = some vout0 := by
        rw [hvout]
        rfl
      obtain ⟨vout1, hget1⟩ := exists_next_vout ho hget0 (CCLib.isCC_of_constrainVout hc0)
      refine ⟨vout1, hget1, fun hc1 => ?_⟩
      obtain ⟨vout2, hget2⟩ := exists_next_vout ho hget1 (CCLib.isCC_of_constrainVout hc1)
      exact ⟨vout2, hget2, fun _ => Judged.require _ _⟩

theorem judged_checkVinKinds {vin1 : CTxIn} (hvin1 : tx.vin[1]? = some vin1) (name isCC : String) :
    Judged (env.checkVinKinds tx name isCC) := by
  have hlen : 1 < tx.vin.length := (List.getElem?_eq_some_iff.1 hvin1).1
  unfold checkVinKinds
  rw [Judged.inp_bind_iff]
  refine ⟨_, List.getElem?_eq_getElem (by omega), ?_⟩
  rw [Judged.require_bind_iff]
  intro _
  rw [Judged.inp_bind_iff]
  exact ⟨_, List.getElem?_eq_getElem (by omega), Judged.require _ _⟩

theorem judged_checkMarkers (hop : channelOpretOf tx = some opret) {v : Nat}
    (hv : v < tx.vout.length) (name : String) : Judged (env.checkMarkers ch tx v name) := by
  unfold checkMarkers
  rw [Judged.out_bind_iff]
  refine ⟨_, List.getElem?_eq_getElem hv, ?_⟩
  rw [Judged.require_bind_iff]
  intro hc
  obtain ⟨out', hget⟩ := exists_next_vout hop (List.getElem?_eq_getElem hv)
    (CCLib.isCC_of_constrainVout hc)
  rw [Judged.out_bind_iff]
  exact ⟨out', hget, Judged.require _ _⟩

theorem judged_checkLastVin_iff {vin1 : CTxIn} (hvin1 : tx.vin[1]? = some vin1) (name : String)
    {k : Unit → Except Failure Unit} (hk : Judged (k ())) :
    Judged (env.checkLastVin tx prevTx name >>= k) ↔ env.LastVinReads tx prevTx := by
  have hlen : 1 < tx.vin.length := (List.getElem?_eq_some_iff.1 hvin1).1
  have hget : tx.vin[tx.vin.length - 1]? = some tx.vin[tx.vin.length - 1] :=
    List.getElem?_eq_getElem (by omega)
  unfold checkLastVin LastVinReads
  simp only [bind_assoc, Judged.inp_bind_iff, hget, Option.some.injEq, exists_eq_left', forall_eq',
    Judged.require_bind_iff, Judged.spent_bind_iff]
  apply imp_congr_right
  intro _
  constructor
  · rintro ⟨out, hout, -⟩
    exact (List.getElem?_eq_some_iff.1 hout).1
  · intro hn
    exact ⟨_, List.getElem?_eq_getElem hn, fun _ => hk⟩

theorem withPrev_eq {vin1 : CTxIn} (hvin1 : tx.vin[1]? = some vin1)
    (hprev : env.getTransaction vin1.prevout.hash = some prevTx)
    (check : CTransaction → Except Failure Unit) : env.withPrev tx check = check prevTx := by
  unfold withPrev CTransaction.inp
  rw [hvin1, except_ok_bind]
  simp only [hprev]

theorem judged_prevOpret_bind_iff {β : Type} {k : ChannelOpret → Except Failure β} :
    Judged (prevOpret prevTx >>= k) ↔ ∀ p, channelOpretOf prevTx = some p → Judged (k p) := by
  unfold prevOpret
  cases channelOpretOf prevTx with
  | none => exact ⟨(fun _ p h => nomatch h), fun _ => Judged.invalid _⟩
  | some p =>
    rw [except_ok_bind]
    exact ⟨fun h p' hp => by cases hp; exact h, fun h => h p rfl⟩

/-! ## The cases -/

/-- What is known before the cases of the validation. -/
structure CaseReads (tx prevTx : CTransaction) (opret : ChannelOpret) : Prop where
  /-- The op_return. -/
  opret_eq : channelOpretOf tx = some opret
  /-- The outputs are there. -/
  vouts : opret.funcid.minVouts ≤ tx.vout.length
  /-- Input 1 is there, its transaction is found. -/
  vin1 : ∃ vin1, tx.vin[1]? = some vin1 ∧ env.getTransaction vin1.prevout.hash = some prevTx
  /-- That transaction has outputs. -/
  prev_ne : prevTx.vout ≠ []

theorem exists_prevVout0 {α : Type} {k : CTxOut → Except Failure α}
    (hprev : prevTx.vout ≠ []) (hk : ∀ out, Judged (k out)) : Judged (prevTx.spent 0 >>= k) := by
  obtain ⟨out, rest, hvout⟩ := List.exists_cons_of_ne_nil hprev
  rw [Judged.spent_bind_iff, hvout]
  exact ⟨out, rfl, hk out⟩

/-- The checks of a payment against the transaction that input 1 spends. -/
theorem judged_checkPaymentPrev_iff (h : env.CaseReads tx prevTx opret)
    (hlen : 4 ≤ tx.vout.length) :
    Judged (env.checkPaymentPrev ch tx prevTx opret) ↔
      ((∃ p vout0, channelOpretOf prevTx = some p ∧ tx.vout[0]? = some vout0 ∧
        env.constrainVout vout0 true (some (env.channeladdress ch))
          (toInt64 ((p.param1 - opret.param2) * ch.payment)) = true) →
        env.LastVinReads tx prevTx) := by
  obtain ⟨vin1, hvin1, -⟩ := h.vin1
  have hget0 : tx.vout[0]? = some tx.vout[0] := List.getElem?_eq_getElem (by omega)
  have hget3 : tx.vout[3]? = some tx.vout[3] := List.getElem?_eq_getElem (by omega)
  have hrest : ∀ p : ChannelOpret, Judged (require
      (toInt64 (opret.param1 + opret.param2) == p.param1) (.invalid "invalid payment depth!") >>=
      fun _ => tx.out 3 >>= fun vout3 => prevTx.spent 0 >>= fun prevVout0 =>
      require (decide (vout3.nValue ≤ prevVout0.nValue))
        (.invalid "not enough funds in channel for that amount!")) := by
    intro p
    rw [Judged.require_bind_iff]
    intro _
    rw [Judged.out_bind_iff]
    exact ⟨_, hget3, exists_prevVout0 h.prev_ne fun _ => Judged.require _ _⟩
  unfold checkPaymentPrev
  rw [judged_prevOpret_bind_iff]
  constructor
  · rintro hall ⟨p, vout0, hp, hget, hc⟩
    obtain ⟨vout0', hget', hjudged⟩ := Judged.out_bind_iff.1 (hall p hp)
    rw [hget] at hget'
    cases hget'
    exact (judged_checkLastVin_iff hvin1 _ (hrest p)).1 (Judged.require_bind_iff.1 hjudged hc)
  · intro hlast p hp
    rw [Judged.out_bind_iff]
    refine ⟨_, hget0, Judged.require_bind_iff.2 fun hc => ?_⟩
    exact (judged_checkLastVin_iff hvin1 _ (hrest p)).2 (hlast ⟨p, _, hp, hget0, hc⟩)

/-- The reads of a payment. -/
theorem judged_checkPayment_iff (h : env.CaseReads tx prevTx opret)
    (hfuncid : opret.funcid = .channelPayment) (hch : channelOf openTx opret = .ok ch) :
    Judged (env.checkPayment ch openTx tx opret) ↔ env.OpenReads openTx ∧
      (env.PaymentPassed ch openTx tx prevTx opret → env.LastVinReads tx prevTx) := by
  obtain ⟨vin1, hvin1, hprev⟩ := h.vin1
  have hlen : 4 ≤ tx.vout.length := by
    have := h.vouts
    rw [hfuncid] at this
    exact this
  have hget3 : tx.vout[3]? = some tx.vout[3] := List.getElem?_eq_getElem (by omega)
  unfold checkPayment
  rw [Judged.bind_iff, judged_checkOpen_iff hch]
  apply and_congr_right
  intro _
  simp only [Judged.unit_bind_iff (judged_checkVinKinds hvin1 _ _),
    Judged.unit_bind_iff (judged_checkMarkers h.opret_eq (show 1 < tx.vout.length by omega) _),
    Judged.out_bind_iff, hget3, Option.some.injEq, exists_eq_left', Judged.require_bind_iff,
    withPrev_eq hvin1 hprev, judged_checkPaymentPrev_iff h hlen, decide_eq_true_eq, beq_iff_eq]
  constructor
  · intro hall hpassed
    obtain ⟨vout3, hget, hpay, hvalue⟩ := hpassed.payout
    rw [hget3] at hget
    cases hget
    exact hall () hpassed.opened hpassed.kinds hpassed.markers hpay hpassed.few hpassed.secret
      hvalue hpassed.change
  · intro hlast _ hopened hkinds hmarkers hpay hfew hsecret hvalue hchange
    exact hlast ⟨hopened, hkinds, hmarkers, ⟨_, hget3, hpay, hvalue⟩, hfew, hsecret, hchange⟩

/-- The reads of a close. -/
theorem judged_checkClose_iff (h : env.CaseReads tx prevTx opret)
    (hch : channelOf openTx opret = .ok ch) :
    Judged (env.checkClose ch openTx tx opret) ↔ env.OpenReads openTx ∧
      (env.ClosePassed ch openTx tx prevTx opret → env.LastVinReads tx prevTx) := by
  obtain ⟨vin1, hvin1, hprev⟩ := h.vin1
  have hpos : 0 < tx.vout.length := by
    obtain ⟨last, hlast, -⟩ := Option.bind_eq_some_iff.1 h.opret_eq
    exact List.length_pos_of_mem (List.mem_of_getLast? hlast)
  have hget0 : tx.vout[0]? = some tx.vout[0] := List.getElem?_eq_getElem hpos
  have hrest : Judged (prevTx.spent 0 >>= fun prevVout0 =>
      require (tx.vout[0].nValue == prevVout0.nValue)
        (.invalid "invalid CC amount, amount must match funds in channel")) :=
    exists_prevVout0 h.prev_ne fun _ => Judged.require _ _
  unfold checkClose
  rw [Judged.bind_iff, judged_checkOpen_iff hch]
  apply and_congr_right
  intro _
  simp only [Judged.unit_bind_iff (judged_checkVinKinds hvin1 _ _), Judged.out_bind_iff, hget0,
    Option.some.injEq, exists_eq_left', Judged.require_bind_iff]
  constructor
  · intro hall hpassed
    obtain ⟨vout0, hget, hfunds⟩ := hpassed.funds
    obtain ⟨p, hp⟩ := Option.isSome_iff_exists.1 hpassed.prev
    rw [hget0] at hget
    cases hget
    have hjudged := hall () hpassed.opened hpassed.kinds hfunds
    obtain ⟨vout1, hget1⟩ := exists_next_vout h.opret_eq hget0 (CCLib.isCC_of_constrainVout hfunds)
    rw [Judged.unit_bind_iff (judged_checkMarkers h.opret_eq
      (List.getElem?_eq_some_iff.1 hget1).1 _)] at hjudged
    have hjudged := Judged.require_bind_iff.1 (hjudged hpassed.markers)
      (decide_eq_true hpassed.few)
    rw [withPrev_eq hvin1 hprev, judged_prevOpret_bind_iff] at hjudged
    exact (judged_checkLastVin_iff hvin1 _ hrest).1 (hjudged p hp)
  · intro hlast _ hopened hkinds hfunds
    obtain ⟨vout1, hget1⟩ := exists_next_vout h.opret_eq hget0 (CCLib.isCC_of_constrainVout hfunds)
    rw [Judged.unit_bind_iff (judged_checkMarkers h.opret_eq
      (List.getElem?_eq_some_iff.1 hget1).1 _)]
    intro hmarkers
    rw [Judged.require_bind_iff, withPrev_eq hvin1 hprev, judged_prevOpret_bind_iff]
    intro hfew p hp
    apply (judged_checkLastVin_iff hvin1 _ hrest).2
    apply hlast
    exact ⟨hopened, hkinds, ⟨_, hget0, hfunds⟩, hmarkers, of_decide_eq_true hfew,
      Option.isSome_iff_exists.2 ⟨p, hp⟩⟩

/-- The reads of a refund. -/
theorem judged_checkRefund_iff (h : env.CaseReads tx prevTx opret)
    (hfuncid : opret.funcid = .channelRefund) (hch : channelOf openTx opret = .ok ch) :
    Judged (env.checkRefund ch openTx tx opret) ↔ env.OpenReads openTx ∧
      (env.RefundPassed ch openTx tx prevTx opret → env.LastVinReads tx prevTx) := by
  obtain ⟨vin1, hvin1, hprev⟩ := h.vin1
  have hlen : 3 ≤ tx.vout.length := by
    have := h.vouts
    rw [hfuncid] at this
    exact this
  have hget2 : tx.vout[2]? = some tx.vout[2] := List.getElem?_eq_getElem (by omega)
  have hrest : Judged (prevTx.spent 0 >>= fun prevVout0 =>
      require (tx.vout[2].nValue == prevVout0.nValue)
        (.invalid "invalid amount, refund amount and funds in channel must match!")) :=
    exists_prevVout0 h.prev_ne fun _ => Judged.require _ _
  unfold checkRefund
  rw [Judged.bind_iff, judged_checkOpen_iff hch]
  apply and_congr_right
  intro _
  simp only [Judged.unit_bind_iff (judged_checkVinKinds hvin1 _ _),
    Judged.unit_bind_iff (judged_checkMarkers h.opret_eq (show 0 < tx.vout.length by omega) _),
    Judged.out_bind_iff, hget2, Option.some.injEq, exists_eq_left', Judged.require_bind_iff,
    withPrev_eq hvin1 hprev, judged_prevOpret_bind_iff, decide_eq_true_eq]
  constructor
  · intro hall hpassed
    obtain ⟨vout2, hget, hpay⟩ := hpassed.payout
    obtain ⟨p, hp⟩ := Option.isSome_iff_exists.1 hpassed.prev
    rw [hget2] at hget
    cases hget
    exact (judged_checkLastVin_iff hvin1 _ hrest).1
      (hall () hpassed.opened hpassed.closed hpassed.kinds hpassed.markers hpay hpassed.few p hp)
  · intro hlast _ hopened hclosed hkinds hmarkers hpay hfew p hp
    apply (judged_checkLastVin_iff hvin1 _ hrest).2
    exact hlast ⟨hopened, hclosed, hkinds, hmarkers, ⟨_, hget2, hpay⟩, hfew,
      Option.isSome_iff_exists.2 ⟨p, hp⟩⟩

/-- The case of a function that spends from the channel. -/
theorem judged_channelsCase_iff (h : env.CaseReads tx prevTx opret)
    (hspends : opret.funcid.Spends) (hch : channelOf openTx opret = .ok ch) :
    Judged (env.channelsCase ch openTx tx opret) ↔ env.OpenReads openTx ∧
      (env.LastVinPassed ch openTx tx prevTx opret → env.LastVinReads tx prevTx) := by
  unfold channelsCase LastVinPassed
  cases hf : opret.funcid with
  | channelOpen =>
    rw [hf] at hspends
    cases hspends
  | illegal =>
    rw [hf] at hspends
    cases hspends
  | channelPayment => exact judged_checkPayment_iff h hf hch
  | channelClose => exact judged_checkClose_iff h hch
  | channelRefund => exact judged_checkRefund_iff h hf hch

/-- What follows the amounts of a transaction that names its channel. -/
theorem judged_validate_iff (hop : channelOpretOf tx = some opret) :
    Judged (env.channelsValidate tx) ↔ Judged (env.channelsExactAmounts tx) ∧
      (env.channelsExactAmounts tx = .ok true → ∀ openTx ch,
        env.getTransaction opret.opentxid = some openTx → channelOf openTx opret = .ok ch →
        Judged (env.channelsCase ch openTx tx opret)) := by
  have hne : tx.vout.isEmpty = false := by
    obtain ⟨last, hlast, -⟩ := Option.bind_eq_some_iff.1 hop
    have hmem := List.mem_of_getLast? hlast
    cases hv : tx.vout with
    | nil =>
      rw [hv] at hmem
      cases hmem
    | cons out rest => rfl
  unfold channelsValidate
  rw [Judged.require_bind_iff, forall_prop_of_true (by rw [hne]; rfl), Judged.bind_iff]
  apply and_congr_right
  intro _
  simp only [Judged.require_bind_iff, hop]
  constructor
  · intro hall hexact openTx ch hopen hch
    have hjudged := hall true hexact rfl
    simp only [hopen, Judged.bind_iff] at hjudged
    exact hjudged.2 ch hch
  · intro hall exact hexact htrue
    rw [htrue] at hexact
    cases hopen : env.getTransaction opret.opentxid with
    | none => exact Judged.invalid _
    | some openTx =>
      simp only [Judged.bind_iff]
      refine ⟨?_, fun ch hch => hall hexact openTx ch hopen hch⟩
      unfold channelOf
      by_cases hempty : openTx.vout.isEmpty = true
      · rw [if_pos hempty]
        exact Judged.ok _
      · rw [if_neg hempty]
        cases channelOpretOf openTx with
        | none => exact Judged.invalid _
        | some o =>
          by_cases hfuncid : o.funcid = .channelOpen
          · simp only [if_pos hfuncid]
            exact Judged.ok _
          · simp only [if_neg hfuncid]
            exact Judged.invalid _

/-- Amounts that match were read from outputs that are there. -/
theorem AmountReads.caseReads (h : env.AmountReads tx opret.funcid)
    (hop : channelOpretOf tx = some opret) (hspends : opret.funcid.Spends)
    (hexact : env.channelsExactAmounts tx = .ok true) :
    ∃ prevTx, env.CaseReads tx prevTx opret := by
  obtain ⟨vin1, hvin1, hreads⟩ := h
  rw [channelsExactAmounts_eq hop hspends, CTransaction.inp, hvin1] at hexact
  simp only [except_ok_bind] at hexact
  cases hprev : env.getTransaction vin1.prevout.hash with
  | none =>
    simp only [hprev] at hexact
    cases hexact
  | some prevTx =>
    obtain ⟨hn, hlen⟩ := hreads prevTx hprev
    exact ⟨prevTx, hop, hlen, ⟨vin1, hvin1, hprev⟩, List.ne_nil_of_length_pos (by omega)⟩

theorem CaseReads.prev_eq (h : env.CaseReads tx prevTx opret) {vin1 : CTxIn}
    {prevTx' : CTransaction} (hvin1 : tx.vin[1]? = some vin1)
    (hprev : env.getTransaction vin1.prevout.hash = some prevTx') : prevTx' = prevTx := by
  obtain ⟨vin1', hvin1', hprev'⟩ := h.vin1
  rw [hvin1] at hvin1'
  cases hvin1'
  rw [hprev] at hprev'
  exact Option.some.inj hprev'

/-- A transaction that does not spend from a channel. -/
theorem judged_of_not_spends (hop : channelOpretOf tx = some opret)
    (hspends : ¬ opret.funcid.Spends) : Judged (env.channelsValidate tx) := by
  rw [judged_validate_iff hop]
  unfold channelsExactAmounts channelsCase
  rw [hop]
  cases hf : opret.funcid with
  | channelOpen =>
    simp only [hf]
    exact ⟨Judged.ok _, fun _ _ _ _ _ => Judged.invalid _⟩
  | illegal =>
    simp only [hf]
    exact ⟨Judged.ok _, fun _ _ _ _ _ => Judged.invalid _⟩
  | channelPayment => exact absurd (by rw [hf]; trivial) hspends
  | channelClose => exact absurd (by rw [hf]; trivial) hspends
  | channelRefund => exact absurd (by rw [hf]; trivial) hspends

/-- A transaction that spends from a channel. -/
theorem judged_iff_of_spends (hop : channelOpretOf tx = some opret)
    (hspends : opret.funcid.Spends) : Judged (env.channelsValidate tx) ↔ env.ReadsInside tx := by
  rw [judged_validate_iff hop, judged_exactAmounts_iff hop hspends]
  constructor
  · rintro ⟨hamounts, hcase⟩
    have hsame : ∀ opret', channelOpretOf tx = some opret' → opret' = opret := by
      intro opret' hop'
      rw [hop] at hop'
      exact (Option.some.inj hop').symm
    refine ⟨?_, ?_, ?_⟩
    · intro opret' hop' _
      rw [hsame opret' hop']
      exact hamounts
    · intro opret' openTx ch hopened
      obtain rfl := hsame opret' hopened.opret_eq
      obtain ⟨prevTx, hreads⟩ := hamounts.caseReads hop hspends hopened.exact_eq
      have hjudged := hcase hopened.exact_eq openTx ch hopened.open_eq hopened.channel_eq
      exact ((judged_channelsCase_iff hreads hspends hopened.channel_eq).1 hjudged).1
    · intro opret' openTx ch vin1 prevTx hopened hvin1 hprev hpassed
      obtain rfl := hsame opret' hopened.opret_eq
      obtain ⟨prevTx', hreads⟩ := hamounts.caseReads hop hspends hopened.exact_eq
      obtain rfl := hreads.prev_eq hvin1 hprev
      have hjudged := hcase hopened.exact_eq openTx ch hopened.open_eq hopened.channel_eq
      exact ((judged_channelsCase_iff hreads hspends hopened.channel_eq).1 hjudged).2 hpassed
  · intro hinside
    have hamounts := hinside.amounts opret hop hspends
    refine ⟨hamounts, fun hexact openTx ch hopen hch => ?_⟩
    obtain ⟨prevTx, hreads⟩ := hamounts.caseReads hop hspends hexact
    obtain ⟨vin1, hvin1, hprev⟩ := hreads.vin1
    have hopened : env.Opened tx opret openTx ch := ⟨hop, hspends, hexact, hopen, hch⟩
    exact (judged_channelsCase_iff hreads hspends hch).2
      ⟨hinside.opening opret openTx ch hopened,
        hinside.last opret openTx ch vin1 prevTx hopened hvin1 hprev⟩

theorem ReadsInside.of_not_spends
    (h : ∀ opret, channelOpretOf tx = some opret → ¬ opret.funcid.Spends) :
    env.ReadsInside tx where
  amounts opret hop hspends := absurd hspends (h opret hop)
  opening opret _ _ hopened := absurd hopened.spends (h opret hopened.opret_eq)
  last opret _ _ _ _ hopened := absurd hopened.spends (h opret hopened.opret_eq)

/-- The validation of a channels transaction ends with a verdict exactly when every read
that is reached is inside. -/
theorem channelsValidate_judged_iff (env : ChannelsEnv) (tx : CTransaction) :
    Judged (env.channelsValidate tx) ↔ env.ReadsInside tx := by
  cases hop : channelOpretOf tx with
  | none =>
    refine ⟨fun _ => .of_not_spends fun opret hopret => ?_, fun _ => ?_⟩
    · rw [hop] at hopret
      cases hopret
    · unfold channelsValidate channelsExactAmounts
      rw [Judged.require_bind_iff, hop]
      intro _
      exact Judged.invalid _
  | some opret =>
    by_cases hspends : opret.funcid.Spends
    · exact judged_iff_of_spends hop hspends
    · refine ⟨fun _ => .of_not_spends fun opret' hopret => ?_,
        fun _ => judged_of_not_spends hop hspends⟩
      rw [hop] at hopret
      cases hopret
      exact hspends

end ChannelsEnv

end IndexChain
