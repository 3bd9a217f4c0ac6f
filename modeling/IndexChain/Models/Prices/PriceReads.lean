import IndexChain.Models.CC.ChannelReads
import IndexChain.Models.CC.History
import IndexChain.Models.Prices.Validate

/-!
# What the validation of a price bet reads

`PricesValidate` looks at the second byte of the op_return behind every condition input,
whether there is one or not. `pricesValidate_judged_iff` says for which transactions every
read is inside.
-/

namespace IndexChain.Prices

open IndexChain.Core

/-- Outputs up to the first op_return have scripts, and that one has three bytes. -/
def OpretReads : List CTxOut → Prop
  | [] => True
  | out :: rest => ∃ opcode, out.scriptPubKey[0]? = some opcode ∧
      if opcode = 0x6a then 3 ≤ out.scriptPubKey.length else OpretReads rest

namespace PricesEnv

variable (env : PricesEnv)

/-- The transaction with the script of the fees, when it is looked for: it is in a block,
and its op_return is long enough. -/
def EarlyReads : Prop :=
  env.earlytxidcontract = evalPrices.toNat → env.earlytxidScriptpub = [] → env.earlytxid ≠ 0 →
    env.snapshotInterval ≠ 0 → 100 ≤ env.height → ∀ tx, env.getTransaction env.earlytxid = some tx →
    ∃ height, env.txHeight env.earlytxid = some height ∧ (height < 100 → OpretReads tx.vout)

/-- The normal inputs of a bet spend outputs that are there. -/
def InputReads (bettx : CTransaction) : Prop :=
  ∀ txin ∈ bettx.vin, env.isCCInput txin.scriptSig = false →
    ∀ vintx, env.getTransaction txin.prevout.hash = some vintx →
    txin.prevout.n.toNat < vintx.vout.length

/-- What a bet has passed before its inputs are looked at. -/
structure BetPassed (bettx : CTransaction) : Prop where
  /-- The number of outputs. -/
  length : 6 ≤ bettx.vout.length ∧ bettx.vout.length ≤ 7
  /-- The op_return and the outputs. -/
  vouts : ∃ bet feeScript,
    (bettx.vout.getLast?.bind fun out => pricesBetopretdecode out.scriptPubKey) = some bet ∧
    env.feeScript = .ok feeScript ∧ env.checkBetVouts bet feeScript bettx = .ok ()

/-- The transaction before a condition input that is reached has an op_return with two
bytes. -/
def VinOpretReads (vins : List CTxIn) : Prop :=
  ∀ before vin after vintx, vins = before ++ vin :: after →
    (∀ v ∈ before, env.isMyVin evalPrices v.scriptSig = true →
      (env.getTransaction v.prevout.hash).isSome) →
    env.isMyVin evalPrices vin.scriptSig = true →
    env.getTransaction vin.prevout.hash = some vintx → 1 < (pricesCheckOpret vintx).2.length

/-- The validation of the bet is reached. -/
structure BetReached (tx : CTransaction) (first : FirstVin) : Prop where
  /-- The first condition input. -/
  found : env.findFirstVin (pricesCheckOpret tx).1 tx.vin none = .ok (some first)
  /-- Funds are added to it, or it is settled. -/
  kind : (pricesCheckOpret tx).1 = 0x41 ∧ env.validateAddFundingTx tx first.firstVinTx = .ok () ∧
      first.firstVinTxOpret[1]? = some 0x42 ∨
    (pricesCheckOpret tx).1 ∈ finalFuncids ∧ env.validateFinalTx tx first.firstVinTx = .ok ()

/-- Every read of the validation that is reached is inside. -/
structure ReadsInside (tx : CTransaction) : Prop where
  /-- The op_returns behind the condition inputs, unless the bet is settled. -/
  oprets : (pricesCheckOpret tx).1 ≠ 0 → (pricesCheckOpret tx).1 ∉ finalFuncids →
    env.VinOpretReads tx.vin
  /-- The script of the fees, when funds are added. -/
  early : ∀ first, env.findFirstVin (pricesCheckOpret tx).1 tx.vin none = .ok (some first) →
    (pricesCheckOpret tx).1 = 0x41 → env.EarlyReads
  /-- The script of the fees, and the inputs of the bet. -/
  bet : ∀ first, env.BetReached tx first → env.EarlyReads ∧
    (env.BetPassed first.firstVinTx → env.InputReads first.firstVinTx)

variable {env}

/-! ## The parts of the validation -/

theorem judged_opretByte_bind_iff {β : Type} {opret : List UInt8} {i : Nat}
    {k : UInt8 → Except Failure β} :
    Judged (opretByte opret i >>= k) ↔ ∃ b, opret[i]? = some b ∧ Judged (k b) := by
  unfold opretByte
  cases opret[i]? with
  | none =>
    refine ⟨fun h => absurd (fun _ => nofun) (h (.listOutOfBounds i) rfl), ?_⟩
    rintro ⟨b, hget, -⟩
    cases hget
  | some b => simp [except_ok_bind]

theorem not_judged_error {α : Type} {err : Failure} (h : err.IsCrash) :
    ¬ Judged (.error err : Except Failure α) := fun hj => hj err rfl h

theorem judged_scriptOfOpret_iff (vouts : List CTxOut) :
    Judged (scriptOfOpret vouts) ↔ OpretReads vouts := by
  induction vouts with
  | nil => exact ⟨fun _ => trivial, fun _ => Judged.ok _⟩
  | cons out rest ih =>
    unfold scriptOfOpret OpretReads
    rw [judged_opretByte_bind_iff]
    apply exists_congr
    intro opcode
    apply and_congr_right
    intro _
    by_cases hop : opcode = 0x6a
    · rw [if_pos hop, if_pos hop]
      by_cases hlen : 3 ≤ out.scriptPubKey.length
      · rw [if_pos hlen]
        exact ⟨fun _ => hlen, fun _ => Judged.ok _⟩
      · rw [if_neg hlen]
        exact ⟨fun h => absurd h (not_judged_error fun _ => nofun), fun h => absurd h hlen⟩
    · rw [if_neg hop, if_neg hop]
      exact ih

/-- The reads before the inputs are looked at. -/
theorem judged_feeScript_iff : Judged env.feeScript ↔ env.EarlyReads := by
  unfold feeScript EarlyReads getKomodoEarlytxidScriptPub
  by_cases hcontract : env.earlytxidcontract = evalPrices.toNat
  case neg =>
    rw [if_neg fun h => hcontract h.1]
    exact ⟨fun _ h => absurd h hcontract, fun _ => Judged.ok _⟩
  by_cases hcached : env.earlytxidScriptpub = []
  case neg =>
    rw [if_neg fun h => hcached h.2]
    exact ⟨fun _ _ h => absurd h hcached, fun _ => Judged.ok _⟩
  rw [if_pos ⟨hcontract, hcached⟩]
  by_cases hearly : env.earlytxid = 0
  · rw [if_pos hearly]
    exact ⟨fun _ _ _ h => absurd hearly h, fun _ => Judged.ok _⟩
  rw [if_neg hearly]
  by_cases hsnapshot : env.snapshotInterval = 0
  · rw [if_pos ⟨hcontract, hsnapshot⟩]
    exact ⟨fun _ _ _ _ h => absurd hsnapshot h, fun _ => Judged.ok _⟩
  rw [if_neg fun h => hsnapshot h.2]
  by_cases hheight : env.height < 100
  · rw [if_pos hheight]
    exact ⟨fun _ _ _ _ _ h => absurd hheight (Int.not_lt.2 h), fun _ => Judged.ok _⟩
  rw [if_neg hheight]
  simp only [hcontract, hcached, hearly, hsnapshot, Int.not_lt.1 hheight, ne_eq, not_false_eq_true,
    forall_const]
  cases htx : env.getTransaction env.earlytxid with
  | none => exact ⟨(fun _ _ h => nomatch h), fun _ => Judged.ok _⟩
  | some tx =>
    simp only [Option.some.injEq, forall_eq']
    cases hblock : env.txHeight env.earlytxid with
    | none =>
      refine ⟨fun h => absurd h (not_judged_error fun _ => nofun), ?_⟩
      rintro ⟨height, h, -⟩
      cases h
    | some height =>
      simp only [Option.some.injEq, exists_eq_left']
      by_cases hlt : height < 100
      · rw [if_pos hlt, judged_scriptOfOpret_iff]
        exact ⟨fun h _ => h, fun h => h hlt⟩
      · rw [if_neg hlt]
        exact ⟨fun _ h => absurd h hlt, fun _ => Judged.ok _⟩

/-- An input of a bet is read, or its output is missing. -/
theorem pubkeyNormalInput_ok_or (pubkey : CPubKey) (txin : CTxIn) :
    (∃ value, env.pubkeyNormalInput pubkey txin = .ok value) ∧
      (env.isCCInput txin.scriptSig = false →
        ∀ vintx, env.getTransaction txin.prevout.hash = some vintx →
        txin.prevout.n.toNat < vintx.vout.length) ∨
    (∃ err, env.pubkeyNormalInput pubkey txin = .error err ∧ err.IsCrash) ∧
      ¬ (env.isCCInput txin.scriptSig = false →
        ∀ vintx, env.getTransaction txin.prevout.hash = some vintx →
        txin.prevout.n.toNat < vintx.vout.length) := by
  unfold pubkeyNormalInput
  by_cases hcc : env.isCCInput txin.scriptSig = true
  · rw [if_pos hcc, hcc]
    exact Or.inl ⟨⟨_, rfl⟩, nofun⟩
  rw [if_neg hcc]
  cases hfound : env.getTransaction txin.prevout.hash with
  | none => exact Or.inl ⟨⟨_, rfl⟩, nofun⟩
  | some vintx =>
    simp only [CTransaction.spent, Option.some.injEq, forall_eq']
    by_cases hn : txin.prevout.n.toNat < vintx.vout.length
    · rw [List.getElem?_eq_getElem hn]
      exact Or.inl ⟨⟨_, rfl⟩, fun _ => hn⟩
    · rw [List.getElem?_eq_none (Nat.le_of_not_lt hn)]
      refine Or.inr ⟨⟨_, rfl, fun _ => nofun⟩, fun h => ?_⟩
      exact hn (h (Bool.eq_false_of_not_eq_true hcc))

theorem judged_mapM_inputs_iff (pubkey : CPubKey) (vins : List CTxIn) :
    Judged (vins.mapM (env.pubkeyNormalInput pubkey)) ↔
      ∀ txin ∈ vins, env.isCCInput txin.scriptSig = false →
        ∀ vintx, env.getTransaction txin.prevout.hash = some vintx →
        txin.prevout.n.toNat < vintx.vout.length := by
  induction vins with
  | nil => exact ⟨fun _ _ h => (nomatch h), fun _ => Judged.ok _⟩
  | cons txin rest ih =>
    rw [List.mapM_cons, List.forall_mem_cons]
    rcases env.pubkeyNormalInput_ok_or pubkey txin with ⟨⟨value, hvalue⟩, hin⟩ |
      ⟨⟨err, herr, hcrash⟩, hout⟩
    · rw [hvalue, except_ok_bind, Judged.bind_iff, ih]
      exact ⟨fun h => ⟨hin, h.1⟩, fun h => ⟨h.2, fun _ _ => Judged.ok _⟩⟩
    · rw [herr]
      exact ⟨fun h => absurd h (not_judged_error hcrash), fun h => absurd h.1 hout⟩

theorem judged_totalPubkeyNormalInputs_iff (bettx : CTransaction) (pubkey : CPubKey) :
    Judged (env.totalPubkeyNormalInputs bettx pubkey) ↔ env.InputReads bettx := by
  unfold totalPubkeyNormalInputs
  rw [Judged.bind_iff, judged_mapM_inputs_iff]
  exact ⟨fun h => h.1, fun h => ⟨h, fun _ _ => Judged.ok _⟩⟩

theorem judged_checkBetVouts {bettx : CTransaction} (hlen : 6 ≤ bettx.vout.length)
    (bet : BetOpret) (feeScript : CScript) :
    Judged (env.checkBetVouts bet feeScript bettx) := by
  have hget : ∀ v, v < 6 → ∃ out, bettx.vout[v]? = some out := fun v hv =>
    ⟨_, List.getElem?_eq_getElem (by omega)⟩
  obtain ⟨vout0, hget0⟩ := hget 0 (by omega)
  obtain ⟨vout1, hget1⟩ := hget 1 (by omega)
  obtain ⟨vout2, hget2⟩ := hget 2 (by omega)
  obtain ⟨vout4, hget4⟩ := hget 4 (by omega)
  unfold checkBetVouts
  simp only [Judged.spent_bind_iff, hget0, hget1, hget2, hget4, Option.some.injEq,
    exists_eq_left', Judged.require_bind_iff]
  exact fun _ _ _ _ => Judged.require _ _

/-- What the checks of a bet read is there. -/
theorem judged_validateBetTx_iff (bettx : CTransaction) :
    Judged (env.validateBetTx bettx) ↔
      env.EarlyReads ∧ (env.BetPassed bettx → env.InputReads bettx) := by
  unfold validateBetTx
  rw [Judged.bind_iff, judged_feeScript_iff]
  apply and_congr_right
  intro _
  simp only [Judged.require_bind_iff, Bool.and_eq_true, decide_eq_true_eq]
  constructor
  · rintro hall ⟨hlen, bet, feeScript, hbet, hfee, hvouts⟩
    have hjudged := hall feeScript hfee hlen
    rw [hbet] at hjudged
    simp only at hjudged
    rw [Judged.unit_bind_iff (judged_checkBetVouts hlen.1 bet feeScript)] at hjudged
    exact (judged_totalPubkeyNormalInputs_iff bettx bet.pk).1 (Judged.bind_iff.1 (hjudged hvouts)).1
  · intro hinputs feeScript hfee hlen
    cases hbet : bettx.vout.getLast?.bind fun out => pricesBetopretdecode out.scriptPubKey with
    | none => exact Judged.invalid _
    | some bet =>
      simp only
      rw [Judged.unit_bind_iff (judged_checkBetVouts hlen.1 bet feeScript)]
      intro hvouts
      rw [Judged.bind_iff, judged_totalPubkeyNormalInputs_iff]
      refine ⟨hinputs ⟨hlen, bet, feeScript, hbet, hfee, hvouts⟩, fun _ _ => ?_⟩
      rw [Judged.require_bind_iff]
      exact fun _ => Judged.require _ _

theorem judged_validateAddFundingTx_iff (tx vintx : CTransaction) :
    Judged (env.validateAddFundingTx tx vintx) ↔ env.EarlyReads := by
  unfold validateAddFundingTx
  rw [Judged.bind_iff, judged_feeScript_iff, and_iff_left_iff_imp]
  intro _ feeScript _
  rw [Judged.require_bind_iff]
  intro hlen
  simp only [Bool.and_eq_true, decide_eq_true_eq] at hlen
  have hget : ∀ v, v < 4 → ∃ out, tx.vout[v]? = some out := fun v hv =>
    ⟨_, List.getElem?_eq_getElem (by omega)⟩
  obtain ⟨vout0, hget0⟩ := hget 0 (by omega)
  obtain ⟨vout1, hget1⟩ := hget 1 (by omega)
  obtain ⟨vout2, hget2⟩ := hget 2 (by omega)
  cases tx.vout.getLast?.bind fun out => pricesAddopretdecode out.scriptPubKey with
  | none => exact Judged.invalid _
  | some r =>
    obtain ⟨bettxid, pk, amount⟩ := r
    simp only [Judged.out_bind_iff, hget0, hget1, hget2, Option.some.injEq, exists_eq_left',
      Judged.require_bind_iff]
    exact fun _ _ _ _ _ => Judged.require _ _

theorem judged_validateFinalTx (tx bettx : CTransaction) :
    Judged (env.validateFinalTx tx bettx) := by
  unfold validateFinalTx
  rw [Judged.require_bind_iff]
  intro hlen
  simp only [Bool.and_eq_true, decide_eq_true_eq] at hlen
  have hget : ∀ v, v < 3 → ∃ out, tx.vout[v]? = some out := fun v hv =>
    ⟨_, List.getElem?_eq_getElem (by omega)⟩
  obtain ⟨vout0, hget0⟩ := hget 0 (by omega)
  obtain ⟨vout1, hget1⟩ := hget 1 (by omega)
  cases tx.vout.getLast?.bind fun out => pricesFinalopretdecode out.scriptPubKey with
  | none => exact Judged.invalid _
  | some r =>
    obtain ⟨bettxid, pk⟩ := r
    simp only [Judged.out_bind_iff, hget0, Option.some.injEq, exists_eq_left',
      Judged.require_bind_iff]
    intro _ _
    by_cases hthree : tx.vout.length = 3
    · rw [if_pos hthree, Judged.out_bind_iff]
      exact ⟨vout1, hget1, Judged.require _ _⟩
    · rw [if_neg hthree]
      exact Judged.ok _

/-! ## The loop -/

theorem vinOpretReads_cons {vin : CTxIn} {rest : List CTxIn} :
    env.VinOpretReads (vin :: rest) ↔
      (env.isMyVin evalPrices vin.scriptSig = true →
        ∀ vintx, env.getTransaction vin.prevout.hash = some vintx →
        1 < (pricesCheckOpret vintx).2.length) ∧
      ((env.isMyVin evalPrices vin.scriptSig = true →
        (env.getTransaction vin.prevout.hash).isSome) → env.VinOpretReads rest) := by
  constructor
  · intro h
    refine ⟨fun hmine vintx hfound => h [] vin rest vintx rfl (by simp) hmine hfound, ?_⟩
    intro hvin before v after vintx hrest hbefore
    refine h (vin :: before) v after vintx (by rw [hrest]; rfl) ?_
    rw [List.forall_mem_cons]
    exact ⟨hvin, hbefore⟩
  · rintro ⟨hhead, htail⟩ before v after vintx hvins hbefore hmine hfound
    cases before with
    | nil =>
      cases hvins
      exact hhead hmine vintx hfound
    | cons b before =>
      cases hvins
      rw [List.forall_mem_cons] at hbefore
      exact htail hbefore.1 before v after vintx rfl hbefore.2 hmine hfound

/-- The search for the first input reads the op_returns. -/
theorem judged_findFirstVin_iff (funcId : UInt8) (vins : List CTxIn) (first : Option FirstVin) :
    Judged (env.findFirstVin funcId vins first) ↔
      (funcId ∉ finalFuncids → env.VinOpretReads vins) := by
  induction vins generalizing first with
  | nil =>
    refine ⟨fun _ _ before vin after _ h => ?_, fun _ => Judged.ok _⟩
    simp at h
  | cons vin rest ih =>
    rw [vinOpretReads_cons]
    unfold findFirstVin
    by_cases hmine : env.isMyVin evalPrices vin.scriptSig = true
    case neg =>
      rw [if_neg hmine, ih]
      exact ⟨fun h hf => ⟨fun hm => absurd hm hmine, fun _ => h hf⟩,
        fun h hf => (h hf).2 fun hm => absurd hm hmine⟩
    case pos =>
      rw [if_pos hmine]
      cases hfound : env.getTransaction vin.prevout.hash with
      | none =>
        exact ⟨fun _ _ => ⟨fun _ _ h => (nomatch h), fun h => (nomatch h hmine)⟩,
          fun _ => Judged.invalid _⟩
      | some vintx =>
        by_cases hfinal : funcId ∈ finalFuncids
        · simp only [hfinal, not_true_eq_false, if_false, false_imp_iff, iff_true]
          exact (ih _).2 fun h => absurd hfinal h
        · simp only [hfinal, not_false_eq_true, if_true, forall_const, Option.some.injEq,
            forall_eq', Option.isSome_some, imp_true_iff]
          rw [judged_opretByte_bind_iff]
          constructor
          · rintro ⟨b, hb, hrest⟩
            exact ⟨fun _ => (List.getElem?_eq_some_iff.1 hb).1, (ih _).1 hrest hfinal⟩
          · rintro ⟨hlen, hrest⟩
            exact ⟨_, List.getElem?_eq_getElem (hlen hmine), (ih _).2 fun _ => hrest⟩

/-- The op_return that the loop keeps is the one of the transaction that it keeps. -/
theorem firstVinTxOpret_eq {funcId : UInt8} {vins : List CTxIn} {init : Option FirstVin}
    {first : FirstVin}
    (hinit : ∀ f, init = some f → f.firstVinTxOpret = (pricesCheckOpret f.firstVinTx).2)
    (h : env.findFirstVin funcId vins init = .ok (some first)) :
    first.firstVinTxOpret = (pricesCheckOpret first.firstVinTx).2 := by
  induction vins generalizing init with
  | nil =>
    cases h
    exact hinit first rfl
  | cons vin rest ih =>
    unfold findFirstVin at h
    by_cases hmine : env.isMyVin evalPrices vin.scriptSig = true
    case neg =>
      rw [if_neg hmine] at h
      exact ih hinit h
    case pos =>
      rw [if_pos hmine] at h
      cases hfound : env.getTransaction vin.prevout.hash with
      | none =>
        rw [hfound] at h
        cases h
      | some vintx =>
        have hnext : ∀ f, init.or (some ⟨vin.prevout.n, vintx, (pricesCheckOpret vintx).2⟩) =
            some f → f.firstVinTxOpret = (pricesCheckOpret f.firstVinTx).2 := by
          intro f hf
          cases init with
          | none =>
            cases hf
            rfl
          | some f' => exact hinit f hf
        rw [hfound] at h
        by_cases hfinal : funcId ∈ finalFuncids
        · simp only [hfinal, not_true_eq_false, if_false] at h
          exact ih hnext h
        · simp only [hfinal, not_false_eq_true, if_true] at h
          obtain ⟨_, -, h⟩ := except_bind_eq_ok.1 h
          exact ih hnext h

/-! ## The cases -/

/-- The transaction before an accepted funding has a prices op_return. -/
theorem two_lt_of_validateAddFundingTx {tx vintx : CTransaction}
    (h : env.validateAddFundingTx tx vintx = .ok ()) : 2 < (pricesCheckOpret vintx).2.length := by
  have hne : (pricesCheckOpret vintx).1 ≠ 0 := by
    unfold validateAddFundingTx at h
    obtain ⟨feeScript, -, h⟩ := except_bind_eq_ok.1 h
    obtain ⟨-, h⟩ := require_bind_eq_ok.1 h
    cases hdecode : tx.vout.getLast?.bind fun out => pricesAddopretdecode out.scriptPubKey with
    | none =>
      rw [hdecode] at h
      cases h
    | some r =>
      rw [hdecode] at h
      obtain ⟨hfuncid, -⟩ := require_bind_eq_ok.1 h
      intro hzero
      rw [hzero] at hfuncid
      exact absurd hfuncid (by decide)
  unfold pricesCheckOpret at hne ⊢
  cases hlast : vintx.vout.getLast? with
  | none =>
    rw [hlast] at hne
    exact absurd rfl hne
  | some out =>
    rw [hlast] at hne
    simp only at hne ⊢
    by_contra hlen
    apply hne
    rw [if_neg fun hall => hlen hall.2.1]

/-- A bet and the number of the output that is spent. -/
theorem judged_bet_bind_iff (bettx : CTransaction) {b : Bool} {reason : String} :
    Judged (env.validateBetTx bettx >>= fun _ => require b (.invalid reason)) ↔
      env.EarlyReads ∧ (env.BetPassed bettx → env.InputReads bettx) := by
  rw [Judged.bind_iff, judged_validateBetTx_iff]
  exact ⟨fun h => h.1, fun h => ⟨h, fun _ _ => Judged.require _ _⟩⟩

/-- Funds are added: the bet is looked at when it is the transaction before. -/
theorem judged_pricesCase_add_iff {tx : CTransaction} {first : FirstVin}
    (hopret : first.firstVinTxOpret = (pricesCheckOpret first.firstVinTx).2) :
    Judged (env.pricesCase 0x41 first tx) ↔ env.EarlyReads ∧
      (env.validateAddFundingTx tx first.firstVinTx = .ok () →
        first.firstVinTxOpret[1]? = some 0x42 →
        env.BetPassed first.firstVinTx → env.InputReads first.firstVinTx) := by
  have hcase : env.pricesCase 0x41 first tx =
      (env.validateAddFundingTx tx first.firstVinTx >>= fun _ =>
        opretByte first.firstVinTxOpret 1 >>= fun f =>
        if f = 0x42 then env.validateBetTx first.firstVinTx >>= fun _ =>
          require (first.prevCCoutN == 0) (.invalid "incorrect vintx vout to spend")
        else require (first.prevCCoutN == 0) (.invalid "incorrect vintx vout to spend")) := rfl
  rw [hcase, Judged.bind_iff, judged_validateAddFundingTx_iff]
  apply and_congr_right
  intro hearly
  constructor
  · intro hall hok hbyte hpassed
    obtain ⟨f, hf, hjudged⟩ := judged_opretByte_bind_iff.1 (hall () hok)
    rw [hbyte] at hf
    cases hf
    rw [if_pos rfl, judged_bet_bind_iff] at hjudged
    exact hjudged.2 hpassed
  · intro hbet _ hok
    have hlen := two_lt_of_validateAddFundingTx hok
    rw [← hopret] at hlen
    have hget := List.getElem?_eq_getElem (show 1 < first.firstVinTxOpret.length by omega)
    rw [judged_opretByte_bind_iff]
    refine ⟨_, hget, ?_⟩
    by_cases hf : first.firstVinTxOpret[1] = 0x42
    · rw [if_pos hf, judged_bet_bind_iff]
      exact ⟨hearly, hbet hok (hget.trans (congrArg some hf))⟩
    · rw [if_neg hf]
      exact Judged.require _ _

/-- A bet is settled. -/
theorem judged_pricesCase_final_iff {funcId : UInt8} {tx : CTransaction} {first : FirstVin}
    (hfinal : funcId ∈ finalFuncids) :
    Judged (env.pricesCase funcId first tx) ↔
      (env.validateFinalTx tx first.firstVinTx = .ok () → env.EarlyReads ∧
        (env.BetPassed first.firstVinTx → env.InputReads first.firstVinTx)) := by
  have hbet : funcId ≠ 0x42 := by
    rintro rfl
    exact absurd hfinal (by decide)
  have hadd : funcId ≠ 0x41 := by
    rintro rfl
    exact absurd hfinal (by decide)
  unfold pricesCase
  rw [if_neg hbet, if_neg hadd, if_pos hfinal, Judged.unit_bind_iff (judged_validateFinalTx _ _),
    judged_bet_bind_iff]

/-- What the reads of a case need. -/
theorem judged_pricesCase_iff {tx : CTransaction} {first : FirstVin}
    (hfound : env.findFirstVin (pricesCheckOpret tx).1 tx.vin none = .ok (some first)) :
    Judged (env.pricesCase (pricesCheckOpret tx).1 first tx) ↔
      ((pricesCheckOpret tx).1 = 0x41 → env.EarlyReads) ∧
      (env.BetReached tx first → env.EarlyReads ∧
        (env.BetPassed first.firstVinTx → env.InputReads first.firstVinTx)) := by
  have hopret := firstVinTxOpret_eq (by
    intro f hf
    cases hf) hfound
  by_cases hfinal : (pricesCheckOpret tx).1 ∈ finalFuncids
  · have hadd : (pricesCheckOpret tx).1 ≠ 0x41 := by
      intro heq
      rw [heq] at hfinal
      exact absurd hfinal (by decide)
    rw [judged_pricesCase_final_iff hfinal]
    constructor
    · refine fun h => ⟨fun heq => absurd heq hadd, fun hreached => ?_⟩
      rcases hreached.kind with ⟨heq, -⟩ | ⟨-, hok⟩
      · exact absurd heq hadd
      · exact h hok
    · exact fun h hok => h.2 ⟨hfound, Or.inr ⟨hfinal, hok⟩⟩
  · by_cases hadd : (pricesCheckOpret tx).1 = 0x41
    · rw [hadd, judged_pricesCase_add_iff hopret]
      constructor
      · rintro ⟨hearly, hbet⟩
        refine ⟨fun _ => hearly, fun hreached => ⟨hearly, ?_⟩⟩
        rcases hreached.kind with ⟨-, hok, hbyte⟩ | ⟨hf, -⟩
        · exact hbet hok hbyte
        · exact absurd hf hfinal
      · rintro ⟨hearly, hbet⟩
        exact ⟨hearly rfl, fun hok hbyte => (hbet ⟨hfound, Or.inl ⟨hadd, hok, hbyte⟩⟩).2⟩
    · have hjudged : Judged (env.pricesCase (pricesCheckOpret tx).1 first tx) := by
        unfold pricesCase
        by_cases hbet : (pricesCheckOpret tx).1 = 0x42
        · rw [if_pos hbet]
          exact Judged.invalid _
        · rw [if_neg hbet, if_neg hadd, if_neg hfinal]
          exact Judged.invalid _
      refine ⟨fun _ => ⟨fun heq => absurd heq hadd, fun hreached => ?_⟩, fun _ => hjudged⟩
      rcases hreached.kind with ⟨heq, -⟩ | ⟨hf, -⟩
      · exact absurd heq hadd
      · exact absurd hf hfinal

/-- A transaction without a prices op_return reaches nothing. -/
theorem ReadsInside.of_zero {tx : CTransaction} (h : (pricesCheckOpret tx).1 = 0) :
    env.ReadsInside tx where
  oprets hne := absurd h hne
  early _ _ heq := by
    rw [h] at heq
    exact absurd heq (by decide)
  bet first hreached := by
    rcases hreached.kind with ⟨heq, -⟩ | ⟨hf, -⟩
    · rw [h] at heq
      exact absurd heq (by decide)
    · rw [h] at hf
      exact absurd hf (by decide)

/-- The validation of a prices transaction ends with a verdict exactly when every read that
is reached is inside, or the chain is exempt. -/
theorem pricesValidate_judged_iff (env : PricesEnv) (tx : CTransaction) :
    Judged (env.pricesValidate tx) ↔
      (env.assetchainsSymbol = "REKT0" ∧ env.height < 5851) ∨ env.ReadsInside tx := by
  unfold pricesValidate
  by_cases hexempt : env.assetchainsSymbol = "REKT0" ∧ env.height < 5851
  · rw [if_pos hexempt]
    exact ⟨fun _ => Or.inl hexempt, fun _ => Judged.ok _⟩
  rw [if_neg hexempt, or_iff_right hexempt, Judged.require_bind_iff]
  by_cases hzero : (pricesCheckOpret tx).1 = 0
  · refine ⟨fun _ => .of_zero hzero, fun _ hne => ?_⟩
    rw [hzero] at hne
    exact absurd hne (by decide)
  rw [forall_prop_of_true (bne_iff_ne.2 hzero), Judged.bind_iff, judged_findFirstVin_iff]
  constructor
  · rintro ⟨hoprets, hcase⟩
    refine ⟨fun _ => hoprets, fun first hfound => ?_, fun first hreached => ?_⟩
    · exact ((judged_pricesCase_iff hfound).1 (hcase _ hfound)).1
    · exact ((judged_pricesCase_iff hreached.found).1 (hcase _ hreached.found)).2 hreached
  · intro hinside
    refine ⟨hinside.oprets hzero, fun r hfound => ?_⟩
    cases r with
    | none => exact Judged.invalid _
    | some first =>
      exact (judged_pricesCase_iff hfound).2 ⟨hinside.early first hfound, hinside.bet first⟩

end PricesEnv

/-- The validations of channels and of prices end with a verdict exactly when every read
that is reached is inside. -/
theorem validations_judged_iff (channels : ChannelsEnv) (prices : PricesEnv) (tx : CTransaction) :
    (Judged (channels.channelsValidate tx) ↔ channels.ReadsInside tx) ∧
    (Judged (prices.pricesValidate tx) ↔
      (prices.assetchainsSymbol = "REKT0" ∧ prices.height < 5851) ∨ prices.ReadsInside tx) :=
  ⟨channels.channelsValidate_judged_iff tx, prices.pricesValidate_judged_iff tx⟩

/-! ## Reads outside -/

namespace SampleReads

/-- A payment of a channel with a single input. -/
def payment : CTransaction where
  hash := 5
  vin := [{ prevout := { hash := 1, n := 0 }, scriptSig := [evalChannels] }]
  vout := [{ nValue := 0
             scriptPubKey := [0x6a, 0x4c, 80, 0xeb, 0x50] ++ leBytes 32 9 ++ [0, 0] ++
              leBytes 4 1 ++ leBytes 8 1 ++ leBytes 32 9 }]

/-- Funds at an address of the prices contract, without an op_return. -/
def plainFund : CTransaction where
  hash := 1
  vout := [{ nValue := 10000, scriptPubKey := CCLib.plain.cc1 evalPrices [] }]

/-- A transaction that adds them to a bet. -/
def addFunds : CTransaction where
  hash := 6
  vin := [{ prevout := { hash := 1, n := 0 }, scriptSig := [evalPrices] }]
  vout := [{ nValue := 0, scriptPubKey := [0x6a, 3, 0xed, 0x41, 0] }]

/-- A chain with the funds. -/
def chain : CCChainEnv where
  toCCEnv := CCLib.plain.envAt "" [plainFund]
  height := 105
  txHeight _ := some 5
  notarizedHeight := 0

/-- The channels contract on the chain. -/
def channels : ChannelsEnv where
  toCCChainEnv := chain
  uninitHash := 0

/-- The prices contract on the chain. -/
def prices : PricesEnv where
  toCCChainEnv := chain
  earlytxidcontract := 0
  earlytxid := 0
  earlytxidScriptpub := []
  snapshotInterval := 0

end SampleReads

/-- A payment whose input 1 is read and is not there, and funds whose op_return is read and
is not there. -/
theorem reads_outside :
    (∃ vin ∈ SampleReads.payment.vin,
      SampleReads.channels.isMyVin evalChannels vin.scriptSig = true) ∧
    SampleReads.channels.channelsValidate SampleReads.payment = .error (.vinOutOfBounds 1) ∧
    (∃ vin ∈ SampleReads.addFunds.vin,
      SampleReads.prices.isMyVin evalPrices vin.scriptSig = true) ∧
    SampleReads.prices.pricesValidate SampleReads.addFunds = .error (.listOutOfBounds 1) ∧
    ¬ Judged (SampleReads.channels.channelsValidate SampleReads.payment) ∧
    ¬ Judged (SampleReads.prices.pricesValidate SampleReads.addFunds) := by
  have hchannels : SampleReads.channels.channelsValidate SampleReads.payment =
      .error (.vinOutOfBounds 1) := by rfl
  have hprices : SampleReads.prices.pricesValidate SampleReads.addFunds =
      .error (.listOutOfBounds 1) := by rfl
  refine ⟨⟨_, List.mem_singleton_self _, by decide⟩, hchannels,
    ⟨_, List.mem_singleton_self _, by decide⟩, hprices, ?_, ?_⟩
  · rw [hchannels]
    exact PricesEnv.not_judged_error fun _ => nofun
  · rw [hprices]
    exact PricesEnv.not_judged_error fun _ => nofun

end IndexChain.Prices
