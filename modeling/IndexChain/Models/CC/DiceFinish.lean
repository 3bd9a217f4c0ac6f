import IndexChain.Models.CC.Dice
import IndexChain.Models.CC.History

/-!
# Ending a bet

The house commits to its entropy before the bet is made, and reveals it when the bet
ends. The validator hashes what is revealed and compares the result with nothing: it
only asks that the outcome follows from it. So a bet can be ended with any value that
has the right outcome (`finish_reveals_iff`); the house's own code keeps to the
commitment (`entropy_of_diceIsWinner`).
-/

namespace IndexChain

open IndexChain.Core

/-! ## A bet that ends in another way -/

theorem head_of_decodeDiceOpRet {txid : Uint256} {s : CScript} {o : DiceOpret}
    (h : decodeDiceOpRet txid s = some o) : s.head? = some 0x6a := by
  apply CScript.head_of_getOpReturnData
  intro hnil
  unfold decodeDiceOpRet at h
  rw [hnil] at h
  simp at h

/-- A dice transaction ends with its op_return. -/
theorem exists_last {tx : CTransaction} {o : DiceOpret} (h : diceOpretOf tx = some o) :
    ∃ last, tx.vout = tx.vout.dropLast ++ [last] ∧ last.scriptPubKey.head? = some 0x6a := by
  obtain ⟨last, hlast, hdecode⟩ := Option.bind_eq_some_iff.1 h
  refine ⟨last, ?_, head_of_decodeDiceOpRet hdecode⟩
  exact (List.dropLast_append_getLast? last hlast).symm

/-- The same inputs and outputs with another revealed entropy. -/
structure Refinishes (tx : CTransaction) (o : DiceOpret) (tx' : CTransaction) (p : Uint256) :
    Prop where
  /-- The inputs are the same. -/
  vin_eq : tx'.vin = tx.vin
  /-- The outputs before the op_return are the same. -/
  front_eq : tx'.vout.dropLast = tx.vout.dropLast
  /-- The op_return reveals another value. -/
  opret_eq : diceOpretOf tx' = some { o with proof := p }

/-- A transaction with another op_return. -/
def CTransaction.withOpret (tx : CTransaction) (script : CScript) : CTransaction :=
  { tx with vout := tx.vout.dropLast ++ [{ nValue := 0, scriptPubKey := script }] }

/-- Any value can be revealed in place of another. -/
theorem refinishes_withOpret (tx : CTransaction) {o : DiceOpret} (h : o.funcid ≠ .createFunding)
    (p : Uint256) :
    Refinishes tx o (tx.withOpret (encodeDiceOpRet { o with proof := p })) p := by
  refine ⟨rfl, List.dropLast_concat, ?_⟩
  unfold diceOpretOf CTransaction.withOpret
  rw [List.getLast?_concat, Option.bind_some]
  exact decodeDiceOpRet_encode _ h

section Refinish

variable {env : DiceEnv} {tx tx' : CTransaction} {o : DiceOpret} {p : Uint256}

theorem Refinishes.length_eq (h : Refinishes tx o tx' p) (hop : diceOpretOf tx = some o) :
    tx'.vout.length = tx.vout.length := by
  obtain ⟨last, hlast, -⟩ := exists_last hop
  obtain ⟨last', hlast', -⟩ := exists_last h.opret_eq
  rw [hlast, hlast', h.front_eq]
  simp

/-- The outputs before the op_return. -/
theorem Refinishes.getElem_eq (h : Refinishes tx o tx' p) (hop : diceOpretOf tx = some o) {i : Nat}
    (hi : i + 1 < tx.vout.length) : tx'.vout[i]? = tx.vout[i]? := by
  obtain ⟨last, hlast, -⟩ := exists_last hop
  obtain ⟨last', hlast', -⟩ := exists_last h.opret_eq
  have hfront : i < tx.vout.dropLast.length := by
    rw [List.length_dropLast]
    omega
  rw [hlast, hlast', h.front_eq, List.getElem?_append_left hfront,
    List.getElem?_append_left hfront]

/-- An output for the owner stays one: it is the same, or an op_return. -/
theorem Refinishes.exists_toOwner (h : Refinishes tx o tx' p) (hop : diceOpretOf tx = some o)
    {k : Nat} {out : CTxOut} {fundingPubKey : CScript} (hout : tx.vout[k]? = some out)
    (howner : DiceEnv.toOwner fundingPubKey out = true) :
    ∃ out', tx'.vout[k]? = some out' ∧ DiceEnv.toOwner fundingPubKey out' = true := by
  obtain ⟨hlt, -⟩ := List.getElem?_eq_some_iff.1 hout
  by_cases hk : k + 1 < tx.vout.length
  · exact ⟨out, (h.getElem_eq hop hk).trans hout, howner⟩
  · obtain ⟨last', hlast', hhead⟩ := exists_last h.opret_eq
    refine ⟨last', ?_, by simp [DiceEnv.toOwner, hhead]⟩
    have hlen : tx.vout.dropLast.length = k := by
      rw [List.length_dropLast]
      omega
    rw [hlast', h.front_eq, ← hlen, List.getElem?_concat_length]

/-- No output after the first is a condition: the op_return is none. -/
theorem Refinishes.preventCC (h : Refinishes tx o tx' p) (hop : diceOpretOf tx = some o)
    (hok : env.preventCC tx none (some 1) = .ok ()) :
    env.preventCC tx' none (some 1) = .ok () := by
  unfold CCLib.preventCC at hok ⊢
  simp only [require_bind_eq_ok, require_eq_ok, Option.all_none, Option.all_some, true_and,
    List.all_eq_true, Bool.not_eq_true'] at hok ⊢
  intro out hout
  obtain ⟨k, hk⟩ := List.getElem?_of_mem hout
  rw [List.getElem?_drop] at hk
  by_cases hfront : 1 + k + 1 < tx.vout.length
  · rw [h.getElem_eq hop hfront, ← List.getElem?_drop] at hk
    exact hok out (List.mem_of_getElem? hk)
  · obtain ⟨last', hlast', hhead⟩ := exists_last h.opret_eq
    obtain ⟨hlt, -⟩ := List.getElem?_eq_some_iff.1 hk
    have hlen : tx.vout.dropLast.length = 1 + k := by
      rw [h.length_eq hop] at hlt
      rw [List.length_dropLast]
      omega
    rw [hlast', h.front_eq, ← hlen, List.getElem?_concat_length] at hk
    obtain rfl := Option.some.inj hk
    exact CScript.isPayToCryptoCondition_of_head hhead

/-- An op_return holds no funds. -/
theorem isDicevout_opret {out : CTxOut} (h : out.scriptPubKey.head? = some 0x6a)
    (tx : CTransaction) (refsbits : UInt64) (reffundingtxid : Uint256) :
    env.isDicevout tx out refsbits reffundingtxid = 0 := by
  unfold DiceEnv.isDicevout
  rw [if_neg]
  rintro ⟨hcc, -⟩
  rw [CScript.isPayToCryptoCondition_of_head h] at hcc
  cases hcc

theorem Refinishes.isDicevout_eq (h : Refinishes tx o tx' p) (hop : diceOpretOf tx = some o)
    (hf : o.funcid ≠ .createFunding) (out : CTxOut) (refsbits : UInt64)
    (reffundingtxid : Uint256) :
    env.isDicevout tx' out refsbits reffundingtxid =
      env.isDicevout tx out refsbits reffundingtxid := by
  unfold DiceEnv.isDicevout
  rw [h.opret_eq, hop]
  simp only [hf, false_and, false_or]

/-- The amounts of a plan do not depend on what is revealed. -/
theorem Refinishes.diceAmounts_eq (h : Refinishes tx o tx' p) (hop : diceOpretOf tx = some o)
    (hf : o.funcid ≠ .createFunding) (refsbits : UInt64) (reffundingtxid : Uint256) :
    env.diceAmounts tx' refsbits reffundingtxid = env.diceAmounts tx refsbits reffundingtxid := by
  have hsum : ((tx'.vout.map fun out => env.isDicevout tx' out refsbits reffundingtxid).sum) =
      (tx.vout.map fun out => env.isDicevout tx out refsbits reffundingtxid).sum := by
    obtain ⟨last, hlast, hhead⟩ := exists_last hop
    obtain ⟨last', hlast', hhead'⟩ := exists_last h.opret_eq
    rw [hlast, hlast', h.front_eq]
    simp only [List.map_append, List.map_cons, List.map_nil, List.sum_append,
      h.isDicevout_eq hop hf, isDicevout_opret hhead, isDicevout_opret hhead']
  unfold DiceEnv.diceAmounts
  simp only [h.vin_eq, hsum]

theorem Refinishes.betOf_eq (h : Refinishes tx o tx' p) (plan : DicePlan) (fundingtxid : Uint256) :
    env.betOf plan fundingtxid tx' = env.betOf plan fundingtxid tx := by
  unfold DiceEnv.betOf CTransaction.inp
  rw [h.vin_eq]

theorem Refinishes.checkLoss (h : Refinishes tx o tx' p) (hop : diceOpretOf tx = some o)
    {fundingPubKey : CScript} {inputs : Int}
    (hok : env.checkLoss fundingPubKey tx inputs = .ok ()) :
    env.checkLoss fundingPubKey tx' inputs = .ok () := by
  simp only [DiceEnv.checkLoss, CTransaction.out_bind_eq_ok, require_bind_eq_ok,
    require_eq_ok] at hok ⊢
  obtain ⟨vout0, h0, hvout0, vout2, h2, howner⟩ := hok
  obtain ⟨hlen, -⟩ := List.getElem?_eq_some_iff.1 h2
  exact ⟨vout0, (h.getElem_eq hop (by omega)).trans h0, hvout0, h.exists_toOwner hop h2 howner⟩

theorem Refinishes.checkWin (h : Refinishes tx o tx' p) (hop : diceOpretOf tx = some o)
    {fundingPubKey : CScript} {betTx : CTransaction} {inputs outputs : Int}
    (hok : env.checkWin fundingPubKey tx betTx inputs outputs = .ok ()) :
    env.checkWin fundingPubKey tx' betTx inputs outputs = .ok () := by
  unfold DiceEnv.checkWin at hok ⊢
  obtain ⟨betOut1, hbet1, hok⟩ := except_bind_eq_ok.1 hok
  obtain ⟨betOut2, hbet2, hok⟩ := except_bind_eq_ok.1 hok
  refine except_bind_eq_ok.2 ⟨betOut1, hbet1, except_bind_eq_ok.2 ⟨betOut2, hbet2, ?_⟩⟩
  simp only [CTransaction.out_bind_eq_ok, require_bind_eq_ok, require_eq_ok] at hok ⊢
  obtain ⟨vout0, h0, hvout0, vout2, h2, hscript, hvalue, hfunds, vout3, h3, howner⟩ := hok
  obtain ⟨hlen, -⟩ := List.getElem?_eq_some_iff.1 h3
  exact ⟨vout0, (h.getElem_eq hop (by omega)).trans h0, hvout0, vout2,
    (h.getElem_eq hop (by omega)).trans h2, hscript, hvalue, hfunds, h.exists_toOwner hop h3 howner⟩

end Refinish

/-! ## The outcome -/

/-- A value that the house may reveal gives the outcome that a transaction claims. -/
def OutcomeIs (plan : DicePlan) (betTx : CTransaction) (funcid : DiceFuncId) (p : Uint256) : Prop :=
  ∃ betOut1 betOut2, betTx.vout[1]? = some betOut1 ∧ betTx.vout[2]? = some betOut2 ∧
    match funcid with
    | .win =>
      toInt64 (diceCalc plan betOut1.nValue betOut2.nValue p (diceGetEntropy betTx .bet)) ≠ 0
    | .loss =>
      toInt64 (diceCalc plan betOut1.nValue betOut2.nValue p (diceGetEntropy betTx .bet)) ≤ 0
    | _ => False

section Outcome

variable {env : DiceEnv} {plan : DicePlan} {betTx : CTransaction} {p : Uint256}

/-- The outcome of a win or a loss is what its amounts give. -/
theorem checkOutcome_iff {funcid : DiceFuncId} {iswin : Int}
    (hf : funcid = .win ∧ iswin = 1 ∨ funcid = .loss ∧ iswin = -1) :
    DiceEnv.checkOutcome plan betTx p iswin = .ok () ↔ OutcomeIs plan betTx funcid p := by
  simp only [DiceEnv.checkOutcome, DiceEnv.betWinnings, OutcomeIs, except_bind_eq_ok,
    CTransaction.spent_eq_ok, require_eq_ok]
  constructor
  · rintro ⟨w, ⟨out1, h1, out2, h2, hw⟩, hcheck⟩
    cases hw
    refine ⟨out1, out2, h1, h2, ?_⟩
    rcases hf with ⟨rfl, rfl⟩ | ⟨rfl, rfl⟩ <;> simpa using hcheck
  · rintro ⟨out1, out2, h1, h2, hw⟩
    refine ⟨_, ⟨out1, h1, out2, h2, rfl⟩, ?_⟩
    rcases hf with ⟨rfl, rfl⟩ | ⟨rfl, rfl⟩ <;> simpa using hw

end Outcome

/-! ## Commitments -/

namespace DiceEnv

variable (env : DiceEnv)

/-- The entropy that the house has committed to before a bet: the op_return of the
transaction that input 0 of the bet spends. -/
def committedEntropy (betTx : CTransaction) : Option Uint256 := do
  let vin0 ← betTx.vin[0]?
  let entropyTx ← env.getTransaction vin0.prevout.hash
  let o ← diceOpretOf entropyTx
  if o.funcid = .entropy ∨ o.funcid = .win ∨ o.funcid = .loss then some o.hash else none

/-- A value is what the house has committed to. -/
def Reveals (betTx : CTransaction) (p : Uint256) : Prop :=
  env.committedEntropy betTx = some (vcalcSha256 p)

section Finish

variable {env} {tx tx' betTx fundingTx : CTransaction} {o : DiceOpret} {p : Uint256}
  {plan : DicePlan}

theorem length_of_checkWin {fundingPubKey : CScript} {inputs outputs : Int}
    (hok : env.checkWin fundingPubKey tx betTx inputs outputs = .ok ()) : 3 < tx.vout.length := by
  unfold checkWin at hok
  obtain ⟨betOut1, -, hok⟩ := except_bind_eq_ok.1 hok
  obtain ⟨betOut2, -, hok⟩ := except_bind_eq_ok.1 hok
  simp only [CTransaction.out_bind_eq_ok, require_bind_eq_ok] at hok
  obtain ⟨-, -, -, -, -, -, -, -, vout3, h3, -⟩ := hok
  exact (List.getElem?_eq_some_iff.1 h3).1

theorem length_of_checkLoss {fundingPubKey : CScript} {inputs : Int}
    (hok : env.checkLoss fundingPubKey tx inputs = .ok ()) : 2 < tx.vout.length := by
  simp only [checkLoss, CTransaction.out_bind_eq_ok, require_bind_eq_ok] at hok
  obtain ⟨-, -, -, vout2, h2, -⟩ := hok
  exact (List.getElem?_eq_some_iff.1 h2).1

/-- The outcome is the last thing that is checked about the revealed value. -/
theorem checkEnd_iff {fundingPubKey : CScript} {inputs outputs : Int}
    (h : Refinishes tx o tx' p) (hop : diceOpretOf tx = some o)
    (hf : o.funcid = .win ∨ o.funcid = .loss)
    (hok : env.checkEnd plan fundingPubKey tx betTx o inputs outputs = .ok ()) :
    env.checkEnd plan fundingPubKey tx' betTx { o with proof := p } inputs outputs = .ok () ↔
      OutcomeIs plan betTx o.funcid p := by
  unfold checkEnd at hok ⊢
  rcases hf with hf | hf
  · simp only [hf, unit_bind_eq_ok] at hok ⊢
    rw [checkOutcome_iff (.inl ⟨rfl, rfl⟩)]
    exact and_iff_right (h.checkWin hop hok.1)
  · simp only [hf, unit_bind_eq_ok] at hok ⊢
    rw [checkOutcome_iff (.inr ⟨rfl, rfl⟩)]
    exact and_iff_right (h.checkLoss hop hok.1)

/-- Once a bet can be ended in one way, it can be ended with every value that has the same
outcome. -/
theorem checkFinish_iff {fundingPubKey : CScript} (h : Refinishes tx o tx' p)
    (hop : diceOpretOf tx = some o) (hf : o.funcid = .win ∨ o.funcid = .loss)
    (hbet : env.betOf plan o.fundingtxid tx = .ok betTx)
    (hok : env.checkFinish plan fundingPubKey tx o = .ok ()) :
    env.checkFinish plan fundingPubKey tx' { o with proof := p } = .ok () ↔
      OutcomeIs plan betTx o.funcid p := by
  have hne : o.funcid ≠ .createFunding := by
    rcases hf with hf | hf
    · simp [hf]
    · simp [hf]
  unfold checkFinish at hok ⊢
  rw [h.diceAmounts_eq hop hne, h.betOf_eq]
  obtain ⟨amounts, hamounts, hok⟩ := except_bind_eq_ok.1 hok
  obtain ⟨betTx', hbet', hok⟩ := except_bind_eq_ok.1 hok
  obtain rfl : betTx = betTx' := Except.ok.inj (hbet.symm.trans hbet')
  simp only [CTransaction.out_bind_eq_ok, unit_bind_eq_ok, require_eq_ok] at hok
  obtain ⟨vout1, h1, howner, hend, hprevent⟩ := hok
  -- a win has an output 3 and a loss an output 2, so output 1 is before the op_return
  have hlen : 1 + 1 < tx.vout.length := by
    unfold checkEnd at hend
    rcases hf with hf | hf
    · simp only [hf, unit_bind_eq_ok] at hend
      exact Nat.lt_of_lt_of_le (by decide) (length_of_checkWin hend.1)
    · simp only [hf, unit_bind_eq_ok] at hend
      exact length_of_checkLoss hend.1
  rw [← checkEnd_iff h hop hf hend, hamounts, hbet]
  change (tx'.out 1 >>= _) = .ok () ↔ _
  simp only [CTransaction.out_bind_eq_ok, unit_bind_eq_ok, require_eq_ok, h.getElem_eq hop hlen]
  constructor
  · rintro ⟨out, -, -, hend', -⟩
    exact hend'
  · intro hend'
    exact ⟨vout1, h1, howner, hend', h.preventCC hop hprevent⟩

/-- The plan of a transaction decides on its case. -/
theorem diceValidate_finish (hfund : env.getTransaction o.fundingtxid = some fundingTx)
    (hplan : planOf fundingTx = .ok plan) (hop : diceOpretOf tx = some o)
    (hf : o.funcid = .win ∨ o.funcid = .loss ∨ o.funcid = .timeout) :
    env.diceValidate tx = .ok () ↔ plan.maxodds ≤ 9999 ∧ ∃ fundingOut,
      fundingTx.vout[1]? = some fundingOut ∧
        env.checkFinish plan fundingOut.scriptPubKey tx o = .ok () := by
  have hne : tx.vout.isEmpty = false := by
    cases hv : tx.vout with
    | nil => simp [diceOpretOf, hv] at hop
    | cons out rest => rfl
  have hcase : ∀ key, env.diceCase plan key tx o = env.checkFinish plan key tx o := by
    intro key
    unfold diceCase
    rcases hf with hf | hf | hf
    · rw [hf]
    · rw [hf]
    · rw [hf]
  unfold diceValidate
  simp only [hne, Bool.false_eq_true, if_false, hop, findTx, hfund]
  change (planOf fundingTx >>= _) = .ok () ↔ _
  rw [hplan]
  change (require _ _ >>= _) = .ok () ↔ _
  rw [require_bind_eq_ok, decide_eq_true_eq]
  simp only [except_bind_eq_ok, CTransaction.spent_eq_ok, hcase]

/-- Every way to end a bet as a transaction does reveals what the house has committed to,
exactly when no other value has the outcome of that transaction. -/
theorem finish_reveals_iff (hop : diceOpretOf tx = some o)
    (hf : o.funcid = .win ∨ o.funcid = .loss)
    (hfund : env.getTransaction o.fundingtxid = some fundingTx)
    (hplan : planOf fundingTx = .ok plan) (hbet : env.betOf plan o.fundingtxid tx = .ok betTx)
    (hok : env.diceValidate tx = .ok ()) :
    (∀ tx' p, Refinishes tx o tx' p → env.diceValidate tx' = .ok () → env.Reveals betTx p) ↔
      ∀ p, OutcomeIs plan betTx o.funcid p → env.Reveals betTx p := by
  have hne : o.funcid ≠ .createFunding := by
    rcases hf with hf | hf
    · simp [hf]
    · simp [hf]
  obtain ⟨hodds, fundingOut, hout, hfinish⟩ :=
    (diceValidate_finish hfund hplan hop (hf.imp_right Or.inl)).1 hok
  have hiff : ∀ tx' p, Refinishes tx o tx' p →
      (env.diceValidate tx' = .ok () ↔ OutcomeIs plan betTx o.funcid p) := by
    intro tx' p h
    have hfund' : env.getTransaction ({ o with proof := p } : DiceOpret).fundingtxid =
        some fundingTx := hfund
    rw [diceValidate_finish hfund' hplan h.opret_eq (hf.imp_right Or.inl),
      ← checkFinish_iff h hop hf hbet hfinish]
    simp only [hodds, hout, true_and, Option.some.injEq, exists_eq_left']
  constructor
  · intro hall p houtcome
    have h := refinishes_withOpret tx hne p
    exact hall _ p h ((hiff _ p h).2 houtcome)
  · intro hall tx' p h hok'
    exact hall p ((hiff tx' p h).1 hok')

end Finish

end DiceEnv

/-! ## The house's own code -/

namespace DiceHouse

section House

variable {house : DiceHouse}
  (hcomm : ∀ a b, house.curve25519 a (house.curve25519 b house.basepoint9) =
    house.curve25519 b (house.curve25519 a house.basepoint9))

include hcomm

/-- The commitment is the hash of the entropy: both sides of the exchange find one secret. -/
theorem diceHashEntropy_eq (entropy txidpriv : Uint256) (vout : UInt32) (usevout : Bool) :
    (house.diceHashEntropy entropy txidpriv vout usevout).2 =
      vcalcSha256 (house.diceHashEntropy entropy txidpriv vout usevout).1 := by
  unfold DiceHouse.diceHashEntropy
  extract_lets bs bs' priv mypriv ssecret ssecret2 entropy'
  rw [if_pos (hcomm mypriv priv)]

theorem tryEntropy_eq (hentropy : Uint256) (prevout : COutPoint) :
    (house.tryEntropy hentropy prevout).2 = vcalcSha256 (house.tryEntropy hentropy prevout).1 := by
  unfold DiceHouse.tryEntropy
  extract_lets first
  split
  · exact diceHashEntropy_eq hcomm _ _ _ _
  · exact diceHashEntropy_eq hcomm _ _ _ _

/-- The house's own code ends a bet with the entropy that the spent transaction commits to. -/
theorem entropy_of_diceIsWinner
    {plan : DicePlan} {fundingtxid txid bettorentropy entropy : Uint256}
    {tx vinTx : CTransaction} {iswin : Int}
    (h : house.diceIsWinner plan fundingtxid txid tx vinTx bettorentropy = .ok (iswin, entropy))
    (hne : iswin ≠ 0) : ∃ o, (vinTx.vout.getLast?.bind fun out =>
      decodeDiceOpRet txid out.scriptPubKey) = some o ∧
      (o.funcid = .entropy ∨ o.funcid = .win ∨ o.funcid = .loss) ∧
      o.hash = vcalcSha256 entropy := by
  have hskip : ∀ {e : Uint256}, (.ok (0, e) : Except Failure (Int × Uint256)) ≠
      .ok (iswin, entropy) := by
    intro e heq
    exact hne (congrArg Prod.fst (Except.ok.inj heq)).symm
  unfold DiceHouse.diceIsWinner at h
  split at h
  · split at h
    · cases ho : vinTx.vout.getLast?.bind fun out => decodeDiceOpRet txid out.scriptPubKey with
      | none =>
        rw [ho] at h
        exact absurd h hskip
      | some o =>
        rw [ho] at h
        dsimp only at h
        split at h
        · rename_i hkind
          split at h
          · cases h
          · split at h
            · rename_i vin0 _ hhash
              simp only [CTransaction.out_bind_eq_ok] at h
              obtain ⟨vout1, -, vout2, -, h⟩ := h
              refine ⟨o, rfl, hkind.1, ?_⟩
              rw [hhash, tryEntropy_eq hcomm]
              exact congrArg vcalcSha256 (congrArg Prod.snd (Except.ok.inj h))
            · exact absurd h hskip
        · exact absurd h hskip
    · exact absurd h hskip
  · exact absurd h hskip

end House

end DiceHouse

/-! ## A bet of 100 -/

namespace SampleDice

/-- An output that holds funds of a plan. -/
def funds (amount : Int) : CTxOut where
  nValue := amount
  scriptPubKey := CCLib.plain.cc1 evalDice (CCLib.plain.unspendable evalDice)

/-- A normal output. -/
def pay (b : UInt8) (amount : Int) : CTxOut where
  nValue := amount
  scriptPubKey := CScript.payToPubkey (CCLib.plainKey b)

/-- The op_return of a transaction of the plan. -/
def opret (funcid : DiceFuncId) (hash proof : Uint256) : DiceOpret where
  funcid := funcid
  sbits := 5
  fundingtxid := 50
  hash := hash
  proof := proof

/-- The output with an op_return. -/
def opretOut (o : DiceOpret) : CTxOut where
  nValue := 0
  scriptPubKey := encodeDiceOpRet o

/-- A plan for bets up to 1000 with odds up to 9. -/
def plan : DicePlan where
  sbits := 5
  minbet := 1
  maxbet := 1000
  maxodds := 9
  timeoutblocks := 10

/-- The creation of the plan by party 1. -/
def fundingTx : CTransaction where
  hash := 50
  vin := [{ prevout := { hash := 49, n := 0 } }]
  vout := [funds 1000, pay 1 10000,
    { nValue := 0
      scriptPubKey := 0x6a :: CScript.pushBytes ([evalDice, 0x46] ++ leBytes 8 5 ++ leBytes 8 1 ++
        leBytes 8 1000 ++ leBytes 8 9 ++ leBytes 8 10) }]

/-- The secret of the house. -/
def secret : Uint256 := 7

/-- An entropy transaction that commits to the secret. -/
def entropyTx : CTransaction where
  hash := 51
  vin := [{ prevout := { hash := 50, n := 1 } }]
  vout := [funds 1000, pay 1 10000, opretOut (opret .entropy (vcalcSha256 secret) 0)]

/-- A bet of 100 at even odds by party 2. -/
def betTx : CTransaction where
  hash := 52
  vin := [{ prevout := { hash := 51, n := 0 }, scriptSig := [0, evalDice] ++ CCLib.plainKey 2 }]
  vout := [funds 1000, funds 100, pay 2 10001, opretOut (opret .bet 9 0)]

/-- The inputs of a transaction that ends the bet. -/
def vins : List CTxIn :=
  [{ prevout := { hash := 49, n := 1 } },
    { prevout := { hash := 52, n := 0 }, scriptSig := [0, evalDice] ++ CCLib.plainKey 1 },
    { prevout := { hash := 52, n := 1 }, scriptSig := [0, evalDice] ++ CCLib.plainKey 1 }]

/-- The op_return of a win that reveals the secret. -/
def winOpret : DiceOpret := opret .win (vcalcSha256 secret) secret

/-- The bet is won. -/
def winTx : CTransaction where
  hash := 53
  vin := vins
  vout := [funds 900, pay 1 10000, pay 2 200, opretOut winOpret]

/-- The bet is lost, with a value that the house has not committed to. -/
def cheatTx : CTransaction where
  hash := 54
  vin := vins
  vout := [funds 1100, pay 1 10000, opretOut (opret .loss (vcalcSha256 secret) 1)]

/-- A view of the bet. -/
def env : DiceEnv where
  toCCEnv := CCLib.plain.envAt "" [betTx, entropyTx, fundingTx]
  height := 105
  txHeight _ := some 100
  notarizedHeight := 0
  txTime _ := 1
  tipTime := 2

theorem committed : env.committedEntropy betTx = some (vcalcSha256 secret) := by
  decide +kernel

end SampleDice

open SampleDice

/-- An honest win is accepted, and so is one that reveals another value. -/
theorem win_not_bound :
    env.diceValidate winTx = .ok () ∧ env.Reveals betTx secret ∧
    ¬ ∀ tx' p, Refinishes winTx winOpret tx' p →
      env.diceValidate tx' = .ok () → env.Reveals betTx p := by
  have hok : env.diceValidate winTx = .ok () := eq_ok_of_isOk (by decide +kernel)
  refine ⟨hok, committed, ?_⟩
  have hop : diceOpretOf winTx = some winOpret := by decide +kernel
  have hfund : env.getTransaction winOpret.fundingtxid = some fundingTx := by decide +kernel
  have hplan : DiceEnv.planOf fundingTx = .ok plan := eq_ok_of_toOption (by decide +kernel)
  have hbet : env.betOf plan winOpret.fundingtxid winTx = .ok betTx :=
    eq_ok_of_toOption (by decide +kernel)
  intro hbound
  have hall := (DiceEnv.finish_reveals_iff hop (Or.inl rfl) hfund hplan hbet hok).1 hbound
  have hzero : OutcomeIs plan betTx .win 0 :=
    ⟨funds 100, pay 2 10001, rfl, rfl, by decide +kernel⟩
  have hreveals := committed.symm.trans (hall 0 hzero)
  exact absurd (Option.some.inj hreveals) (by decide +kernel)

/-- A bet that the bettor has won is ended as lost: the house reveals another value than
the one it has committed to. -/
theorem loss_with_other_entropy :
    env.diceValidate cheatTx = .ok () ∧
    (diceOpretOf cheatTx).map DiceOpret.proof = some 1 ∧
    env.betOf plan 50 cheatTx = .ok betTx ∧
    OutcomeIs plan betTx .win secret ∧ ¬ env.Reveals betTx 1 := by
  refine ⟨eq_ok_of_isOk (by decide +kernel), by decide +kernel,
    eq_ok_of_toOption (by decide +kernel), ?_, ?_⟩
  · exact ⟨funds 100, pay 2 10001, rfl, rfl, by decide +kernel⟩
  · intro hreveals
    exact absurd (Option.some.inj (committed.symm.trans hreveals)) (by decide +kernel)

end IndexChain
