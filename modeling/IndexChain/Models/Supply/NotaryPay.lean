import IndexChain.Models.Supply.Commission

/-!
# Notary pay

`komodo_checknotarypay` makes the outputs again that a coinbase owes to the notaries who signed
the notarisation in the second transaction, and looks for them in the coinbase. It reads that
transaction, the outputs that its inputs spend, and the notary of an output by the output's
position. `completes_checknotarypay` says for which blocks all of these exist.
-/

namespace IndexChain.Supply

open IndexChain.Core

/-- `notarypubkeys` after a call of `komodo_notaries`, with the number that it returns. -/
structure NotaryTable where
  num : Int
  num_le : num ≤ 64
  pubkeys : List (List UInt8)
  pubkeys_length : pubkeys.length = 64

namespace NotaryTable

variable (t : NotaryTable)

/-- `notarypubkeys[0][0] == 0`. -/
def isEmpty : Bool := (t.pubkeys.head?.bind List.head?).getD 0 == 0

/-- The notaries whose key is the one of a script. -/
def signers (script : CScript) : List Nat :=
  match p2pk script with
  | none => []
  | some key => (List.range t.num.toNat).filter fun i => t.pubkeys[i]? == some key

end NotaryTable

/-- What the notary pay is made from, besides the block. -/
structure PayEnv where
  chain : AssetChain
  /-- `ASSETCHAINS_NOTARY_PAY`, one amount for each era. -/
  notaryPay : List UInt64
  notaryPay_length : notaryPay.length = chain.later.length + 1
  getTransaction : Uint256 → Option CTransaction
  komodoNotaries : Int → Nat → NotaryTable
  getnotarizedheight : Nat → Int → CScript → Int

namespace PayEnv

variable (env : PayEnv)

/-! ## The signers of a notarisation -/

/-- The notaries that sign an input. The output it spends is read once for each notary. -/
def inputSigners (t : NotaryTable) (txin : CTxIn) (tx1 : CTransaction) :
    Except ReadFault (List Nat) :=
  if 0 < t.num then
    (fun txout => t.signers txout.scriptPubKey) <$> outputAt tx1 txin.prevout.n.toNat
  else .ok []

/-- The loop over the inputs. -/
def scanInputs (t : NotaryTable) :
    List CTxIn → List Nat → Except ReadFault (Option (List Nat))
  | [], notarisationNotaries => .ok (some notarisationNotaries)
  | txin :: later, notarisationNotaries =>
    match env.getTransaction txin.prevout.hash with
    | none => .ok none
    | some tx1 => do
      let signers ← inputSigners t txin tx1
      scanInputs t later (notarisationNotaries ++ signers)

/-- `GetNotarisationNotaries`. -/
def getNotarisationNotaries (t : NotaryTable) (vin : List CTxIn) :
    Except ReadFault (Option (List Nat)) :=
  if t.isEmpty then .ok none else env.scanInputs t vin []

/-! ## The outputs they are owed -/

/-- `komodo_notarypayamount`. -/
def notarypayamount (nHeight : Int) (notarycount : Nat) : Except ReadFault Int :=
  let curEra := if 1 < env.chain.first.endsubsidy then
      (eraFrom nHeight 0 0 (env.chain.first :: env.chain.later)).map EraAt.curEra
    else some 0
  match curEra with
  | none => .ok 0
  | some curEra =>
    if notarycount = 0 then .ok 0
    else (fun pay => toInt64 (pay.toNat / notarycount : Nat)) <$> entry env.notaryPay curEra .notary

/-- One output of the coinbase that `komodo_notarypay` makes. -/
def payment (t : NotaryTable) (amountToPay : Int) (notary : Nat) : Except ReadFault CTxOut :=
  (fun key => ⟨amountToPay, 33 :: key ++ [0xac]⟩) <$> entry t.pubkeys notary .notary

/-- `komodo_notarypay`: the sum, and the outputs of `txNew`. -/
def komodoNotarypay (notarisationNotaries : List Nat) (timestamp : Nat) (height : Int)
    (script : CScript) : Except ReadFault (Int × List CTxOut) :=
  let t := env.komodoNotaries height timestamp
  if t.isEmpty then .ok (0, [])
  else if env.getnotarizedheight timestamp height script = 0 then .ok (0, [])
  else do
    let amountToPay ← env.notarypayamount height notarisationNotaries.length
    if amountToPay = 0 then
      pure (0, List.replicate (notarisationNotaries.length + 1) CTxOut.null)
    else
      let vout ← notarisationNotaries.mapM (payment t amountToPay)
      pure (toUint64 (vout.map CTxOut.nValue).sum, CTxOut.null :: vout)

/-! ## The check -/

/-- The loop over the outputs of the coinbase from position `j` on: `matches` and `total`. The
counter `n` of the source is an `int8_t`. -/
def checkPayees (t : NotaryTable) (notarisationNotaries : List Nat) (amountToPay : Int)
    (coinbase : CTransaction) : Nat → List CTxOut → Int → Int → Except ReadFault (Int × Int)
  | _, [], matched, total => .ok (matched, total)
  | j, txout :: later, matched, total =>
    let n := toInt8 j
    let next := checkPayees t notarisationNotaries amountToPay coinbase (j + 1) later
    if n = 0 then next matched total
    else
      match p2pk txout.scriptPubKey with
      | none => next matched total
      | some key => do
        let notary ← entry notarisationNotaries (toUint64 (n - 1)).toNat .notary
        let pubkey ← entry t.pubkeys notary .notary
        if key = pubkey then
          let paid ← outputAt coinbase (toUint64 n).toNat
          if paid.nValue = amountToPay then
            next (toInt8 (matched + 1)) (toUint64 (total + txout.nValue))
          else next matched total
        else next matched total

/-- The end of `komodo_checknotarypay`, for the signers of a notarisation with an op_return. -/
def checkCoinbase (block : CBlock) (height : Int) (notarisationNotaries : List Nat)
    (script : CScript) : Except ReadFault Int := do
  let (totalsats, vout) ← env.komodoNotarypay notarisationNotaries block.nTime height script
  if totalsats = 0 then pure 0
  else
    let first ← entry vout 1 .output
    let coinbase ← transactionAt block 0
    let (matched, total) ← checkPayees (env.komodoNotaries height block.nTime)
      notarisationNotaries first.nValue coinbase 0 coinbase.vout 0 0
    if matched ≠ 0 ∧ matched = notarisationNotaries.length ∧ totalsats = total then
      pure totalsats
    else pure 0

/-- The middle of `komodo_checknotarypay`, for the signers of a notarisation. -/
def checkNotarisation (block : CBlock) (height : Int) (tx : CTransaction)
    (notarisationNotaries : List Nat) : Except ReadFault Int := do
  if ¬ notarisationNotaries.Nodup then pure 0
  else if tx.vout.length = 2 then
    let txout ← outputAt tx 1
    if txout.nValue = 0 then
      let opcode ← entry txout.scriptPubKey 0 .script
      if opcode = 0x6a then
        env.checkCoinbase block height notarisationNotaries txout.scriptPubKey
      else pure 0
    else pure 0
  else pure 0

/-- `komodo_checknotarypay`. -/
def komodoChecknotarypay (block : CBlock) (height : Int) : Except ReadFault Int := do
  let tx ← transactionAt block 1
  match ← env.getNotarisationNotaries (env.komodoNotaries height block.nTime) tx.vin with
  | none => pure 0
  | some notarisationNotaries => env.checkNotarisation block height tx notarisationNotaries

/-! ## The outputs that the inputs spend -/

variable {env} {t : NotaryTable} {block : CBlock} {height : Int}

/-- The output that an input spends exists. Nothing is read when there are no notaries. -/
def SpendsOutput (t : NotaryTable) (txin : CTxIn) (tx1 : CTransaction) : Prop :=
  0 < t.num → txin.prevout.n.toNat < tx1.vout.length

theorem completes_inputSigners {txin : CTxIn} {tx1 : CTransaction} :
    Completes (inputSigners t txin tx1) ↔ SpendsOutput t txin tx1 := by
  rw [inputSigners, Completes.ite_iff, Completes.map_iff, outputAt, completes_entry, SpendsOutput]
  simp

/-- The inputs are read up to one whose transaction is not found. -/
theorem completes_scanInputs {vin : List CTxIn} (l : List Nat) :
    Completes (env.scanInputs t vin l) ↔
      ∀ txin ∈ vin.takeWhile fun txin => (env.getTransaction txin.prevout.hash).isSome,
        ∀ tx1, env.getTransaction txin.prevout.hash = some tx1 → SpendsOutput t txin tx1 := by
  induction vin generalizing l with
  | nil => simp [scanInputs]
  | cons txin later ih =>
    rw [scanInputs, List.takeWhile_cons]
    cases hfound : env.getTransaction txin.prevout.hash with
    | none => simp
    | some tx1 =>
      simp only [Option.isSome_some, ↓reduceIte, List.forall_mem_cons, hfound,
        Option.some.injEq, forall_eq']
      rw [Completes.bind_of fun signers _ => ih (l ++ signers), completes_inputSigners]

theorem signers_lt {script : CScript} {i : Nat} (h : i ∈ t.signers script) : (i : Int) < t.num := by
  rw [NotaryTable.signers] at h
  cases hkey : p2pk script with
  | none =>
    rw [hkey] at h
    cases h
  | some key =>
    rw [hkey] at h
    have hrange := List.mem_range.1 (List.mem_filter.1 h).1
    omega

/-- The signers are notaries of the table. -/
theorem scanInputs_lt {vin : List CTxIn} {l l' : List Nat} (hl : ∀ i ∈ l, (i : Int) < t.num)
    (h : env.scanInputs t vin l = .ok (some l')) : ∀ i ∈ l', (i : Int) < t.num := by
  induction vin generalizing l with
  | nil =>
    cases h
    exact hl
  | cons txin later ih =>
    rw [scanInputs] at h
    cases hfound : env.getTransaction txin.prevout.hash with
    | none =>
      rw [hfound] at h
      cases h
    | some tx1 =>
      rw [hfound] at h
      obtain ⟨signers, hsigners, h⟩ := except_bind_eq_ok.1 h
      refine ih (fun i hi => ?_) h
      rcases List.mem_append.1 hi with hi | hi
      · exact hl i hi
      · rw [inputSigners] at hsigners
        split at hsigners
        · cases hout : outputAt tx1 txin.prevout.n.toNat with
          | error fault =>
            rw [hout] at hsigners
            cases hsigners
          | ok txout =>
            rw [hout] at hsigners
            cases hsigners
            exact signers_lt hi
        · cases hsigners
          cases hi

/-! ## The payments -/

/-- The era of the pay is one of the chain's. -/
theorem completes_notarypayamount {count : Nat} : Completes (env.notarypayamount height count) := by
  have hera : ∀ i, (if 1 < env.chain.first.endsubsidy then
      (eraFrom height 0 0 (env.chain.first :: env.chain.later)).map EraAt.curEra
      else some 0) = some i → i < env.notaryPay.length := by
    intro i hi
    rw [env.notaryPay_length]
    split at hi
    · obtain ⟨p, hp, rfl⟩ := Option.map_eq_some_iff.1 hi
      exact (List.getElem?_eq_some_iff.1 (eraFrom_era hp).2).1
    · obtain rfl := Option.some.inj hi
      exact Nat.succ_pos _
  rw [notarypayamount]
  split
  · exact Completes.ok 0
  · next curEra hcur =>
    rw [Completes.ite_iff, Completes.map_iff, completes_entry]
    exact ⟨fun _ => Completes.ok 0, fun _ => hera curEra hcur⟩

theorem completes_payment {amountToPay : Int} {i : Nat} (hi : i < 64) :
    Completes (payment t amountToPay i) := by
  rw [payment, Completes.map_iff, completes_entry, t.pubkeys_length]
  exact hi

/-- The payments are made where the notaries are in the table. -/
theorem completes_komodoNotarypay {l : List Nat} (hl : ∀ i ∈ l, i < 64) {timestamp : Nat}
    {script : CScript} : Completes (env.komodoNotarypay l timestamp height script) := by
  rw [komodoNotarypay]
  split
  · exact Completes.ok _
  · split
    · exact Completes.ok _
    · refine Completes.bind_iff.2 ⟨completes_notarypayamount, fun amountToPay _ => ?_⟩
      split
      · exact Completes.pure _
      · refine Completes.bind_iff.2 ⟨?_, fun vout _ => Completes.pure _⟩
        exact Completes.mapM_iff.2 fun i hi => completes_payment (hl i hi)

/-- A sum that is not zero has a first payment. -/
theorem komodoNotarypay_first {l : List Nat} {timestamp : Nat} {script : CScript} {totalsats : Int}
    {vout : List CTxOut} (h : env.komodoNotarypay l timestamp height script = .ok (totalsats, vout))
    (hpaid : totalsats ≠ 0) : 1 < vout.length := by
  rw [komodoNotarypay] at h
  split at h
  · cases h
    exact absurd rfl hpaid
  · split at h
    · cases h
      exact absurd rfl hpaid
    · obtain ⟨amountToPay, -, h⟩ := except_bind_eq_ok.1 h
      split at h
      · cases h
        exact absurd rfl hpaid
      · obtain ⟨payments, -, h⟩ := except_bind_eq_ok.1 h
        cases h
        cases payments with
        | nil => exact absurd rfl hpaid
        | cons first later => simp

/-! ## The outputs of the coinbase -/

/-- The counter of an output is zero or that of a notary. -/
def CountsNotary (count j : Nat) : Prop := toInt8 j = 0 ∨ 1 ≤ toInt8 j ∧ toInt8 j ≤ count

/-- The loop over the outputs reads a notary for each output to a public key. -/
theorem completes_checkPayees {l : List Nat} (hl : ∀ i ∈ l, i < 64) (hlength : l.length ≤ 64)
    {amountToPay : Int} {coinbase : CTransaction} {later : List CTxOut} {j : Nat}
    (hj : j + later.length = coinbase.vout.length) (matched total : Int) :
    Completes (checkPayees t l amountToPay coinbase j later matched total) ↔
      ∀ p ∈ later.zipIdx j, p2pk p.1.scriptPubKey ≠ none → CountsNotary l.length p.2 := by
  induction later generalizing j matched total with
  | nil => simp [checkPayees]
  | cons txout later ih =>
    have hnext := fun matched total => ih (j := j + 1) (by rw [← hj, List.length_cons]; omega)
      matched total
    obtain ⟨k, hk⟩ := toInt8_eq_sub j
    obtain ⟨hlow, hhigh⟩ := toInt8_range j
    rw [checkPayees, List.zipIdx_cons, List.forall_mem_cons]
    dsimp only
    by_cases hzero : toInt8 j = 0
    · rw [if_pos hzero, hnext]
      exact ⟨fun h => ⟨fun _ => Or.inl hzero, h⟩, fun h => h.2⟩
    · rw [if_neg hzero]
      cases hkey : p2pk txout.scriptPubKey with
      | none =>
        rw [hnext]
        exact ⟨fun h => ⟨fun hne => absurd rfl hne, h⟩, fun h => h.2⟩
      | some key =>
        have hindex : (toUint64 (toInt8 j - 1)).toNat < l.length ↔ CountsNotary l.length j := by
          unfold CountsNotary toUint64
          omega
        have hpubkey : ∀ notary ∈ l, notary < t.pubkeys.length := by
          intro notary hnotary
          rw [t.pubkeys_length]
          exact hl notary hnotary
        by_cases hcount : CountsNotary l.length j
        · have hpaid : (toUint64 (toInt8 j)).toNat < coinbase.vout.length := by
            rw [← hj, List.length_cons]
            unfold CountsNotary at hcount
            unfold toUint64
            omega
          refine (Completes.bind_of (q := ∀ p ∈ later.zipIdx (j + 1), p2pk p.1.scriptPubKey ≠ none →
            CountsNotary l.length p.2) fun notary hnotary => ?_).trans ?_
          · have hmem : notary ∈ l := List.mem_of_getElem? (entry_eq_ok.1 hnotary)
            refine (Completes.bind_of fun pubkey _ => ?_).trans
              (and_iff_right (completes_entry.2 (hpubkey notary hmem)))
            split
            · refine (Completes.bind_of fun paid _ => ?_).trans
                (and_iff_right (completes_entry.2 hpaid))
              split
              · exact hnext _ _
              · exact hnext _ _
            · exact hnext _ _
          · rw [completes_entry, hindex]
            exact and_congr_left fun _ => ⟨fun h _ => h, fun _ => hcount⟩
        · refine iff_of_false (fun h => ?_) fun h => hcount (h.1 ?_)
          · exact hcount (hindex.1 (completes_entry.1 (Completes.bind_iff.1 h).1))
          · exact Option.some_ne_none key

/-! ## The whole check -/

/-- The outputs to public keys stand where notaries are paid. -/
def PaysNotaries (count : Nat) (coinbase : CTransaction) : Prop :=
  ∀ p ∈ coinbase.vout.zipIdx, p2pk p.1.scriptPubKey ≠ none → CountsNotary count p.2

/-- The second transaction has two outputs, the second of them without an amount, and notaries
have signed it, each once. -/
structure Notarisation (env : PayEnv) (block : CBlock) (height : Int) (l : List Nat)
    (txout : CTxOut) : Prop where
  signed : ∃ tx, transactionAt block 1 = .ok tx ∧ tx.vout.length = 2 ∧ tx.vout[1]? = some txout ∧
    env.getNotarisationNotaries (env.komodoNotaries height block.nTime) tx.vin = .ok (some l)
  once : l.Nodup
  zero : txout.nValue = 0

/-- What `komodo_checknotarypay` reads exists. -/
structure NotarypaySafe (env : PayEnv) (block : CBlock) (height : Int) : Prop where
  second : 1 < block.vtx.length
  spends : ∀ tx, transactionAt block 1 = .ok tx →
    (env.komodoNotaries height block.nTime).isEmpty = false →
    ∀ txin ∈ tx.vin.takeWhile fun txin => (env.getTransaction txin.prevout.hash).isSome,
      ∀ tx1, env.getTransaction txin.prevout.hash = some tx1 →
        SpendsOutput (env.komodoNotaries height block.nTime) txin tx1
  opret : ∀ l txout, env.Notarisation block height l txout → txout.scriptPubKey ≠ []
  payees : ∀ l txout totalsats vout coinbase, env.Notarisation block height l txout →
    txout.scriptPubKey[0]? = some 0x6a →
    env.komodoNotarypay l block.nTime height txout.scriptPubKey = .ok (totalsats, vout) →
    totalsats ≠ 0 → transactionAt block 0 = .ok coinbase → PaysNotaries l.length coinbase

theorem completes_getNotarisationNotaries {vin : List CTxIn} :
    Completes (env.getNotarisationNotaries t vin) ↔ (t.isEmpty = false →
      ∀ txin ∈ vin.takeWhile fun txin => (env.getTransaction txin.prevout.hash).isSome,
        ∀ tx1, env.getTransaction txin.prevout.hash = some tx1 → SpendsOutput t txin tx1) := by
  rw [getNotarisationNotaries, Completes.ite_iff, completes_scanInputs]
  simp

theorem getNotarisationNotaries_lt {vin : List CTxIn} {l : List Nat}
    (h : env.getNotarisationNotaries t vin = .ok (some l)) : ∀ i ∈ l, i < 64 := by
  rw [getNotarisationNotaries] at h
  split at h
  · cases h
  · intro i hi
    have hlt := scanInputs_lt (by simp) h i hi
    have hle := t.num_le
    omega

/-- There are at most as many signers as notaries. -/
theorem length_le_of_nodup {l : List Nat} (hl : ∀ i ∈ l, i < 64) (hnodup : l.Nodup) :
    l.length ≤ 64 := by
  have hsub : l ⊆ List.range 64 := fun i hi => List.mem_range.2 (hl i hi)
  exact (hnodup.subperm hsub).length_le.trans (by rw [List.length_range])

/-- The coinbase is judged when it is there. -/
theorem completes_checkCoinbase {l : List Nat} (hl : ∀ i ∈ l, i < 64) (hlength : l.length ≤ 64)
    (hcoinbase : block.vtx ≠ []) {script : CScript} :
    Completes (env.checkCoinbase block height l script) ↔
      ∀ totalsats vout coinbase, env.komodoNotarypay l block.nTime height script =
        .ok (totalsats, vout) → totalsats ≠ 0 → transactionAt block 0 = .ok coinbase →
          PaysNotaries l.length coinbase := by
  rw [checkCoinbase, Completes.bind_iff]
  constructor
  · rintro ⟨-, h⟩ totalsats vout coinbase hpay hpaid hcb
    replace h := h _ hpay
    dsimp only at h
    rw [if_neg hpaid] at h
    obtain ⟨⟨first, hfirst⟩, h⟩ := Completes.bind_iff.1 h
    obtain ⟨-, h⟩ := Completes.bind_iff.1 (h first hfirst)
    obtain ⟨hpayees, -⟩ := Completes.bind_iff.1 (h coinbase hcb)
    exact (completes_checkPayees hl hlength (Nat.zero_add _) 0 0).1 hpayees
  · intro h
    refine ⟨completes_komodoNotarypay hl, ?_⟩
    rintro ⟨totalsats, vout⟩ hpay
    dsimp only
    split
    · exact Completes.pure 0
    · next hpaid =>
      have hfirst : Completes (entry vout 1 ReadFault.output) :=
        completes_entry.2 (komodoNotarypay_first hpay hpaid)
      refine Completes.bind_iff.2 ⟨hfirst, fun first _ => Completes.bind_iff.2
        ⟨⟨_, AssetChain.coinbase_eq hcoinbase⟩, fun coinbase hcb => Completes.bind_iff.2
          ⟨(completes_checkPayees hl hlength (Nat.zero_add _) 0 0).2
            (h totalsats vout coinbase hpay hpaid hcb), ?_⟩⟩⟩
      rintro ⟨matched, total⟩ -
      dsimp only
      split
      · exact Completes.pure _
      · exact Completes.pure _

/-- The op_return of the notarisation is read when it has a byte. -/
theorem completes_checkNotarisation {tx : CTransaction} (htx : transactionAt block 1 = .ok tx)
    (hcoinbase : block.vtx ≠ []) {l : List Nat}
    (hl : env.getNotarisationNotaries (env.komodoNotaries height block.nTime) tx.vin =
      .ok (some l)) :
    Completes (env.checkNotarisation block height tx l) ↔
      ∀ txout, env.Notarisation block height l txout → txout.scriptPubKey ≠ [] ∧
        ∀ totalsats vout coinbase, txout.scriptPubKey[0]? = some 0x6a →
          env.komodoNotarypay l block.nTime height txout.scriptPubKey = .ok (totalsats, vout) →
          totalsats ≠ 0 → transactionAt block 0 = .ok coinbase →
            PaysNotaries l.length coinbase := by
  have hlt := getNotarisationNotaries_lt hl
  rw [checkNotarisation]
  by_cases hnodup : l.Nodup
  swap
  · rw [if_pos hnodup]
    exact iff_of_true (Completes.pure 0) fun txout h => absurd h.once hnodup
  rw [if_neg (not_not.2 hnodup)]
  by_cases htwo : tx.vout.length = 2
  swap
  · rw [if_neg htwo]
    refine iff_of_true (Completes.pure 0) fun txout h => ?_
    obtain ⟨tx', htx', htwo', -⟩ := h.signed
    obtain rfl := Except.ok.inj (htx'.symm.trans htx)
    exact absurd htwo' htwo
  obtain ⟨txout, hout⟩ : Completes (outputAt tx 1) := completes_entry.2 (by omega)
  have honly : ∀ txout', env.Notarisation block height l txout' → txout' = txout := by
    intro txout' h
    obtain ⟨tx', htx', -, hout', -⟩ := h.signed
    obtain rfl := Except.ok.inj (htx'.symm.trans htx)
    exact Option.some.inj (hout'.symm.trans (entry_eq_ok.1 hout))
  rw [if_pos htwo, hout, except_ok_bind]
  by_cases hzero : txout.nValue = 0
  swap
  · rw [if_neg hzero]
    exact iff_of_true (Completes.pure 0) fun txout' h =>
      absurd (honly txout' h ▸ h.zero) hzero
  have hnotarisation : env.Notarisation block height l txout :=
    ⟨⟨tx, htx, htwo, entry_eq_ok.1 hout, hl⟩, hnodup, hzero⟩
  rw [if_pos hzero, Completes.bind_iff, completes_entry, List.length_pos_iff]
  constructor
  · rintro ⟨hscript, h⟩ txout' h'
    obtain rfl := honly txout' h'
    refine ⟨hscript, fun totalsats vout coinbase hop => ?_⟩
    replace h := h 0x6a (entry_eq_ok.2 hop)
    rw [if_pos rfl] at h
    exact (completes_checkCoinbase hlt (length_le_of_nodup hlt hnodup) hcoinbase).1 h
      totalsats vout coinbase
  · intro h
    obtain ⟨hscript, hpayees⟩ := h txout hnotarisation
    refine ⟨hscript, fun opcode hop => ?_⟩
    split
    · next heq =>
      subst heq
      exact (completes_checkCoinbase hlt (length_le_of_nodup hlt hnodup) hcoinbase).2
        fun totalsats vout coinbase => hpayees totalsats vout coinbase (entry_eq_ok.1 hop)
    · exact Completes.pure 0

/-- `komodo_checknotarypay` reads only what exists exactly for the blocks that are safe. -/
theorem completes_checknotarypay (hcoinbase : block.vtx ≠ []) :
    Completes (env.komodoChecknotarypay block height) ↔ env.NotarypaySafe block height := by
  rw [komodoChecknotarypay, Completes.bind_iff]
  constructor
  · rintro ⟨hsecond, h⟩
    obtain ⟨tx, htx⟩ := hsecond
    obtain ⟨hsigned, hrest⟩ := Completes.bind_iff.1 (h tx htx)
    have hsafe : ∀ l txout, env.Notarisation block height l txout → txout.scriptPubKey ≠ [] ∧
        ∀ totalsats vout coinbase, txout.scriptPubKey[0]? = some 0x6a →
          env.komodoNotarypay l block.nTime height txout.scriptPubKey = .ok (totalsats, vout) →
          totalsats ≠ 0 → transactionAt block 0 = .ok coinbase →
            PaysNotaries l.length coinbase := by
      intro l txout hnot
      obtain ⟨tx', htx', -, -, hl⟩ := hnot.signed
      obtain rfl := Except.ok.inj (htx'.symm.trans htx)
      exact (completes_checkNotarisation htx hcoinbase hl).1 (hrest _ hl) txout hnot
    refine ⟨completes_entry.1 ⟨tx, htx⟩, fun tx' htx' => ?_, fun l txout hnot => ?_,
      fun l txout totalsats vout coinbase hnot hop hpay => ?_⟩
    · obtain rfl := Except.ok.inj (htx'.symm.trans htx)
      exact completes_getNotarisationNotaries.1 hsigned
    · exact (hsafe l txout hnot).1
    · exact (hsafe l txout hnot).2 totalsats vout coinbase hop hpay
  · intro h
    refine ⟨completes_entry.2 h.second, fun tx htx => Completes.bind_iff.2
      ⟨completes_getNotarisationNotaries.2 (h.spends tx htx), fun signed hsigned => ?_⟩⟩
    cases signed with
    | none => exact Completes.pure 0
    | some l =>
      refine (completes_checkNotarisation htx hcoinbase hsigned).2 fun txout hnot => ?_
      exact ⟨h.opret l txout hnot, fun totalsats vout coinbase hop hpay =>
        h.payees l txout totalsats vout coinbase hnot hop hpay⟩

end PayEnv

end IndexChain.Supply
