import IndexChain.Core.Conservation
import IndexChain.Models.CC.Contract

/-!
# Histories of transactions

A history lists the transactions of a chain, the newest first. Every transaction
spends outputs that are unspent when it is added, as the coins view makes sure, and
passes the rule of the contract under study. What is found under an id stays the
same from then on.
-/

namespace IndexChain

/-- The transaction with an id. -/
def lookupTx (h : List CTransaction) (id : Uint256) : Option CTransaction :=
  h.find? fun tx => tx.hash == id

/-- The outputs of a transaction. -/
def CTransaction.outpoints (tx : CTransaction) : Finset COutPoint :=
  (Finset.range tx.vout.length).image fun v => { hash := tx.hash, n := UInt32.ofNat v }

/-- The outputs a transaction spends. -/
def CTransaction.prevouts (tx : CTransaction) : Finset COutPoint :=
  (tx.vin.map CTxIn.prevout).toFinset

/-- The unspent outputs of a history. -/
def unspentOutputs : List CTransaction → Finset COutPoint
  | [] => ∅
  | tx :: h => (unspentOutputs h \ tx.prevouts) ∪ tx.outpoints

/-- What the consensus rules ask of every transaction. -/
@[mk_iff] structure SpendsUnspent (h : List CTransaction) (tx : CTransaction) : Prop where
  /-- The id is new. -/
  fresh : ∀ t ∈ h, t.hash ≠ tx.hash
  /-- No output is negative. -/
  values : ∀ out ∈ tx.vout, 0 ≤ out.nValue
  /-- A transaction of at most `MAX_TX_SIZE` bytes has far fewer outputs. -/
  size : tx.vout.length ≤ 1000000000
  /-- No output is spent twice. -/
  distinct : (tx.vin.map CTxIn.prevout).Nodup
  /-- Only unspent outputs are spent. -/
  unspent : tx.isMint = false → ∀ txin ∈ tx.vin, txin.prevout ∈ unspentOutputs h

instance (h : List CTransaction) (tx : CTransaction) : Decidable (SpendsUnspent h tx) :=
  decidable_of_iff _ (spendsUnspent_iff h tx).symm

/-- The histories in which every transaction is accepted by a rule. -/
inductive TxHistory (accepts : List CTransaction → CTransaction → Prop) :
    List CTransaction → Prop
  | nil : TxHistory accepts []
  | cons {h : List CTransaction} {tx : CTransaction} (prev : TxHistory accepts h)
      (spends : SpendsUnspent h tx) (accepted : accepts h tx) : TxHistory accepts (tx :: h)

/-- A contract's view of a history. -/
def CCLib.envAt (lib : CCLib) (symbol : String) (h : List CTransaction) : CCEnv :=
  { lib with assetchainsSymbol := symbol, getTransaction := lookupTx h }

/-! ## Looking up transactions -/

theorem mem_of_lookupTx {h : List CTransaction} {id : Uint256} {tx : CTransaction}
    (hl : lookupTx h id = some tx) : tx ∈ h ∧ tx.hash = id := by
  unfold lookupTx at hl
  exact ⟨List.mem_of_find?_eq_some hl, by simpa using List.find?_some hl⟩

@[simp] theorem lookupTx_cons_self (h : List CTransaction) (tx : CTransaction) :
    lookupTx (tx :: h) tx.hash = some tx := by
  simp [lookupTx]

theorem lookupTx_cons_of_ne {h : List CTransaction} {tx : CTransaction} {id : Uint256}
    (hne : tx.hash ≠ id) : lookupTx (tx :: h) id = lookupTx h id := by
  simp [lookupTx, hne]

/-- What is found stays the same when a new transaction is added. -/
theorem lookupTx_cons {h : List CTransaction} {tx t : CTransaction} {id : Uint256}
    (hfresh : ∀ t ∈ h, t.hash ≠ tx.hash) (hl : lookupTx h id = some t) :
    lookupTx (tx :: h) id = some t := by
  obtain ⟨hmem, hid⟩ := mem_of_lookupTx hl
  have hne : tx.hash ≠ id := fun heq => hfresh t hmem (hid.trans heq.symm)
  rw [lookupTx_cons_of_ne hne, hl]

/-- What is found stays found. -/
theorem isSome_lookupTx_cons {h : List CTransaction} {tx : CTransaction}
    (hfresh : ∀ t ∈ h, t.hash ≠ tx.hash) (id : Uint256) (hsome : (lookupTx h id).isSome = true) :
    (lookupTx (tx :: h) id).isSome = true := by
  obtain ⟨t, ht⟩ := Option.isSome_iff_exists.1 hsome
  rw [lookupTx_cons hfresh ht]
  rfl

/-- The input of a minting transaction has an index that no output has. -/
theorem CTransaction.mint_index {tx : CTransaction} {txin : CTxIn} (hmint : tx.isMint = true)
    (hin : txin ∈ tx.vin) : 1000000000 ≤ txin.prevout.n.toNat := by
  unfold CTransaction.isMint CTransaction.isCoinImport CTransaction.isCoinBase at hmint
  split at hmint
  · rename_i i hv
    rw [hv, List.mem_singleton] at hin
    subst hin
    simp only [COutPoint.isNull, Bool.or_eq_true, Bool.and_eq_true, beq_iff_eq] at hmint
    rcases hmint with hn | ⟨-, hn⟩
    · rw [hn]
      decide
    · rw [hn]
      decide
  · simp_all

/-- A transaction with two inputs spends both. -/
theorem CTransaction.isMint_eq_false {tx : CTransaction} {txin : CTxIn}
    (hvin : tx.vin[1]? = some txin) : tx.isMint = false := by
  unfold CTransaction.isMint CTransaction.isCoinImport CTransaction.isCoinBase
  split
  · rename_i i hv
    simp [hv] at hvin
  · rfl

namespace TxHistory

variable {accepts : List CTransaction → CTransaction → Prop} {h : List CTransaction}

/-- A history of a rule is one of a weaker rule. -/
theorem mono {accepts' : List CTransaction → CTransaction → Prop}
    (hweak : ∀ h tx, accepts h tx → accepts' h tx) (hist : TxHistory accepts h) :
    TxHistory accepts' h := by
  induction hist with
  | nil => exact .nil
  | cons _ spends accepted ih => exact .cons ih spends (hweak _ _ accepted)

theorem size (hist : TxHistory accepts h) : ∀ t ∈ h, t.vout.length ≤ 1000000000 := by
  induction hist with
  | nil => simp
  | cons _ spends _ ih => simpa using ⟨spends.size, ih⟩

theorem values (hist : TxHistory accepts h) : ∀ t ∈ h, ∀ out ∈ t.vout, 0 ≤ out.nValue := by
  induction hist with
  | nil => simp
  | cons _ spends _ ih => simpa using ⟨spends.values, ih⟩

/-- An unspent output is found in the history. -/
theorem exists_of_mem_unspent (hist : TxHistory accepts h) {o : COutPoint}
    (ho : o ∈ unspentOutputs h) : ∃ t, lookupTx h o.hash = some t ∧ o.n.toNat < t.vout.length := by
  induction hist with
  | nil => simp [unspentOutputs] at ho
  | @cons h tx prev spends _ ih =>
    rcases Finset.mem_union.1 ho with ho | ho
    · obtain ⟨t, hl, hn⟩ := ih (Finset.mem_sdiff.1 ho).1
      exact ⟨t, lookupTx_cons spends.fresh hl, hn⟩
    · obtain ⟨v, hv, rfl⟩ := Finset.mem_image.1 ho
      have hlt := Finset.mem_range.1 hv
      refine ⟨tx, lookupTx_cons_self h tx, ?_⟩
      have hsize := spends.size
      have : (UInt32.ofNat v).toNat = v := UInt32.toNat_ofNat_of_lt (by
        show v < 4294967296
        omega)
      rw [this]
      exact hlt

/-- An input refers to a transaction that is there, or to an output no transaction has. -/
theorem vin_found (hist : TxHistory accepts h) : ∀ t ∈ h, ∀ txin ∈ t.vin,
    (lookupTx h txin.prevout.hash).isSome = true ∨ 1000000000 ≤ txin.prevout.n.toNat := by
  induction hist with
  | nil => simp
  | @cons h tx prev spends _ ih =>
    have hkeep := @isSome_lookupTx_cons h tx spends.fresh
    intro t ht txin hin
    rcases List.mem_cons.1 ht with rfl | ht
    · cases hmint : t.isMint with
      | false =>
        obtain ⟨t', hl, -⟩ := prev.exists_of_mem_unspent (spends.unspent hmint txin hin)
        exact Or.inl (hkeep _ (by simp [hl]))
      | true => exact Or.inr (CTransaction.mint_index hmint hin)
    · exact (ih t ht txin hin).imp_left (hkeep _)

/-- The beginning of a history is a history. -/
theorem suffix (later : List CTransaction) (hist : TxHistory accepts (later ++ h)) :
    TxHistory accepts h := by
  induction later with
  | nil => exact hist
  | cons tx later ih =>
    cases hist with
    | cons prev _ _ => exact ih prev

/-- What is found stays the same from then on. -/
theorem lookupTx_append (later : List CTransaction) (hist : TxHistory accepts (later ++ h))
    {id : Uint256} {t : CTransaction} (hl : lookupTx h id = some t) :
    lookupTx (later ++ h) id = some t := by
  induction later with
  | nil => exact hl
  | cons tx later ih =>
    cases hist with
    | cons prev spends _ => exact lookupTx_cons spends.fresh (ih prev)

/-- An output that is found, or that no transaction has, stays the same. -/
theorem spentOutput_stable {later : List CTransaction} (hist : TxHistory accepts (later ++ h))
    (lib : CCLib) (symbol : String) {txin : CTxIn}
    (hfound : (lookupTx h txin.prevout.hash).isSome = true ∨ 1000000000 ≤ txin.prevout.n.toNat) :
    (lib.envAt symbol (later ++ h)).spentOutput txin = (lib.envAt symbol h).spentOutput txin := by
  change (lookupTx (later ++ h) txin.prevout.hash).bind _ =
    (lookupTx h txin.prevout.hash).bind _
  cases hl : lookupTx h txin.prevout.hash with
  | some t' => rw [lookupTx_append _ hist hl]
  | none =>
    have hbig : 1000000000 ≤ txin.prevout.n.toNat := hfound.resolve_left (by simp [hl])
    cases hl' : lookupTx (later ++ h) txin.prevout.hash with
    | none => rfl
    | some t' =>
      have hsize := hist.size t' (mem_of_lookupTx hl').1
      rw [Option.bind_some, Option.bind_none, List.getElem?_eq_none (by omega)]

/-- The outputs that the inputs of a transaction of the history spend stay the same. -/
theorem spentOutput_append {later : List CTransaction} (hist : TxHistory accepts (later ++ h))
    (lib : CCLib) (symbol : String) {t : CTransaction} (ht : t ∈ h) {txin : CTxIn}
    (hin : txin ∈ t.vin) :
    (lib.envAt symbol (later ++ h)).spentOutput txin = (lib.envAt symbol h).spentOutput txin :=
  hist.spentOutput_stable lib symbol ((suffix _ hist).vin_found t ht txin hin)

/-- The outputs that the inputs of a new transaction spend stay the same. -/
theorem spentOutput_new {later : List CTransaction} {tx : CTransaction}
    (hist : TxHistory accepts (later ++ tx :: h)) (lib : CCLib) (symbol : String) {txin : CTxIn}
    (hin : txin ∈ tx.vin) :
    (lib.envAt symbol (later ++ tx :: h)).spentOutput txin =
      (lib.envAt symbol h).spentOutput txin := by
  have hist' : TxHistory accepts ((later ++ [tx]) ++ h) := by simpa using hist
  cases suffix _ hist with
  | cons prev spends _ =>
    have hfound : (lookupTx h txin.prevout.hash).isSome = true ∨
        1000000000 ≤ txin.prevout.n.toNat := by
      cases hmint : tx.isMint with
      | false =>
        obtain ⟨t', hl, -⟩ := prev.exists_of_mem_unspent (spends.unspent hmint txin hin)
        exact Or.inl (by simp [hl])
      | true => exact Or.inr (CTransaction.mint_index hmint hin)
    simpa using hist'.spentOutput_stable lib symbol hfound

end TxHistory

end IndexChain
