import IndexChain.Core.Trim
import IndexChain.Models.Primitives.Transaction

/-!
# The unspent outputs of one transaction

`CCoins` of `coins.h`: the outputs of a transaction, a spent one being null and
spent outputs at the end dropped. `spend` removes an output and
`applyTxInUndo` puts it back; the two are inverse on records in canonical form
(`Canonical`), up to the equality test of the source, which identifies all
fully spent records.
-/

namespace IndexChain

/-- `MAX_SCRIPT_SIZE`. -/
def maxScriptSize : Nat := 10000

/-- Scripts that start with `OP_RETURN` or exceed the size limit are unspendable. -/
def CScript.isUnspendable (s : CScript) : Bool :=
  s.head? == some 0x6a || decide (maxScriptSize < s.length)

/-- The unspent outputs of a transaction with its metadata. -/
structure CCoins where
  /-- Whether the transaction is a coinbase. -/
  fCoinBase : Bool := false
  /-- The outputs; spent ones are null. -/
  vout : List CTxOut := []
  /-- The height of the block that contains the transaction. -/
  nHeight : Nat := 0
  /-- The transaction version. -/
  nVersion : Int := 0
  deriving DecidableEq, Repr

namespace CCoins

/-- Whether every output is spent. -/
def isPruned (c : CCoins) : Bool :=
  c.vout.all CTxOut.isNull

/-- Drop the spent outputs at the end. -/
def cleanup (c : CCoins) : CCoins :=
  { c with vout := c.vout.rdropWhile CTxOut.isNull }

/-- Spend every unspendable output. -/
def clearUnspendable (c : CCoins) : CCoins :=
  cleanup { c with
    vout := c.vout.map fun o => if CScript.isUnspendable o.scriptPubKey then CTxOut.null else o }

/-- The record of a transaction included at height `nHeight`. -/
def fromTx (tx : CTransaction) (nHeight : Nat) : CCoins :=
  clearUnspendable
    { fCoinBase := tx.isCoinBase, vout := tx.vout, nHeight := nHeight, nVersion := tx.nVersion }

/-- The source's `operator==`: fully spent records are all equal. -/
def beq (a b : CCoins) : Bool :=
  if a.isPruned && b.isPruned then true
  else a.fCoinBase == b.fCoinBase && a.nHeight == b.nHeight && a.nVersion == b.nVersion &&
    a.vout == b.vout

/-- Whether output `n` is unspent. -/
def isAvailable (c : CCoins) (n : Nat) : Bool :=
  match c.vout[n]? with
  | some o => !o.isNull
  | none => false

/-- Mark output `n` spent; `none` when it is missing or already spent. -/
def spend (c : CCoins) (n : Nat) : Option CCoins :=
  if c.isAvailable n then some (cleanup { c with vout := c.vout.set n CTxOut.null }) else none

end CCoins

/-- What is needed to restore a spent output. The metadata is meaningful only
when `nHeight` is non-zero, that is when the last output of a record was spent. -/
structure CTxInUndo where
  /-- The spent output. -/
  txout : CTxOut
  /-- Coinbase flag of the fully spent record. -/
  fCoinBase : Bool := false
  /-- Height of the fully spent record. -/
  nHeight : Nat := 0
  /-- Version of the fully spent record. -/
  nVersion : Int := 0
  deriving DecidableEq, Repr

namespace CCoins

/-- The undo entry `UpdateCoins` builds when it spends output `n` of `c`. -/
def spendUndo (c : CCoins) (n : Nat) : Option (CCoins × CTxInUndo) :=
  match c.vout[n]?, c.spend n with
  | some o, some c' =>
    if c'.vout.length = 0 then
      some (c', { txout := o, fCoinBase := c'.fCoinBase, nHeight := c'.nHeight,
                  nVersion := c'.nVersion })
    else some (c', { txout := o })
  | _, _ => none

/-- The record part of `ApplyTxInUndo`: the restored record, and whether the
undo data was consistent with the record it was applied to. -/
def applyUndo (undo : CTxInUndo) (c : CCoins) (n : Nat) : CCoins × Bool :=
  let (c, fClean) :=
    if undo.nHeight ≠ 0 then
      (({ fCoinBase := undo.fCoinBase, nHeight := undo.nHeight, nVersion := undo.nVersion }
        : CCoins), c.isPruned)
    else (c, !c.isPruned)
  let fClean := fClean && !c.isAvailable n
  ({ c with vout := Core.putAt CTxOut.null c.vout n undo.txout }, fClean)

/-- The form `Cleanup` leaves a record of a checked transaction in: spent outputs
are the null output, none is at the end, and an unspent record has a height. -/
structure Canonical (c : CCoins) : Prop where
  /-- Spent outputs are cleared and trimmed. -/
  trimmed : Core.Trimmed CTxOut.isNull CTxOut.null c.vout
  /-- A record with an output belongs to a block above the genesis block. -/
  height : c.vout ≠ [] → c.nHeight ≠ 0

theorem Canonical.isPruned_iff {c : CCoins} (h : c.Canonical) :
    c.isPruned = true ↔ c.vout = [] := by
  unfold isPruned
  rw [List.all_eq_true]
  refine ⟨fun hall => h.trimmed.eq_nil_of_all hall, fun hnil => ?_⟩
  simp [hnil]

theorem isPruned_cleanup (c : CCoins) : c.cleanup.isPruned = c.isPruned := by
  rw [Bool.eq_iff_iff]
  unfold isPruned cleanup
  rw [List.all_eq_true, List.all_eq_true]
  refine ⟨fun h => ?_, fun h o ho => h o ((List.rdropWhile_prefix _ _).subset ho)⟩
  have hnil : c.vout.rdropWhile CTxOut.isNull = [] := by
    rw [← List.rdropWhile_idempotent, List.rdropWhile_eq_nil_iff]
    exact h
  exact List.rdropWhile_eq_nil_iff.1 hnil

/-- The content of a record: all fully spent records have the same one. -/
def live (c : CCoins) : CCoins :=
  if c.isPruned then {} else c

theorem live_of_isPruned {c : CCoins} (h : c.isPruned = true) : c.live = {} :=
  if_pos h

theorem live_of_not_isPruned {c : CCoins} (h : c.isPruned = false) : c.live = c :=
  if_neg (by simp [h])

@[simp] theorem isPruned_live (c : CCoins) : c.live.isPruned = c.isPruned := by
  cases h : c.isPruned with
  | true => rw [live_of_isPruned h]; rfl
  | false => rw [live_of_not_isPruned h, h]

/-- The source's equality compares contents. -/
theorem beq_iff_live (a b : CCoins) : a.beq b = true ↔ a.live = b.live := by
  unfold beq
  cases ha : a.isPruned with
  | true =>
    cases hb : b.isPruned with
    | true => simp [live_of_isPruned ha, live_of_isPruned hb]
    | false =>
      have hne : a.vout ≠ b.vout := by
        intro h
        simp only [isPruned, h] at ha
        simp only [isPruned, ha] at hb
        cases hb
      rw [live_of_isPruned ha, live_of_not_isPruned hb]
      simp only [Bool.and_false, Bool.false_eq_true, if_false, Bool.and_eq_true, beq_iff_eq, hne,
        and_false, false_iff]
      rintro rfl
      cases hb
  | false =>
    cases hb : b.isPruned with
    | true =>
      have hne : a.vout ≠ b.vout := by
        intro h
        simp only [isPruned, ← h] at hb
        simp only [isPruned, hb] at ha
        cases ha
      rw [live_of_isPruned hb, live_of_not_isPruned ha]
      simp only [Bool.and_true, Bool.false_eq_true, if_false, Bool.and_eq_true, beq_iff_eq, hne,
        and_false, false_iff]
      rintro rfl
      cases ha
    | false =>
      rw [live_of_not_isPruned ha, live_of_not_isPruned hb]
      cases a
      cases b
      rw [Bool.and_self, if_neg Bool.false_ne_true]
      simp only [Bool.and_eq_true, beq_iff_eq, mk.injEq]
      tauto

/-- What spending an output does and records. -/
theorem spendUndo_cases {c c' : CCoins} {u : CTxInUndo} {n : Nat}
    (hs : c.spendUndo n = some (c', u)) :
    ∃ o, c.vout[n]? = some o ∧ o.isNull = false ∧
      c' = { c with vout := (c.vout.set n CTxOut.null).rdropWhile CTxOut.isNull } ∧
      u = if c'.vout = [] then
            { txout := o, fCoinBase := c.fCoinBase, nHeight := c.nHeight, nVersion := c.nVersion }
          else { txout := o } := by
  unfold spendUndo spend isAvailable at hs
  cases ho : c.vout[n]? with
  | none => simp [ho] at hs
  | some o =>
    simp only [ho] at hs
    by_cases hnull : o.isNull = true
    · simp [hnull] at hs
    · rw [Bool.not_eq_true] at hnull
      simp only [hnull, Bool.not_false, if_true, List.length_eq_zero_iff] at hs
      refine ⟨o, rfl, hnull, ?_⟩
      split at hs
      · rename_i hnil
        obtain ⟨rfl, rfl⟩ := Prod.mk.inj (Option.some.inj hs)
        exact ⟨rfl, by rw [if_pos hnil]; rfl⟩
      · rename_i hnil
        obtain ⟨rfl, rfl⟩ := Prod.mk.inj (Option.some.inj hs)
        exact ⟨rfl, by rw [if_neg hnil]⟩

theorem Canonical.spendUndo {c c' : CCoins} {u : CTxInUndo} {n : Nat} (hc : c.Canonical)
    (hs : c.spendUndo n = some (c', u)) : c'.Canonical := by
  obtain ⟨o, ho, -, rfl, -⟩ := spendUndo_cases hs
  refine ⟨Core.trimmed_rdropWhile (Core.blank_set hc.trimmed.blank (fun _ => rfl) n), fun _ => ?_⟩
  apply hc.height
  intro hnil
  simp [hnil] at ho

/-- Spending output `n` and applying the recorded undo to any record with the
content of the result gives the original record back, cleanly. -/
theorem applyUndo_spendUndo {c c' d : CCoins} {u : CTxInUndo} {n : Nat} (hc : c.Canonical)
    (hs : c.spendUndo n = some (c', u)) (heq : d.live = c'.live) :
    applyUndo u d n = (c, true) := by
  obtain ⟨o, ho, -, hc', hu⟩ := spendUndo_cases hs
  have hput := Core.putAt_rdropWhile_set hc.trimmed ho
  have hheight : c.nHeight ≠ 0 := by
    apply hc.height
    intro hnil
    simp [hnil] at ho
  have hdpr : d.isPruned = c'.isPruned := by
    rw [← isPruned_live d, heq, isPruned_live]
  by_cases hnil : c'.vout = []
  · -- the record was fully spent: the metadata comes from the undo entry
    rw [(hc.spendUndo hs).isPruned_iff.2 hnil] at hdpr
    rw [if_pos hnil] at hu
    rw [hc'] at hnil
    dsimp only at hnil
    rw [hnil] at hput
    subst hu
    simp only [applyUndo, if_pos hheight, isAvailable, List.getElem?_nil, hput, hdpr,
      Bool.not_false, Bool.and_true]
  · -- an output is left: the metadata is still there
    have hpr : c'.isPruned = false := by
      rw [← Bool.not_eq_true, (hc.spendUndo hs).isPruned_iff]
      exact hnil
    have hdc : d = c' := by
      rw [hpr] at hdpr
      rwa [live_of_not_isPruned hpr, live_of_not_isPruned hdpr] at heq
    rw [if_neg hnil] at hu
    have hav : c'.isAvailable n = false := by
      unfold isAvailable
      cases hx : c'.vout[n]? with
      | none => rfl
      | some x =>
        rw [hc'] at hx
        rw [Core.getElem?_rdropWhile_set hx]
        rfl
    have hzero : ¬ u.nHeight ≠ 0 := by simp [hu]
    simp only [applyUndo, hdc, if_neg hzero, hpr, hav]
    subst hc' hu
    simp only [hput, Bool.not_false, Bool.and_true]

/-! ## Records of whole transactions -/

theorem Canonical.cleanup {c : CCoins} (h : c.Canonical) : c.cleanup = c := by
  unfold CCoins.cleanup
  rw [h.trimmed.trim]

private theorem blank_clearUnspendable {l : List CTxOut}
    (h : ∀ o ∈ l, o.isNull = true → o = CTxOut.null) :
    ∀ o ∈ l.map (fun o => if CScript.isUnspendable o.scriptPubKey then CTxOut.null else o),
      o.isNull = true → o = CTxOut.null := by
  intro o ho hnull
  obtain ⟨o', ho', rfl⟩ := List.mem_map.1 ho
  split
  · rfl
  · rename_i hs
    rw [if_neg hs] at hnull
    exact h o' ho' hnull

/-- The record of a transaction without negative outputs is canonical. -/
theorem canonical_fromTx {tx : CTransaction} {nHeight : Nat} (hh : nHeight ≠ 0)
    (hv : ∀ o ∈ tx.vout, o.isNull = false) : (fromTx tx nHeight).Canonical where
  trimmed := Core.trimmed_rdropWhile <| blank_clearUnspendable fun o ho hnull => by
    rw [hv o ho] at hnull
    cases hnull
  height := fun _ => hh

/-- Clearing the unspendable outputs of a transaction's record changes nothing. -/
theorem clearUnspendable_fromTx (tx : CTransaction) (nHeight : Nat) :
    (fromTx tx nHeight).clearUnspendable = fromTx tx nHeight := by
  unfold fromTx clearUnspendable CCoins.cleanup
  simp only [CCoins.mk.injEq, and_self, and_true, true_and]
  rw [List.map_congr_left (g := id), List.map_id, List.rdropWhile_idempotent]
  intro o ho
  obtain ⟨o', -, rfl⟩ := List.mem_map.1 ((List.rdropWhile_prefix _ _).subset ho)
  by_cases hs : CScript.isUnspendable o'.scriptPubKey = true
  · rw [if_pos hs]
    exact ite_self _
  · rw [if_neg hs, if_neg hs]
    rfl

/-- The record `DisconnectBlock` compares with the block's own outputs: the stored
record without unspendable outputs, its version corrected when negative. -/
def outsOf (outs : CCoins) (outsBlock : CCoins) : CCoins :=
  let outs := outs.clearUnspendable
  if outsBlock.nVersion < 0 then { outs with nVersion := outsBlock.nVersion } else outs

theorem isPruned_clearUnspendable {c : CCoins} (h : c.isPruned = true) :
    c.clearUnspendable.isPruned = true := by
  unfold clearUnspendable
  rw [isPruned_cleanup]
  unfold isPruned at h ⊢
  rw [List.all_eq_true] at h ⊢
  intro o ho
  obtain ⟨o', ho', rfl⟩ := List.mem_map.1 ho
  split
  · rfl
  · exact h o' ho'

/-- A stored record with the content of the block's outputs passes the comparison. -/
theorem beq_outsOf {d : CCoins} {tx : CTransaction} {nHeight : Nat}
    (heq : d.live = (fromTx tx nHeight).live) :
    (outsOf d (fromTx tx nHeight)).beq (fromTx tx nHeight) = true := by
  rw [beq_iff_live]
  cases hpr : (fromTx tx nHeight).isPruned with
  | true =>
    have hd : d.isPruned = true := by
      rw [← isPruned_live d, heq, isPruned_live, hpr]
    have hout : (outsOf d (fromTx tx nHeight)).isPruned = true := by
      have hcl := isPruned_clearUnspendable hd
      unfold outsOf
      dsimp only
      split
      · exact hcl
      · exact hcl
    rw [live_of_isPruned hout, live_of_isPruned hpr]
  | false =>
    have hd : d = fromTx tx nHeight := by
      have hdpr : d.isPruned = false := by
        rw [← isPruned_live d, heq, isPruned_live, hpr]
      rwa [live_of_not_isPruned hpr, live_of_not_isPruned hdpr] at heq
    have hout : outsOf d (fromTx tx nHeight) = fromTx tx nHeight := by
      unfold outsOf
      rw [hd, clearUnspendable_fromTx]
      exact ite_self _
    rw [hout]

end CCoins

end IndexChain
