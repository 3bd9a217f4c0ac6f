import IndexChain.Models.Notary.ConnectBlock

/-!
# Who signed a notarisation

The signers of a transaction are read off the scripts it spends. A script of the
right length that merely contains a notary's key is counted like one that demands
a signature, so the mask is right exactly for transactions in which a spent script
of standard form stands behind every notary that is counted (`maskSound_iff`).
Along every run the notarised height is raised by notarised transactions only
(`notarisation_signed`).
-/

namespace IndexChain.Notary

open IndexChain.Core

/-- A payment to a public key. -/
def payToPubkey (pubkey : Vector UInt8 33) : CScript :=
  0x21 :: pubkey.toList ++ [0xac]

/-- A payment to the hash of a public key. -/
def payToPubkeyHash (hash : Vector UInt8 20) : CScript :=
  [0x76, 0xa9, 0x14] ++ hash.toList ++ [0x88, 0xac]

/-- The two script forms that demand a signature. -/
def standardForm (s : CScript) : Bool :=
  (s.length == 35 && s.take 1 == [0x21] && s.drop 34 == [0xac]) ||
  (s.length == 25 && s.take 3 == [0x76, 0xa9, 0x14] && s.drop 23 == [0x88, 0xac])

/-- The chains whose notarisations need no signatures. -/
def exemptSymbol (symbol : List UInt8) : Bool :=
  symbol == KomodoEnv.pizzaName || symbol.take 5 == KomodoEnv.txsclName ||
    symbol == KomodoEnv.beerName

namespace KomodoEnv

variable {W : Type} (env : KomodoEnv W)

/-- A script demands a signature of notary `k`. -/
def requiresSignature (n : Notaries) (k : Nat) (s : CScript) : Bool :=
  decide ((k : Int) < n.numnotaries) && (s == payToPubkey (n.pubkeys k) ||
    (k == 0 && s == payToPubkeyHash (env.calcRmd160Sha256 (n.pubkeys 0))))

/-- Notary `k` signed a transaction. -/
def signedBy (n : Notaries) (tx : CTransaction) (k : Nat) : Bool :=
  tx.vin.any fun txin => (env.spentScript txin.prevout).any (env.requiresSignature n k)

/-- The number of notaries that signed a transaction. -/
def signers (n : Notaries) (tx : CTransaction) : Nat :=
  (List.range 64).countP (env.signedBy n tx)

/-- Every notary in the mask signed. -/
def MaskSound (height : Int) (n : Notaries) (i : Nat) (tx : CTransaction) : Prop :=
  ∀ k, (env.signedmask height n i tx).getLsbD k = true → env.signedBy n tx k = true

/-- Behind every notary that an input is counted for stands an input of standard form. -/
def Backed (n : Notaries) (i : Nat) (tx : CTransaction) : Prop :=
  ∀ txin ∈ scannedInputs i tx, ∀ k, env.notaryOf n txin = some k →
    (k : Int) < n.numnotaries ∧ ∃ txin' ∈ tx.vin, env.notaryOf n txin' = some k ∧
      (env.spentScript txin'.prevout).any standardForm = true

/-! ## The mask -/

theorem notarycmp_cases {n : Notaries} {s : List UInt8} {k : Nat} (h : notarycmp n s = some k) :
    (s.length = 25 ∧ (s.drop 3).take 20 = n.rmd160.toList ∧ k = 0) ∨
    (s.length = 35 ∧ (s.drop 1).take 33 = (n.pubkeys k).toList ∧ (k : Int) < n.numnotaries ∧
      ∀ i < k, (s.drop 1).take 33 ≠ (n.pubkeys i).toList) := by
  unfold notarycmp at h
  split at h
  · rename_i h25
    exact Or.inl ⟨h25.1, h25.2, (Option.some.inj h).symm⟩
  · split at h
    · rename_i h35
      rw [List.find?_range_eq_some] at h
      obtain ⟨heq, hlt, hmin⟩ := h
      rw [beq_iff_eq] at heq
      rw [List.mem_range] at hlt
      refine Or.inr ⟨h35, heq, by omega, fun i hi hi' => ?_⟩
      have := hmin i hi
      rw [hi'] at this
      simp at this
    · cases h

theorem notaryOf_cases {n : Notaries} {txin : CTxIn} {k : Nat}
    (h : env.notaryOf n txin = some k) :
    ∃ s, env.spentScript txin.prevout = some s ∧ notarycmp n (s.take 35) = some k := by
  unfold notaryOf gettxoutScriptPubKey at h
  cases hs : env.spentScript txin.prevout with
  | none => simp [hs] at h
  | some s =>
    simp only [hs, Option.map_some] at h
    split at h
    · exact ⟨s, rfl, h⟩
    · cases h

theorem notaryOf_of_notarycmp {n : Notaries} {txin : CTxIn} {s : CScript} {k : Nat}
    (hs : env.spentScript txin.prevout = some s) (hlen : s ≠ [])
    (h : notarycmp n (s.take 35) = some k) : env.notaryOf n txin = some k := by
  have hpos : 0 < (s.take 35).length := by
    have := List.length_pos_iff.2 hlen
    rw [List.length_take]
    omega
  unfold notaryOf gettxoutScriptPubKey
  simp only [hs, Option.map_some]
  rw [if_pos hpos, h]

private theorem eq_payToPubkey {s : CScript} {pubkey : Vector UInt8 33}
    (hfirst : s.take 1 = [0x21]) (hkey : (s.drop 1).take 33 = pubkey.toList)
    (hlast : s.drop 34 = [0xac]) : s = payToPubkey pubkey :=
  calc s = s.take 1 ++ ((s.drop 1).take 33 ++ (s.drop 1).drop 33) := by
        rw [List.take_append_drop, List.take_append_drop]
    _ = payToPubkey pubkey := by
        rw [List.drop_drop, hfirst, hkey, hlast]
        rfl

private theorem eq_payToPubkeyHash {s : CScript} {hash : Vector UInt8 20}
    (hfirst : s.take 3 = [0x76, 0xa9, 0x14]) (hkey : (s.drop 3).take 20 = hash.toList)
    (hlast : s.drop 23 = [0x88, 0xac]) : s = payToPubkeyHash hash :=
  calc s = s.take 3 ++ ((s.drop 3).take 20 ++ (s.drop 3).drop 20) := by
        rw [List.take_append_drop, List.take_append_drop]
    _ = payToPubkeyHash hash := by
        rw [List.drop_drop, hfirst, hkey, hlast]
        rfl

/-- A script of standard form that is counted for a notary demands its signature. -/
theorem requiresSignature_of_standardForm {n : Notaries} {k : Nat} {s : CScript}
    (hrmd : n.rmd160 = env.calcRmd160Sha256 (n.pubkeys 0)) (hk : (k : Int) < n.numnotaries)
    (hform : standardForm s = true) (h : notarycmp n (s.take 35) = some k) :
    env.requiresSignature n k s = true := by
  have hlen : s.length ≤ 35 := by
    simp only [standardForm, Bool.or_eq_true, Bool.and_eq_true, beq_iff_eq] at hform
    omega
  rw [List.take_of_length_le hlen] at h
  simp only [standardForm, Bool.or_eq_true, Bool.and_eq_true, beq_iff_eq] at hform
  simp only [requiresSignature, Bool.and_eq_true, Bool.or_eq_true, decide_eq_true_eq, beq_iff_eq]
  refine ⟨hk, ?_⟩
  rcases notarycmp_cases h with ⟨h25, hkey, hk0⟩ | ⟨h35, hkey, -, -⟩
  · obtain ⟨⟨-, hfirst⟩, hlast⟩ := hform.resolve_left (by omega)
    exact Or.inr ⟨hk0, eq_payToPubkeyHash hfirst (hrmd ▸ hkey) hlast⟩
  · obtain ⟨⟨-, hfirst⟩, hlast⟩ := hform.resolve_right (by omega)
    exact Or.inl (eq_payToPubkey hfirst hkey hlast)

@[simp] theorem length_payToPubkey (pubkey : Vector UInt8 33) :
    (payToPubkey pubkey).length = 35 := by
  simp [payToPubkey]

@[simp] theorem length_payToPubkeyHash (hash : Vector UInt8 20) :
    (payToPubkeyHash hash).length = 25 := by
  simp [payToPubkeyHash]

theorem standardForm_payToPubkey (pubkey : Vector UInt8 33) :
    standardForm (payToPubkey pubkey) = true := by
  have hlast : (payToPubkey pubkey).drop 34 = [0xac] := by
    rw [payToPubkey, List.drop_left' (by simp)]
  simp [standardForm, hlast]
  rfl

theorem standardForm_payToPubkeyHash (hash : Vector UInt8 20) :
    standardForm (payToPubkeyHash hash) = true := by
  have hlast : (payToPubkeyHash hash).drop 23 = [0x88, 0xac] := by
    rw [payToPubkeyHash, List.drop_left' (by simp)]
  simp [standardForm, hlast]
  rfl

/-- A script that demands the signature of a notary is counted for the first notary
with its key. -/
theorem notarycmp_of_requiresSignature {n : Notaries} {k : Nat} {s : CScript}
    (hrmd : n.rmd160 = env.calcRmd160Sha256 (n.pubkeys 0))
    (hfirst : ∀ i < k, n.pubkeys i ≠ n.pubkeys k) (h : env.requiresSignature n k s = true) :
    s ≠ [] ∧ standardForm s = true ∧ notarycmp n (s.take 35) = some k := by
  simp only [requiresSignature, Bool.and_eq_true, Bool.or_eq_true, decide_eq_true_eq,
    beq_iff_eq] at h
  obtain ⟨hk, rfl | ⟨rfl, rfl⟩⟩ := h
  · refine ⟨by simp [payToPubkey], standardForm_payToPubkey _, ?_⟩
    have hkey : ((payToPubkey (n.pubkeys k)).drop 1).take 33 = (n.pubkeys k).toList := by
      rw [payToPubkey]
      exact List.take_left' (by simp)
    rw [List.take_of_length_le (by simp), notarycmp, if_neg (by simp), if_pos (by simp),
      List.find?_range_eq_some, hkey]
    refine ⟨by simp, List.mem_range.2 (by omega), fun i hi => ?_⟩
    have := hfirst i hi
    simpa using fun heq => this heq.symm
  · refine ⟨by simp [payToPubkeyHash], standardForm_payToPubkeyHash _, ?_⟩
    have hkey : ((payToPubkeyHash n.rmd160).drop 3).take 20 = n.rmd160.toList := by
      rw [payToPubkeyHash]
      exact List.take_left' (by simp)
    rw [← hrmd, List.take_of_length_le (by simp), notarycmp, if_pos ⟨by simp, hkey⟩]

/-- From height 91400 on the mask holds the notaries that inputs are counted for. -/
theorem getLsbD_signedmask {height : Int} (hheight : 91400 ≤ height) (n : Notaries) (i : Nat)
    (tx : CTransaction) (k : Nat) :
    (env.signedmask height n i tx).getLsbD k = true ↔
      k < 64 ∧ ∃ txin ∈ scannedInputs i tx, env.notaryOf n txin = some k := by
  rw [signedmask, if_neg (by omega), getLsbD_collect, List.mem_filterMap]
  simp

/-- The mask is right exactly for backed transactions. -/
theorem maskSound_iff {height : Int} (hheight : 91400 ≤ height) {n : Notaries}
    (hrmd : n.rmd160 = env.calcRmd160Sha256 (n.pubkeys 0)) (i : Nat) (tx : CTransaction) :
    env.MaskSound height n i tx ↔ env.Backed n i tx := by
  constructor
  · intro hsound txin hin k hk
    obtain ⟨s, hs, hcmp⟩ := env.notaryOf_cases hk
    have hle := n.numnotaries_le
    -- a counted notary is the first one with its key
    have hfirst : ∀ i < k, n.pubkeys i ≠ n.pubkeys k := by
      rcases notarycmp_cases hcmp with ⟨-, -, rfl⟩ | ⟨-, hkey, -, hmin⟩
      · omega
      · intro i hi heq
        exact hmin i hi (heq ▸ hkey)
    have hlt : k < 64 := by
      rcases notarycmp_cases hcmp with ⟨-, -, rfl⟩ | ⟨-, -, hlt, -⟩ <;> omega
    have hsigned := hsound k ((env.getLsbD_signedmask hheight n i tx k).2 ⟨hlt, txin, hin, hk⟩)
    unfold signedBy at hsigned
    obtain ⟨txin', hin', hany⟩ := List.any_eq_true.1 hsigned
    obtain ⟨s', hs', hreq⟩ := (Option.any_eq_true _ _).1 hany
    obtain ⟨hne, hform, hcmp'⟩ := env.notarycmp_of_requiresSignature hrmd hfirst hreq
    have hnum : (k : Int) < n.numnotaries := by
      simp only [requiresSignature, Bool.and_eq_true, decide_eq_true_eq] at hreq
      exact hreq.1
    exact ⟨hnum, txin', hin', env.notaryOf_of_notarycmp hs' hne hcmp', by simp [hs', hform]⟩
  · intro hbacked k hk
    obtain ⟨-, txin, hin, hnot⟩ := (env.getLsbD_signedmask hheight n i tx k).1 hk
    obtain ⟨hnum, txin', hin', hnot', hform⟩ := hbacked txin hin k hnot
    obtain ⟨s, hs, hcmp⟩ := env.notaryOf_cases hnot'
    rw [hs, Option.any_some] at hform
    unfold signedBy
    refine List.any_eq_true.2 ⟨txin', hin', ?_⟩
    rw [hs, Option.any_some]
    exact env.requiresSignature_of_standardForm hrmd hnum hform hcmp

/-! ## Raising the notarised height -/

/-- The characters of a C string, with the byte that ends it. -/
private theorem getElem?_of_strEq {buf : ScriptBuf} {s : List UInt8} {off j : Nat}
    (h : buf.strEq s off = true) (hj : j ≤ s.length) : (s ++ [0])[j]? = some (buf (off + j)) := by
  unfold ScriptBuf.strEq at h
  rw [beq_iff_eq] at h
  rw [← h]
  simp [ScriptBuf.slice, Nat.lt_succ_of_le hj]

/-- A C string does not end before other characters at the same place. -/
private theorem length_le_of_strEq {buf : ScriptBuf} {s t : List UInt8} {off : Nat} (ht : 0 ∉ t)
    (h : buf.strEq s off = true) (hat : ∀ j < t.length, t[j]? = some (buf (off + j))) :
    t.length ≤ s.length := by
  by_contra hlt
  have h1 := getElem?_of_strEq h le_rfl
  rw [List.getElem?_concat_length] at h1
  have h2 := hat s.length (Nat.lt_of_not_le hlt)
  rw [← h1] at h2
  exact ht (List.mem_of_getElem? h2)

/-- Characters at the same place as a C string are its beginning. -/
private theorem take_eq_of_strEq {buf : ScriptBuf} {s t : List UInt8} {off : Nat} (ht : 0 ∉ t)
    (h : buf.strEq s off = true) (hat : ∀ j < t.length, t[j]? = some (buf (off + j))) :
    s.take t.length = t := by
  have hle := length_le_of_strEq ht h hat
  apply List.ext_getElem?
  intro j
  by_cases hj : j < t.length
  · have h1 := getElem?_of_strEq h (Nat.le_of_lt (Nat.lt_of_lt_of_le hj hle))
    rw [List.getElem?_append_left (Nat.lt_of_lt_of_le hj hle)] at h1
    rw [List.getElem?_take, if_pos hj, hat j hj, h1]
  · rw [List.getElem?_take, if_neg hj, List.getElem?_eq_none (Nat.le_of_not_lt hj)]

/-- Two C strings at one place are equal. -/
private theorem strEq_inj {buf : ScriptBuf} {s t : List UInt8} {off : Nat} (hs : 0 ∉ s)
    (ht : 0 ∉ t) (h : buf.strEq s off = true) (h' : buf.strEq t off = true) : s = t := by
  have hat : ∀ {r : List UInt8}, buf.strEq r off = true →
      ∀ j < r.length, r[j]? = some (buf (off + j)) := by
    intro r hr j hj
    rw [← getElem?_of_strEq hr (Nat.le_of_lt hj), List.getElem?_append_left hj]
  have h1 := take_eq_of_strEq ht h (hat h')
  have h2 := length_le_of_strEq hs h' (hat h)
  rwa [List.take_of_length_le h2] at h1

/-- A notarisation of a chain that is not exempt is not exempt. -/
theorem unsignedSymbol_eq_false {buf : ScriptBuf} {opoffset : Nat}
    (hsym : env.assetchainsSymbol ≠ []) (hexempt : exemptSymbol env.assetchainsSymbol = false)
    (hm : env.matched buf opoffset = true) : unsignedSymbol buf (opoffset + 68) = false := by
  unfold matched at hm
  rw [if_neg hsym] at hm
  simp only [exemptSymbol, Bool.or_eq_false_iff, beq_eq_false_iff_ne] at hexempt
  obtain ⟨⟨hpizza, htxscl⟩, hbeer⟩ := hexempt
  have hnul := env.symbol_no_nul
  rw [Bool.eq_false_iff]
  intro h
  simp only [unsignedSymbol, Bool.or_eq_true] at h
  rcases h with (h | h) | h
  · exact hpizza (strEq_inj hnul (by decide) hm h)
  · rw [beq_iff_eq] at h
    refine htxscl (take_eq_of_strEq (t := txsclName) (by decide) hm fun j hj => ?_)
    rw [← h] at hj ⊢
    simp only [ScriptBuf.slice, List.length_map, List.length_range] at hj
    simp [ScriptBuf.slice, hj]
  · exact hbeer (strEq_inj hnul (by decide) hm h)

theorem notarizedHeight_otherOpret (a : VoutArgs) (buf : ScriptBuf) (opretlen opoffset : Nat)
    (t : TxScan) (sp : KomodoState W) :
    (env.otherOpret a buf opretlen opoffset t sp).2.notarizedHeight = sp.notarizedHeight := by
  unfold otherOpret
  split
  · dsimp only
    split
    · exact env.notarizedHeight_stateupdate _ _
    · rfl
  · dsimp only
    rw [apply_ite KomodoState.notarizedHeight, notarizedHeight_stateupdate, ite_self]

/-- A notarisation raises the notarised height only in a notarised transaction. -/
theorem notarizedHeight_notarisation (hsym : env.assetchainsSymbol ≠ [])
    (hexempt : exemptSymbol env.assetchainsSymbol = false) (a : VoutArgs) (buf : ScriptBuf)
    (opretlen opoffset : Nat) (t : TxScan) (sp : KomodoState W) :
    (env.notarisation a buf opretlen opoffset t sp).2.notarizedHeight = sp.notarizedHeight ∨
      a.notarized = true := by
  unfold notarisation
  dsimp only
  split
  · exact Or.inl rfl
  · split
    · rename_i h
      simp only [Bool.and_eq_true, Bool.or_eq_true] at h
      obtain ⟨⟨hnot, -⟩, hm⟩ := h
      rw [hm, nameOffset, if_pos rfl, env.unsignedSymbol_eq_false hsym hexempt hm] at hnot
      right
      simpa using hnot
    · exact Or.inl rfl

/-- An output raises the notarised height only in a notarised transaction. -/
theorem notarizedHeight_voutupdate (hsym : env.assetchainsSymbol ≠ [])
    (hexempt : exemptSymbol env.assetchainsSymbol = false) (a : VoutArgs) (buf : ScriptBuf)
    (t : TxScan) (sp : KomodoState W) :
    (env.voutupdate a buf t sp).2.notarizedHeight = sp.notarizedHeight ∨ a.notarized = true := by
  unfold voutupdate scanOpret
  dsimp only
  split
  · split
    · exact Or.inl (env.notarizedHeight_stateupdate _ _)
    · split
      · exact env.notarizedHeight_notarisation hsym hexempt _ _ _ _ _ _
      · split
        · exact Or.inl (env.notarizedHeight_otherOpret _ _ _ _ _ _)
        · exact Or.inl rfl
  · exact Or.inl rfl

/-- The output loop. -/
theorem notarizedHeight_voutLoop (hsym : env.assetchainsSymbol ≠ [])
    (hexempt : exemptSymbol env.assetchainsSymbol = false) (b : BlockArgs) (i : Nat)
    (tx : CTransaction) (notarized : Bool) (mask : BitVec 64) (j : Nat) (outs : List CTxOut)
    (t : TxScan) (s : LoopState W) :
    (env.voutLoop b i tx notarized mask j outs t s).2.sp.notarizedHeight = s.sp.notarizedHeight ∨
      notarized = true := by
  induction outs generalizing j t s with
  | nil => exact Or.inl rfl
  | cons out rest ih =>
    unfold voutLoop
    dsimp only
    split
    · rcases ih (j + 1) _ _ with h | h
      · rw [h]
        exact env.notarizedHeight_voutupdate hsym hexempt _ _ _ _
      · exact Or.inr h
    · exact ih (j + 1) t s

theorem notarizedHeight_ratify (b : BlockArgs) (tx : CTransaction) (mask : BitVec 64)
    (s : LoopState W) : (env.ratify b tx mask s).sp.notarizedHeight = s.sp.notarizedHeight := by
  unfold ratify
  dsimp only
  split
  · exact env.notarizedHeight_stateupdate _ _
  · rfl

/-- A transaction raises the notarised height only when it has enough signers. -/
theorem isNotarized_of_raised (hsym : env.assetchainsSymbol ≠ [])
    (hexempt : exemptSymbol env.assetchainsSymbol = false) (hreg : env.regtest = false)
    {b : BlockArgs} {i : Nat} {tx : CTransaction} {s : LoopState W}
    (h : s.sp.notarizedHeight < (env.connectTx b i tx s).sp.notarizedHeight) :
    env.isNotarized b.height s.notaries (env.signedmask b.height s.notaries i tx) = true := by
  unfold connectTx at h
  simp only [hreg, Bool.false_and, Bool.or_false, Bool.false_eq_true, if_false] at h
  rcases env.notarizedHeight_voutLoop hsym hexempt b i tx
    (env.isNotarized b.height s.notaries (env.signedmask b.height s.notaries i tx))
    (env.signedmask b.height s.notaries i tx) 0 tx.vout {} s with heq | hnot
  · exfalso
    split at h
    · rw [env.notarizedHeight_ratify, heq] at h
      exact lt_irrefl _ h
    · rw [heq] at h
      exact lt_irrefl _ h
  · exact hnot

/-- A notarised transaction has at least as many signers in its mask as the rule asks for. -/
theorem le_weight_of_isNotarized {height : Int} {n : Notaries} {mask : BitVec 64}
    (h : env.isNotarized height n mask = true) :
    min (minratify height : Int) (n.numnotaries.tdiv 5 + 1) ≤ weight mask := by
  simp only [isNotarized, Bool.or_eq_true, Bool.and_eq_true, decide_eq_true_eq] at h
  omega

theorem notaries_voutLoop (b : BlockArgs) (i : Nat) (tx : CTransaction) (notarized : Bool)
    (mask : BitVec 64) (j : Nat) (outs : List CTxOut) (t : TxScan) (s : LoopState W) :
    (env.voutLoop b i tx notarized mask j outs t s).2.notaries = s.notaries := by
  induction outs generalizing j t s with
  | nil => rfl
  | cons out rest ih =>
    unfold voutLoop
    dsimp only
    split
    · exact ih (j + 1) _ _
    · exact ih (j + 1) t s

/-- A transaction with fewer than three outputs ratifies no notaries. -/
theorem notaries_connectTx {b : BlockArgs} {i : Nat} {tx : CTransaction} {s : LoopState W}
    (h : tx.vout.length ≤ 2) : (env.connectTx b i tx s).notaries = s.notaries := by
  unfold connectTx
  dsimp only
  rw [if_neg fun hr => absurd hr.2.2.2.2 (Nat.not_lt.2 h), env.notaries_voutLoop]
  split <;> rfl

/-! ## Runs -/

/-- One transaction of a run. -/
structure Step (W : Type) where
  /-- The call it belongs to. -/
  call : Call
  /-- The index of the transaction. -/
  i : Nat
  /-- The transaction. -/
  tx : CTransaction
  /-- The state before it. -/
  before : LoopState W
  /-- The state after it. -/
  after : LoopState W

/-- The transactions of a block, each with the states around it. -/
def steps (c : Call) : Nat → List CTransaction → LoopState W → List (Step W)
  | _, [], _ => []
  | i, tx :: rest, s =>
    if env.stopsAt c.args i then []
    else
      let s' := env.connectTx c.args i tx s
      { call := c, i := i, tx := tx, before := s, after := s' } :: steps c (i + 1) rest s'

/-- The transactions of a run of `komodo_connectblock`. -/
def trace : List Call → ConnectState W → List (Step W)
  | [], _ => []
  | c :: rest, st => env.steps c 0 c.vtx (env.startOf c st) ++ trace rest (env.connectblock c st).1

/-- The state after a run. -/
def run : List Call → ConnectState W → ConnectState W
  | [], st => st
  | c :: rest, st => run rest (env.connectblock c st).1

/-- A step raises the notarised height. -/
def Step.Raises (step : Step W) : Prop :=
  step.before.sp.notarizedHeight < step.after.sp.notarizedHeight

theorem mem_steps {c : Call} {i : Nat} {txs : List CTransaction} {s : LoopState W}
    {step : Step W} (h : step ∈ env.steps c i txs s) :
    step.call = c ∧ step.after = env.connectTx c.args step.i step.tx step.before := by
  induction txs generalizing i s with
  | nil => cases h
  | cons tx rest ih =>
    unfold steps at h
    split at h
    · cases h
    · rcases List.mem_cons.1 h with rfl | h
      · exact ⟨rfl, rfl⟩
      · exact ih h

theorem mem_trace {calls : List Call} {st : ConnectState W} {step : Step W}
    (h : step ∈ env.trace calls st) :
    step.call ∈ calls ∧
      step.after = env.connectTx step.call.args step.i step.tx step.before := by
  induction calls generalizing st with
  | nil => cases h
  | cons c rest ih =>
    rcases List.mem_append.1 h with h | h
    · obtain ⟨hc, hafter⟩ := env.mem_steps h
      exact ⟨by simp [hc], hc ▸ hafter⟩
    · exact ⟨List.mem_cons_of_mem _ (ih h).1, (ih h).2⟩

/-- Where a block leaves the notarised height higher, one of its transactions raised it. -/
theorem exists_raise_of_steps {c : Call} {i : Nat} {txs : List CTransaction} {s : LoopState W}
    (h : s.sp.notarizedHeight < (env.connectLoop c.args i txs s).sp.notarizedHeight) :
    ∃ step ∈ env.steps c i txs s, step.Raises := by
  induction txs generalizing i s with
  | nil => exact absurd h (lt_irrefl _)
  | cons tx rest ih =>
    unfold connectLoop at h
    unfold steps
    split at h
    · exact absurd h (lt_irrefl _)
    · rename_i hstop
      rw [if_neg hstop]
      by_cases hraise : s.sp.notarizedHeight <
          (env.connectTx c.args i tx s).sp.notarizedHeight
      · exact ⟨_, List.mem_cons_self, hraise⟩
      · obtain ⟨step, hmem, hr⟩ := ih (lt_of_le_of_lt (not_lt.1 hraise) h)
        exact ⟨step, List.mem_cons_of_mem _ hmem, hr⟩

theorem notarizedHeight_startOf (c : Call) (st : ConnectState W) :
    (env.startOf c st).sp.notarizedHeight = st.sp.notarizedHeight := by
  unfold startOf reorganise
  dsimp only
  split <;> simp

theorem notarizedHeight_connectblock (c : Call) (st : ConnectState W) :
    (env.connectblock c st).1.sp.notarizedHeight =
      (env.connectLoop c.args 0 c.vtx (env.startOf c st)).sp.notarizedHeight := by
  unfold connectblock
  dsimp only
  split <;> simp

/-- Outside the transactions nothing raises the notarised height. -/
theorem exists_raise_of_run {calls : List Call} {st : ConnectState W}
    (h : st.sp.notarizedHeight < (env.run calls st).sp.notarizedHeight) :
    ∃ step ∈ env.trace calls st, step.Raises := by
  induction calls generalizing st with
  | nil => exact absurd h (lt_irrefl _)
  | cons c rest ih =>
    by_cases hblock : st.sp.notarizedHeight < (env.connectblock c st).1.sp.notarizedHeight
    · rw [notarizedHeight_connectblock, ← env.notarizedHeight_startOf c st] at hblock
      obtain ⟨step, hmem, hr⟩ := env.exists_raise_of_steps hblock
      exact ⟨step, List.mem_append_left _ hmem, hr⟩
    · obtain ⟨step, hmem, hr⟩ := ih (lt_of_le_of_lt (not_lt.1 hblock) h)
      exact ⟨step, List.mem_append_right _ hmem, hr⟩

/-- Along every run of an asset chain from height 91400 on: as long as the notaries of
a block are not overwritten, the mask of a transaction is right exactly when the
transaction is backed, and a backed transaction that raises the notarised height is
signed by enough notaries. Nothing else raises it. -/
theorem notarisation_signed (hsym : env.assetchainsSymbol ≠ [])
    (hexempt : exemptSymbol env.assetchainsSymbol = false) (hreg : env.regtest = false)
    (calls : List Call) (st : ConnectState W) (hheight : ∀ c ∈ calls, 91400 ≤ c.args.height) :
    (∀ step ∈ env.trace calls st, step.before.notaries = env.elected step.call →
      (env.MaskSound step.call.args.height (env.elected step.call) step.i step.tx ↔
        env.Backed (env.elected step.call) step.i step.tx) ∧
      (env.Backed (env.elected step.call) step.i step.tx → step.Raises →
        min (minratify step.call.args.height : Int) (step.call.numnotaries.tdiv 5 + 1) ≤
          env.signers (env.elected step.call) step.tx)) ∧
    (st.sp.notarizedHeight < (env.run calls st).sp.notarizedHeight →
      ∃ step ∈ env.trace calls st, step.Raises) := by
  refine ⟨fun step hmem helected => ?_, env.exists_raise_of_run⟩
  obtain ⟨hcall, hafter⟩ := env.mem_trace hmem
  have hiff := env.maskSound_iff (hheight _ hcall) (n := env.elected step.call) rfl step.i step.tx
  refine ⟨hiff, fun hbacked hraise => ?_⟩
  unfold Step.Raises at hraise
  rw [hafter] at hraise
  have hnot := env.isNotarized_of_raised hsym hexempt hreg hraise
  rw [helected] at hnot
  have hweight := env.le_weight_of_isNotarized hnot
  have hle : weight (env.signedmask step.call.args.height (env.elected step.call) step.i step.tx) ≤
      env.signers (env.elected step.call) step.tx :=
    weight_le_countP fun k _ hk => hiff.2 hbacked k hk
  exact le_trans hweight (by exact_mod_cast hle)

end KomodoEnv

/-! ## A notarisation with and without signatures -/

namespace SampleNotarisation

open KomodoEnv

/-- The keys of the notaries. -/
def pubkey (k : Nat) : Vector UInt8 33 :=
  ⟨(0x02 :: UInt8.ofNat k :: List.replicate 31 0x11).toArray, by simp⟩

/-- A script with a key that anybody can spend: `OP_DROP` in place of `OP_CHECKSIG`. -/
def pushAndDrop (pubkey : Vector UInt8 33) : CScript :=
  0x21 :: pubkey.toList ++ [0x75]

/-- A transaction whose outputs have scripts for the first eleven keys. -/
def funding (script : Vector UInt8 33 → CScript) : CTransaction :=
  { hash := 0x5000
    vout := (List.range 11).map fun k => { nValue := 10000, scriptPubKey := script (pubkey k) } }

/-- The notarisation of height 99999 by a transaction that spends these outputs. -/
def notarising : CTransaction :=
  { hash := 0x6000
    vin := (List.range 11).map fun k =>
      { prevout := { hash := 0x5000, n := UInt32.ofNat k }, scriptSig := [0x51] }
    vout := [{ nValue := 1000, scriptPubKey := [0x51] },
      { nValue := 0
        scriptPubKey := [0x6a, 0x49] ++ List.replicate 32 0x33 ++ leBytes 4 99999 ++
          List.replicate 32 0x44 ++ [0x54, 0x45, 0x53, 0x54, 0x00] }] }

/-- The chain `TEST`, on which the funding transaction is found. -/
def env (script : Vector UInt8 33 → CScript) : KomodoEnv Unit where
  assetchainsSymbol := [0x54, 0x45, 0x53, 0x54]
  curve25519Shared secret point := secret * point
  symbol_no_nul := by decide
  regtest := false
  isStaked := 0
  stakedEra _ := 0
  notaryPay := false
  verifynotarization _ := true
  validateChain _ _ := true
  chosennotary _ _ _ := (-1, -1)
  calcRmd160Sha256 _ := Vector.replicate 20 0x55
  getTransaction hash := if hash = 0x5000 then some (funding script) else none
  stackPvals _ := 0
  effects := { opreturn := fun _ _ _ _ _ _ w => w, notarysinit := fun _ _ w => w
               pvals := fun _ _ w => w }

/-- A coinbase. -/
def coinbase : CTransaction :=
  { hash := 0x4000
    vin := [{ prevout := { hash := 0, n := 4294967295 }, scriptSig := [0x51, 0x51] }]
    vout := [{ nValue := 300000000, scriptPubKey := [0x51] }] }

/-- The block with the notarisation. -/
def call : Call where
  args := { fJustCheck := false, height := 100000, blockTime := 1600000000, blockHash := 2
            tipTime := 1600000000, tipHeight := 99999 }
  vtx := [coinbase, notarising]
  numnotaries := 64
  numnotaries_le := by decide
  pubkeys := pubkey
  stack _ := 0

/-- The state before the block. -/
def start : ConnectState Unit := { sp := { world := () }, hwmheight := 99999 }

/-- The step of the notarising transaction. -/
def step (script : Vector UInt8 33 → CScript) : Step Unit :=
  let s := (env script).connectTx call.args 0 coinbase ((env script).startOf call start)
  { call := call, i := 1, tx := notarising, before := s
    after := (env script).connectTx call.args 1 notarising s }

theorem step_mem (script : Vector UInt8 33 → CScript) :
    step script ∈ (env script).trace [call] start :=
  List.mem_append_left _ (List.mem_cons_of_mem _ List.mem_cons_self)

theorem step_notaries (script : Vector UInt8 33 → CScript) :
    (step script).before.notaries = (env script).elected call :=
  notaries_connectTx _ (by decide)

theorem backed_payToPubkey :
    (env payToPubkey).Backed ((env payToPubkey).elected call) 1 notarising := by
  intro txin hin k hk
  have hall : ∀ txin ∈ notarising.vin, ((env payToPubkey).notaryOf
      ((env payToPubkey).elected call) txin).all (fun k : Nat => decide (k < 64)) = true ∧
      ((env payToPubkey).spentScript txin.prevout).any standardForm = true := by
    decide +kernel
  obtain ⟨hlt, hform⟩ := hall txin hin
  rw [hk, Option.all_some, decide_eq_true_eq] at hlt
  exact ⟨Int.ofNat_lt.2 hlt, txin, hin, hk, hform⟩

end SampleNotarisation

open SampleNotarisation in
/-- With payments to public keys, the notarisation is signed by eleven notaries. -/
theorem notarisation_signed_payToPubkey :
    (step payToPubkey).Raises ∧
    min (minratify 100000 : Int) ((64 : Int).tdiv 5 + 1) ≤
      (env payToPubkey).signers ((env payToPubkey).elected call) notarising := by
  have hraises : (step payToPubkey).Raises :=
    show (step payToPubkey).before.sp.notarizedHeight <
      (step payToPubkey).after.sp.notarizedHeight by decide +kernel
  have h := (KomodoEnv.notarisation_signed (env payToPubkey) (by decide) (by decide) rfl [call]
    start (by decide)).1 (step payToPubkey) (step_mem _) (step_notaries _)
  exact ⟨hraises, h.2 backed_payToPubkey hraises⟩

open SampleNotarisation in
/-- Eleven outputs that contain notary keys and that anybody can spend are enough to
notarise a block without any signature. -/
theorem notarisation_without_signatures :
    ¬ ∀ (W : Type) (env : KomodoEnv W), env.assetchainsSymbol ≠ [] →
      exemptSymbol env.assetchainsSymbol = false → env.regtest = false →
      ∀ (calls : List KomodoEnv.Call) (st : KomodoEnv.ConnectState W),
      (∀ c ∈ calls, 91400 ≤ c.args.height) →
      ∀ s ∈ env.trace calls st, s.before.notaries = env.elected s.call →
        env.MaskSound s.call.args.height (env.elected s.call) s.i s.tx ∧
        (s.Raises → min (minratify s.call.args.height : Int) (s.call.numnotaries.tdiv 5 + 1) ≤
          env.signers (env.elected s.call) s.tx) := by
  intro hclaim
  have h := hclaim Unit (env pushAndDrop) (by decide) (by decide) rfl [call] start (by decide)
    (step pushAndDrop) (step_mem _) (step_notaries _)
  have hraises : (step pushAndDrop).Raises :=
    show (step pushAndDrop).before.sp.notarizedHeight <
      (step pushAndDrop).after.sp.notarizedHeight by decide +kernel
  have hsigners : (env pushAndDrop).signers ((env pushAndDrop).elected call) notarising = 0 := by
    decide +kernel
  have hle := h.2 hraises
  change min (minratify 100000 : Int) ((64 : Int).tdiv 5 + 1) ≤
    ((env pushAndDrop).signers ((env pushAndDrop).elected call) notarising : Int) at hle
  rw [hsigners] at hle
  exact absurd hle (by decide)

end IndexChain.Notary
