import IndexChain.Models.Wire.Transaction

/-!
# Transactions that come back from the wire

What is written for a transaction is read back, as long as the vectors are no longer than the
reader admits. The constructor that reads goes through the move constructor, which drops the
signature for the shielded inputs and outputs, and starts from memory that it does not clear.
`survives_iff` states which transactions come through all constructors unchanged.
-/

namespace IndexChain.Wire

open IndexChain.Core

open Reader (Reads ReadsWhen)

/-! ## Parts -/

theorem reads_uint256 (x : Uint256) : Reads readUint256 (writeUint256 x) x := by
  have hpure : Reads (Pure.pure (BitVec.ofNat 256 x.toNat)) [] x := by
    rw [BitVec.ofNat_toNat, BitVec.setWidth_eq]
    exact Reads.pure x
  exact Reads.bind_pure (Reads.nat x.isLt) hpure

theorem reads_uint32 (x : UInt32) : Reads readUint32 (writeUint32 x) x := by
  have hpure : Reads (Pure.pure (UInt32.ofNat x.toNat)) [] x := by
    rw [UInt32.ofNat_toNat]
    exact Reads.pure x
  exact Reads.bind_pure (Reads.nat x.toNat_lt) hpure

theorem reads_amount (x : CAmount) : Reads readAmount (writeAmount x) x := by
  have hpure : Reads (Pure.pure (Int64.ofUInt64 (UInt64.ofNat x.toUInt64.toNat))) [] x := by
    rw [UInt64.ofNat_toNat]
    exact Reads.pure x
  exact Reads.bind_pure (Reads.nat x.toUInt64.toNat_lt) hpure

/-- An array is read back when its elements are. -/
theorem reads_array {α : Type} [Inhabited α] {r : Reader α} {write : α → List UInt8} {n : Nat}
    (h : ∀ x, Reads r (write x) x) (xs : Vector α n) :
    Reads (readArray r n) (writeArray write xs) xs := by
  have hlist : Reads (Reader.repeated r n) (writeArray write xs) xs.toList := by
    have hrepeated : Reads (Reader.repeated r xs.toList.length) (xs.toList.flatMap write)
        xs.toList := Reads.repeated fun x _ => h x
    rwa [Vector.length_toList] at hrepeated
  have hxs : (Vector.ofFn fun i : Fin n => xs.toList.getD i default) = xs := by
    ext i hi
    simp
  refine Reads.bind_pure hlist ?_
  rw [hxs]
  exact Reads.pure xs

theorem reads_bytes {n : Nat} (xs : Vector UInt8 n) :
    Reads (readArray Reader.byte n) (writeArray writeByte xs) xs :=
  reads_array Reads.byte xs

/-- A point is read back with either prefix. -/
theorem reads_point {n : Nat} {mask : UInt8} (hmask : mask = 0x02 ∨ mask = 0x0a)
    (p : CompressedPoint n) :
    Reads (CompressedPoint.read mask) (CompressedPoint.write mask p) p := by
  obtain ⟨y, x⟩ := p
  have hfront : ∀ y : Bool, (if y then mask ||| 1 else mask) &&& 0xFE = mask := by
    rcases hmask with rfl | rfl <;> decide
  have hy : ∀ y : Bool, decide ((if y then mask ||| 1 else mask) &&& 1 ≠ 0) = y := by
    rcases hmask with rfl | rfl <;> decide
  refine (Reads.byte (if y then mask ||| 1 else mask)).bind ?_
  rw [if_neg (not_not.2 (hfront y))]
  refine (reads_bytes x).bind_pure ?_
  rw [hy y]
  exact Reads.pure _

theorem reads_g1 (p : CompressedG1) : Reads CompressedG1.read (CompressedG1.write p) p :=
  reads_point (Or.inl rfl) p

theorem reads_g2 (p : CompressedG2) : Reads CompressedG2.read (CompressedG2.write p) p :=
  reads_point (Or.inr rfl) p

theorem reads_phgr (p : PHGRProof) : Reads PHGRProof.read p.write p :=
  (reads_g1 _).bind ((reads_g1 _).bind ((reads_g2 _).bind ((reads_g1 _).bind ((reads_g1 _).bind
    ((reads_g1 _).bind ((reads_g1 _).bind ((reads_g1 _).bind_pure (Reads.pure p))))))))

/-- A proof of the right kind is written and read back. -/
theorem reads_proof {useGroth : Bool} {proof : SproutProof} (h : proof.Matches useGroth) :
    ∃ bs, proof.write useGroth = some bs ∧ Reads (SproutProof.read useGroth) bs proof := by
  cases proof with
  | phgr proof =>
    obtain rfl : useGroth = false := h
    exact ⟨_, rfl, (reads_phgr proof).bind_pure (Reads.pure _)⟩
  | groth proof =>
    obtain rfl : useGroth = true := h
    exact ⟨_, rfl, (reads_bytes proof).bind_pure (Reads.pure _)⟩

theorem reads_spend (spend : SpendDescription) :
    Reads SpendDescription.read spend.write spend :=
  (reads_uint256 _).bind ((reads_uint256 _).bind ((reads_uint256 _).bind ((reads_uint256 _).bind
    ((reads_bytes _).bind ((reads_bytes _).bind_pure (Reads.pure spend))))))

theorem reads_output (output : OutputDescription) :
    Reads OutputDescription.read output.write output :=
  (reads_uint256 _).bind ((reads_uint256 _).bind ((reads_uint256 _).bind ((reads_bytes _).bind
    ((reads_bytes _).bind ((reads_bytes _).bind_pure (Reads.pure output))))))

/-- A JoinSplit with a proof of the right kind is written and read back. -/
theorem reads_joinSplit {useGroth : Bool} {js : JSDescription} (h : js.proof.Matches useGroth) :
    ∃ bs, js.write useGroth = some bs ∧ Reads (JSDescription.read useGroth) bs js := by
  obtain ⟨bs, hwrite, hread⟩ := reads_proof h
  refine ⟨_, by unfold JSDescription.write; rw [hwrite]; rfl, ?_⟩
  exact (reads_amount _).bind ((reads_amount _).bind ((reads_uint256 _).bind
    ((reads_array reads_uint256 _).bind ((reads_array reads_uint256 _).bind
      ((reads_uint256 _).bind ((reads_uint256 _).bind ((reads_array reads_uint256 _).bind
        (hread.bind ((reads_array reads_bytes _).bind_pure (Reads.pure js))))))))))

/-- JoinSplits with proofs of the right kind are written and read back. -/
theorem reads_joinSplits {useGroth : Bool} {xs : List JSDescription}
    (h : ∀ js ∈ xs, js.proof.Matches useGroth) :
    ∃ bss, xs.mapM (JSDescription.write useGroth) = some bss ∧
      Reads (Reader.repeated (JSDescription.read useGroth) xs.length) bss.flatten xs := by
  induction xs with
  | nil => exact ⟨[], rfl, Reads.pure []⟩
  | cons js xs ih =>
    obtain ⟨bs, hwrite, hread⟩ := reads_joinSplit (h js List.mem_cons_self)
    obtain ⟨bss, hwrites, hreads⟩ := ih fun js' hjs' => h js' (List.mem_cons_of_mem js hjs')
    refine ⟨bs :: bss, ?_, hread.bind (hreads.bind_pure (Reads.pure (js :: xs)))⟩
    rw [List.mapM_cons, hwrite, hwrites]
    rfl

/-- An input is read back when its script is no longer than the reader admits. -/
theorem readsWhen_txin {txin : CTxIn} (h : txin.scriptSig.length < 2 ^ 64) :
    ReadsWhen (txin.scriptSig.length ≤ 0x02000000) CTxIn.read txin.write txin :=
  ReadsWhen.bind_always (reads_uint256 _) (ReadsWhen.bind_always (reads_uint32 _)
    (((ReadsWhen.vector h).bind ((reads_uint32 _).bind_pure (Reads.pure txin)).always).congr
      (iff_of_eq (and_true _))))

/-- An output is read back when its script is no longer than the reader admits. -/
theorem readsWhen_txout {txout : CTxOut} (h : txout.scriptPubKey.length < 2 ^ 64) :
    ReadsWhen (txout.scriptPubKey.length ≤ 0x02000000) CTxOut.read txout.write txout :=
  ReadsWhen.bind_always (reads_amount _)
    ((ReadsWhen.vector h).bind_pure (Reads.pure txout))

/-! ## The header -/

/-- A version that is not negative fits in 31 bits. -/
theorem toUInt32_lt {v : Int32} (h : 0 ≤ v) : v.toUInt32.toNat < 2 ^ 31 := by
  have hlow : 0 ≤ v.toInt := by simpa using Int32.le_iff_toInt_le.1 h
  have hmsb : v.toBitVec.toInt = v.toInt := rfl
  have hlt : v.toBitVec.toNat < 2 ^ 32 := v.toBitVec.isLt
  rw [BitVec.toInt_eq_toNat_cond] at hmsb
  change v.toBitVec.toNat < 2 ^ 31
  split at hmsb
  · omega
  · omega

theorem and_31_bits (v : UInt32) : v &&& 0x7FFFFFFF = UInt32.ofNat (v.toNat % 2 ^ 31) := by
  apply UInt32.toNat_inj.1
  rw [UInt32.toNat_and, UInt32.toNat_ofNat']
  change v.toNat &&& (2 ^ 31 - 1) = _
  rw [Nat.and_two_pow_sub_one_eq_mod]
  omega

theorem shift_31_bits (v : UInt32) : (v >>> 31 != 0) = decide (2 ^ 31 ≤ v.toNat) := by
  have hnat : (v >>> 31).toNat = v.toNat / 2 ^ 31 := by
    rw [UInt32.toNat_shiftRight]
    exact Nat.shiftRight_eq_div_pow _ _
  have hv := v.toNat_lt
  by_cases hbig : 2 ^ 31 ≤ v.toNat
  · rw [decide_eq_true hbig]
    refine bne_iff_ne.2 fun heq => ?_
    rw [heq] at hnat
    change 0 = _ at hnat
    omega
  · have heq : v >>> 31 = 0 := by
      apply UInt32.toNat_inj.1
      rw [hnat]
      change _ = 0
      omega
    rw [decide_eq_false hbig, heq]
    rfl

/-- The flag and the version are read back from the header. -/
theorem header_parts {tx : CMutableTransaction} (h : 0 ≤ tx.nVersion) :
    (tx.header >>> 31 != 0) = tx.fOverwintered ∧
      Int32.ofUInt32 (tx.header &&& 0x7FFFFFFF) = tx.nVersion := by
  have hlt := toUInt32_lt h
  have htop : (tx.nVersion.toUInt32 ||| 0x80000000).toNat =
      2 ^ 31 + tx.nVersion.toUInt32.toNat := by
    rw [UInt32.toNat_or, Nat.or_comm]
    have hor := Nat.two_pow_add_eq_or_of_lt hlt 1
    rw [Nat.mul_one] at hor
    exact hor.symm
  have hback : UInt32.ofNat tx.nVersion.toUInt32.toNat = tx.nVersion.toUInt32 :=
    UInt32.ofNat_toNat
  rw [and_31_bits, shift_31_bits]
  unfold CMutableTransaction.header
  cases tx.fOverwintered with
  | true =>
    rw [if_pos rfl, htop]
    refine ⟨decide_eq_true (Nat.le_add_right _ _), ?_⟩
    rw [Nat.add_mod_left, Nat.mod_eq_of_lt hlt, hback]
  | false =>
    rw [if_neg Bool.false_ne_true]
    refine ⟨decide_eq_false (Nat.not_le.2 hlt), ?_⟩
    rw [Nat.mod_eq_of_lt hlt, hback]

/-! ## Formats -/

namespace CMutableTransaction

/-- A transaction of one of the three formats: what its format does not have is null, and the
proofs of its JoinSplits are of the right kind. -/
structure InFormat (tx : CMutableTransaction) : Prop where
  /-- The version is not negative. -/
  version : 0 ≤ tx.nVersion
  /-- With a version group it has version 3 or 4. -/
  format : tx.fOverwintered = true → tx.isV3 = true ∨ tx.isV4 = true
  /-- The proofs are of the right kind. -/
  proofs : ∀ js ∈ tx.vjoinsplit, js.proof.Matches (useGroth tx.header)
  /-- Without a version group there is no expiry height. -/
  group : tx.fOverwintered = false → tx.nVersionGroupId = 0 ∧ tx.nExpiryHeight = 0
  /-- Only version 4 has a shielded part. -/
  shielded : tx.isV4 = false →
    tx.valueBalance = 0 ∧ tx.vShieldedSpend = [] ∧ tx.vShieldedOutput = []
  /-- Version 1 has no JoinSplits. -/
  joinSplits : ¬ 2 ≤ tx.nVersion → tx.vjoinsplit = []
  /-- Without JoinSplits there is no signature for them. -/
  joinSplitSig : tx.vjoinsplit = [] → tx.joinSplitPubKey = 0 ∧ tx.joinSplitSig = nullSig
  /-- Without shielded inputs and outputs there is no signature for them. -/
  bindingSig : tx.vShieldedSpend = [] → tx.vShieldedOutput = [] → tx.bindingSig = nullSig
  /-- The sizes of the vectors are values of a `size_t`. -/
  sizes : tx.vin.length < 2 ^ 64 ∧ tx.vout.length < 2 ^ 64 ∧ tx.vShieldedSpend.length < 2 ^ 64 ∧
    tx.vShieldedOutput.length < 2 ^ 64 ∧ tx.vjoinsplit.length < 2 ^ 64 ∧
    (∀ txin ∈ tx.vin, txin.scriptSig.length < 2 ^ 64) ∧
    ∀ txout ∈ tx.vout, txout.scriptPubKey.length < 2 ^ 64

/-- No vector is longer than `MAX_SIZE`. -/
structure Fits (tx : CMutableTransaction) : Prop where
  /-- The inputs. -/
  vin : tx.vin.length ≤ 0x02000000 ∧ ∀ txin ∈ tx.vin, txin.scriptSig.length ≤ 0x02000000
  /-- The outputs. -/
  vout : tx.vout.length ≤ 0x02000000 ∧ ∀ txout ∈ tx.vout, txout.scriptPubKey.length ≤ 0x02000000
  /-- The shielded inputs. -/
  vShieldedSpend : tx.vShieldedSpend.length ≤ 0x02000000
  /-- The shielded outputs. -/
  vShieldedOutput : tx.vShieldedOutput.length ≤ 0x02000000
  /-- The JoinSplits. -/
  vjoinsplit : tx.vjoinsplit.length ≤ 0x02000000

/-- A transaction where what its format does not have is what the memory holds. -/
def laidOver (memory : Uninitialized) (tx : CMutableTransaction) : CMutableTransaction :=
  { tx with
    nVersionGroupId := if tx.fOverwintered then tx.nVersionGroupId else memory.nVersionGroupId
    nExpiryHeight := if tx.isV3 || tx.isV4 then tx.nExpiryHeight else memory.nExpiryHeight
    valueBalance := if tx.isV4 then tx.valueBalance else memory.valueBalance }

variable {tx : CMutableTransaction}

/-- The shielded parts and the JoinSplits fit when those that are written do. -/
theorem fits_iff (h : tx.InFormat) :
    (tx.vin.length ≤ 0x02000000 ∧ ∀ txin ∈ tx.vin, txin.scriptSig.length ≤ 0x02000000) ∧
      (tx.vout.length ≤ 0x02000000 ∧ ∀ txout ∈ tx.vout, txout.scriptPubKey.length ≤ 0x02000000) ∧
      (tx.isV4 = true → tx.vShieldedSpend.length ≤ 0x02000000) ∧
      (tx.isV4 = true → tx.vShieldedOutput.length ≤ 0x02000000) ∧
      (2 ≤ tx.nVersion → tx.vjoinsplit.length ≤ 0x02000000) ↔ tx.Fits := by
  constructor
  · rintro ⟨hvin, hvout, hspend, houtput, hjs⟩
    refine ⟨hvin, hvout, ?_, ?_, ?_⟩
    · cases hv4 : tx.isV4 with
      | true => exact hspend hv4
      | false => simp [(h.shielded hv4).2.1]
    · cases hv4 : tx.isV4 with
      | true => exact houtput hv4
      | false => simp [(h.shielded hv4).2.2]
    · by_cases hversion : 2 ≤ tx.nVersion
      · exact hjs hversion
      · simp [h.joinSplits hversion]
  · intro hfits
    exact ⟨hfits.vin, hfits.vout, fun _ => hfits.vShieldedSpend, fun _ => hfits.vShieldedOutput,
      fun _ => hfits.vjoinsplit⟩

/-- The JoinSplits of a format are written, and read back when they are not too many. -/
theorem readsWhen_joinSplits (h : tx.InFormat) : ∃ bs,
    (if 2 ≤ tx.nVersion then tx.writeJoinSplits else some []) = some bs ∧
      ReadsWhen (2 ≤ tx.nVersion → tx.vjoinsplit.length ≤ 0x02000000)
        (if 2 ≤ tx.nVersion then Reader.vectorOf (JSDescription.read (useGroth tx.header))
          else Pure.pure []) bs tx.vjoinsplit := by
  obtain ⟨bss, hwrite, hread⟩ := reads_joinSplits h.proofs
  have hcount := ReadsWhen.compactSize h.sizes.2.2.2.2.1
  have hvector : ReadsWhen (tx.vjoinsplit.length ≤ 0x02000000)
      (Reader.vectorOf (JSDescription.read (useGroth tx.header)))
      (writeCompactSize tx.vjoinsplit.length ++ bss.flatten) tx.vjoinsplit :=
    (hcount.bind hread.always).congr (iff_of_eq (and_true _))
  have hite := ReadsWhen.ite (fun _ : 2 ≤ tx.nVersion => hvector) fun hnot =>
    (h.joinSplits hnot).symm
  by_cases hversion : 2 ≤ tx.nVersion
  · refine ⟨_, ?_, hite⟩
    rw [if_pos hversion, if_pos hversion]
    unfold writeJoinSplits
    rw [hwrite]
    rfl
  · refine ⟨_, ?_, hite⟩
    rw [if_neg hversion, if_neg hversion]

/-- Without a version group there is no other format. -/
theorem not_v3_v4 (h : tx.fOverwintered = false) : tx.isV3 = false ∧ tx.isV4 = false := by
  unfold isV3 isV4 isOverwinterV3 isSaplingV4
  rw [h]
  exact ⟨rfl, rfl⟩

/-- The memory does not change the format. -/
theorem format_over (memory : Uninitialized) (tx : CMutableTransaction) :
    isOverwinterV3 tx.fOverwintered (tx.laidOver memory).nVersionGroupId tx.nVersion = tx.isV3 ∧
      isSaplingV4 tx.fOverwintered (tx.laidOver memory).nVersionGroupId tx.nVersion = tx.isV4 := by
  unfold isV3 isV4 laidOver
  cases tx.fOverwintered with
  | true => exact ⟨rfl, rfl⟩
  | false => exact ⟨rfl, rfl⟩

/-- A field that is there under a condition is read over the memory. -/
theorem reads_over {α : Type} {r : Reader α} {write : α → List UInt8} {c : Prop} [Decidable c]
    {x old : α} (h : Reads r (write x) x) :
    Reads (if c then r else Pure.pure old) (if c then write x else []) (if c then x else old) := by
  by_cases hc : c
  · rw [if_pos hc, if_pos hc, if_pos hc]
    exact h
  · rw [if_neg hc, if_neg hc, if_neg hc]
    exact Reads.pure old

/-- A vector of values that are always read is read back when it fits. -/
theorem readsWhen_vector {α : Type} {r : Reader α} {write : α → List UInt8} {xs : List α}
    (hlen : xs.length < 2 ^ 64) (h : ∀ x, Reads r (write x) x) :
    ReadsWhen (xs.length ≤ 0x02000000) (Reader.vectorOf r) (writeVector write xs) xs :=
  (ReadsWhen.vectorOf hlen fun x _ => (h x).always).congr
    ⟨And.left, fun hle => ⟨hle, fun _ _ => trivial⟩⟩

/-- The shielded parts are read back when they fit. -/
theorem readsWhen_shielded (h : tx.InFormat) :
    ReadsWhen (tx.isV4 = true → tx.vShieldedSpend.length ≤ 0x02000000)
        (if tx.isV4 = true then Reader.vectorOf SpendDescription.read else Pure.pure [])
        (if tx.isV4 = true then writeVector SpendDescription.write tx.vShieldedSpend else [])
        tx.vShieldedSpend ∧
      ReadsWhen (tx.isV4 = true → tx.vShieldedOutput.length ≤ 0x02000000)
        (if tx.isV4 = true then Reader.vectorOf OutputDescription.read else Pure.pure [])
        (if tx.isV4 = true then writeVector OutputDescription.write tx.vShieldedOutput else [])
        tx.vShieldedOutput := by
  obtain ⟨-, -, hspend, houtput, -⟩ := h.sizes
  constructor
  · exact ReadsWhen.ite (fun _ => readsWhen_vector hspend reads_spend) fun hnot =>
      (h.shielded (Bool.eq_false_iff.2 hnot)).2.1.symm
  · exact ReadsWhen.ite (fun _ => readsWhen_vector houtput reads_output) fun hnot =>
      (h.shielded (Bool.eq_false_iff.2 hnot)).2.2.symm

/-- The key and the signature for JoinSplits are read back. -/
theorem reads_joinSplitSig (h : tx.InFormat) :
    Reads (if 2 ≤ tx.nVersion ∧ tx.vjoinsplit ≠ [] then readUint256 else Pure.pure 0)
        (if 2 ≤ tx.nVersion ∧ tx.vjoinsplit ≠ [] then writeUint256 tx.joinSplitPubKey else [])
        tx.joinSplitPubKey ∧
      Reads (if 2 ≤ tx.nVersion ∧ tx.vjoinsplit ≠ [] then readArray Reader.byte 64
          else Pure.pure nullSig)
        (if 2 ≤ tx.nVersion ∧ tx.vjoinsplit ≠ [] then writeArray writeByte tx.joinSplitSig else [])
        tx.joinSplitSig := by
  have hnil : ¬ (2 ≤ tx.nVersion ∧ tx.vjoinsplit ≠ []) → tx.vjoinsplit = [] := by
    intro hnot
    by_contra hne
    exact hne (h.joinSplits fun hle => hnot ⟨hle, hne⟩)
  constructor
  · exact Reads.ite (fun _ => reads_uint256 _) fun hnot => (h.joinSplitSig (hnil hnot)).1.symm
  · exact Reads.ite (fun _ => reads_bytes _) fun hnot => (h.joinSplitSig (hnil hnot)).2.symm

/-- The signature for the shielded parts is read back. -/
theorem reads_bindingSig (h : tx.InFormat) :
    Reads (if tx.isV4 = true ∧ (tx.vShieldedSpend ≠ [] ∨ tx.vShieldedOutput ≠ []) then
        readArray Reader.byte 64 else Pure.pure nullSig)
      (if tx.isV4 = true ∧ (tx.vShieldedSpend ≠ [] ∨ tx.vShieldedOutput ≠ []) then
        writeArray writeByte tx.bindingSig else []) tx.bindingSig := by
  refine Reads.ite (fun _ => reads_bytes _) fun hnot => ?_
  have hnil : tx.vShieldedSpend = [] ∧ tx.vShieldedOutput = [] := by
    cases hv4 : tx.isV4 with
    | true =>
      rw [hv4, not_and, not_or, not_not, not_not] at hnot
      exact hnot rfl
    | false => exact (h.shielded hv4).2
  exact (h.bindingSig hnil.1 hnil.2).symm

/-- A transaction of a format is written, and read back over the memory when it fits. -/
theorem readsWhen_unserialize (h : tx.InFormat) (memory : Uninitialized) :
    ∃ bs, tx.serialize = some bs ∧
      ReadsWhen tx.Fits (unserialize (raw memory)) bs (tx.laidOver memory) := by
  obtain ⟨joinSplits, hwrite, hjoinSplits⟩ := readsWhen_joinSplits h
  obtain ⟨hspends, houtputs⟩ := readsWhen_shielded h
  obtain ⟨hpubKey, hsig⟩ := reads_joinSplitSig h
  have hknown : (tx.fOverwintered && !(tx.isV3 || tx.isV4)) = false := by
    cases hflag : tx.fOverwintered with
    | false => rfl
    | true => rcases h.format hflag with hv | hv <;> simp [hv]
  obtain ⟨hflag, hversion⟩ := header_parts h.version
  obtain ⟨hvin, hvout, -, -, -, hscriptSig, hscriptPubKey⟩ := h.sizes
  obtain ⟨hv3, hv4⟩ := format_over memory tx
  dsimp only [laidOver] at hv3 hv4
  refine ⟨_, by unfold serialize; rw [hknown, hwrite]; rfl, ?_⟩
  refine ReadsWhen.congr ?_ (fits_iff h)
  unfold unserialize
  refine ReadsWhen.bind_always (reads_uint32 _) ?_
  dsimp only
  rw [hflag, hversion]
  refine ReadsWhen.bind_always (reads_over (reads_uint32 tx.nVersionGroupId)) ?_
  dsimp only [raw]
  simp only [hv3, hv4, hknown, Bool.false_eq_true, if_false]
  refine (ReadsWhen.vectorOf hvin fun txin hmem => readsWhen_txin (hscriptSig txin hmem)).bind ?_
  refine (ReadsWhen.vectorOf hvout fun txout hmem =>
    readsWhen_txout (hscriptPubKey txout hmem)).bind ?_
  refine ReadsWhen.bind_always (reads_uint32 _) ?_
  refine ReadsWhen.bind_always (reads_over (reads_uint32 tx.nExpiryHeight)) ?_
  refine ReadsWhen.bind_always (reads_over (reads_amount tx.valueBalance)) ?_
  refine hspends.bind (houtputs.bind ?_)
  refine (hjoinSplits.bind ?_).congr (iff_of_eq (and_true _))
  exact (hpubKey.bind (hsig.bind ((reads_bindingSig h).bind_pure
    (Reads.pure (tx.laidOver memory))))).always

end CMutableTransaction

/-! ## Constructors -/

/-- The cached hash is that of the fields. -/
def CTransaction.Hashed (tx : CTransaction) : Prop := tx.updateHash = some tx

/-- A transaction comes through every constructor with its fields and its hash: written and read
into a new object or by the constructor that reads, with what follows left over, and turned
into a `CMutableTransaction` and back by copy or by move. -/
def Survives (memory : Uninitialized) (tx : CTransaction) : Prop :=
  (∃ bs, tx.serialize = some bs ∧
    ∀ rest, CTransaction.null.unserialize (bs ++ rest) = some (tx, rest) ∧
      CTransaction.deserialize memory (bs ++ rest) = some (tx, rest)) ∧
    CTransaction.ofMutable (CMutableTransaction.ofTransaction tx) = some tx ∧
    CTransaction.moveMutable (CMutableTransaction.ofTransaction tx) = some tx

/-- The members that the format does not have are what the memory holds. -/
def Agrees (memory : Uninitialized) (tx : CMutableTransaction) : Prop :=
  (tx.fOverwintered = false → memory.nVersionGroupId = 0 ∧ memory.nExpiryHeight = 0) ∧
    (tx.isV4 = false → memory.valueBalance = 0)

section

variable {tx : CTransaction}

/-- Copying keeps everything. -/
theorem ofMutable_ofTransaction (h : tx.Hashed) :
    CTransaction.ofMutable (CMutableTransaction.ofTransaction tx) = some tx := by
  unfold CTransaction.Hashed CTransaction.updateHash at h
  obtain ⟨bs, hserialize, hupdate⟩ := Option.bind_eq_some_iff.1 h
  unfold CTransaction.ofMutable CTransaction.updateHash
  exact Option.bind_eq_some_iff.2 ⟨bs, hserialize, hupdate⟩

/-- What `UpdateHash` makes has the fields it was made of. -/
theorem bindingSig_of_move {m : CMutableTransaction} (h : CTransaction.moveMutable m = some tx) :
    tx.bindingSig = nullSig ∧ tx.nVersionGroupId = m.nVersionGroupId ∧
      tx.nExpiryHeight = m.nExpiryHeight ∧ tx.valueBalance = m.valueBalance := by
  unfold CTransaction.moveMutable CTransaction.updateHash at h
  obtain ⟨bs, -, hupdate⟩ := Option.bind_eq_some_iff.1 h
  rw [← Option.some.inj hupdate]
  exact ⟨rfl, rfl, rfl, rfl⟩

/-- Moving keeps everything exactly when there is no signature for shielded parts. -/
theorem moveMutable_ofTransaction (h : tx.Hashed) :
    CTransaction.moveMutable (CMutableTransaction.ofTransaction tx) = some tx ↔
      tx.bindingSig = nullSig := by
  constructor
  · intro hmove
    exact (bindingSig_of_move hmove).1
  · intro hsig
    have hcopy := ofMutable_ofTransaction h
    unfold CTransaction.ofMutable at hcopy
    unfold CTransaction.moveMutable
    rw [← hcopy, ← hsig]
    rfl

/-- The fields over the memory are the fields exactly when the memory agrees. -/
theorem over_eq_iff (m : CMutableTransaction) (h : m.InFormat) (memory : Uninitialized) :
    ((m.laidOver memory).nVersionGroupId = m.nVersionGroupId ∧
      (m.laidOver memory).nExpiryHeight = m.nExpiryHeight ∧
      (m.laidOver memory).valueBalance = m.valueBalance) ↔ Agrees memory m := by
  unfold Agrees CMutableTransaction.laidOver
  dsimp only
  cases hflag : m.fOverwintered with
  | false =>
    obtain ⟨hv3, hv4⟩ := CMutableTransaction.not_v3_v4 hflag
    obtain ⟨hgroup, hexpiry⟩ := h.group hflag
    simp [hv3, hv4, hgroup, hexpiry, (h.shielded hv4).1, and_assoc]
  | true =>
    have hknown : (m.isV3 || m.isV4) = true := by
      rcases h.format hflag with hv | hv <;> simp [hv]
    cases hv4 : m.isV4 with
    | false =>
      rw [hv4] at hknown
      simp [hknown, (h.shielded hv4).1]
    | true => simp

/-- Where the memory agrees, it changes nothing. -/
theorem over_eq {m : CMutableTransaction} (h : m.InFormat) {memory : Uninitialized}
    (hagrees : Agrees memory m) : m.laidOver memory = m := by
  obtain ⟨hgroup, hexpiry, hbalance⟩ := (over_eq_iff m h memory).2 hagrees
  calc
    m.laidOver memory = { m with
      nVersionGroupId := (m.laidOver memory).nVersionGroupId
      nExpiryHeight := (m.laidOver memory).nExpiryHeight
      valueBalance := (m.laidOver memory).valueBalance } := rfl
    _ = m := by rw [hgroup, hexpiry, hbalance]

/-- Which transactions of the three formats come through every constructor: those that fit,
without a signature for shielded parts, made where the memory holds zeros for what their
format does not have. -/
theorem survives_iff (hformat : (CMutableTransaction.ofTransaction tx).InFormat)
    (hhash : tx.Hashed) (memory : Uninitialized) :
    Survives memory tx ↔ (CMutableTransaction.ofTransaction tx).Fits ∧ tx.bindingSig = nullSig ∧
      Agrees memory (CMutableTransaction.ofTransaction tx) := by
  obtain ⟨bs, hserialize, hread⟩ := CMutableTransaction.readsWhen_unserialize hformat memory
  constructor
  · rintro ⟨⟨bs', hwrite, hparse⟩, -, hmove⟩
    obtain rfl : bs = bs' := Option.some.inj (hserialize.symm.trans hwrite)
    have hdeserialize := (hparse []).2
    unfold CTransaction.deserialize at hdeserialize
    obtain ⟨m, rest, hm, hmoved⟩ := Reader.bind_eq_some.1 hdeserialize
    have hfits : (CMutableTransaction.ofTransaction tx).Fits := by
      by_contra hnot
      rw [hread.refuses hnot] at hm
      cases hm
    have hover : (CMutableTransaction.ofTransaction tx).laidOver memory = m := by
      rw [hread.reads hfits] at hm
      exact congrArg Prod.fst (Option.some.inj hm)
    refine ⟨hfits, (moveMutable_ofTransaction hhash).1 hmove, ?_⟩
    rw [← over_eq_iff _ hformat, hover]
    cases htx' : CTransaction.moveMutable m with
    | none =>
      rw [htx'] at hmoved
      cases hmoved
    | some tx' =>
      rw [htx'] at hmoved
      obtain rfl : tx' = tx := congrArg Prod.fst (Reader.pure_eq_some.1 hmoved)
      obtain ⟨-, hgroup, hexpiry, hbalance⟩ := bindingSig_of_move htx'
      exact ⟨hgroup.symm, hexpiry.symm, hbalance.symm⟩
  · rintro ⟨hfits, hsig, hagrees⟩
    have hmove := (moveMutable_ofTransaction hhash).2 hsig
    have hcopy := ofMutable_ofTransaction hhash
    refine ⟨⟨bs, hserialize, fun rest => ⟨?_, ?_⟩⟩, hcopy, hmove⟩
    · obtain ⟨bs', hserialize', hread'⟩ := CMutableTransaction.readsWhen_unserialize hformat
        { nVersionGroupId := 0, nExpiryHeight := 0, valueBalance := 0 }
      obtain rfl : bs = bs' := Option.some.inj (hserialize.symm.trans hserialize')
      have hraw := hread'.reads hfits
      rw [over_eq hformat ⟨fun _ => ⟨rfl, rfl⟩, fun _ => rfl⟩] at hraw
      have hreads : Reads (CMutableTransaction.ofTransaction CTransaction.null).unserialize bs
          (CMutableTransaction.ofTransaction tx) := hraw
      unfold CTransaction.unserialize
      rw [Reader.bind_of_eq (hreads rest), hcopy]
      rfl
    · have hreads := hread.reads hfits
      rw [over_eq hformat hagrees] at hreads
      unfold CTransaction.deserialize
      rw [Reader.bind_of_eq (hreads rest), hmove]
      rfl

end

namespace SampleTransactions

/-- A transaction with its hash. -/
def hashed (m : CMutableTransaction) : CTransaction where
  hash := (m.serialize.map serializeHash).getD 0
  fOverwintered := m.fOverwintered
  nVersion := m.nVersion
  nVersionGroupId := m.nVersionGroupId
  vin := m.vin
  vout := m.vout
  nLockTime := m.nLockTime
  nExpiryHeight := m.nExpiryHeight
  valueBalance := m.valueBalance
  vShieldedSpend := m.vShieldedSpend
  vShieldedOutput := m.vShieldedOutput
  vjoinsplit := m.vjoinsplit
  joinSplitPubKey := m.joinSplitPubKey
  joinSplitSig := m.joinSplitSig
  bindingSig := m.bindingSig

theorem hashed_hashed {m : CMutableTransaction} (h : m.InFormat) : (hashed m).Hashed := by
  obtain ⟨bs, hserialize, -⟩ := CMutableTransaction.readsWhen_unserialize h
    { nVersionGroupId := 0, nExpiryHeight := 0, valueBalance := 0 }
  have hhash : (hashed m).hash = serializeHash bs := by
    unfold hashed
    rw [hserialize]
    rfl
  have hwrite : (hashed m).serialize = some bs := hserialize
  unfold CTransaction.Hashed CTransaction.updateHash
  refine Option.bind_eq_some_iff.2 ⟨bs, hwrite, ?_⟩
  rw [← hhash]
  rfl

/-- An input and an output. -/
def plain : CMutableTransaction where
  fOverwintered := false
  nVersion := 1
  nVersionGroupId := 0
  vin := [{ prevout := { hash := 1, n := 0 }, scriptSig := [0x51], nSequence := 0xFFFFFFFF }]
  vout := [{ nValue := 1000, scriptPubKey := [0x51] }]
  nLockTime := 0
  nExpiryHeight := 0
  valueBalance := 0
  vShieldedSpend := []
  vShieldedOutput := []
  vjoinsplit := []
  joinSplitPubKey := 0
  joinSplitSig := nullSig
  bindingSig := nullSig

/-- A shielded output with a signature. -/
def shielded : CMutableTransaction where
  fOverwintered := true
  nVersion := 4
  nVersionGroupId := 0x892F2085
  vin := []
  vout := []
  nLockTime := 0
  nExpiryHeight := 100
  valueBalance := -1000
  vShieldedSpend := []
  vShieldedOutput := [{ cv := 1, cm := 2, ephemeralKey := 3
                        encCiphertext := Vector.replicate 580 0
                        outCiphertext := Vector.replicate 80 0
                        zkproof := Vector.replicate 192 0 }]
  vjoinsplit := []
  joinSplitPubKey := 0
  joinSplitSig := nullSig
  bindingSig := Vector.replicate 64 1

/-- Memory that is null. -/
def memory : Uninitialized where
  nVersionGroupId := 0
  nExpiryHeight := 0
  valueBalance := 0

theorem plain_inFormat : plain.InFormat where
  version := by decide
  format := by decide
  proofs := by simp [plain]
  group := by decide
  shielded := by decide
  joinSplits := by decide
  joinSplitSig := fun _ => ⟨rfl, rfl⟩
  bindingSig := fun _ _ => rfl
  sizes := by simp [plain]

theorem plain_fits : plain.Fits where
  vin := by simp [plain]
  vout := by simp [plain]
  vShieldedSpend := by decide
  vShieldedOutput := by decide
  vjoinsplit := by decide

theorem shielded_inFormat : shielded.InFormat where
  version := by decide
  format := by decide
  proofs := by simp [shielded]
  group := by decide
  shielded := by decide
  joinSplits := by decide
  joinSplitSig := fun _ => ⟨rfl, rfl⟩
  bindingSig := by simp [shielded]
  sizes := by simp [shielded]

theorem shielded_fits : shielded.Fits where
  vin := by simp [shielded]
  vout := by simp [shielded]
  vShieldedSpend := by decide
  vShieldedOutput := by simp [shielded]
  vjoinsplit := by decide

end SampleTransactions

open SampleTransactions in
/-- A transaction with an input and an output comes through. -/
theorem survives_plain : Survives memory (hashed plain) := by
  have hformat : (CMutableTransaction.ofTransaction (hashed plain)).InFormat := plain_inFormat
  refine (survives_iff hformat (hashed_hashed plain_inFormat) memory).2 ?_
  exact ⟨plain_fits, rfl, fun _ => ⟨rfl, rfl⟩, fun _ => rfl⟩

open SampleTransactions in
/-- A shielded output loses its signature on the way. -/
theorem shielded_loses_signature :
    shielded.InFormat ∧ (hashed shielded).Hashed ∧ shielded.Fits ∧ Agrees memory shielded ∧
      CTransaction.ofMutable shielded = some (hashed shielded) ∧
      CTransaction.moveMutable shielded ≠ some (hashed shielded) ∧
      ¬ Survives memory (hashed shielded) := by
  have hhash := hashed_hashed shielded_inFormat
  have hsig : (hashed shielded).bindingSig ≠ nullSig := by decide
  have hmove : CTransaction.moveMutable shielded ≠ some (hashed shielded) :=
    fun hmove => hsig (bindingSig_of_move hmove).1
  refine ⟨shielded_inFormat, hhash, shielded_fits, ⟨by decide, by decide⟩,
    ofMutable_ofTransaction hhash, hmove, fun hsurvives => ?_⟩
  exact hmove hsurvives.2.2

end IndexChain.Wire
