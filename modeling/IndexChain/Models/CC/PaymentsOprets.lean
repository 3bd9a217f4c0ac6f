import IndexChain.Models.CC.Payments
import IndexChain.Models.Primitives.OpReturn

/-!
# Op_returns of the payments contract

The seven encoders of `cc/payments.cpp` against their decoders. A decoder gives back what
was encoded when the vectors have a size that is read and the op_return is pushed whole
(`inverted_iff`), except for a plan that pays the holders of a token, whose decoder leaves
a field out.
-/

namespace IndexChain

open IndexChain.Core Reader

/-! ## Encoders -/

/-- A payments op_return with a function and the bytes of its fields. -/
def encodePayments (funcid : UInt8) (fields : List UInt8) : CScript :=
  CScript.opReturn (evalPayments :: funcid :: fields)

/-- `EncodePaymentsTxidOpRet`. -/
def encodePaymentsTxidOpRet (allocation : Int) (scriptPubKey destopret : List UInt8) : CScript :=
  encodePayments 0x54 (writeInt 8 allocation ++ (writeBytes scriptPubKey ++ writeBytes destopret))

/-- `EncodePaymentsFundOpRet`. -/
def encodePaymentsFundOpRet (checktxid : Uint256) : CScript :=
  encodePayments 0x46 (writeUint256 checktxid)

/-- `EncodePaymentsMergeOpRet`. -/
def encodePaymentsMergeOpRet (checktxid : Uint256) : CScript :=
  encodePayments 0x4d (writeUint256 checktxid)

/-- `EncodePaymentsReleaseOpRet`. -/
def encodePaymentsReleaseOpRet (checktxid : Uint256) (amountReleased : Int) : CScript :=
  encodePayments 0x52 (writeUint256 checktxid ++ writeInt 8 amountReleased)

/-- `EncodePaymentsOpRet`. -/
def encodePaymentsOpRet (lockedblocks minrelease totalallocations : Int)
    (txidoprets : List Uint256) : CScript :=
  encodePayments 0x43 (writeInt 4 lockedblocks ++ (writeInt 4 minrelease ++
    (writeInt 8 totalallocations ++ writeVector writeUint256 txidoprets)))

/-- The bytes of the fields that the plans with a snapshot share. -/
def SnapshotFields.write (fields : SnapshotFields) : List UInt8 :=
  writeInt 4 fields.minimum ++ (writeInt 4 fields.top ++ (writeInt 4 fields.bottom ++
    (writeInt 1 fields.fixedAmount ++ writeVector writeBytes fields.excludeScriptPubKeys)))

/-- `EncodePaymentsSnapsShotOpRet`. -/
def encodePaymentsSnapsShotOpRet (lockedblocks minrelease : Int) (fields : SnapshotFields) :
    CScript :=
  encodePayments 0x53 (writeInt 4 lockedblocks ++ (writeInt 4 minrelease ++ fields.write))

/-- `EncodePaymentsTokensOpRet`. -/
def encodePaymentsTokensOpRet (lockedblocks minrelease : Int) (fields : SnapshotFields)
    (tokenid : Uint256) : CScript :=
  encodePayments 0x4f (writeInt 4 lockedblocks ++ (writeInt 4 minrelease ++
    (fields.write ++ writeUint256 tokenid)))

/-- The functions with an op_return. -/
inductive PaymentsFuncId where
  /-- One allocation. -/
  | txid
  /-- Funds with the plan in the op_return. -/
  | fund
  /-- The merge of funds. -/
  | merge
  /-- A release of funds. -/
  | release
  /-- A plan of fixed allocations. -/
  | plan
  /-- A plan that pays the richest addresses. -/
  | snapshot
  /-- A plan that pays the holders of a token. -/
  | tokens
  deriving DecidableEq, Repr

/-- The letter of a function. -/
def PaymentsFuncId.byte : PaymentsFuncId → UInt8
  | txid => 0x54
  | fund => 0x46
  | merge => 0x4d
  | release => 0x52
  | plan => 0x43
  | snapshot => 0x53
  | tokens => 0x4f

theorem PaymentsFuncId.byte_injective : Function.Injective PaymentsFuncId.byte := by
  intro f g h
  cases f <;> cases g <;> first | rfl | exact absurd h (by decide)

/-- What a payments op_return says. -/
inductive PaymentsOpret where
  /-- Allocation, script and op_return. -/
  | txid (allocation : Int) (scriptPubKey destopret : List UInt8)
  /-- The plan. -/
  | fund (checktxid : Uint256)
  /-- The plan. -/
  | merge (checktxid : Uint256)
  /-- Plan and amount. -/
  | release (checktxid : Uint256) (amountReleased : Int)
  /-- Locked blocks, minimal release, total and allocations. -/
  | plan (lockedblocks minrelease totalallocations : Int) (txidoprets : List Uint256)
  /-- Locked blocks, minimal release and fields. -/
  | snapshot (lockedblocks minrelease : Int) (fields : SnapshotFields)
  /-- Locked blocks, minimal release, fields and token. -/
  | tokens (lockedblocks minrelease : Int) (fields : SnapshotFields) (tokenid : Uint256)
  deriving DecidableEq, Repr

namespace PaymentsOpret

/-- The function. -/
def funcid : PaymentsOpret → PaymentsFuncId
  | txid .. => .txid
  | fund .. => .fund
  | merge .. => .merge
  | release .. => .release
  | plan .. => .plan
  | snapshot .. => .snapshot
  | tokens .. => .tokens

/-- The script with the op_return. -/
def encode : PaymentsOpret → CScript
  | txid allocation scriptPubKey destopret =>
    encodePaymentsTxidOpRet allocation scriptPubKey destopret
  | fund checktxid => encodePaymentsFundOpRet checktxid
  | merge checktxid => encodePaymentsMergeOpRet checktxid
  | release checktxid amountReleased => encodePaymentsReleaseOpRet checktxid amountReleased
  | plan lockedblocks minrelease totalallocations txidoprets =>
    encodePaymentsOpRet lockedblocks minrelease totalallocations txidoprets
  | snapshot lockedblocks minrelease fields =>
    encodePaymentsSnapsShotOpRet lockedblocks minrelease fields
  | tokens lockedblocks minrelease fields tokenid =>
    encodePaymentsTokensOpRet lockedblocks minrelease fields tokenid

/-- The decoder gives the fields back. -/
def Inverted : PaymentsOpret → Prop
  | txid allocation scriptPubKey destopret =>
    decodePaymentsTxidOpRet (encodePaymentsTxidOpRet allocation scriptPubKey destopret) =
      some (allocation, scriptPubKey, destopret)
  | fund checktxid => decodePaymentsFundOpRet (encodePaymentsFundOpRet checktxid) = some checktxid
  | merge checktxid =>
    decodePaymentsMergeOpRet (encodePaymentsMergeOpRet checktxid) = some checktxid
  | release checktxid amountReleased =>
    decodePaymentsReleaseOpRet (encodePaymentsReleaseOpRet checktxid amountReleased) =
      some (checktxid, amountReleased)
  | plan lockedblocks minrelease totalallocations txidoprets =>
    decodePaymentsOpRet (encodePaymentsOpRet lockedblocks minrelease totalallocations txidoprets) =
      some (lockedblocks, minrelease, totalallocations, txidoprets)
  | snapshot lockedblocks minrelease fields =>
    decodePaymentsSnapsShotOpRet (encodePaymentsSnapsShotOpRet lockedblocks minrelease fields) =
      some (lockedblocks, minrelease, fields)
  -- the decoder leaves the minimal release of its caller as it was
  | tokens lockedblocks minrelease fields tokenid =>
    decodePaymentsTokensOpRet (encodePaymentsTokensOpRet lockedblocks minrelease fields tokenid) =
      some (lockedblocks, fields, tokenid)

end PaymentsOpret

/-- The decoder of a function accepts a script. -/
def PaymentsFuncId.Accepts : PaymentsFuncId → CScript → Prop
  | txid, script => (decodePaymentsTxidOpRet script).isSome
  | fund, script => (decodePaymentsFundOpRet script).isSome
  | merge, script => (decodePaymentsMergeOpRet script).isSome
  | release, script => (decodePaymentsReleaseOpRet script).isSome
  | plan, script => (decodePaymentsOpRet script).isSome
  | snapshot, script => (decodePaymentsSnapsShotOpRet script).isSome
  | tokens, script => (decodePaymentsTokensOpRet script).isSome

/-! ## One function -/

section Function

variable {α : Type} {fields : Reader α} {write : α → List UInt8} {p : α → Prop}

/-- What a decoder accepts starts with the code of the contract and its letter. -/
theorem decodePayments_eq_some {funcid : UInt8} {script : CScript} {a : α} :
    decodePayments funcid fields script = some a ↔ ∃ bs,
      CScript.getOpReturnData script = evalPayments :: funcid :: bs ∧ bs ≠ [] ∧
      fields bs = some (a, []) := by
  simp only [decodePayments]
  constructor
  · intro h
    split at h
    · rename_i hlen
      split at h
      · rename_i e f b hread
        split at h
        · rename_i heq
          obtain ⟨rfl, rfl⟩ := heq
          obtain rfl : b = a := Option.some.inj h
          obtain ⟨e', rest₁, he, hread⟩ := bind_eq_some.1 (unmarshal_eq_some.1 hread)
          obtain ⟨f', rest₂, hf, hread⟩ := bind_eq_some.1 hread
          obtain ⟨b', rest₃, hb, hpure⟩ := bind_eq_some.1 hread
          obtain ⟨⟨rfl, rfl, rfl⟩, rfl⟩ : (e' = evalPayments ∧ f' = f ∧ b' = b) ∧ rest₃ = [] := by
            simpa using pure_eq_some.1 hpure
          obtain ⟨hbs, -⟩ := Canonical.byte he
          obtain ⟨rfl, -⟩ := Canonical.byte hf
          refine ⟨rest₂, hbs, ?_, hb⟩
          rintro rfl
          simp [hbs] at hlen
        · cases h
      · cases h
    · cases h
  · rintro ⟨bs, hdata, hne, hread⟩
    have hpos := List.length_pos_iff.2 hne
    have hrun : unmarshal (do
        let e ← Reader.byte
        let f ← Reader.byte
        let a ← fields
        return (e, f, a)) (evalPayments :: funcid :: bs) = some (evalPayments, funcid, a) := by
      rw [unmarshal_eq_some, bind_of_eq (byte_cons _ _), bind_of_eq (byte_cons _ _),
        bind_of_eq hread]
      rfl
    rw [hdata, hrun, if_pos (by simpa using hpos)]
    exact if_pos ⟨rfl, rfl⟩

/-- What a decoder finds after the letter of an encoded op_return. -/
theorem decodePayments_encode {funcid funcid' : UInt8} {bs : List UInt8} {a : α} :
    decodePayments funcid fields (encodePayments funcid' bs) = some a ↔
      funcid' = funcid ∧ 2 < (bs.length + 2) % 2 ^ 32 ∧
      fields (bs.take ((bs.length + 2) % 2 ^ 32 - 2)) = some (a, []) := by
  rw [decodePayments_eq_some, encodePayments, CScript.getOpReturnData_opReturn]
  simp only [List.length_cons]
  have hle := Nat.mod_le (bs.length + 1 + 1) (2 ^ 32)
  generalize (bs.length + 1 + 1) % 2 ^ 32 = cut at hle
  match cut with
  | 0 => simp
  | 1 => simp
  | cut + 2 =>
    rw [List.take_succ_cons, List.take_succ_cons, Nat.add_sub_cancel]
    have hne : bs.take cut ≠ [] ↔ 2 < cut + 2 := by
      rw [← List.length_pos_iff, List.length_take]
      omega
    constructor
    · rintro ⟨bs', heq, hbs', hread⟩
      obtain ⟨rfl, rfl⟩ : funcid' = funcid ∧ bs.take cut = bs' := by simpa using heq
      exact ⟨rfl, hne.1 hbs', hread⟩
    · rintro ⟨rfl, hcut, hread⟩
      exact ⟨_, rfl, hne.2 hcut, hread⟩

/-- A decoder that inverts the fields gives back what it admits, unless it is cut off. -/
theorem decodePayments_encode_iff (h : Inverts p fields write) {a : α} (hne : write a ≠ [])
    (funcid : UInt8) :
    decodePayments funcid fields (encodePayments funcid (write a)) = some a ↔
      p a ∧ (write a).length + 2 < 2 ^ 32 := by
  have hpos := List.length_pos_iff.2 hne
  rw [decodePayments_encode]
  constructor
  · rintro ⟨-, hcut, hread⟩
    obtain ⟨htake, hp⟩ := h.canonical hread
    have hlen := congrArg List.length htake
    rw [List.append_nil, List.length_take] at hlen
    exact ⟨hp, by omega⟩
  · rintro ⟨hp, hlt⟩
    rw [Nat.mod_eq_of_lt hlt, Nat.add_sub_cancel, List.take_length]
    have hread := h.reads a hp []
    rw [List.append_nil] at hread
    exact ⟨rfl, by omega, hread⟩

/-- A decoder refuses the letter of another function. -/
theorem funcid_of_isSome {funcid funcid' : UInt8} {bs : List UInt8}
    (h : (decodePayments funcid fields (encodePayments funcid' bs)).isSome) :
    funcid' = funcid := by
  obtain ⟨a, ha⟩ := Option.isSome_iff_exists.1 h
  exact (decodePayments_encode.1 ha).1

end Function

/-! ## The fields -/

theorem inverts_txid : Inverts
    (fun r => FitsInt 8 r.1 ∧ r.2.1.length ≤ maxSize ∧ r.2.2.length ≤ maxSize)
    (do
      let allocation ← Reader.int 8
      let destscriptPubKey ← Reader.vector
      let destopret ← Reader.vector
      return (allocation, destscriptPubKey, destopret))
    fun r => writeInt 8 r.1 ++ (writeBytes r.2.1 ++ writeBytes r.2.2) := by
  refine Inverts.congr (Inverts.bind (fun r : _ × _ × _ => r.1) (Inverts.int 8)
    (fun allocation => Inverts.bind (fun r : _ × _ × _ => r.2.1) Inverts.vector
      (fun destscriptPubKey => Inverts.bind_pure (fun r : _ × _ × _ => r.2.2) Inverts.vector
        fun _ => rfl) ?_) ?_) ?_
  · rintro _ _ ⟨-, h⟩
    rw [h]
  · rintro _ _ ⟨-, -, h⟩
    rw [h]
  · simp [maxSize]

theorem inverts_release : Inverts (fun r => FitsInt 8 r.2)
    (do
      let checktxid ← readUint256
      let amountReleased ← Reader.int 8
      return (checktxid, amountReleased))
    fun r => writeUint256 r.1 ++ writeInt 8 r.2 := by
  refine Inverts.congr (Inverts.bind (fun r : _ × _ => r.1) inverts_uint256
    (fun checktxid => Inverts.bind_pure (fun r : _ × _ => r.2) (Inverts.int 8)
      fun _ => rfl) ?_) ?_
  · rintro _ _ ⟨-, h⟩
    rw [h]
  · simp

theorem inverts_plan : Inverts
    (fun r => FitsInt 4 r.1 ∧ FitsInt 4 r.2.1 ∧ FitsInt 8 r.2.2.1 ∧ r.2.2.2.length ≤ maxSize)
    (do
      let lockedblocks ← Reader.int 4
      let minrelease ← Reader.int 4
      let totalallocations ← Reader.int 8
      let txidoprets ← readVector readUint256
      return (lockedblocks, minrelease, totalallocations, txidoprets))
    fun r => writeInt 4 r.1 ++ (writeInt 4 r.2.1 ++
      (writeInt 8 r.2.2.1 ++ writeVector writeUint256 r.2.2.2)) := by
  refine Inverts.congr (Inverts.bind (fun r : _ × _ × _ × _ => r.1) (Inverts.int 4)
    (fun lockedblocks => Inverts.bind (fun r : _ × _ × _ × _ => r.2.1) (Inverts.int 4)
      (fun minrelease => Inverts.bind (fun r : _ × _ × _ × _ => r.2.2.1) (Inverts.int 8)
        (fun totalallocations => Inverts.bind_pure (fun r : _ × _ × _ × _ => r.2.2.2)
          inverts_uint256.vectorOf fun _ => rfl) ?_) ?_) ?_) ?_
  · rintro _ _ ⟨-, h⟩
    rw [h]
  · rintro _ _ ⟨-, -, h⟩
    rw [h]
  · rintro _ _ ⟨-, -, -, h⟩
    rw [h]
  · simp [maxSize]

/-- The numbers are values of their types and the vectors have sizes that are read. -/
structure SnapshotFields.Fits (fields : SnapshotFields) : Prop where
  /-- The least amount. -/
  minimum : FitsInt 4 fields.minimum
  /-- The last rank. -/
  top : FitsInt 4 fields.top
  /-- The first rank. -/
  bottom : FitsInt 4 fields.bottom
  /-- The flag. -/
  fixedAmount : FitsInt 1 fields.fixedAmount
  /-- The number of scripts. -/
  exclude : fields.excludeScriptPubKeys.length ≤ maxSize
  /-- Each script. -/
  scripts : ∀ script ∈ fields.excludeScriptPubKeys, script.length ≤ maxSize

theorem SnapshotFields.inverts :
    Inverts SnapshotFields.Fits SnapshotFields.read SnapshotFields.write := by
  refine Inverts.congr (Inverts.bind SnapshotFields.minimum (Inverts.int 4)
    (fun minimum => Inverts.bind SnapshotFields.top (Inverts.int 4)
      (fun top => Inverts.bind SnapshotFields.bottom (Inverts.int 4)
        (fun bottom => Inverts.bind SnapshotFields.fixedAmount (Inverts.int 1)
          (fun fixedAmount => Inverts.bind_pure SnapshotFields.excludeScriptPubKeys
            Inverts.vector.vectorOf fun _ => rfl) ?_) ?_) ?_) ?_) ?_
  · rintro _ _ ⟨-, h⟩
    rw [h]
  · rintro _ _ ⟨-, -, h⟩
    rw [h]
  · rintro _ _ ⟨-, -, -, h⟩
    rw [h]
  · rintro _ _ ⟨-, -, -, -, h⟩
    rw [h]
  · intro fields
    constructor
    · rintro ⟨hminimum, htop, hbottom, hfixed, ⟨hexclude, hscripts⟩, -⟩
      exact ⟨hminimum, htop, hbottom, hfixed, hexclude, hscripts⟩
    · rintro ⟨hminimum, htop, hbottom, hfixed, hexclude, hscripts⟩
      exact ⟨hminimum, htop, hbottom, hfixed, ⟨hexclude, hscripts⟩, rfl⟩

theorem inverts_snapshot : Inverts
    (fun r => FitsInt 4 r.1 ∧ FitsInt 4 r.2.1 ∧ r.2.2.Fits)
    (do
      let lockedblocks ← Reader.int 4
      let minrelease ← Reader.int 4
      let fields ← SnapshotFields.read
      return (lockedblocks, minrelease, fields))
    fun r => writeInt 4 r.1 ++ (writeInt 4 r.2.1 ++ r.2.2.write) := by
  refine Inverts.congr (Inverts.bind (fun r : _ × _ × _ => r.1) (Inverts.int 4)
    (fun lockedblocks => Inverts.bind (fun r : _ × _ × _ => r.2.1) (Inverts.int 4)
      (fun minrelease => Inverts.bind_pure (fun r : _ × _ × _ => r.2.2) SnapshotFields.inverts
        fun _ => rfl) ?_) ?_) ?_
  · rintro _ _ ⟨-, h⟩
    rw [h]
  · rintro _ _ ⟨-, -, h⟩
    rw [h]
  · simp

/-- The decoder reads no minimal release. -/
theorem inverts_tokens : Inverts
    (fun r => FitsInt 4 r.1 ∧ r.2.1.Fits)
    (do
      let lockedblocks ← Reader.int 4
      let fields ← SnapshotFields.read
      let tokenid ← readUint256
      return (lockedblocks, fields, tokenid))
    fun r => writeInt 4 r.1 ++ (r.2.1.write ++ writeUint256 r.2.2) := by
  refine Inverts.congr (Inverts.bind (fun r : _ × _ × _ => r.1) (Inverts.int 4)
    (fun lockedblocks => Inverts.bind (fun r : _ × _ × _ => r.2.1) SnapshotFields.inverts
      (fun fields => Inverts.bind_pure (fun r : _ × _ × _ => r.2.2) inverts_uint256
        fun _ => rfl) ?_) ?_) ?_
  · rintro _ _ ⟨-, h⟩
    rw [h]
  · rintro _ _ ⟨-, -, h⟩
    rw [h]
  · simp

/-! ## All functions -/

namespace PaymentsOpret

/-- The bytes of the fields. -/
def fields : PaymentsOpret → List UInt8
  | txid allocation scriptPubKey destopret =>
    writeInt 8 allocation ++ (writeBytes scriptPubKey ++ writeBytes destopret)
  | fund checktxid => writeUint256 checktxid
  | merge checktxid => writeUint256 checktxid
  | release checktxid amountReleased => writeUint256 checktxid ++ writeInt 8 amountReleased
  | plan lockedblocks minrelease totalallocations txidoprets =>
    writeInt 4 lockedblocks ++ (writeInt 4 minrelease ++
      (writeInt 8 totalallocations ++ writeVector writeUint256 txidoprets))
  | snapshot lockedblocks minrelease fields =>
    writeInt 4 lockedblocks ++ (writeInt 4 minrelease ++ fields.write)
  | tokens lockedblocks minrelease fields tokenid =>
    writeInt 4 lockedblocks ++ (writeInt 4 minrelease ++ (fields.write ++ writeUint256 tokenid))

theorem encode_eq (o : PaymentsOpret) : o.encode = encodePayments o.funcid.byte o.fields := by
  cases o <;> rfl

/-- The numbers are values of their types, the vectors have sizes that are read, and a plan
has two allocations. -/
def Fits : PaymentsOpret → Prop
  | txid allocation scriptPubKey destopret =>
    FitsInt 8 allocation ∧ scriptPubKey.length ≤ maxSize ∧ destopret.length ≤ maxSize
  | fund _ => True
  | merge _ => True
  | release _ amountReleased => FitsInt 8 amountReleased
  | plan lockedblocks minrelease totalallocations txidoprets =>
    FitsInt 4 lockedblocks ∧ FitsInt 4 minrelease ∧ FitsInt 8 totalallocations ∧
      2 ≤ txidoprets.length ∧ txidoprets.length ≤ maxSize
  | snapshot lockedblocks minrelease fields =>
    FitsInt 4 lockedblocks ∧ FitsInt 4 minrelease ∧ fields.Fits
  | tokens lockedblocks minrelease fields _ =>
    FitsInt 4 lockedblocks ∧ FitsInt 4 minrelease ∧ fields.Fits

theorem fields_ne_nil (o : PaymentsOpret) : o.fields ≠ [] := by
  intro h
  have hlen := congrArg List.length h
  cases o
  all_goals simp [fields, writeUint256, writeInt, SnapshotFields.write] at hlen

/-- Only the decoder of its own function accepts an op_return. -/
theorem eq_funcid_of_accepts {o : PaymentsOpret} {f : PaymentsFuncId} (h : f.Accepts o.encode) :
    f = o.funcid := by
  rw [o.encode_eq] at h
  have hbyte : o.funcid.byte = f.byte := by
    cases f with
    | plan =>
      obtain ⟨r, hr⟩ := Option.isSome_iff_exists.1 h
      exact (decodePayments_encode.1 (Option.filter_eq_some_iff.1 hr).1).1
    | _ => exact funcid_of_isSome h
  exact (PaymentsFuncId.byte_injective hbyte).symm

/-- The decoder of a plan for token holders reads too little. -/
theorem tokens_not_inverted (lockedblocks minrelease : Int) (fields : SnapshotFields)
    (tokenid : Uint256) : ¬ (tokens lockedblocks minrelease fields tokenid).Inverted := by
  intro h
  obtain ⟨-, hcut, hread⟩ := decodePayments_encode.1 h
  obtain ⟨htake, -⟩ := inverts_tokens.canonical hread
  have hlen := congrArg List.length htake
  simp only [List.length_take, List.length_append, writeInt_length, List.length_nil] at hlen hcut
  omega

/-- The decoder of the op_return's function gives the fields back. -/
theorem inverted_of_funcid {o : PaymentsOpret} (h : o.funcid ≠ .tokens) :
    o.Inverted ↔ o.Fits ∧ o.fields.length + 2 < 2 ^ 32 := by
  have hne := o.fields_ne_nil
  cases o with
  | txid allocation scriptPubKey destopret =>
    exact decodePayments_encode_iff (a := (allocation, scriptPubKey, destopret)) inverts_txid hne _
  | fund checktxid => exact decodePayments_encode_iff (a := checktxid) inverts_uint256 hne _
  | merge checktxid => exact decodePayments_encode_iff (a := checktxid) inverts_uint256 hne _
  | release checktxid amountReleased =>
    exact decodePayments_encode_iff (a := (checktxid, amountReleased)) inverts_release hne _
  | plan lockedblocks minrelease totalallocations txidoprets =>
    have hplan := decodePayments_encode_iff (a := (lockedblocks, minrelease, totalallocations,
      txidoprets)) inverts_plan hne 0x43
    simp only [Inverted, decodePaymentsOpRet, encodePaymentsOpRet, Option.filter_eq_some_iff,
      decide_eq_true_eq]
    rw [hplan]
    simp only [Fits]
    constructor
    · rintro ⟨⟨⟨hlocked, hmin, htotal, hsize⟩, hlen⟩, htwo⟩
      exact ⟨⟨hlocked, hmin, htotal, htwo, hsize⟩, hlen⟩
    · rintro ⟨⟨hlocked, hmin, htotal, htwo, hsize⟩, hlen⟩
      exact ⟨⟨⟨hlocked, hmin, htotal, hsize⟩, hlen⟩, htwo⟩
  | snapshot lockedblocks minrelease fields =>
    exact decodePayments_encode_iff (a := (lockedblocks, minrelease, fields)) inverts_snapshot
      hne _
  | tokens lockedblocks minrelease fields tokenid => exact absurd rfl h

/-- An op_return is accepted by the decoder of its function only, and this gives the fields
back exactly when they fit and the function is not that of a plan for token holders. -/
theorem inverted_iff (o : PaymentsOpret) :
    (o.Inverted ↔ o.funcid ≠ .tokens ∧ o.Fits ∧ o.fields.length + 2 < 2 ^ 32) ∧
    ∀ f : PaymentsFuncId, f.Accepts o.encode → f = o.funcid := by
  refine ⟨?_, fun f => eq_funcid_of_accepts⟩
  by_cases h : o.funcid = .tokens
  · cases o with
    | tokens lockedblocks minrelease fields tokenid =>
      exact iff_of_false (tokens_not_inverted _ _ _ _) fun hcond => hcond.1 rfl
    | _ => cases h
  · rw [inverted_of_funcid h, and_iff_right h]

/-- A plan for the holders of token 9 with ranks 1 to 50 cannot be read. -/
theorem tokens_not_decoded :
    decodePaymentsTokensOpRet (encodePaymentsTokensOpRet 0 1
      { minimum := 10000, top := 50, bottom := 1, fixedAmount := 0, excludeScriptPubKeys := [] }
        9) =
      none ∧
    ¬ (tokens 0 1
      { minimum := 10000, top := 50, bottom := 1, fixedAmount := 0, excludeScriptPubKeys := [] }
      9).Inverted := by
  have hnone : decodePaymentsTokensOpRet (encodePaymentsTokensOpRet 0 1
      { minimum := 10000, top := 50, bottom := 1, fixedAmount := 0, excludeScriptPubKeys := [] }
        9) =
      none := by decide +kernel
  refine ⟨hnone, fun h => ?_⟩
  simp only [Inverted] at h
  rw [hnone] at h
  cases h

end PaymentsOpret

end IndexChain
