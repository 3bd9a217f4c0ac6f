import IndexChain.Models.CC.Tokens
import IndexChain.Models.Primitives.OpReturn

/-!
# Op_returns of the tokens contract

The encoders of `cc/CCtokenutils.cpp` against their decoders. `DecodeTokenOpRet` first tries
an older layout, in which one vector follows the keys, and takes an op_return with payload
ids for one in that layout when the payloads happen to be the bytes of such a vector
(`tokenOprets_iff`).
-/

namespace IndexChain

open IndexChain.Core Reader

/-! ## Encoders -/

/-- The payloads of an op_return, each after its id; those without an id are left out. -/
def encodeOprets (oprets : Oprets) : List UInt8 :=
  (oprets.filter fun o => o.1 ≠ 0).flatMap fun o => o.1 :: writeBytes o.2

/-- The data of a token creation. -/
def tokenCreateData (origpubkey name description : List UInt8) (oprets : Oprets) : List UInt8 :=
  [evalTokens, 0x63] ++ (writeBytes origpubkey ++ (writeBytes name ++ (writeBytes description ++
    encodeOprets oprets)))

/-- `EncodeTokenCreateOpRet`, which sets its function itself. -/
def encodeTokenCreateOpRet (origpubkey name description : List UInt8) (oprets : Oprets) :
    CScript :=
  CScript.opReturn (tokenCreateData origpubkey name description oprets)

/-- The number of keys and the keys; more than two are not supported. -/
def encodeVoutPubkeys : List CPubKey → List UInt8
  | [pk] => 1 :: writeBytes pk
  | [pk1, pk2] => 2 :: (writeBytes pk1 ++ writeBytes pk2)
  | _ => [0]

/-- The data of a transfer up to the payloads. -/
def transferHead (tokenid : Uint256) (voutPubkeys : List CPubKey) : List UInt8 :=
  [evalTokens, 0x74] ++ (writeUint256 (revuint256 tokenid) ++ encodeVoutPubkeys voutPubkeys)

/-- `EncodeTokenOpRet`. -/
def encodeTokenOpRet (tokenid : Uint256) (voutPubkeys : List CPubKey) (oprets : Oprets) :
    CScript :=
  CScript.opReturn (transferHead tokenid voutPubkeys ++ encodeOprets oprets)

/-- The payloads are the bytes of one vector with data in the old style. -/
def LooksOldstyle (oprets : Oprets) : Prop :=
  ∃ data, encodeOprets oprets = writeBytes data ∧ data.length ≤ maxSize ∧ isOldstyle data = true

/-! ## Keys and token ids -/

theorem revuint256_revuint256 (x : Uint256) : revuint256 (revuint256 x) = x := by
  have hlen : (leBytes 32 x.toNat).reverse.length = 32 := by simp
  have hlt : leNat (leBytes 32 x.toNat).reverse < 2 ^ 256 := by
    have h := leNat_lt (leBytes 32 x.toNat).reverse
    rwa [hlen] at h
  have hbytes : leBytes 32 (leNat (leBytes 32 x.toNat).reverse) = (leBytes 32 x.toNat).reverse := by
    have h := leBytes_leNat (leBytes 32 x.toNat).reverse
    rwa [hlen] at h
  simp only [revuint256]
  rw [BitVec.toNat_ofNat, Nat.mod_eq_of_lt hlt, hbytes, List.reverse_reverse,
    leNat_leBytes (Nat.lt_of_lt_of_le x.isLt (by decide)), BitVec.ofNat_toNat, BitVec.setWidth_eq]

namespace CPubKey

/-- A key that is syntactically valid: its first byte gives its length. -/
structure Valid (pk : CPubKey) : Prop where
  /-- There is one. -/
  isValid : pk.isValid = true
  /-- The bytes are all of it. -/
  set : CPubKey.set pk = pk

theorem getLen_le (b : UInt8) : getLen b ≤ 65 := by
  unfold getLen
  split
  · decide
  · split <;> decide

/-- A valid key has the length that its first byte says. -/
theorem Valid.getLen {pk : CPubKey} (h : pk.Valid) :
    ∃ b bs, pk = b :: bs ∧ CPubKey.getLen b = pk.length := by
  match pk, h with
  | [], h => exact absurd h.isValid (by decide)
  | b :: bs, h =>
    refine ⟨b, bs, rfl, ?_⟩
    by_contra hne
    have hset := h.set
    simp only [CPubKey.set, if_neg hne] at hset
    cases hset

/-- A valid key is read back. -/
theorem reads {pk : CPubKey} (h : pk.Valid) : Reads CPubKey.read (writeBytes pk) pk := by
  obtain ⟨b, bs, rfl, hlen⟩ := h.getLen
  have hle : (b :: bs).length ≤ 65 := hlen ▸ getLen_le b
  have hof : CPubKey.ofBytes (b :: bs) = b :: bs := by
    simp only [ofBytes, hlen, List.take_left]
  refine (Reads.compactSize (by omega)).bind ((Reads.bytes rfl).bind_pure ?_)
  rw [if_pos hle, hof]
  exact Reads.pure _

theorem stable : Stable CPubKey.read :=
  Stable.compactSize.bind fun len => (Stable.bytes len).bind fun _ => Stable.pure _

end CPubKey

/-! ## The head of a transfer -/

/-- The head of a transfer is read back. -/
theorem reads_transferHead (tokenid : Uint256) {voutPubkeys : List CPubKey}
    (hlen : voutPubkeys.length ≤ 2) (hvalid : ∀ pk ∈ voutPubkeys, pk.Valid) :
    Reads readTransferHead (transferHead tokenid voutPubkeys)
      (revuint256 tokenid, UInt8.ofNat voutPubkeys.length, voutPubkeys) := by
  unfold readTransferHead transferHead
  have hfront : Reads (Reader.bytes 2) [evalTokens, 0x74] [evalTokens, 0x74] := Reads.bytes rfl
  apply hfront.bind
  apply (inverts_uint256.reads (revuint256 tokenid) trivial).bind
  match voutPubkeys, hlen with
  | [], _ => exact (Reads.byte 0).bind_pure ((Reads.pure []).bind_pure
      ((Reads.pure []).bind_pure (Reads.pure _)))
  | [pk], _ =>
    have hpk := hvalid pk (by simp)
    refine (Reads.byte 1).bind ((CPubKey.reads hpk).bind_pure ((Reads.pure []).bind_pure ?_))
    have hfilter : [pk, []].filter CPubKey.isValid = [pk] := by
      rw [List.filter_cons_of_pos hpk.isValid]
      rfl
    simp only [hfilter]
    exact Reads.pure _
  | [pk1, pk2], _ =>
    have hpk1 := hvalid pk1 (by simp)
    have hpk2 := hvalid pk2 (by simp)
    refine (Reads.byte 2).bind ((CPubKey.reads hpk1).bind ((CPubKey.reads hpk2).bind_pure ?_))
    have hfilter : [pk1, pk2].filter CPubKey.isValid = [pk1, pk2] := by
      rw [List.filter_cons_of_pos hpk1.isValid, List.filter_cons_of_pos hpk2.isValid]
      rfl
    simp only [hfilter]
    exact Reads.pure _

theorem stable_readTransferHead : Stable readTransferHead := by
  unfold readTransferHead
  refine (Stable.bytes 2).bind fun _ => inverts_uint256.stable.bind fun tokenid =>
    Stable.byte.bind fun ccType => ?_
  have hlast : ∀ pk1, Stable (if ccType = 2 then CPubKey.read >>= fun pk2 =>
      Pure.pure (tokenid, ccType, [pk1, pk2].filter CPubKey.isValid)
    else Pure.pure [] >>= fun pk2 =>
      Pure.pure (tokenid, ccType, [pk1, pk2].filter CPubKey.isValid)) :=
    fun pk1 => (CPubKey.stable.bind fun _ => Stable.pure _).ite
      ((Stable.pure []).bind fun _ => Stable.pure _)
  exact (CPubKey.stable.bind hlast).ite ((Stable.pure []).bind hlast)

/-! ## Payloads -/

theorem encodeOprets_cons {o : UInt8 × List UInt8} (h : o.1 ≠ 0) (oprets : Oprets) :
    encodeOprets (o :: oprets) = o.1 :: (writeBytes o.2 ++ encodeOprets oprets) := by
  rw [encodeOprets, List.filter_cons_of_pos (by simpa using h), List.flatMap_cons,
    List.cons_append, encodeOprets]

theorem encodeOprets_cons_zero {o : UInt8 × List UInt8} (h : o.1 = 0) (oprets : Oprets) :
    encodeOprets (o :: oprets) = encodeOprets oprets := by
  rw [encodeOprets, List.filter_cons_of_neg (by simpa using h), encodeOprets]

theorem length_le_encodeOprets {oprets : Oprets} (hids : ∀ o ∈ oprets, o.1 ≠ 0) :
    oprets.length ≤ (encodeOprets oprets).length := by
  induction oprets with
  | nil => exact Nat.zero_le _
  | cons o oprets ih =>
    have htail := ih fun o ho => hids o (List.mem_cons_of_mem _ ho)
    rw [encodeOprets_cons (hids o List.mem_cons_self)]
    simp only [List.length_cons, List.length_append]
    omega

theorem readOprets_nil (fuel : Nat) : readOprets fuel [] = some ([], []) := by
  cases fuel with
  | zero => rfl
  | succ fuel => rfl

/-- A payload and those after it; an id at the very end is dropped. -/
theorem readOprets_cons (fuel : Nat) (opretId : UInt8) (bs : List UInt8) :
    readOprets (fuel + 1) (opretId :: bs) = if bs = [] then some ([], []) else
      (Reader.vector >>= fun vblob => readOprets fuel >>= fun rest =>
        Pure.pure ((opretId, vblob) :: rest)) bs := by
  cases bs with
  | nil => rfl
  | cons b bs =>
    rw [if_neg (List.cons_ne_nil b bs)]
    rfl

theorem writeBytes_ne_nil (cs : List UInt8) : writeBytes cs ≠ [] := by
  intro h
  have hlen := congrArg List.length h
  rw [writeBytes, List.length_append, writeCompactSize] at hlen
  split at hlen
  · simp at hlen
  · split at hlen
    · simp at hlen
    · split at hlen
      · simp at hlen
      · simp at hlen

/-- Payloads are read back from the end of an op_return. -/
theorem readOprets_encode {oprets : Oprets} (hids : ∀ o ∈ oprets, o.1 ≠ 0)
    (hsizes : ∀ o ∈ oprets, o.2.length ≤ maxSize) {fuel : Nat} (hfuel : oprets.length ≤ fuel) :
    readOprets fuel (encodeOprets oprets) = some (oprets, []) := by
  induction oprets generalizing fuel with
  | nil => exact readOprets_nil fuel
  | cons o oprets ih =>
    cases fuel with
    | zero => cases hfuel
    | succ fuel =>
      have hne : writeBytes o.2 ++ encodeOprets oprets ≠ [] := by
        simp [writeBytes_ne_nil]
      have hvector := Reads.vector (hsizes o List.mem_cons_self) (encodeOprets oprets)
      have hrest := ih (fun o ho => hids o (List.mem_cons_of_mem _ ho))
        (fun o ho => hsizes o (List.mem_cons_of_mem _ ho)) (Nat.le_of_succ_le_succ hfuel)
      rw [encodeOprets_cons (hids o List.mem_cons_self), readOprets_cons, if_neg hne,
        bind_of_eq hvector, bind_of_eq hrest]
      rfl

/-- Payloads are read from no fewer bytes than are written for them, and from more when one
is written without an id. -/
theorem length_of_readOprets {fuel : Nat} {bs rest : List UInt8} {oprets : Oprets}
    (h : readOprets fuel bs = some (oprets, rest)) :
    (encodeOprets oprets).length + rest.length ≤ bs.length ∧
    (∀ o ∈ oprets, o.2.length ≤ maxSize) ∧
    (bs.length ≤ (encodeOprets oprets).length + rest.length → ∀ o ∈ oprets, o.1 ≠ 0) := by
  induction fuel generalizing bs oprets with
  | zero =>
    obtain ⟨rfl, rfl⟩ : [] = oprets ∧ bs = rest := by simpa using pure_eq_some.1 h
    exact ⟨by simp [encodeOprets], by simp, by simp⟩
  | succ fuel ih =>
    cases bs with
    | nil =>
      rw [readOprets_nil] at h
      cases h
      exact ⟨by simp [encodeOprets], by simp, by simp⟩
    | cons opretId bs =>
      rw [readOprets_cons] at h
      split at h
      · rename_i hnil
        cases h
        exact ⟨by simp [encodeOprets], by simp, by simp⟩
      · obtain ⟨vblob, rest₁, hvector, h⟩ := bind_eq_some.1 h
        obtain ⟨tail, rest₂, htail, hpure⟩ := bind_eq_some.1 h
        obtain ⟨rfl, rfl⟩ : (opretId, vblob) :: tail = oprets ∧ rest₂ = rest := by
          simpa using pure_eq_some.1 hpure
        obtain ⟨rfl, hsize⟩ := Canonical.vector hvector
        obtain ⟨hlen, hsizes, hids⟩ := ih htail
        refine ⟨?_, List.forall_mem_cons.2 ⟨hsize, hsizes⟩, ?_⟩
        · by_cases hid : opretId = 0
          · rw [encodeOprets_cons_zero hid]
            simp only [List.length_cons, List.length_append]
            omega
          · rw [encodeOprets_cons hid]
            simp only [List.length_cons, List.length_append]
            omega
        · intro hle
          by_cases hid : opretId = 0
          · rw [encodeOprets_cons_zero hid] at hle
            simp only [List.length_cons, List.length_append] at hle
            omega
          · rw [encodeOprets_cons hid] at hle
            simp only [List.length_cons, List.length_append] at hle
            exact List.forall_mem_cons.2 ⟨hid, hids (by omega)⟩

/-! ## Creations -/

/-- What a creation op_return says is given back. -/
def CreateInverted (origpubkey name description : List UInt8) (oprets : Oprets) : Prop :=
  decodeTokenCreateOpRet (encodeTokenCreateOpRet origpubkey name description oprets) =
    some { origpubkey, name, description, oprets }

/-- The vectors have sizes that are read, the payloads have ids, and the op_return is pushed
whole. -/
structure CreateFits (origpubkey name description : List UInt8) (oprets : Oprets) : Prop where
  /-- The creator's key. -/
  keySize : origpubkey.length ≤ maxSize
  /-- The name. -/
  nameSize : name.length ≤ maxSize
  /-- The description. -/
  descriptionSize : description.length ≤ maxSize
  /-- The ids of the payloads. -/
  ids : ∀ o ∈ oprets, o.1 ≠ 0
  /-- The payloads. -/
  payloads : ∀ o ∈ oprets, o.2.length ≤ maxSize
  /-- The op_return. -/
  data : (tokenCreateData origpubkey name description oprets).length < 2 ^ 32

/-- What a creation op_return says is no longer than it. -/
theorem length_of_decodeTokenCreateOpRet {script : CScript} {c : TokenCreateOpret}
    (h : decodeTokenCreateOpRet script = some c) :
    (tokenCreateData c.origpubkey c.name c.description c.oprets).length ≤
      (CScript.getOpReturnData script).length ∧
    c.origpubkey.length ≤ maxSize ∧ c.name.length ≤ maxSize ∧ c.description.length ≤ maxSize ∧
    (∀ o ∈ c.oprets, o.2.length ≤ maxSize) ∧
    ((CScript.getOpReturnData script).length ≤
      (tokenCreateData c.origpubkey c.name c.description c.oprets).length →
      ∀ o ∈ c.oprets, o.1 ≠ 0) := by
  simp only [decodeTokenCreateOpRet] at h
  generalize CScript.getOpReturnData script = vopret at h
  split at h
  · obtain ⟨front, rest₁, hfront, h⟩ := bind_eq_some.1 (unmarshal_eq_some.1 h)
    obtain ⟨origpubkey, rest₂, hread₁, h⟩ := bind_eq_some.1 h
    obtain ⟨name, rest₃, hread₂, h⟩ := bind_eq_some.1 h
    obtain ⟨description, rest₄, hread₃, h⟩ := bind_eq_some.1 h
    obtain ⟨oprets, rest₅, hoprets, hpure⟩ := bind_eq_some.1 h
    obtain ⟨rfl, rfl⟩ :
      TokenCreateOpret.mk origpubkey name description oprets = c ∧ rest₅ = [] := by
      simpa using pure_eq_some.1 hpure
    obtain ⟨hfront, hlen⟩ := Canonical.bytes 2 hfront
    obtain ⟨rfl, horig⟩ := Canonical.vector hread₁
    obtain ⟨rfl, hname⟩ := Canonical.vector hread₂
    obtain ⟨rfl, hdesc⟩ := Canonical.vector hread₃
    obtain ⟨hle, hsizes, hids⟩ := length_of_readOprets hoprets
    have hvopret := congrArg List.length hfront
    simp only [List.length_append, hlen] at hvopret
    rw [List.length_nil] at hle hids
    simp only [tokenCreateData, List.length_append, List.length_cons, List.length_nil]
    refine ⟨by omega, horig, hname, hdesc, hsizes, fun hge => hids (by omega)⟩
  · cases h

/-- Payloads that are read at all have sizes that are read. -/
theorem sizes_of_readOprets {oprets : Oprets} {read : Oprets × List UInt8} {fuel : Nat}
    (hids : ∀ o ∈ oprets, o.1 ≠ 0) (hshort : (encodeOprets oprets).length < 2 ^ 32)
    (hfuel : oprets.length ≤ fuel) (h : readOprets fuel (encodeOprets oprets) = some read) :
    ∀ o ∈ oprets, o.2.length ≤ maxSize := by
  induction oprets generalizing fuel read with
  | nil => simp
  | cons o oprets ih =>
    cases fuel with
    | zero => cases hfuel
    | succ fuel =>
      have hne : writeBytes o.2 ++ encodeOprets oprets ≠ [] := by simp [writeBytes_ne_nil]
      rw [encodeOprets_cons (hids o List.mem_cons_self)] at h hshort
      have hlength : (writeBytes o.2).length = (writeCompactSize o.2.length).length + o.2.length :=
        List.length_append
      rw [List.length_cons, List.length_append, hlength] at hshort
      rw [readOprets_cons, if_neg hne] at h
      obtain ⟨hsize, h⟩ := (ReadsWhen.bytes (by omega)).of_bind h
      obtain ⟨tail, rest, htail, -⟩ := bind_eq_some.1 h
      have hsizes := ih (fun o' ho' => hids o' (List.mem_cons_of_mem _ ho')) (by omega)
        (Nat.le_of_succ_le_succ hfuel) htail
      exact List.forall_mem_cons.2 ⟨hsize, hsizes⟩

/-- A creation op_return that is decoded at all fits. -/
theorem createFits_of_decode {origpubkey name description : List UInt8} {oprets : Oprets}
    {c : TokenCreateOpret} (hids : ∀ o ∈ oprets, o.1 ≠ 0)
    (hdata : (tokenCreateData origpubkey name description oprets).length < 2 ^ 32)
    (h : decodeTokenCreateOpRet (encodeTokenCreateOpRet origpubkey name description oprets) =
      some c) : CreateFits origpubkey name description oprets := by
  have hpush : CScript.getOpReturnData (encodeTokenCreateOpRet origpubkey name description
      oprets) = tokenCreateData origpubkey name description oprets :=
    CScript.getOpReturnData_opReturn_of_lt hdata
  have hsize : ∀ bs : List UInt8, (writeBytes bs).length =
      (writeCompactSize bs.length).length + bs.length := fun bs => List.length_append
  have hlen := length_le_encodeOprets hids
  have hall : (tokenCreateData origpubkey name description oprets).length =
      (writeBytes origpubkey).length + ((writeBytes name).length +
        ((writeBytes description).length + (encodeOprets oprets).length)) + 2 := by
    simp [tokenCreateData]
  simp only [hsize] at hall
  unfold decodeTokenCreateOpRet at h
  rw [hpush] at h
  dsimp only at h
  split at h
  · have hfront : Reads (Reader.bytes 2) [evalTokens, 0x63] [evalTokens, 0x63] := Reads.bytes rfl
    obtain ⟨-, h⟩ := hfront.always.of_bind (unmarshal_eq_some.1 h)
    obtain ⟨horig, h⟩ := (ReadsWhen.bytes (by omega)).of_bind h
    obtain ⟨hname, h⟩ := (ReadsWhen.bytes (by omega)).of_bind h
    obtain ⟨hdesc, h⟩ := (ReadsWhen.bytes (by omega)).of_bind h
    obtain ⟨oprets', rest, hoprets, -⟩ := bind_eq_some.1 h
    exact ⟨horig, hname, hdesc, hids, sizes_of_readOprets hids (by omega) (by omega) hoprets, hdata⟩
  · cases h

/-- A creation op_return is read back exactly when it fits. -/
theorem createInverted_iff (origpubkey name description : List UInt8) (oprets : Oprets) :
    CreateInverted origpubkey name description oprets ↔
      CreateFits origpubkey name description oprets := by
  constructor
  · intro h
    obtain ⟨hle, horig, hname, hdesc, hsizes, hids⟩ := length_of_decodeTokenCreateOpRet h
    rw [encodeTokenCreateOpRet, CScript.getOpReturnData_opReturn, List.length_take] at hle hids
    dsimp only at hle
    exact ⟨horig, hname, hdesc, hids (Nat.min_le_right _ _), hsizes, by omega⟩
  · intro h
    have hfuel : oprets.length ≤ (tokenCreateData origpubkey name description oprets).length := by
      have hlen := length_le_encodeOprets h.ids
      simp only [tokenCreateData, List.length_append]
      omega
    have hdata : CScript.getOpReturnData (encodeTokenCreateOpRet origpubkey name description
        oprets) = tokenCreateData origpubkey name description oprets :=
      CScript.getOpReturnData_opReturn_of_lt h.data
    have hlong : 2 < (tokenCreateData origpubkey name description oprets).length := by
      have hne := List.length_pos_iff.2 (writeBytes_ne_nil origpubkey)
      simp only [tokenCreateData, List.length_append, List.length_cons]
      omega
    simp only [CreateInverted, decodeTokenCreateOpRet, hdata]
    rw [if_pos ⟨hlong, rfl, rfl⟩, unmarshal_eq_some]
    generalize (tokenCreateData origpubkey name description oprets).length = fuel at hfuel
    rw [tokenCreateData, bind_of_eq (bytes_append (n := 2) rfl),
      bind_of_eq (Reads.vector h.keySize _), bind_of_eq (Reads.vector h.nameSize _),
      bind_of_eq (Reads.vector h.descriptionSize _),
      bind_of_eq (readOprets_encode h.ids h.payloads hfuel)]
    rfl

/-! ## Transfers -/

/-- What a transfer op_return says is given back. -/
def TransferInverted (tokenid : Uint256) (voutPubkeys : List CPubKey) (oprets : Oprets) : Prop :=
  decodeTokenOpRet (encodeTokenOpRet tokenid voutPubkeys oprets) =
    some { funcid := .transfer, tokenid, voutPubkeys, oprets }

instance (tokenid : Uint256) (voutPubkeys : List CPubKey) (oprets : Oprets) :
    Decidable (TransferInverted tokenid voutPubkeys oprets) :=
  inferInstanceAs (Decidable (_ = _))

/-- The payloads have sizes that are read, the op_return is pushed whole and does not look
like one in the old style. -/
structure TransferFits (tokenid : Uint256) (voutPubkeys : List CPubKey) (oprets : Oprets) :
    Prop where
  /-- The payloads. -/
  payloads : ∀ o ∈ oprets, o.2.length ≤ maxSize
  /-- The op_return. -/
  data : (transferHead tokenid voutPubkeys ++ encodeOprets oprets).length < 2 ^ 32
  /-- The layout. -/
  newstyle : ¬ LooksOldstyle oprets

/-- The old layout: the data follow the head as a vector. -/
theorem decodeOldstyle_eq_some {vopret : List UInt8} {head : Uint256 × UInt8 × List CPubKey}
    {oprets : Oprets} : decodeOldstyle vopret = some (head, oprets) ↔
      ∃ data, readTransferHead vopret = some (head, writeBytes data) ∧ data.length ≤ maxSize ∧
        isOldstyle data = true ∧
        oprets = [(if data[0]? = some 0x11 then opretidRoguegamedata else opretidAssetsdata,
          data)] := by
  simp only [decodeOldstyle]
  constructor
  · intro h
    split at h
    · cases h
    · rename_i head' data hread
      split at h
      · rename_i hold
        obtain ⟨rfl, rfl⟩ := Prod.mk.inj (Option.some.inj h)
        obtain ⟨head'', rest, hhead, hread⟩ := bind_eq_some.1 (unmarshal_eq_some.1 hread)
        cases rest with
        | nil =>
          -- nothing follows the head, and no data are none in the old style
          obtain ⟨-, rfl⟩ : head'' = head' ∧ [] = data := by
            have hpure : some ((head'', ([] : List UInt8)), ([] : List UInt8)) =
              some ((head', data), []) := hread
            simpa using hpure
          exact absurd hold (by decide)
        | cons b rest =>
          have htail : (Reader.vector >>= fun data => Pure.pure (head'', data)) (b :: rest) =
            some ((head', data), []) := hread
          obtain ⟨data', rest', hvector, hpure⟩ := bind_eq_some.1 htail
          obtain ⟨⟨rfl, rfl⟩, rfl⟩ : (head'' = head' ∧ data' = data) ∧ rest' = [] := by
            simpa using pure_eq_some.1 hpure
          obtain ⟨hbs, hlen⟩ := Canonical.vector hvector
          rw [List.append_nil] at hbs
          exact ⟨data', hbs ▸ hhead, hlen, hold, rfl⟩
      · cases h
  · rintro ⟨data, hhead, hlen, hold, rfl⟩
    have heof : Reader.eof (writeBytes data) = some (false, writeBytes data) := by
      rw [Reader.eof, List.isEmpty_eq_false_iff.2 (writeBytes_ne_nil data)]
    have hvector := Reads.vector hlen []
    rw [List.append_nil] at hvector
    have hread : unmarshal (do
        let head ← readTransferHead
        if ← Reader.eof then return (head, ([] : List UInt8))
        let data ← Reader.vector
        return (head, data)) vopret = some (head, data) := by
      rw [unmarshal_eq_some, bind_of_eq hhead, bind_of_eq heof]
      exact bind_of_eq hvector _
    rw [hread]
    exact if_pos hold

/-- The new layout: payloads follow the head. -/
theorem decodeNewstyle_eq_some {vopret : List UInt8} {head : Uint256 × UInt8 × List CPubKey}
    {oprets : Oprets} : decodeNewstyle vopret = some (head, oprets) ↔
      ∃ rest, readTransferHead vopret = some (head, rest) ∧
        readOprets vopret.length rest = some (oprets, []) := by
  rw [decodeNewstyle, unmarshal_eq_some]
  constructor
  · intro h
    obtain ⟨head', rest, hhead, h⟩ := bind_eq_some.1 h
    obtain ⟨oprets', rest', hoprets, hpure⟩ := bind_eq_some.1 h
    obtain ⟨⟨rfl, rfl⟩, rfl⟩ : (head' = head ∧ oprets' = oprets) ∧ rest' = [] := by
      simpa using pure_eq_some.1 hpure
    exact ⟨rest, hhead, hoprets⟩
  · rintro ⟨rest, hhead, hoprets⟩
    rw [bind_of_eq hhead, bind_of_eq hoprets]
    rfl

/-- A transfer that is decoded is in one of the layouts. -/
theorem decodeTokenOpRet_eq_transfer {script : CScript} {tokenid : Uint256}
    {voutPubkeys : List CPubKey} {oprets : Oprets}
    (h : decodeTokenOpRet script = some { funcid := .transfer, tokenid, voutPubkeys, oprets }) :
    ∃ head, (decodeOldstyle (CScript.getOpReturnData script) = some (head, oprets) ∨
      decodeOldstyle (CScript.getOpReturnData script) = none ∧
        decodeNewstyle (CScript.getOpReturnData script) = some (head, oprets)) := by
  simp only [decodeTokenOpRet] at h
  generalize CScript.getOpReturnData script = vopret at h
  split at h
  · split at h
    · obtain ⟨c, -, hc⟩ := Option.map_eq_some_iff.1 h
      cases hc
    · split at h
      · split at h
        · rename_i tokenid' ccType voutPubkeys' oprets' hread
          split at h
          · obtain ⟨-, -, -, rfl⟩ := TokenOpret.mk.inj (Option.some.inj h)
            refine ⟨(tokenid', ccType, voutPubkeys'), ?_⟩
            cases hold : decodeOldstyle vopret with
            | some r =>
              rw [hold] at hread
              exact .inl hread
            | none =>
              rw [hold] at hread
              exact .inr ⟨rfl, hread⟩
          · cases h
        · cases h
      · cases h
  · cases h

/-- What follows the head in a string that was cut off, and what was cut. -/
theorem payloads_of_cut {tokenid : Uint256} {voutPubkeys : List CPubKey}
    (hlen : voutPubkeys.length ≤ 2) (hvalid : ∀ pk ∈ voutPubkeys, pk.Valid) {bs rest : List UInt8}
    {cut : Nat} {head : Uint256 × UInt8 × List CPubKey}
    (h : readTransferHead ((transferHead tokenid voutPubkeys ++ bs).take cut) = some (head, rest)) :
    bs = rest ++ (transferHead tokenid voutPubkeys ++ bs).drop cut := by
  have hwhole := stable_readTransferHead h ((transferHead tokenid voutPubkeys ++ bs).drop cut)
  rw [List.take_append_drop, reads_transferHead tokenid hlen hvalid bs] at hwhole
  exact congrArg Prod.snd (Option.some.inj hwhole)

/-- A new-style transfer is decoded as one unless it looks like one in the old style. -/
theorem transferInverted_iff (tokenid : Uint256) {voutPubkeys : List CPubKey} {oprets : Oprets}
    (hlen : voutPubkeys.length ≤ 2) (hvalid : ∀ pk ∈ voutPubkeys, pk.Valid)
    (hids : ∀ o ∈ oprets, o.1 ≠ 0) :
    TransferInverted tokenid voutPubkeys oprets ↔ TransferFits tokenid voutPubkeys oprets := by
  have hreads := reads_transferHead tokenid hlen hvalid (encodeOprets oprets)
  have hfuel := length_le_encodeOprets hids
  constructor
  · intro h
    obtain ⟨head, hlayout⟩ := decodeTokenOpRet_eq_transfer h
    rw [encodeTokenOpRet, CScript.getOpReturnData_opReturn] at hlayout
    rcases hlayout with hold | ⟨hnone, hnew⟩
    · -- data in the old style come back with an id that is not in the op_return
      obtain ⟨data, hhead, -, -, hop⟩ := decodeOldstyle_eq_some.1 hold
      have hcut := congrArg List.length (payloads_of_cut hlen hvalid hhead)
      have hid := hids _ (hop ▸ List.mem_singleton_self _)
      have hlength : (encodeOprets oprets).length = (writeBytes data).length + 1 := by
        rw [hop, encodeOprets_cons hid]
        simp [encodeOprets]
      rw [List.length_append, List.length_drop] at hcut
      omega
    · obtain ⟨rest, hhead, hoprets⟩ := decodeNewstyle_eq_some.1 hnew
      obtain ⟨hle, hsizes, -⟩ := length_of_readOprets hoprets
      have hcut := congrArg List.length (payloads_of_cut hlen hvalid hhead)
      rw [List.length_append, List.length_drop] at hcut
      rw [List.length_nil] at hle
      have hdata : (transferHead tokenid voutPubkeys ++ encodeOprets oprets).length < 2 ^ 32 := by
        omega
      refine ⟨hsizes, hdata, ?_⟩
      rintro ⟨data, hbytes, hdlen, hold⟩
      rw [Nat.mod_eq_of_lt hdata, List.take_length] at hnone
      rw [hbytes] at hreads
      have hsome := decodeOldstyle_eq_some.2 ⟨data, hreads, hdlen, hold, rfl⟩
      rw [← hbytes, hnone] at hsome
      cases hsome
  · intro h
    have hdata : CScript.getOpReturnData (encodeTokenOpRet tokenid voutPubkeys oprets) =
        transferHead tokenid voutPubkeys ++ encodeOprets oprets :=
      CScript.getOpReturnData_opReturn_of_lt h.data
    have hnone : decodeOldstyle (transferHead tokenid voutPubkeys ++ encodeOprets oprets) =
        none := by
      rw [Option.eq_none_iff_forall_ne_some]
      rintro ⟨head, oprets'⟩ hold
      obtain ⟨data, hhead, hdlen, hstyle, -⟩ := decodeOldstyle_eq_some.1 hold
      rw [hreads] at hhead
      exact h.newstyle ⟨data, congrArg Prod.snd (Option.some.inj hhead), hdlen, hstyle⟩
    have hnew := decodeNewstyle_eq_some.2 ⟨encodeOprets oprets, hreads,
      readOprets_encode hids h.payloads (by rw [List.length_append]; omega)⟩
    have hlong : 2 < (transferHead tokenid voutPubkeys ++ encodeOprets oprets).length := by
      simp only [transferHead, writeUint256, List.length_append, List.length_cons, leBytes_length]
      omega
    have htype : UInt8.ofNat voutPubkeys.length ≤ 2 := by
      rw [UInt8.le_iff_toNat_le, UInt8.toNat_ofNat']
      simp only [UInt8.reduceToNat]
      omega
    simp only [TransferInverted, decodeTokenOpRet, hdata]
    rw [if_pos ⟨hlong, rfl⟩, if_neg (by simp [transferHead]),
      if_pos (by simp [transferHead]), hnone]
    simp only [Option.orElse, hnew]
    rw [if_pos htype, revuint256_revuint256]

/-- The decoders give back what was encoded exactly when it fits. -/
theorem tokenOprets_iff (tokenid : Uint256) {voutPubkeys : List CPubKey} {oprets : Oprets}
    (hlen : voutPubkeys.length ≤ 2) (hvalid : ∀ pk ∈ voutPubkeys, pk.Valid)
    (hids : ∀ o ∈ oprets, o.1 ≠ 0) :
    (TransferInverted tokenid voutPubkeys oprets ↔ TransferFits tokenid voutPubkeys oprets) ∧
    ∀ origpubkey name description created,
      CreateInverted origpubkey name description created ↔
        CreateFits origpubkey name description created :=
  ⟨transferInverted_iff tokenid hlen hvalid hids, createInverted_iff⟩

/-- A transfer with the data of an offer, and a creation. -/
theorem tokenOprets_assets :
    (∀ o ∈ [(opretidAssetsdata, [evalAssets, 0x73])], o.1 ≠ 0) ∧
    TransferInverted 9 [CCLib.plainKey 1] [(opretidAssetsdata, [evalAssets, 0x73])] ∧
    CreateInverted (CCLib.plainKey 1) [0x78] [0x79] [] := by
  have hvalid : ∀ pk ∈ [CCLib.plainKey 1], pk.Valid := by
    intro pk hpk
    obtain rfl := List.mem_singleton.1 hpk
    exact ⟨by decide, by decide⟩
  have hids : ∀ o ∈ [(opretidAssetsdata, [evalAssets, (0x73 : UInt8)])], o.1 ≠ 0 := by decide
  have hnewstyle : ¬ LooksOldstyle [(opretidAssetsdata, [evalAssets, 0x73])] := by
    rintro ⟨data, hbytes, hlen, -⟩
    have hread := Reads.vector hlen []
    rw [List.append_nil, ← hbytes] at hread
    have hnone : Reader.vector (encodeOprets [(opretidAssetsdata, [evalAssets, 0x73])]) = none := by
      decide +kernel
    rw [hnone] at hread
    cases hread
  have h := tokenOprets_iff 9 (by decide) hvalid hids
  refine ⟨hids, h.1.2 ⟨by decide, by decide, hnewstyle⟩, (h.2 _ _ _ _).2 ?_⟩
  exact ⟨by decide, by decide, by decide, by decide, by decide, by decide⟩

/-- A payload of 17 bytes with the id of assets data is taken for game data without an id. -/
theorem tokenOprets_captured :
    decodeTokenOpRet (encodeTokenOpRet 9 [CCLib.plainKey 1]
      [(opretidAssetsdata, 0x52 :: List.replicate 16 0)]) =
      some { funcid := .transfer, tokenid := 9, voutPubkeys := [CCLib.plainKey 1]
             oprets := [(opretidRoguegamedata, 0x11 :: 0x52 :: List.replicate 16 0)] } ∧
    ¬ TransferInverted 9 [CCLib.plainKey 1] [(opretidAssetsdata, 0x52 :: List.replicate 16 0)] := by
  decide +kernel

end IndexChain
