import IndexChain.Core.Checked
import IndexChain.Models.Notary.State

/-!
# Reading the state file

`komodo_parsestatefile` and `komodo_parsestatefiledata` of `komodo.h`, and the bytes that
`komodo_stateupdate` appends. Complete records are read back as they were written
(`parseFile_fileBytes`).
-/

namespace IndexChain.Notary

open IndexChain.Core

/-! ## Records -/

/-- The bytes of an `int32_t`. -/
def int32Bytes (x : Int) : List UInt8 := leBytes 4 (x % 2 ^ 32).toNat

/-- The first byte of a record. -/
def StateRecord.letter : StateRecord → UInt8
  | .T .. => 0x54
  | .K .. => 0x4b
  | .R .. => 0x52
  | .P .. => 0x50
  | .U .. => 0x55
  | .V .. => 0x56
  | .N .. => 0x4e
  | .M .. => 0x4d

/-- The bytes after the first one, as `komodo_stateupdate` writes them. -/
def StateRecord.body : StateRecord → List UInt8
  | .T height kmdheight timestamp =>
    int32Bytes height ++ (int32Bytes kmdheight ++ leBytes 4 timestamp)
  | .K height kmdheight => int32Bytes height ++ int32Bytes kmdheight
  | .R height txid vout value opret =>
    int32Bytes height ++ (leBytes 32 txid.toNat ++ (leBytes 2 vout ++ (leBytes 8 value ++
      (leBytes 2 opret.length ++ opret))))
  | .P height pubkeys =>
    int32Bytes height ++ UInt8.ofNat pubkeys.length :: pubkeys.flatMap Vector.toList
  | .U height numvouts notaryid voutmask txid =>
    int32Bytes height ++ UInt8.ofNat numvouts :: UInt8.ofNat notaryid ::
      (leBytes 8 voutmask.toNat ++ leBytes 32 txid.toNat)
  | .V height pvals =>
    int32Bytes height ++ UInt8.ofNat pvals.length :: pvals.flatMap fun x => leBytes 4 x.toNat
  | .N height notarizedHeight notarizedHash notarizedDesttxid =>
    int32Bytes height ++ (int32Bytes notarizedHeight ++ (leBytes 32 notarizedHash.toNat ++
      leBytes 32 notarizedDesttxid.toNat))
  | .M height notarizedHeight notarizedHash notarizedDesttxid MoM MoMdepth =>
    int32Bytes height ++ (int32Bytes notarizedHeight ++ (leBytes 32 notarizedHash.toNat ++
      (leBytes 32 notarizedDesttxid.toNat ++ (leBytes 32 MoM.toNat ++ int32Bytes MoMdepth))))

/-- The bytes of a record. -/
def StateRecord.bytes (r : StateRecord) : List UInt8 := r.letter :: r.body

/-- The bytes of a state file. -/
def fileBytes (records : List StateRecord) : List UInt8 := records.flatMap StateRecord.bytes

/-! ## Primitive reads -/

/-- What a read leaves behind. -/
structure FileRead where
  /-- All bytes were there. -/
  ok : Bool
  /-- What the variable holds now. -/
  bytes : List UInt8
  /-- What is left of the data. -/
  rest : List UInt8

/-- An access past the end of the data. -/
inductive Overrun where
  | overrun
  deriving DecidableEq, Repr

/-- `memread`: nothing is read when there is too little. -/
def memread (dest : ScriptBuf) (size : Nat) (filedata : List UInt8) : FileRead :=
  if size ≤ filedata.length then
    { ok := true, bytes := filedata.take size, rest := filedata.drop size }
  else { ok := false, bytes := dest.slice 0 size, rest := filedata }

/-- `fread`: what there is is read. -/
def fread (dest : ScriptBuf) (size : Nat) (fp : List UInt8) : FileRead :=
  if size ≤ fp.length then { ok := true, bytes := fp.take size, rest := fp.drop size }
  else { ok := false, bytes := (dest.memcpy fp).slice 0 size, rest := [] }

/-- `filedata[fpos++]`. -/
def nextByte : List UInt8 → Except Overrun (Option UInt8 × List UInt8)
  | [] => .error .overrun
  | b :: rest => .ok (some b, rest)

/-- `fgetc`, without a value for `EOF`. -/
def fgetc : List UInt8 → Except Overrun (Option UInt8 × List UInt8)
  | [] => .ok (none, [])
  | b :: rest => .ok (some b, rest)

/-- How a reader gets at its data; what is there is read the same way by each. -/
structure FileReader where
  /-- Read into a variable. -/
  read : ScriptBuf → Nat → List UInt8 → FileRead
  /-- Read a byte. -/
  getc : List UInt8 → Except Overrun (Option UInt8 × List UInt8)
  /-- Bytes that are there are read. -/
  read_of_le : ∀ (dest : ScriptBuf) {size : Nat} {data : List UInt8}, size ≤ data.length →
    read dest size data = { ok := true, bytes := data.take size, rest := data.drop size }
  /-- A byte that is there is read. -/
  getc_cons : ∀ (b : UInt8) (rest : List UInt8), getc (b :: rest) = .ok (some b, rest)
  /-- Nothing is put back. -/
  read_length : ∀ (dest : ScriptBuf) (size : Nat) (data : List UInt8),
    (read dest size data).rest.length ≤ data.length
  /-- Nothing is put back. -/
  getc_length : ∀ {data : List UInt8} {r : Option UInt8 × List UInt8}, getc data = .ok r →
    r.2.length ≤ data.length

theorem memread_of_le (dest : ScriptBuf) {size : Nat} {data : List UInt8}
    (h : size ≤ data.length) :
    memread dest size data = { ok := true, bytes := data.take size, rest := data.drop size } :=
  if_pos h

theorem fread_of_le (dest : ScriptBuf) {size : Nat} {data : List UInt8}
    (h : size ≤ data.length) :
    fread dest size data = { ok := true, bytes := data.take size, rest := data.drop size } :=
  if_pos h

theorem memread_length (dest : ScriptBuf) (size : Nat) (data : List UInt8) :
    (memread dest size data).rest.length ≤ data.length := by
  unfold memread
  split <;> simp

theorem fread_length (dest : ScriptBuf) (size : Nat) (data : List UInt8) :
    (fread dest size data).rest.length ≤ data.length := by
  unfold fread
  split <;> simp

theorem nextByte_length {data : List UInt8} {r : Option UInt8 × List UInt8}
    (h : nextByte data = .ok r) : r.2.length ≤ data.length := by
  cases data with
  | nil => cases h
  | cons b rest =>
    cases h
    simp

theorem fgetc_length {data : List UInt8} {r : Option UInt8 × List UInt8}
    (h : fgetc data = .ok r) : r.2.length ≤ data.length := by
  cases data with
  | nil =>
    cases h
    simp
  | cons b rest =>
    cases h
    simp

/-- The file in memory. -/
def memory : FileReader where
  read := memread
  getc := nextByte
  read_of_le := memread_of_le
  getc_cons := fun _ _ => rfl
  read_length := memread_length
  getc_length := nextByte_length

/-- The file as a stream. -/
def stream : FileReader where
  read := fread
  getc := fgetc
  read_of_le := fread_of_le
  getc_cons := fun _ _ => rfl
  read_length := fread_length
  getc_length := fgetc_length

/-! ## Parsing -/

/-- What the variables of a reader hold before they are read into. -/
structure StateLocals where
  /-- `ht`. -/
  ht : ScriptBuf
  /-- `pubkeys`. -/
  pubkeys : ScriptBuf
  /-- `notarized_height`. -/
  notarizedHeight : ScriptBuf
  /-- `notarized_hash`. -/
  notarizedHash : ScriptBuf
  /-- `notarized_desttxid`. -/
  notarizedDesttxid : ScriptBuf
  /-- `MoM`. -/
  MoM : ScriptBuf
  /-- `MoMdepth`. -/
  MoMdepth : ScriptBuf
  /-- `mask`. -/
  mask : ScriptBuf
  /-- `hash`. -/
  hash : ScriptBuf
  /-- `kheight`. -/
  kheight : ScriptBuf
  /-- `ktimestamp`. -/
  ktimestamp : ScriptBuf
  /-- `txid`. -/
  txid : ScriptBuf
  /-- `v`. -/
  v : ScriptBuf
  /-- `ovalue`. -/
  ovalue : ScriptBuf
  /-- `olen`. -/
  olen : ScriptBuf
  /-- `opret`. -/
  opret : ScriptBuf
  /-- `pvals`. -/
  pvals : ScriptBuf

/-- The `int32_t` with the given bytes. -/
def int32Of (bs : List UInt8) : Int := toInt32 (leNat bs)

/-- The `uint256` with the given bytes. -/
def uint256Of (bs : List UInt8) : Uint256 := BitVec.ofNat 256 (leNat bs)

/-- The public keys with the given bytes. -/
def pubkeysOf : Nat → List UInt8 → List (Vector UInt8 33)
  | 0, _ => []
  | num + 1, bs => Vector.ofFn (fun i : Fin 33 => bs.getD i 0) :: pubkeysOf num (bs.drop 33)

/-- The prices with the given bytes. -/
def pvalsOf : Nat → List UInt8 → List UInt32
  | 0, _ => []
  | numpvals + 1, bs => UInt32.ofNat (leNat (bs.take 4)) :: pvalsOf numpvals (bs.drop 4)

/-- What is tested before an event is added. -/
structure ReaderEnv where
  /-- `ASSETCHAINS_SYMBOL`. -/
  assetchainsSymbol : List UInt8
  /-- The chain whose state file is read. -/
  symbol : List UInt8
  /-- Whether `KOMODO_EXTERNAL_NOTARIES` is set. -/
  externalNotaries : Bool
  /-- `komodo_verifynotarization` lets a checkpoint pass, or the node is no notary. -/
  verifynotarization : NotarizedCheckpoint → Bool

namespace ReaderEnv

variable (env : ReaderEnv)

/-- `"KMD"`. -/
def kmd : List UInt8 := [0x4b, 0x4d, 0x44]

/-- `matched`: the file is that of the node's own chain. -/
def matched : Bool :=
  if env.assetchainsSymbol = [] ∧ env.symbol = kmd then true
  else decide (env.symbol = env.assetchainsSymbol)

/-- The test of the readers before `komodo_eventadd_pubkeys`. -/
def addsPubkeys : Bool :=
  (env.externalNotaries && env.matched) || (decide (env.symbol = kmd) && !env.externalNotaries)

/-- `komodo_eventadd`: only asset chains keep the log. -/
def eventadd (height : Int) (data : KomodoEventData) : List KomodoEvent :=
  if env.assetchainsSymbol = [] then [] else [{ height := height, data := data }]

/-- `komodo_eventadd_kmdheight`. -/
def eventaddKmdheight (height kmdheight : Int) (timestamp : Nat) : List KomodoEvent :=
  env.eventadd height (if 0 < kmdheight then .kmdheight kmdheight timestamp else .rewind)

/-- The tests of `komodo_eventadd_notarized`. -/
def addsNotarized (np : NotarizedCheckpoint) : Bool :=
  let coin := if env.assetchainsSymbol = [] then kmd else env.assetchainsSymbol
  env.verifynotarization np && decide (env.symbol = coin)

/-- `komodo_eventadd_notarized`. -/
def eventaddNotarized (np : NotarizedCheckpoint) : List KomodoEvent :=
  if env.addsNotarized np then env.eventadd np.nHeight (.notarized np) else []

/-- `komodo_eventadd_pricefeed`. -/
def eventaddPricefeed (height : Int) (pvals : List UInt32) : List KomodoEvent :=
  if pvals.length = 35 then env.eventadd height (.pricefeed pvals) else []

/-- `komodo_eventadd_opreturn`. -/
def eventaddOpreturn (height : Int) (txid : Uint256) (value vout : Nat) (opret : List UInt8) :
    List KomodoEvent :=
  if env.assetchainsSymbol = [] then [] else env.eventadd height (.opreturn txid value vout opret)

theorem eventadd_eq_nil {height : Int} {data : KomodoEventData} :
    env.eventadd height data = [] ↔ env.assetchainsSymbol = [] := by
  unfold eventadd
  split <;> simp [*]

theorem eventaddKmdheight_eq_nil {height kmdheight : Int} {timestamp : Nat} :
    env.eventaddKmdheight height kmdheight timestamp = [] ↔ env.assetchainsSymbol = [] :=
  env.eventadd_eq_nil

/-- A checkpoint is dropped by one of the tests of `komodo_eventadd_notarized`, or with all
other events. -/
theorem eventaddNotarized_eq_nil {np : NotarizedCheckpoint} :
    env.eventaddNotarized np = [] ↔
      env.addsNotarized np = false ∨ env.assetchainsSymbol = [] := by
  unfold eventaddNotarized
  split
  · rename_i hadds
    rw [eventadd_eq_nil]
    simp [hadds]
  · rename_i hadds
    simp [Bool.eq_false_iff.2 hadds]

theorem eventaddPricefeed_eq_nil {height : Int} {pvals : List UInt32} :
    env.eventaddPricefeed height pvals = [] ↔
      pvals.length ≠ 35 ∨ env.assetchainsSymbol = [] := by
  unfold eventaddPricefeed
  split
  · rename_i hlength
    rw [eventadd_eq_nil]
    simp [hlength]
  · rename_i hlength
    simp [hlength]

theorem eventaddOpreturn_eq_nil {height : Int} {txid : Uint256} {value vout : Nat}
    {opret : List UInt8} :
    env.eventaddOpreturn height txid value vout opret = [] ↔ env.assetchainsSymbol = [] := by
  unfold eventaddOpreturn
  split
  · simp [*]
  · exact env.eventadd_eq_nil

end ReaderEnv

/-- Events, and what is left of the data. -/
abbrev Parsed := List KomodoEvent × List UInt8

namespace FileReader

variable (rd : FileReader) (env : ReaderEnv) (stack : StateLocals)

/-- The record `P`. At the end of a stream the number of keys is -1, and as many are not
read. -/
def parsePubkeys (ht : Int) (data : List UInt8) : Except Overrun Parsed := do
  let (num, data) ← rd.getc data
  match num with
  | none => .ok ([], data)
  | some num =>
    if num.toNat ≤ 64 then
      let keys := rd.read stack.pubkeys (33 * num.toNat) data
      if keys.ok && env.addsPubkeys then
        .ok (env.eventadd ht (.pubkeys (pubkeysOf num.toNat keys.bytes)), keys.rest)
      else .ok ([], keys.rest)
    else .ok ([], data)

/-- The checkpoint of the records `N` and `M`, as the variables hold it after the reads. -/
def readNotarized (withMoM : Bool) (ht : Int) (data : List UInt8) :
    NotarizedCheckpoint × List UInt8 :=
  let notarizedHeight := rd.read stack.notarizedHeight 4 data
  let notarizedHash := rd.read stack.notarizedHash 32 notarizedHeight.rest
  let notarizedDesttxid := rd.read stack.notarizedDesttxid 32 notarizedHash.rest
  let np : NotarizedCheckpoint :=
    { nHeight := ht
      notarizedHeight := int32Of notarizedHeight.bytes
      notarizedHash := uint256Of notarizedHash.bytes
      notarizedDesttxid := uint256Of notarizedDesttxid.bytes
      MoM := 0
      MoMdepth := 0 }
  if withMoM then
    let MoM := rd.read stack.MoM 32 notarizedDesttxid.rest
    let MoMdepth := rd.read stack.MoMdepth 4 MoM.rest
    ({ np with MoM := uint256Of MoM.bytes, MoMdepth := int32Of MoMdepth.bytes }, MoMdepth.rest)
  else (np, notarizedDesttxid.rest)

/-- The records `N` and `M`. -/
def parseNotarized (withMoM : Bool) (ht : Int) (data : List UInt8) : Parsed :=
  let (np, rest) := rd.readNotarized stack withMoM ht data
  (env.eventaddNotarized np, rest)

/-- The record `U`, which adds nothing. -/
def parseUtxo (data : List UInt8) : Except Overrun Parsed := do
  let (_, data) ← rd.getc data
  let (_, data) ← rd.getc data
  let mask := rd.read stack.mask 8 data
  let hash := rd.read stack.hash 32 mask.rest
  .ok ([], hash.rest)

/-- The records `K` and `T`. -/
def parseKmdheight (withTime : Bool) (ht : Int) (data : List UInt8) : Parsed :=
  let kheight := rd.read stack.kheight 4 data
  if withTime then
    let ktimestamp := rd.read stack.ktimestamp 4 kheight.rest
    (env.eventaddKmdheight ht (int32Of kheight.bytes) (leNat ktimestamp.bytes), ktimestamp.rest)
  else (env.eventaddKmdheight ht (int32Of kheight.bytes) 0, kheight.rest)

/-- The record `R`. A length of 16 bits is always less than the size of `opret`. -/
def parseOpreturn (ht : Int) (data : List UInt8) : Parsed :=
  let txid := rd.read stack.txid 32 data
  let v := rd.read stack.v 2 txid.rest
  let ovalue := rd.read stack.ovalue 8 v.rest
  let olen := rd.read stack.olen 2 ovalue.rest
  let opret := rd.read stack.opret (leNat olen.bytes) olen.rest
  (env.eventaddOpreturn ht (uint256Of txid.bytes) (leNat ovalue.bytes) (leNat v.bytes) opret.bytes,
    opret.rest)

/-- The record `V`. At the end of a stream the number of prices is -1, which is too large as
a size. -/
def parsePricefeed (ht : Int) (data : List UInt8) : Except Overrun Parsed := do
  let (numpvals, data) ← rd.getc data
  match numpvals with
  | none => .ok ([], data)
  | some numpvals =>
    if numpvals.toNat ≤ 128 then
      let pvals := rd.read stack.pvals (4 * numpvals.toNat) data
      if pvals.ok then
        .ok (env.eventaddPricefeed ht (pvalsOf numpvals.toNat pvals.bytes), pvals.rest)
      else .ok ([], pvals.rest)
    else .ok ([], data)

/-- `komodo_parsestatefiledata` and `komodo_parsestatefile` after the first byte. -/
def parse (func : UInt8) (data : List UInt8) : Except Overrun Parsed :=
  let height := rd.read stack.ht 4 data
  let ht := int32Of height.bytes
  if func = 0x50 then rd.parsePubkeys env stack ht height.rest
  else if func = 0x4e then .ok (rd.parseNotarized env stack false ht height.rest)
  else if func = 0x4d then .ok (rd.parseNotarized env stack true ht height.rest)
  else if func = 0x55 then rd.parseUtxo stack height.rest
  else if func = 0x4b then .ok (rd.parseKmdheight env stack false ht height.rest)
  else if func = 0x54 then .ok (rd.parseKmdheight env stack true ht height.rest)
  else if func = 0x52 then .ok (rd.parseOpreturn env stack ht height.rest)
  else if func = 0x56 then rd.parsePricefeed env stack ht height.rest
  else .ok ([], height.rest)

/-- The loop over a file, for a number of records. -/
def parseLoop (stack : Nat → StateLocals) : Nat → List UInt8 → Except Overrun Parsed
  | 0, data => .ok ([], data)
  | _ + 1, [] => .ok ([], [])
  | fuel + 1, func :: data => do
    let (events, rest) ← rd.parse env (stack data.length) func data
    let (events', rest) ← parseLoop stack fuel rest
    .ok (events ++ events', rest)

/-- The loop over a file, at each round of which a byte is read; what the variables hold may
depend on the place in the file. -/
def parseFile (stack : Nat → StateLocals) (data : List UInt8) : Except Overrun Parsed :=
  rd.parseLoop env stack data.length data

end FileReader

/-! ## Written records -/

/-- The values of an `int32_t`. -/
def Int32 (x : Int) : Prop := -2 ^ 31 ≤ x ∧ x < 2 ^ 31

namespace KomodoEnv

/-- The arguments of `komodo_stateupdate` have their types; the arrays that its callers pass
have 64 keys and 128 prices. -/
structure StateUpdate.Typed (a : StateUpdate) : Prop where
  /-- `int32_t height`. -/
  height : Int32 a.height
  /-- `uint8_t pubkeys[64][33]`. -/
  notarypubs : a.notarypubs.length ≤ 64
  /-- `uint8_t numvouts`. -/
  numvouts : a.numvouts < 256
  /-- `uint8_t notaryid`. -/
  notaryid : a.notaryid < 256
  /-- `uint32_t pvals[128]`. -/
  pvals : a.pvals.length ≤ 128
  /-- `int32_t KMDheight`. -/
  kmdheight : Int32 a.kmdheight
  /-- `uint32_t KMDtimestamp`. -/
  kmdtimestamp : a.kmdtimestamp < 2 ^ 32
  /-- `uint64_t opretvalue`. -/
  opretvalue : a.opretvalue < 2 ^ 64
  /-- `uint16_t opretlen`. -/
  opretlen : a.opretlen < 2 ^ 16
  /-- `uint16_t vout`. -/
  vout : a.vout < 2 ^ 16

end KomodoEnv

/-- The fields of a record are values of their types. -/
def StateRecord.Typed : StateRecord → Prop
  | .T height kmdheight timestamp => Int32 height ∧ Int32 kmdheight ∧ timestamp < 2 ^ 32
  | .K height kmdheight => Int32 height ∧ Int32 kmdheight
  | .R height _ vout value opret =>
    Int32 height ∧ vout < 2 ^ 16 ∧ value < 2 ^ 64 ∧ opret.length < 2 ^ 16
  | .P height pubkeys => Int32 height ∧ 0 < pubkeys.length ∧ pubkeys.length ≤ 64
  | .U height numvouts notaryid _ _ => Int32 height ∧ numvouts < 256 ∧ notaryid < 256
  | .V height pvals => Int32 height ∧ 0 < pvals.length ∧ pvals.length ≤ 128
  | .N height notarizedHeight _ _ => Int32 height ∧ Int32 notarizedHeight
  | .M height notarizedHeight _ _ _ MoMdepth =>
    Int32 height ∧ Int32 notarizedHeight ∧ Int32 MoMdepth

/-- A record that `komodo_stateupdate` writes. -/
def Written (W : Type) (r : StateRecord) : Prop :=
  ∃ (a : KomodoEnv.StateUpdate) (sp : KomodoState W), a.Typed ∧ Int32 sp.notarizedHeight ∧
    Int32 sp.MoMdepth ∧ KomodoEnv.stateRecord a sp = some r

/-- What is written is typed. -/
theorem Written.typed {W : Type} {r : StateRecord} (h : Written W r) : r.Typed := by
  obtain ⟨a, sp, ha, hheight, hdepth, hrecord⟩ := h
  unfold KomodoEnv.stateRecord at hrecord
  split at hrecord
  · cases hrecord
  split at hrecord
  · split at hrecord
    · cases hrecord
      exact ⟨ha.height, ha.kmdheight, ha.kmdtimestamp⟩
    · cases hrecord
      exact ⟨ha.height, ha.kmdheight⟩
  split at hrecord
  · cases hrecord
    refine ⟨ha.height, ha.vout, ha.opretvalue, ?_⟩
    simpa [ScriptBuf.slice] using ha.opretlen
  split at hrecord
  · rename_i hkeys
    cases hrecord
    exact ⟨ha.height, List.length_pos_iff.2 hkeys, ha.notarypubs⟩
  split at hrecord
  · cases hrecord
    exact ⟨ha.height, ha.numvouts, ha.notaryid⟩
  split at hrecord
  · rename_i hpvals
    split at hrecord
    · cases hrecord
      exact ⟨ha.height, List.length_pos_iff.2 hpvals, ha.pvals⟩
    · cases hrecord
  split at hrecord
  · cases hrecord
    exact ⟨ha.height, hheight, hdepth⟩
  · cases hrecord
    exact ⟨ha.height, hheight⟩

/-- The events that are added for a record. -/
def StateRecord.events (env : ReaderEnv) : StateRecord → List KomodoEvent
  | .T height kmdheight timestamp => env.eventaddKmdheight height kmdheight timestamp
  | .K height kmdheight => env.eventaddKmdheight height kmdheight 0
  | .R height txid vout value opret => env.eventaddOpreturn height txid value vout opret
  | .P height pubkeys => if env.addsPubkeys then env.eventadd height (.pubkeys pubkeys) else []
  | .U .. => []
  | .V height pvals => env.eventaddPricefeed height pvals
  | .N height notarizedHeight notarizedHash notarizedDesttxid =>
    env.eventaddNotarized { nHeight := height
                            notarizedHeight := notarizedHeight
                            notarizedHash := notarizedHash
                            notarizedDesttxid := notarizedDesttxid
                            MoM := 0
                            MoMdepth := 0 }
  | .M height notarizedHeight notarizedHash notarizedDesttxid MoM MoMdepth =>
    env.eventaddNotarized { nHeight := height
                            notarizedHeight := notarizedHeight
                            notarizedHash := notarizedHash
                            notarizedDesttxid := notarizedDesttxid
                            MoM := MoM
                            MoMdepth := MoMdepth }

/-! ## Reading back -/

@[simp] theorem int32Bytes_length (x : Int) : (int32Bytes x).length = 4 :=
  leBytes_length 4 _

/-- An `int32_t` is read back. -/
theorem int32Of_int32Bytes {x : Int} (h : Int32 x) : int32Of (int32Bytes x) = x := by
  obtain ⟨hlow, hhigh⟩ := h
  have hbytes : leNat (int32Bytes x) = (x % 2 ^ 32).toNat := leNat_leBytes (by omega)
  have hcast : ((x % 2 ^ 32).toNat : Int) = x % 2 ^ 32 := Int.toNat_of_nonneg (by omega)
  unfold int32Of toInt32
  rw [hbytes, hcast]
  exact (Int.emod_bmod x (2 ^ 32)).trans (Int.bmod_eq_of_le (by omega) (by omega))

@[simp] theorem uint256Of_leBytes (x : Uint256) : uint256Of (leBytes 32 x.toNat) = x := by
  unfold uint256Of
  rw [leNat_leBytes x.isLt]
  simp

@[simp] theorem pubkeys_length (pubkeys : List (Vector UInt8 33)) :
    (pubkeys.flatMap Vector.toList).length = 33 * pubkeys.length := by
  induction pubkeys with
  | nil => rfl
  | cons key rest ih =>
    simp [ih]
    omega

@[simp] theorem pvals_length (pvals : List UInt32) :
    (pvals.flatMap fun x => leBytes 4 x.toNat).length = 4 * pvals.length := by
  induction pvals with
  | nil => rfl
  | cons x rest ih =>
    simp [ih]
    omega

/-- The public keys are read back. -/
theorem pubkeysOf_flatMap (pubkeys : List (Vector UInt8 33)) :
    pubkeysOf pubkeys.length (pubkeys.flatMap Vector.toList) = pubkeys := by
  induction pubkeys with
  | nil => rfl
  | cons key rest ih =>
    have hkey : Vector.ofFn (fun i : Fin 33 =>
        (key.toList ++ rest.flatMap Vector.toList).getD i 0) = key := by
      ext i hi
      have hlt : i < key.toList.length := by simpa using hi
      simp [List.getElem?_append_left hlt, hi]
    have hrest : (key.toList ++ rest.flatMap Vector.toList).drop 33 =
        rest.flatMap Vector.toList := List.drop_left' (by simp)
    simp only [List.length_cons, List.flatMap_cons, pubkeysOf, hkey, hrest, ih]

/-- The prices are read back. -/
theorem pvalsOf_flatMap (pvals : List UInt32) :
    pvalsOf pvals.length (pvals.flatMap fun x => leBytes 4 x.toNat) = pvals := by
  induction pvals with
  | nil => rfl
  | cons x rest ih =>
    have htake : (leBytes 4 x.toNat ++ rest.flatMap fun x => leBytes 4 x.toNat).take 4 =
        leBytes 4 x.toNat := List.take_left' (by simp)
    have hdrop : (leBytes 4 x.toNat ++ rest.flatMap fun x => leBytes 4 x.toNat).drop 4 =
        rest.flatMap fun x => leBytes 4 x.toNat := List.drop_left' (by simp)
    have hnat : leNat (leBytes 4 x.toNat) = x.toNat := leNat_leBytes x.toNat_lt
    simp only [List.length_cons, List.flatMap_cons, pvalsOf, htake, hdrop, hnat, ih,
      UInt32.ofNat_toNat]

namespace FileReader

variable (rd : FileReader)

/-- What is there is read. -/
theorem read_append (dest : ScriptBuf) {size : Nat} {bs : List UInt8} (h : bs.length = size)
    (rest : List UInt8) :
    rd.read dest size (bs ++ rest) = { ok := true, bytes := bs, rest := rest } := by
  subst h
  rw [rd.read_of_le dest (by simp), List.take_left', List.drop_left'] <;> rfl

@[simp] theorem read_int32Bytes (dest : ScriptBuf) (x : Int) (rest : List UInt8) :
    rd.read dest 4 (int32Bytes x ++ rest) =
      { ok := true, bytes := int32Bytes x, rest := rest } :=
  rd.read_append dest (int32Bytes_length x) rest

@[simp] theorem read_leBytes (dest : ScriptBuf) (size x : Nat) (rest : List UInt8) :
    rd.read dest size (leBytes size x ++ rest) =
      { ok := true, bytes := leBytes size x, rest := rest } :=
  rd.read_append dest (leBytes_length size x) rest

theorem parsePubkeys_bytes (env : ReaderEnv) (stack : StateLocals) (ht : Int)
    {pubkeys : List (Vector UInt8 33)} (h : pubkeys.length ≤ 64) (rest : List UInt8) :
    rd.parsePubkeys env stack ht
        (UInt8.ofNat pubkeys.length :: (pubkeys.flatMap Vector.toList ++ rest)) =
      .ok (if env.addsPubkeys then env.eventadd ht (.pubkeys pubkeys) else [], rest) := by
  have hnum : (UInt8.ofNat pubkeys.length).toNat = pubkeys.length :=
    UInt8.toNat_ofNat_of_lt' (by change _ < 256; omega)
  have hread := rd.read_append stack.pubkeys (pubkeys_length pubkeys) rest
  unfold parsePubkeys
  rw [rd.getc_cons]
  simp only [except_ok_bind, hnum, h, if_true, hread, pubkeysOf_flatMap, Bool.true_and]
  split <;> rfl

theorem parsePricefeed_bytes (env : ReaderEnv) (stack : StateLocals) (ht : Int)
    {pvals : List UInt32}
    (h : pvals.length ≤ 128) (rest : List UInt8) :
    rd.parsePricefeed env stack ht
        (UInt8.ofNat pvals.length :: ((pvals.flatMap fun x => leBytes 4 x.toNat) ++ rest)) =
      .ok (env.eventaddPricefeed ht pvals, rest) := by
  have hnum : (UInt8.ofNat pvals.length).toNat = pvals.length :=
    UInt8.toNat_ofNat_of_lt' (by change _ < 256; omega)
  have hread := rd.read_append stack.pvals (pvals_length pvals) rest
  unfold parsePricefeed
  rw [rd.getc_cons]
  simp only [except_ok_bind, hnum, h, if_true, hread, pvalsOf_flatMap]

/-- A complete record is parsed. -/
theorem parse_bytes (env : ReaderEnv) (stack : StateLocals) {r : StateRecord} (hr : r.Typed)
    (rest : List UInt8) :
    rd.parse env stack r.letter (r.body ++ rest) = .ok (r.events env, rest) := by
  cases r with
  | T height kmdheight timestamp =>
    obtain ⟨hheight, hkmd, htime⟩ := hr
    have hnat : leNat (leBytes 4 timestamp) = timestamp := leNat_leBytes htime
    simp [parse, parseKmdheight, StateRecord.letter, StateRecord.body, StateRecord.events,
      int32Of_int32Bytes hheight, int32Of_int32Bytes hkmd, hnat]
  | K height kmdheight =>
    obtain ⟨hheight, hkmd⟩ := hr
    simp [parse, parseKmdheight, StateRecord.letter, StateRecord.body, StateRecord.events,
      int32Of_int32Bytes hheight, int32Of_int32Bytes hkmd]
  | R height txid vout value opret =>
    obtain ⟨hheight, hvout, hvalue, holen⟩ := hr
    have hv : leNat (leBytes 2 vout) = vout := leNat_leBytes hvout
    have hval : leNat (leBytes 8 value) = value := leNat_leBytes hvalue
    have hlen : leNat (leBytes 2 opret.length) = opret.length := leNat_leBytes holen
    simp [parse, parseOpreturn, StateRecord.letter, StateRecord.body, StateRecord.events,
      int32Of_int32Bytes hheight, hv, hval, hlen, rd.read_append]
  | P height pubkeys =>
    obtain ⟨hheight, -, hkeys⟩ := hr
    simp [parse, StateRecord.letter, StateRecord.body, StateRecord.events,
      int32Of_int32Bytes hheight, rd.parsePubkeys_bytes env stack _ hkeys]
  | U height numvouts notaryid voutmask txid =>
    simp [parse, parseUtxo, StateRecord.letter, StateRecord.body, StateRecord.events,
      rd.getc_cons, except_ok_bind]
  | V height pvals =>
    obtain ⟨hheight, -, hpvals⟩ := hr
    simp [parse, StateRecord.letter, StateRecord.body, StateRecord.events,
      int32Of_int32Bytes hheight, rd.parsePricefeed_bytes env stack _ hpvals]
  | N height notarizedHeight notarizedHash notarizedDesttxid =>
    obtain ⟨hheight, hnotarized⟩ := hr
    simp [parse, parseNotarized, readNotarized,
      StateRecord.letter, StateRecord.body, StateRecord.events,
      int32Of_int32Bytes hheight, int32Of_int32Bytes hnotarized]
  | M height notarizedHeight notarizedHash notarizedDesttxid MoM MoMdepth =>
    obtain ⟨hheight, hnotarized, hdepth⟩ := hr
    simp [parse, parseNotarized, readNotarized,
      StateRecord.letter, StateRecord.body, StateRecord.events,
      int32Of_int32Bytes hheight, int32Of_int32Bytes hnotarized, int32Of_int32Bytes hdepth]

/-! ## The loop -/

theorem parsePubkeys_length {env : ReaderEnv} {stack : StateLocals} {ht : Int}
    {data : List UInt8} {p : Parsed} (h : rd.parsePubkeys env stack ht data = .ok p) :
    p.2.length ≤ data.length := by
  unfold parsePubkeys at h
  rw [except_bind_eq_ok] at h
  obtain ⟨⟨num, data'⟩, hget, h⟩ := h
  have hle : data'.length ≤ data.length := rd.getc_length hget
  dsimp only at h
  split at h
  · cases h
    exact hle
  · rename_i num
    have hread := rd.read_length stack.pubkeys (33 * num.toNat) data'
    split at h
    · split at h
      · cases h
        exact hread.trans hle
      · cases h
        exact hread.trans hle
    · cases h
      exact hle

theorem parsePricefeed_length {env : ReaderEnv} {stack : StateLocals} {ht : Int}
    {data : List UInt8} {p : Parsed} (h : rd.parsePricefeed env stack ht data = .ok p) :
    p.2.length ≤ data.length := by
  unfold parsePricefeed at h
  rw [except_bind_eq_ok] at h
  obtain ⟨⟨numpvals, data'⟩, hget, h⟩ := h
  have hle : data'.length ≤ data.length := rd.getc_length hget
  dsimp only at h
  split at h
  · cases h
    exact hle
  · rename_i numpvals
    have hread := rd.read_length stack.pvals (4 * numpvals.toNat) data'
    split at h
    · split at h
      · cases h
        exact hread.trans hle
      · cases h
        exact hread.trans hle
    · cases h
      exact hle

theorem parseUtxo_length {stack : StateLocals} {data : List UInt8} {p : Parsed}
    (h : rd.parseUtxo stack data = .ok p) : p.2.length ≤ data.length := by
  unfold parseUtxo at h
  rw [except_bind_eq_ok] at h
  obtain ⟨⟨n, data'⟩, hn, h⟩ := h
  rw [except_bind_eq_ok] at h
  obtain ⟨⟨nid, data''⟩, hnid, h⟩ := h
  cases h
  calc
    _ ≤ (rd.read stack.mask 8 data'').rest.length := rd.read_length _ _ _
    _ ≤ data''.length := rd.read_length _ _ _
    _ ≤ data'.length := rd.getc_length hnid
    _ ≤ data.length := rd.getc_length hn

theorem parseNotarized_length (env : ReaderEnv) (stack : StateLocals) (withMoM : Bool) (ht : Int)
    (data : List UInt8) :
    (rd.parseNotarized env stack withMoM ht data).2.length ≤ data.length := by
  have hdesttxid : (rd.read stack.notarizedDesttxid 32 (rd.read stack.notarizedHash 32
      (rd.read stack.notarizedHeight 4 data).rest).rest).rest.length ≤ data.length :=
    calc
      _ ≤ (rd.read stack.notarizedHash 32
          (rd.read stack.notarizedHeight 4 data).rest).rest.length :=
        rd.read_length _ _ _
      _ ≤ (rd.read stack.notarizedHeight 4 data).rest.length := rd.read_length _ _ _
      _ ≤ data.length := rd.read_length _ _ _
  unfold parseNotarized readNotarized
  dsimp only
  split
  · exact (rd.read_length _ _ _).trans ((rd.read_length _ _ _).trans hdesttxid)
  · exact hdesttxid

theorem parseKmdheight_length (env : ReaderEnv) (stack : StateLocals) (withTime : Bool) (ht : Int)
    (data : List UInt8) :
    (rd.parseKmdheight env stack withTime ht data).2.length ≤ data.length := by
  unfold parseKmdheight
  dsimp only
  split
  · exact (rd.read_length _ _ _).trans (rd.read_length _ _ _)
  · exact rd.read_length _ _ _

theorem parseOpreturn_length (env : ReaderEnv) (stack : StateLocals) (ht : Int)
    (data : List UInt8) :
    (rd.parseOpreturn env stack ht data).2.length ≤ data.length :=
  (rd.read_length _ _ _).trans ((rd.read_length _ _ _).trans ((rd.read_length _ _ _).trans
    ((rd.read_length _ _ _).trans (rd.read_length _ _ _))))

/-- No record puts anything back. -/
theorem parse_length {env : ReaderEnv} {stack : StateLocals} {func : UInt8}
    {data : List UInt8} {p : Parsed} (h : rd.parse env stack func data = .ok p) :
    p.2.length ≤ data.length := by
  have hht := rd.read_length stack.ht 4 data
  unfold parse at h
  dsimp only at h
  split at h
  · exact (rd.parsePubkeys_length h).trans hht
  split at h
  · cases h
    exact (rd.parseNotarized_length _ _ _ _ _).trans hht
  split at h
  · cases h
    exact (rd.parseNotarized_length _ _ _ _ _).trans hht
  split at h
  · exact (rd.parseUtxo_length h).trans hht
  split at h
  · cases h
    exact (rd.parseKmdheight_length _ _ _ _ _).trans hht
  split at h
  · cases h
    exact (rd.parseKmdheight_length _ _ _ _ _).trans hht
  split at h
  · cases h
    exact (rd.parseOpreturn_length _ _ _ _).trans hht
  split at h
  · exact (rd.parsePricefeed_length h).trans hht
  · cases h
    exact hht

variable {env : ReaderEnv} {stack : Nat → StateLocals}

/-- More rounds change nothing. -/
theorem parseLoop_fuel {fuel fuel' : Nat} {data : List UInt8} (hfuel : data.length ≤ fuel)
    (hfuel' : data.length ≤ fuel') :
    rd.parseLoop env stack fuel data = rd.parseLoop env stack fuel' data := by
  induction fuel generalizing fuel' data with
  | zero =>
    obtain rfl := List.length_eq_zero_iff.1 (Nat.le_zero.1 hfuel)
    cases fuel' <;> rfl
  | succ fuel ih =>
    cases data with
    | nil => cases fuel' <;> rfl
    | cons func data =>
      simp only [List.length_cons] at hfuel hfuel'
      obtain ⟨fuel', rfl⟩ : ∃ n, fuel' = n + 1 := ⟨fuel' - 1, by omega⟩
      unfold parseLoop
      refine except_bind_congr fun p hparse => ?_
      have hlength := rd.parse_length hparse
      dsimp only
      have hloop : rd.parseLoop env stack fuel p.2 =
          rd.parseLoop env stack fuel' p.2 := ih (by omega) (by omega)
      rw [hloop]

/-- The first record, and the others. -/
theorem parseFile_cons (func : UInt8) (data : List UInt8) :
    rd.parseFile env stack (func :: data) = (do
      let p ← rd.parse env (stack data.length) func data
      let p' ← rd.parseFile env stack p.2
      .ok (p.1 ++ p'.1, p'.2)) := by
  change rd.parseLoop env stack (data.length + 1) (func :: data) = _
  unfold parseLoop
  refine except_bind_congr fun p hparse => ?_
  dsimp only
  rw [rd.parseLoop_fuel (rd.parse_length hparse) le_rfl]
  rfl

/-- Complete records are read, then what follows them. -/
theorem parseFile_fileBytes {records : List StateRecord} (hrecords : ∀ r ∈ records, r.Typed)
    (tail : List UInt8) :
    rd.parseFile env stack (fileBytes records ++ tail) = (do
      let p ← rd.parseFile env stack tail
      .ok (records.flatMap (StateRecord.events env) ++ p.1, p.2)) := by
  induction records with
  | nil =>
    change rd.parseFile env stack tail = _
    cases rd.parseFile env stack tail <;> rfl
  | cons r rest ih =>
    have hbytes : fileBytes (r :: rest) ++ tail =
        r.letter :: (r.body ++ (fileBytes rest ++ tail)) := by
      simp [fileBytes, StateRecord.bytes]
    rw [hbytes, rd.parseFile_cons, rd.parse_bytes _ _ (hrecords r List.mem_cons_self),
      except_ok_bind, ih fun r' hr' => hrecords r' (List.mem_cons_of_mem r hr')]
    cases rd.parseFile env stack tail with
    | error err => rfl
    | ok p => simp [except_ok_bind]

end FileReader

end IndexChain.Notary
