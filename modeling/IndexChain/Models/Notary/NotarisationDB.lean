import IndexChain.Core.Batch
import IndexChain.Models.CC.Contract
import Mathlib.Data.List.TakeWhile

/-!
# The notarisation database

`notarisationdb.cpp` with `NotarisationData` of `cc/eval.h`, and the two functions of
`main.cpp` that record the notarisations of a block and delete them again. A block's
list is stored under its hash and each notarisation of it under its KMD txid, in one
key space. Recording overwrites what a key held and deleting erases it, so the
database comes back only where nothing was overwritten
(`disconnect_connect_restores_iff`).
-/

namespace IndexChain.Notary

open IndexChain.Core

/-! ## Notarisation data -/

/-- The C string of a `char symbol[64]`. -/
structure CSymbol where
  /-- The characters, less the terminator. -/
  chars : List UInt8
  /-- The terminator comes first, and fits. -/
  terminated : chars.length < 64 ∧ 0 ∉ chars
  deriving DecidableEq

namespace CSymbol

/-- `symbol[0] = 0`. -/
def empty : CSymbol := ⟨[], Nat.succ_pos 63, List.not_mem_nil⟩

theorem terminated_takeWhile {bs : List UInt8}
    (h : ((bs.take 64).takeWhile (· != 0)).length < (bs.take 64).length) :
    ((bs.take 64).takeWhile (· != 0)).length < 64 ∧ 0 ∉ (bs.take 64).takeWhile (· != 0) := by
  constructor
  · exact h.trans_le (List.length_take_le 64 bs)
  · intro hmem
    exact absurd (List.mem_takeWhile_imp hmem) (by decide)

/-- `SerSymbol`: the bytes up to a terminator among the next 64. -/
def read : Reader CSymbol := fun bs =>
  if h : ((bs.take 64).takeWhile (· != 0)).length < (bs.take 64).length then
    some (⟨(bs.take 64).takeWhile (· != 0), terminated_takeWhile h⟩,
      bs.drop (((bs.take 64).takeWhile (· != 0)).length + 1))
  else none

/-- A symbol is written with its terminator. -/
def write (symbol : CSymbol) : List UInt8 := symbol.chars ++ [0]

theorem takeWhile_write (symbol : CSymbol) (rest : List UInt8) :
    ((symbol.write ++ rest).take 64).takeWhile (· != 0) = symbol.chars := by
  obtain ⟨s, hlen, hzero⟩ := symbol
  have hall : ∀ b ∈ s, (b != 0) = true := by
    intro b hb
    rw [bne_iff_ne]
    rintro rfl
    exact hzero hb
  have htake : (write ⟨s, hlen, hzero⟩ ++ rest).take 64 = s ++ 0 :: rest.take (63 - s.length) := by
    unfold write
    rw [List.append_assoc, List.take_append, List.take_of_length_le hlen.le]
    obtain ⟨n, hn⟩ : ∃ n, 64 - s.length = n + 1 := ⟨63 - s.length, by omega⟩
    have hn' : 63 - s.length = n := by omega
    rw [hn, hn', List.singleton_append, List.take_succ_cons]
  rw [htake, List.takeWhile_append_of_pos hall, List.takeWhile_cons_of_neg (by decide),
    List.append_nil]

/-- A symbol reads back. -/
theorem reads (symbol : CSymbol) : Reader.Reads read symbol.write symbol := by
  intro rest
  have htake := takeWhile_write symbol rest
  have hlt : (((symbol.write ++ rest).take 64).takeWhile (· != 0)).length <
      ((symbol.write ++ rest).take 64).length := by
    rw [htake, List.length_take]
    have hlen := symbol.terminated.1
    simp only [write, List.length_append, List.length_singleton]
    omega
  unfold read
  rw [dif_pos hlt, Option.some.injEq, Prod.mk.injEq, CSymbol.mk.injEq, htake]
  refine ⟨rfl, ?_⟩
  have hdrop : symbol.chars.length + 1 = symbol.write.length := by simp [write]
  rw [hdrop, List.drop_left]

end CSymbol

/-- `NotarisationData`, the payload of a notarisation. -/
structure NotarisationData where
  /-- The notarised block. -/
  blockHash : Uint256 := 0
  /-- Its height. -/
  height : UInt32 := 0
  /-- The KMD txid of a back notarisation. -/
  txHash : Uint256 := 0
  /-- The chain that is notarised. -/
  symbol : CSymbol := CSymbol.empty
  /-- The Merkle root over the notarised blocks. -/
  MoM : Uint256 := 0
  /-- The number of blocks under it. -/
  MoMDepth : UInt16 := 0
  /-- The cross-chain id. -/
  ccId : UInt16 := 0
  /-- The Merkle root over the roots. -/
  MoMoM : Uint256 := 0
  /-- The number of roots under it. -/
  MoMoMDepth : UInt32 := 0
  deriving DecidableEq

namespace NotarisationData

/-- `"BTC"` with its terminator. -/
def btc : List UInt8 := [0x42, 0x54, 0x43, 0]

/-- `"KMD"` with its terminator. -/
def kmd : List UInt8 := [0x4b, 0x4d, 0x44, 0]

/-- `DetectBackNotarisation` of a reader: an assetchain has back notarisations only, and
KMD looks for a symbol where it stands behind a txid. -/
def detectBack (acSymbol : Bool) (s : List UInt8) : Bool :=
  acSymbol || (decide (72 ≤ s.length) &&
    ((s.drop 68).take 4 == btc || (s.drop 68).take 4 == kmd))

/-- The txid, which only a back notarisation has. -/
def readTxHash (isBack : Bool) : Reader Uint256 :=
  if isBack then readUint256 else return 0

/-- The root over the roots, which only a back notarisation has. -/
def readMoMoM (isBack : Bool) (data : NotarisationData) : Reader NotarisationData := do
  let done ← Reader.eof
  if done || !isBack then return data
  else do
    let MoMoM ← readUint256
    let MoMoMDepth ← Reader.nat 4
    return { data with MoMoM := MoMoM, MoMoMDepth := UInt32.ofNat MoMoMDepth }

/-- The fields behind the symbol; the stream may end there. -/
def readMoM (isBack : Bool) (data : NotarisationData) : Reader NotarisationData := do
  let done ← Reader.eof
  if done then return data
  else do
    let MoM ← readUint256
    let MoMDepth ← Reader.nat 2
    let ccId ← Reader.nat 2
    readMoMoM isBack
      { data with MoM := MoM, MoMDepth := UInt16.ofNat MoMDepth, ccId := UInt16.ofNat ccId }

/-- `SerializationOp` once it is known whether the notarisation is a back notarisation. -/
def readAs (isBack : Bool) : Reader NotarisationData := do
  let blockHash ← readUint256
  let height ← Reader.nat 4
  let txHash ← readTxHash isBack
  let symbol ← CSymbol.read
  readMoM isBack
    { blockHash := blockHash, height := UInt32.ofNat height, txHash := txHash, symbol := symbol }

/-- `SerializationOp` of a reader. -/
def read (acSymbol : Bool) : Reader NotarisationData := fun s =>
  readAs (detectBack acSymbol s) s

/-- Whether a writer takes the notarisation for a back notarisation. -/
def isBack (data : NotarisationData) : Bool := data.txHash != 0

/-- `SerializationOp` of a writer. -/
def write (data : NotarisationData) : List UInt8 :=
  leBytes 32 data.blockHash.toNat ++ (leBytes 4 data.height.toNat ++
    ((if data.isBack then leBytes 32 data.txHash.toNat else []) ++ (data.symbol.write ++
      (leBytes 32 data.MoM.toNat ++ (leBytes 2 data.MoMDepth.toNat ++ (leBytes 2 data.ccId.toNat ++
        (if data.isBack then leBytes 32 data.MoMoM.toNat ++ leBytes 4 data.MoMoMDepth.toNat
          else [])))))))

/-- The reader takes the notarisation for what the writer took it for, and the writer
drops nothing. -/
def SelfDescribing (acSymbol : Bool) (data : NotarisationData) : Prop :=
  detectBack acSymbol data.write = data.isBack ∧
    (data.isBack = false → data.MoMoM = 0 ∧ data.MoMoMDepth = 0)

variable {acSymbol : Bool} {data : NotarisationData}

/-- What is looked at to detect a back notarisation is part of it. -/
theorem detectBack_append (rest : List UInt8) :
    detectBack acSymbol (data.write ++ rest) = detectBack acSymbol data.write := by
  have hlen : 72 ≤ data.write.length := by
    simp only [write, CSymbol.write, List.length_append, leBytes_length, List.length_singleton]
    omega
  have hlen' : 72 ≤ (data.write ++ rest).length := by
    rw [List.length_append]
    omega
  have htake : ((data.write ++ rest).drop 68).take 4 = (data.write.drop 68).take 4 := by
    rw [List.drop_append_of_le_length (by omega), List.take_append_of_le_length]
    rw [List.length_drop]
    omega
  unfold detectBack
  rw [htake, decide_eq_true hlen, decide_eq_true hlen']

/-- A reader that looks for the end goes on when something follows. -/
theorem reads_of_not_eof {α : Type} {k : Bool → Reader α} {b : UInt8} {bs : List UInt8} {a : α}
    (h : Reader.Reads (k false) (b :: bs) a) : Reader.Reads (Reader.eof >>= k) (b :: bs) a :=
  h

theorem reads_uint256 (x : Uint256) : Reader.Reads readUint256 (leBytes 32 x.toNat) x :=
  readUint256_append x

theorem reads_uint16 (x : UInt16) : Reader.Reads (Reader.nat 2) (leBytes 2 x.toNat) x.toNat :=
  Reader.Reads.nat x.toNat_lt

theorem reads_uint32 (x : UInt32) : Reader.Reads (Reader.nat 4) (leBytes 4 x.toNat) x.toNat :=
  Reader.Reads.nat x.toNat_lt

theorem reads_txHash (data : NotarisationData) : Reader.Reads (readTxHash data.isBack)
    (if data.isBack then leBytes 32 data.txHash.toNat else []) data.txHash := by
  unfold readTxHash
  cases h : data.isBack with
  | true =>
    rw [if_pos rfl, if_pos rfl]
    exact reads_uint256 data.txHash
  | false =>
    have hzero : data.txHash = 0 := by simpa [isBack] using h
    rw [if_neg Bool.false_ne_true, if_neg Bool.false_ne_true, hzero]
    exact Reader.Reads.pure 0

theorem reads_MoMoM (data : NotarisationData)
    (h : data.isBack = false → data.MoMoM = 0 ∧ data.MoMoMDepth = 0) :
    Reader.Reads (readMoMoM data.isBack { data with MoMoM := 0, MoMoMDepth := 0 })
      (if data.isBack then leBytes 32 data.MoMoM.toNat ++ leBytes 4 data.MoMoMDepth.toNat else [])
      data := by
  unfold readMoMoM
  cases hback : data.isBack with
  | true =>
    rw [if_pos rfl]
    refine reads_of_not_eof ?_
    refine (reads_uint256 data.MoMoM).bind ?_
    refine Reader.Reads.bind_pure (reads_uint32 data.MoMoMDepth) ?_
    rw [UInt32.ofNat_toNat]
    exact Reader.Reads.pure data
  | false =>
    obtain ⟨hMoMoM, hdepth⟩ := h hback
    have hdata : { data with MoMoM := 0, MoMoMDepth := 0 } = data := by
      rw [← hMoMoM, ← hdepth]
    rw [if_neg Bool.false_ne_true, hdata]
    intro rest
    cases rest <;> rfl

theorem reads_MoM (data : NotarisationData)
    (h : data.isBack = false → data.MoMoM = 0 ∧ data.MoMoMDepth = 0) :
    Reader.Reads
      (readMoM data.isBack
        { data with MoM := 0, MoMDepth := 0, ccId := 0, MoMoM := 0, MoMoMDepth := 0 })
      (leBytes 32 data.MoM.toNat ++ (leBytes 2 data.MoMDepth.toNat ++ (leBytes 2 data.ccId.toNat ++
        (if data.isBack then leBytes 32 data.MoMoM.toNat ++ leBytes 4 data.MoMoMDepth.toNat
          else [])))) data := by
  unfold readMoM
  refine reads_of_not_eof ?_
  refine (reads_uint256 data.MoM).bind ?_
  refine (reads_uint16 data.MoMDepth).bind ?_
  refine (reads_uint16 data.ccId).bind ?_
  rw [UInt16.ofNat_toNat, UInt16.ofNat_toNat]
  exact reads_MoMoM data h

theorem reads_as (data : NotarisationData)
    (h : data.isBack = false → data.MoMoM = 0 ∧ data.MoMoMDepth = 0) :
    Reader.Reads (readAs data.isBack) data.write data := by
  unfold readAs write
  refine (reads_uint256 data.blockHash).bind ?_
  refine (reads_uint32 data.height).bind ?_
  refine (reads_txHash data).bind ?_
  refine data.symbol.reads.bind ?_
  rw [UInt32.ofNat_toNat]
  exact reads_MoM data h

/-- A notarisation that describes itself reads back, whatever follows. -/
theorem reads (h : SelfDescribing acSymbol data) :
    Reader.Reads (read acSymbol) data.write data := by
  intro rest
  unfold read
  rw [detectBack_append, h.1, reads_as data h.2]

end NotarisationData

/-! ## The database -/

/-- A notarisation with the id of its transaction. -/
abbrev Notarisation := Uint256 × NotarisationData

/-- `NotarisationsInBlock`. -/
abbrev NotarisationsInBlock := List Notarisation

/-- `NotarisationDB`: the stored bytes under each hash. -/
abbrev NotarisationDB := Store Uint256 (List UInt8)

namespace Notarisation

/-- The bytes of a notarisation. -/
def write (n : Notarisation) : List UInt8 := leBytes 32 n.1.toNat ++ n.2.write

/-- Read a notarisation. -/
def read (acSymbol : Bool) : Reader Notarisation := do
  let txid ← readUint256
  let data ← NotarisationData.read acSymbol
  return (txid, data)

theorem reads {acSymbol : Bool} {n : Notarisation} (h : n.2.SelfDescribing acSymbol) :
    Reader.Reads (read acSymbol) (write n) n :=
  (NotarisationData.reads_uint256 n.1).bind
    ((NotarisationData.reads h).bind_pure (Reader.Reads.pure n))

end Notarisation

namespace NotarisationsInBlock

/-- The KMD txids under which `WriteBackNotarisations` files a list. -/
def backKeys (nibs : NotarisationsInBlock) : List Uint256 :=
  (nibs.map fun n => n.2.txHash).filter (· != 0)

/-- `WriteBackNotarisations`. -/
def writeBack (nibs : NotarisationsInBlock) : Batch Uint256 (List UInt8) :=
  nibs.filterMap fun n =>
    if n.2.txHash = 0 then none else some (n.2.txHash, some (Notarisation.write n))

/-- `EraseBackNotarisations`. -/
def eraseBack (nibs : NotarisationsInBlock) : Batch Uint256 (List UInt8) :=
  nibs.backKeys.map fun k => (k, none)

/-- Read a list. -/
def read (acSymbol : Bool) (value : List UInt8) : Option NotarisationsInBlock :=
  ((Reader.vectorOf (Notarisation.read acSymbol)) value).map Prod.fst

/-- Filing a list writes exactly its KMD txids. -/
theorem writeBack_keys (nibs : NotarisationsInBlock) :
    nibs.writeBack.map Prod.fst = nibs.backKeys := by
  unfold writeBack backKeys
  induction nibs with
  | nil => rfl
  | cons n nibs ih =>
    by_cases h : n.2.txHash = 0
    · rw [List.filterMap_cons_none (by rw [if_pos h]), ih, List.map_cons,
        List.filter_cons_of_neg (by simp [h])]
    · have hne : (n.2.txHash != 0) = true := bne_iff_ne.2 h
      rw [List.filterMap_cons_some (by rw [if_neg h]), List.map_cons, ih, List.map_cons,
        List.filter_cons, if_pos hne]

/-- A list of self-describing notarisations reads back. -/
theorem read_write {acSymbol : Bool} {nibs : NotarisationsInBlock}
    (hlen : nibs.length ≤ 0x02000000) (h : ∀ n ∈ nibs, n.2.SelfDescribing acSymbol) :
    read acSymbol (writeVector Notarisation.write nibs) = some nibs := by
  have hreads := Reader.Reads.vectorOf hlen fun n hn => Notarisation.reads (h n hn)
  unfold read
  rw [← List.append_nil (writeVector Notarisation.write nibs), hreads []]
  rfl

end NotarisationsInBlock

/-- Who vouches for the notarisations of a chain. -/
inductive CrosschainAuthority where
  | txscl
  | staked
  | komodo
  deriving DecidableEq, Repr

/-- What recording notarisations reads of the node. -/
structure NotarisationEnv where
  /-- `ASSETCHAINS_SYMBOL[0] != 0`. -/
  acSymbol : Bool
  /-- `is_STAKED(symbol) != 0`. -/
  isStaked : List UInt8 → Bool
  /-- `CheckNotaryInputs` at a height and a time. -/
  checkNotaryInputs : CTransaction → Int → Nat → Bool
  /-- `STAKED_era` of a time; zero in a gap. -/
  stakedEra : Nat → Nat
  /-- `CheckTxAuthority` with the notaries of an era. -/
  checkTxAuthority : CTransaction → Nat → Bool

namespace NotarisationEnv

variable (env : NotarisationEnv)

/-- `GetSymbolAuthority`; the symbol is compared with `TXSCL`. -/
def getSymbolAuthority (symbol : CSymbol) : CrosschainAuthority :=
  if symbol.chars.take 5 = [0x54, 0x58, 0x53, 0x43, 0x4c] then .txscl
  else if env.isStaked symbol.chars then .staked else .komodo

/-- `ParseNotarisationOpReturn`. -/
def parseNotarisationOpReturn (tx : CTransaction) : Option NotarisationData :=
  match tx.vout[1]? with
  | none => none
  | some out => match CScript.opReturnData out.scriptPubKey with
    | (true, vdata) => Reader.unmarshal (NotarisationData.read env.acSymbol) vdata
    | (false, _) => none

/-- The notaries of the chain have signed. -/
def authorised (tx : CTransaction) (nTime : Nat) (nHeight : Int) (symbol : CSymbol) : Bool :=
  match env.getSymbolAuthority symbol with
  | .txscl => true
  | .staked => env.stakedEra nTime != 0 && env.checkTxAuthority tx (env.stakedEra nTime)
  | .komodo => env.checkNotaryInputs tx nHeight nTime

/-- `ScanBlockNotarisations`. -/
def scanBlockNotarisations (block : CBlock) (nHeight : Int) : NotarisationsInBlock :=
  block.vtx.filterMap fun tx => match env.parseNotarisationOpReturn tx with
    | none => none
    | some data =>
      if data.symbol = CSymbol.empty then none
      else if env.authorised tx block.nTime nHeight data.symbol then some (tx.hash, data)
      else none

/-- `GetBlockNotarisations`. -/
def getBlockNotarisations (db : NotarisationDB) (blockHash : Uint256) :
    Option NotarisationsInBlock :=
  (db blockHash).bind (NotarisationsInBlock.read env.acSymbol)

/-- `GetBackNotarisation`. -/
def getBackNotarisation (db : NotarisationDB) (notarisationHash : Uint256) :
    Option Notarisation :=
  (db notarisationHash).bind fun value => (Notarisation.read env.acSymbol value).map Prod.fst

/-- The batch of `ConnectNotarisations`; a block without notarisations writes none. -/
def connectBatch (block : CBlock) (height : Int) : Batch Uint256 (List UInt8) :=
  let notarisations := env.scanBlockNotarisations block height
  if notarisations.isEmpty then []
  else (block.hash, some (writeVector Notarisation.write notarisations)) :: notarisations.writeBack

/-- `ConnectNotarisations`. -/
def connectNotarisations (block : CBlock) (height : Int) (db : NotarisationDB) : NotarisationDB :=
  db.writeBatch (env.connectBatch block height)

/-- `DisconnectNotarisations`. -/
def disconnectNotarisations (block : CBlock) (db : NotarisationDB) : NotarisationDB :=
  match env.getBlockNotarisations db block.hash with
  | none => db
  | some nibs => db.writeBatch ((block.hash, none) :: nibs.eraseBack)

/-! ## What disconnecting gives back -/

/-- What the database answers for a key, as a list and as a notarisation. -/
def answers (db : NotarisationDB) (k : Uint256) :
    Option NotarisationsInBlock × Option Notarisation :=
  (env.getBlockNotarisations db k, env.getBackNotarisation db k)

/-- Two databases give the same answers. -/
def SameAnswers (db db' : NotarisationDB) : Prop :=
  ∀ k, env.answers db k = env.answers db' k

/-- The keys that are erased for a list stored under a hash. -/
def erasedKeys (h : Uint256) : Option NotarisationsInBlock → List Uint256
  | none => []
  | some nibs => h :: nibs.backKeys

/-- The list that stands under the hash of a block when it is disconnected: what was
there if the block writes nothing, else what it wrote there, as it reads back. -/
def storedList (block : CBlock) (height : Int) (db : NotarisationDB) :
    Option NotarisationsInBlock :=
  env.getBlockNotarisations
    (Store.writeBatch (fun _ => db block.hash) (env.connectBatch block height)) block.hash

/-- What is erased answered nothing before, and what is written and not erased changed
no answer. -/
structure Restorable (block : CBlock) (height : Int) (db : NotarisationDB) : Prop where
  /-- The erased keys were free. -/
  free : ∀ k ∈ erasedKeys block.hash (env.storedList block height db),
    env.answers db k = (none, none)
  /-- The other written keys answered the same. -/
  same : ∀ k ∈ (env.connectBatch block height).map Prod.fst,
    k ∉ erasedKeys block.hash (env.storedList block height db) →
    env.answers db k = env.answers (Store.writeBatch (fun _ => none)
      (env.connectBatch block height)) k

variable {env} {block : CBlock} {height : Int} {db db' : NotarisationDB} {k : Uint256}

/-- Answers depend on the value under the key only. -/
theorem answers_congr (h : db k = db' k) : env.answers db k = env.answers db' k := by
  unfold answers getBlockNotarisations getBackNotarisation
  rw [h]

theorem answers_none (h : db k = none) : env.answers db k = (none, none) := by
  unfold answers getBlockNotarisations getBackNotarisation
  rw [h]
  rfl

/-- What is under the hash of the block when it is disconnected. -/
theorem connectNotarisations_hash : env.connectNotarisations block height db block.hash =
    Store.writeBatch (fun _ => db block.hash) (env.connectBatch block height) block.hash := by
  unfold connectNotarisations
  by_cases hmem : block.hash ∈ (env.connectBatch block height).map Prod.fst
  · exact Store.writeBatch_congr hmem _ _
  · rw [Store.writeBatch_of_notMem hmem, Store.writeBatch_of_notMem hmem]

/-- Disconnecting erases keys and leaves the rest. -/
theorem disconnectNotarisations_apply : env.disconnectNotarisations block db k =
    if k ∈ erasedKeys block.hash (env.getBlockNotarisations db block.hash) then none
    else db k := by
  unfold disconnectNotarisations
  cases env.getBlockNotarisations db block.hash with
  | none => rfl
  | some nibs => exact Store.writeBatch_erase db (block.hash :: nibs.backKeys) k

theorem disconnect_connect_apply :
    env.disconnectNotarisations block (env.connectNotarisations block height db) k =
      if k ∈ erasedKeys block.hash (env.storedList block height db) then none
      else env.connectNotarisations block height db k := by
  have hlist : env.getBlockNotarisations (env.connectNotarisations block height db) block.hash =
      env.storedList block height db := by
    unfold storedList getBlockNotarisations
    rw [connectNotarisations_hash]
  rw [disconnectNotarisations_apply, hlist]

/-- Every answer is restored when no key is lost. -/
theorem sameAnswers_iff_restorable :
    env.SameAnswers (env.disconnectNotarisations block (env.connectNotarisations block height db))
      db ↔ env.Restorable block height db := by
  constructor
  · intro h
    constructor
    · intro k hk
      rw [← h k]
      apply answers_none
      rw [disconnect_connect_apply, if_pos hk]
    · intro k hk herased
      rw [← h k]
      apply answers_congr
      rw [disconnect_connect_apply, if_neg herased]
      exact Store.writeBatch_congr hk _ _
  · intro h k
    by_cases hk : k ∈ erasedKeys block.hash (env.storedList block height db)
    · rw [h.free k hk]
      apply answers_none
      rw [disconnect_connect_apply, if_pos hk]
    · by_cases hmem : k ∈ (env.connectBatch block height).map Prod.fst
      · rw [h.same k hmem hk]
        apply answers_congr
        rw [disconnect_connect_apply, if_neg hk]
        exact Store.writeBatch_congr hmem _ _
      · apply answers_congr
        rw [disconnect_connect_apply, if_neg hk]
        exact Store.writeBatch_of_notMem hmem

/-- Without notarisations, all that matters is a list stored under the hash. -/
theorem restorable_iff_of_isEmpty (hempty : env.scanBlockNotarisations block height = []) :
    env.Restorable block height db ↔ env.getBlockNotarisations db block.hash = none := by
  have hbatch : env.connectBatch block height = [] := by
    unfold connectBatch
    rw [hempty]
    rfl
  have hlist : env.storedList block height db = env.getBlockNotarisations db block.hash := by
    unfold storedList
    rw [hbatch]
    rfl
  constructor
  · intro h
    cases hget : env.getBlockNotarisations db block.hash with
    | none => rfl
    | some nibs =>
      have hfree := h.free block.hash (by rw [hlist, hget]; exact List.mem_cons_self)
      exact hget.symm.trans (congrArg Prod.fst hfree)
  · intro h
    constructor
    · intro k hk
      rw [hlist, h] at hk
      cases hk
    · intro k hk
      rw [hbatch] at hk
      cases hk

/-- A list that reads back is erased as it was written: the keys have to be free. -/
theorem restorable_iff_of_selfDescribing (hne : env.scanBlockNotarisations block height ≠ [])
    (hlen : (env.scanBlockNotarisations block height).length ≤ 0x02000000)
    (hself : ∀ n ∈ env.scanBlockNotarisations block height, n.2.SelfDescribing env.acSymbol)
    (hhash : block.hash ∉ (env.scanBlockNotarisations block height).backKeys) :
    env.Restorable block height db ↔
      ∀ k ∈ block.hash :: (env.scanBlockNotarisations block height).backKeys,
        env.answers db k = (none, none) := by
  have hbatch : env.connectBatch block height =
      (block.hash, some (writeVector Notarisation.write (env.scanBlockNotarisations block height)))
        :: (env.scanBlockNotarisations block height).writeBack := by
    unfold connectBatch
    exact if_neg (by rw [List.isEmpty_iff]; exact hne)
  have hkeys : (env.connectBatch block height).map Prod.fst =
      block.hash :: (env.scanBlockNotarisations block height).backKeys := by
    rw [hbatch, List.map_cons, NotarisationsInBlock.writeBack_keys]
  have hlist : env.storedList block height db =
      some (env.scanBlockNotarisations block height) := by
    unfold storedList getBlockNotarisations
    rw [hbatch, Store.writeBatch_cons, Store.writeBatch_of_notMem, Function.update_self]
    · exact NotarisationsInBlock.read_write hlen hself
    · rw [NotarisationsInBlock.writeBack_keys]
      exact hhash
  constructor
  · intro h k hk
    exact h.free k (by rw [hlist]; exact hk)
  · intro h
    constructor
    · intro k hk
      rw [hlist] at hk
      exact h k hk
    · intro k hk herased
      rw [hkeys] at hk
      rw [hlist] at herased
      exact absurd hk herased

/-- Disconnecting a block right after connecting it restores every answer of the
database exactly when the keys that it erases were free before and the written keys that
it does not erase answered the same. -/
theorem disconnect_connect_restores_iff (env : NotarisationEnv) (block : CBlock) (height : Int)
    (db : NotarisationDB) :
    env.SameAnswers (env.disconnectNotarisations block (env.connectNotarisations block height db))
      db ↔ env.Restorable block height db :=
  sameAnswers_iff_restorable

end NotarisationEnv

namespace Overwritten

/-- A chain without oracles: `TXSCL` chains vouch for themselves. -/
def env : NotarisationEnv where
  acSymbol := true
  isStaked := fun _ => false
  checkNotaryInputs := fun _ _ _ => false
  stakedEra := fun _ => 0
  checkTxAuthority := fun _ _ => false

/-- A notarisation with KMD txid 7 of the chain `TXSCL`. -/
def payload : List UInt8 :=
  leBytes 32 3 ++ leBytes 4 10 ++ leBytes 32 7 ++ [0x54, 0x58, 0x53, 0x43, 0x4c, 0]

/-- The transaction that carries it. -/
def notarisationTx : CTransaction :=
  { hash := 21
    vout := [{ nValue := 1000, scriptPubKey := [] },
      { nValue := 0, scriptPubKey := 0x6a :: CScript.pushBytes payload }] }

/-- The block with the transaction. -/
def block : CBlock :=
  { hash := 22, hashFinalSaplingRoot := 0, nTime := 1600000000, vtx := [notarisationTx] }

/-- An earlier notarisation of the same KMD txid. -/
def earlier : Notarisation :=
  (20, { blockHash := 2, height := 9, txHash := 7, symbol := ⟨[0x54, 0x58, 0x53, 0x43, 0x4c],
    by decide⟩ })

/-- The database with the earlier notarisation filed under its KMD txid. -/
def db : NotarisationDB :=
  Store.writeBatch (fun _ => none) [(7, some (Notarisation.write earlier))]

theorem answer_erased : env.getBackNotarisation db 7 = some earlier ∧
    env.getBackNotarisation (env.disconnectNotarisations block
      (env.connectNotarisations block 11 db)) 7 = none := by
  decide +kernel

/-- Connecting and disconnecting a block erases what an earlier block filed under the same
KMD txid. -/
theorem not_sameAnswers : ¬ env.SameAnswers
    (env.disconnectNotarisations block (env.connectNotarisations block 11 db)) db := by
  intro h
  have hback := h 7
  unfold NotarisationEnv.answers at hback
  rw [Prod.mk.injEq, answer_erased.1, answer_erased.2] at hback
  cases hback.2

end Overwritten

end IndexChain.Notary
