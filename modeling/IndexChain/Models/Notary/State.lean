import IndexChain.Models.Notary.Kv

/-!
# The notarisation state

The part of `komodo_state` that notarisations change, its event log and state file,
the key-value store, and `komodo_stateupdate`, through which every other change is
made. What an op_return, a ratification or a price feed does elsewhere (the assets,
the elected notaries, the prices) is a change of a state `W` that the notarisation
code does not read.
-/

namespace IndexChain.Notary

/-- A notarised checkpoint. -/
structure NotarizedCheckpoint where
  /-- The height of the block with the notarisation. -/
  nHeight : Int
  /-- The height that was notarised. -/
  notarizedHeight : Int
  /-- The block that was notarised. -/
  notarizedHash : Uint256
  /-- The transaction on the destination chain. -/
  notarizedDesttxid : Uint256
  /-- The Merkle root over the block roots. -/
  MoM : Uint256
  /-- The number of blocks under the root, and the chain id. -/
  MoMdepth : Int
  deriving DecidableEq, Repr

/-- What an event records. -/
inductive KomodoEventData where
  | kmdheight (kmdheight : Int) (timestamp : Nat)
  | rewind
  | opreturn (txid : Uint256) (value : Nat) (vout : Nat) (opret : List UInt8)
  | pubkeys (pubkeys : List (Vector UInt8 33))
  | pricefeed (prices : List UInt32)
  | notarized (np : NotarizedCheckpoint)
  deriving DecidableEq, Repr

/-- An entry of the event log. -/
structure KomodoEvent where
  /-- The height of the block it belongs to. -/
  height : Int
  /-- What it records. -/
  data : KomodoEventData
  deriving DecidableEq, Repr

/-- A record of the state file. -/
inductive StateRecord where
  | T (height kmdheight : Int) (timestamp : Nat)
  | K (height kmdheight : Int)
  | R (height : Int) (txid : Uint256) (vout value : Nat) (opret : List UInt8)
  | P (height : Int) (pubkeys : List (Vector UInt8 33))
  | U (height : Int) (numvouts notaryid : Nat) (voutmask : BitVec 64) (txid : Uint256)
  | V (height : Int) (pvals : List UInt32)
  | N (height notarizedHeight : Int) (notarizedHash notarizedDesttxid : Uint256)
  | M (height notarizedHeight : Int) (notarizedHash notarizedDesttxid MoM : Uint256)
      (MoMdepth : Int)
  deriving DecidableEq, Repr

/-- The state of the chain's notarisations. -/
structure KomodoState (W : Type) where
  /-- The last notarised height. -/
  notarizedHeight : Int := 0
  /-- The last notarised block. -/
  notarizedHash : Uint256 := 0
  /-- Its transaction on the destination chain. -/
  notarizedDesttxid : Uint256 := 0
  /-- The last Merkle root over the block roots. -/
  MoM : Uint256 := 0
  /-- Its depth. -/
  MoMdepth : Int := 0
  /-- The last height written to the log. -/
  savedHeight : Int := 0
  /-- The time of that height. -/
  savedTimestamp : Nat := 0
  /-- The highest height written to the log. -/
  currentHeight : Int := 0
  /-- The checkpoints, oldest first. -/
  npoints : List NotarizedCheckpoint := []
  /-- The event log, newest first. -/
  events : List KomodoEvent := []
  /-- The state file, oldest record first. -/
  stateFile : List StateRecord := []
  /-- The key-value store. -/
  kv : KvStore := fun _ => none
  /-- Everything else. -/
  world : W

/-- What the events do outside the notarisation state. -/
structure KomodoEffects (W : Type) where
  /-- `komodo_opreturn`, for all but updates of the key-value store. -/
  opreturn : (height : Int) → (value : Nat) → (opretbuf : ScriptBuf) → (opretlen : Nat) →
    (txid : Uint256) → (vout : Nat) → W → W
  /-- `komodo_notarysinit`. -/
  notarysinit : (height : Int) → List (Vector UInt8 33) → W → W
  /-- `komodo_pvals`. -/
  pvals : (height : Int) → List UInt32 → W → W

/-- What the notarisation code reads besides the block and the state. -/
structure KomodoEnv (W : Type) extends KvEnv where
  /-- A symbol is a C string. -/
  symbol_no_nul : 0 ∉ assetchainsSymbol
  /-- Whether this is the regression test network. -/
  regtest : Bool
  /-- `is_STAKED(ASSETCHAINS_SYMBOL)`. -/
  isStaked : Nat
  /-- `STAKED_era`. -/
  stakedEra : Nat → Nat
  /-- Whether `ASSETCHAINS_NOTARY_PAY` is set. -/
  notaryPay : Bool
  /-- `komodo_verifynotarization` lets a checkpoint pass, or the node is no notary. -/
  verifynotarization : NotarizedCheckpoint → Bool
  /-- `komodo_validate_chain`. -/
  validateChain : Uint256 → Int → Bool
  /-- `komodo_chosennotary`: the result and the notary id. -/
  chosennotary : (height : Int) → List UInt8 → (timestamp : Nat) → Int × Int
  /-- `calc_rmd160_sha256`. -/
  calcRmd160Sha256 : Vector UInt8 33 → Vector UInt8 20
  /-- `GetTransaction`. -/
  getTransaction : Uint256 → Option CTransaction
  /-- What the array for the prices of a feed holds before it is written. -/
  stackPvals : Nat → UInt32
  /-- The effects outside the notarisation state. -/
  effects : KomodoEffects W

namespace KomodoEnv

variable {W : Type} (env : KomodoEnv W)

/-- `komodo_eventadd`: only asset chains keep the log. -/
def eventadd (height : Int) (data : KomodoEventData) (sp : KomodoState W) : KomodoState W :=
  if env.assetchainsSymbol = [] then sp
  else { sp with events := { height := height, data := data } :: sp.events }

/-- `komodo_notarized_update`. -/
def notarizedUpdate (np : NotarizedCheckpoint) (sp : KomodoState W) : KomodoState W :=
  if np.nHeight ≤ np.notarizedHeight then sp
  else { sp with npoints := sp.npoints ++ [np]
                 notarizedHeight := np.notarizedHeight
                 notarizedHash := np.notarizedHash
                 notarizedDesttxid := np.notarizedDesttxid
                 MoM := np.MoM
                 MoMdepth := np.MoMdepth }

/-- `komodo_eventadd_notarized`. -/
def eventaddNotarized (np : NotarizedCheckpoint) (sp : KomodoState W) : KomodoState W :=
  if env.verifynotarization np then
    notarizedUpdate np (env.eventadd np.nHeight (.notarized np) sp)
  else sp

/-- `komodo_opreturn`: an op_return that starts with `K` updates the key-value store. -/
def opreturn (height : Int) (value : Nat) (opretbuf : ScriptBuf) (opretlen : Nat) (txid : Uint256)
    (vout : Nat) (sp : KomodoState W) : KomodoState W :=
  if opretbuf 0 = 0x4b ∧ opretlen ≠ 40 then
    { sp with kv := env.kvupdate { buf := opretbuf, opretlen := opretlen } value sp.kv }
  else
    { sp with world := env.effects.opreturn height value opretbuf opretlen txid vout sp.world }

/-- `komodo_eventadd_opreturn`. -/
def eventaddOpreturn (height : Int) (txid : Uint256) (value vout : Nat) (opretbuf : ScriptBuf)
    (opretlen : Nat) (sp : KomodoState W) : KomodoState W :=
  if env.assetchainsSymbol = [] then sp
  else env.opreturn height value opretbuf opretlen txid vout
    (env.eventadd height (.opreturn txid value vout (opretbuf.slice 0 opretlen)) sp)

/-- `komodo_event_undo` for one entry of the log: only the saved height goes back. -/
def eventUndo (ep : KomodoEvent) (savedHeight : Int) : Int :=
  match ep.data with
  | .kmdheight _ _ => if ep.height ≤ savedHeight then ep.height else savedHeight
  | _ => savedHeight

/-- The loop of `komodo_event_rewind`. -/
def rewindEvents (height : Int) : List KomodoEvent → Int → List KomodoEvent × Int
  | [], savedHeight => ([], savedHeight)
  | ep :: rest, savedHeight =>
    if ep.height < height then (ep :: rest, savedHeight)
    else rewindEvents height rest (eventUndo ep savedHeight)

/-- `komodo_event_rewind`. -/
def eventRewind (height : Int) (sp : KomodoState W) : KomodoState W :=
  let r := rewindEvents height sp.events sp.savedHeight
  { sp with events := r.1, savedHeight := r.2 }

/-- `komodo_eventadd_kmdheight`; a height that is not positive asks for a rewind. -/
def eventaddKmdheight (height kmdheight : Int) (timestamp : Nat) (sp : KomodoState W) :
    KomodoState W :=
  if 0 < kmdheight then
    let sp := env.eventadd height (.kmdheight kmdheight timestamp) sp
    let sp := if sp.savedHeight < kmdheight then
      { sp with savedHeight := kmdheight, savedTimestamp := timestamp } else sp
    if sp.currentHeight < kmdheight then { sp with currentHeight := kmdheight } else sp
  else eventRewind height (env.eventadd height .rewind sp)

/-- The arguments of `komodo_stateupdate` with their null values. -/
structure StateUpdate where
  /-- The height of the block. -/
  height : Int
  /-- The new notaries of a ratification. -/
  notarypubs : List (Vector UInt8 33) := []
  /-- The transaction. -/
  txhash : Uint256 := 0
  /-- The outputs that pay notaries. -/
  voutmask : BitVec 64 := 0
  /-- The number of outputs. -/
  numvouts : Nat := 0
  /-- The notary that they pay. -/
  notaryid : Nat := 0
  /-- The prices of a price feed. -/
  pvals : List UInt32 := []
  /-- The height on the main chain, negated for a rewind. -/
  kmdheight : Int := 0
  /-- The time of that height. -/
  kmdtimestamp : Nat := 0
  /-- The value of the op_return output. -/
  opretvalue : Nat := 0
  /-- The address of the op_return. -/
  opretbuf : ScriptBuf := fun _ => 0
  /-- Its length, zero for none. -/
  opretlen : Nat := 0
  /-- The index of the op_return output. -/
  vout : Nat := 0

/-- The prices of an update are complete. -/
def StateUpdate.hasPrices (a : StateUpdate) : Bool :=
  decide (32 ≤ (a.pvals.take 32).countP (· != 0))

/-- What `komodo_stateupdate` appends to the state file. -/
def stateRecord (a : StateUpdate) (sp : KomodoState W) : Option StateRecord :=
  if a.height ≤ 0 then none
  else if a.kmdheight ≠ 0 then
    some (if a.kmdtimestamp ≠ 0 then .T a.height a.kmdheight a.kmdtimestamp
      else .K a.height a.kmdheight)
  else if 0 < a.opretlen then
    some (.R a.height a.txhash a.vout a.opretvalue (a.opretbuf.slice 0 a.opretlen))
  else if a.notarypubs ≠ [] then some (.P a.height a.notarypubs)
  else if a.voutmask ≠ 0 ∧ 0 < a.numvouts then
    some (.U a.height a.numvouts a.notaryid a.voutmask a.txhash)
  else if a.pvals ≠ [] then if a.hasPrices then some (.V a.height a.pvals) else none
  else if sp.MoMdepth ≠ 0 ∧ sp.MoM ≠ 0 then
    some (.M a.height sp.notarizedHeight sp.notarizedHash sp.notarizedDesttxid sp.MoM sp.MoMdepth)
  else some (.N a.height sp.notarizedHeight sp.notarizedHash sp.notarizedDesttxid)

/-- What `komodo_stateupdate` does besides. -/
def applyUpdate (a : StateUpdate) (sp : KomodoState W) : KomodoState W :=
  if a.height ≤ 0 then sp
  else if a.kmdheight ≠ 0 then env.eventaddKmdheight a.height a.kmdheight a.kmdtimestamp sp
  else if 0 < a.opretlen then
    env.eventaddOpreturn a.height a.txhash a.opretvalue a.vout a.opretbuf a.opretlen sp
  else if a.notarypubs ≠ [] then
    let sp := env.eventadd a.height (.pubkeys a.notarypubs) sp
    { sp with world := env.effects.notarysinit a.height a.notarypubs sp.world }
  else if a.voutmask ≠ 0 ∧ 0 < a.numvouts then sp
  else if a.pvals ≠ [] then
    if a.hasPrices = true ∧ a.pvals.length = 35 then
      let sp := env.eventadd a.height (.pricefeed a.pvals) sp
      { sp with world := env.effects.pvals a.height a.pvals sp.world }
    else sp
  else env.eventaddNotarized
    { nHeight := a.height, notarizedHeight := sp.notarizedHeight, notarizedHash := sp.notarizedHash
      notarizedDesttxid := sp.notarizedDesttxid, MoM := sp.MoM, MoMdepth := sp.MoMdepth } sp

/-- `komodo_stateupdate`. -/
def stateupdate (a : StateUpdate) (sp : KomodoState W) : KomodoState W :=
  env.applyUpdate a { sp with stateFile := sp.stateFile ++ (stateRecord a sp).toList }

/-- `dpow_readprices`: the prices of a feed. A feed of another length leaves the array as it
is, and its result is taken for a length of 255. -/
def readprices (data : ScriptBuf) : List UInt32 :=
  let data := if data 0 = 0x50 ∧ data 5 = 35 then data.shift 1 else data
  if data.uint32 4 = 35 then
    (List.range 32).map (fun i => data.uint32 (20 + 4 * i)) ++
      [data.uint32 8, data.uint32 12, data.uint32 16]
  else (List.range 255).map env.stackPvals

/-- `komodo_paxpricefeed`. -/
def paxpricefeed (height : Int) (pricefeed : ScriptBuf) (sp : KomodoState W) : KomodoState W :=
  env.stateupdate { height := height, pvals := env.readprices pricefeed } sp

/-! ## The notarised height -/

@[simp] theorem notarizedHeight_eventadd (height : Int) (data : KomodoEventData)
    (sp : KomodoState W) : (env.eventadd height data sp).notarizedHeight = sp.notarizedHeight := by
  unfold eventadd
  split <;> rfl

@[simp] theorem notarizedHeight_opreturn (height : Int) (value : Nat) (opretbuf : ScriptBuf)
    (opretlen : Nat) (txid : Uint256) (vout : Nat) (sp : KomodoState W) :
    (env.opreturn height value opretbuf opretlen txid vout sp).notarizedHeight =
      sp.notarizedHeight := by
  unfold opreturn
  split <;> rfl

@[simp] theorem notarizedHeight_eventaddOpreturn (height : Int) (txid : Uint256)
    (value vout : Nat) (opretbuf : ScriptBuf) (opretlen : Nat) (sp : KomodoState W) :
    (env.eventaddOpreturn height txid value vout opretbuf opretlen sp).notarizedHeight =
      sp.notarizedHeight := by
  unfold eventaddOpreturn
  split
  · rfl
  · simp

@[simp] theorem notarizedHeight_eventRewind (height : Int) (sp : KomodoState W) :
    (eventRewind height sp).notarizedHeight = sp.notarizedHeight := rfl

@[simp] theorem notarizedHeight_eventaddKmdheight (height kmdheight : Int) (timestamp : Nat)
    (sp : KomodoState W) :
    (env.eventaddKmdheight height kmdheight timestamp sp).notarizedHeight =
      sp.notarizedHeight := by
  unfold eventaddKmdheight
  dsimp only
  split
  · split <;> split <;> simp
  · simp

/-- A checkpoint of the current notarised height does not move it. -/
theorem notarizedHeight_eventaddNotarized {np : NotarizedCheckpoint} {sp : KomodoState W}
    (h : np.notarizedHeight = sp.notarizedHeight) :
    (env.eventaddNotarized np sp).notarizedHeight = sp.notarizedHeight := by
  unfold eventaddNotarized notarizedUpdate
  split
  · split
    · simp
    · exact h
  · rfl

/-- `komodo_stateupdate` logs the notarised height and never moves it. -/
@[simp] theorem notarizedHeight_stateupdate (a : StateUpdate) (sp : KomodoState W) :
    (env.stateupdate a sp).notarizedHeight = sp.notarizedHeight := by
  unfold stateupdate applyUpdate
  split
  · rfl
  split
  · exact env.notarizedHeight_eventaddKmdheight _ _ _ _
  split
  · exact env.notarizedHeight_eventaddOpreturn _ _ _ _ _ _ _
  split
  · exact env.notarizedHeight_eventadd _ _ _
  split
  · rfl
  split
  · split
    · exact env.notarizedHeight_eventadd _ _ _
    · rfl
  · exact env.notarizedHeight_eventaddNotarized rfl

end KomodoEnv

end IndexChain.Notary
