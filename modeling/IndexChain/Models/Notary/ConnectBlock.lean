import IndexChain.Core.Mask
import IndexChain.Models.Notary.State

/-!
# Scanning a block for notarisations

`komodo_notarycmp`, `komodo_voutupdate` and `komodo_connectblock` of `komodo.h`.
The output scripts are copied into one buffer that is never cleared, and the
op_return parser trusts the length byte in the script, so it may read what an
earlier script left behind: the buffer is part of the state of the loop. The
`komodo_ccdata` record is not built, because `komodo_rwccdata` returns before it
does anything.
-/

namespace IndexChain.Notary

open IndexChain.Core

/-- `KOMODO_MINRATIFY`. -/
def minratify (height : Int) : Nat := if height < 90000 then 7 else 11

/-- The notaries of a block, as `komodo_connectblock` keeps them in its locals. -/
structure Notaries where
  /-- What `komodo_notaries` returns. -/
  numnotaries : Int
  /-- There are at most 64 notaries. -/
  numnotaries_le : numnotaries ≤ 64
  /-- Their keys; entries from `numnotaries` on are not initialised. -/
  pubkeys : Nat → Vector UInt8 33
  /-- The hash of the first key, computed once per block. -/
  rmd160 : Vector UInt8 20

/-- `komodo_notarycmp`: the notary whose key a script contains. -/
def notarycmp (n : Notaries) (scriptPubKey : List UInt8) : Option Nat :=
  if scriptPubKey.length = 25 ∧ (scriptPubKey.drop 3).take 20 = n.rmd160.toList then some 0
  else if scriptPubKey.length = 35 then
    (List.range n.numnotaries.toNat).find? fun i =>
      (scriptPubKey.drop 1).take 33 == (n.pubkeys i).toList
  else none

namespace KomodoEnv

variable {W : Type} (env : KomodoEnv W)

/-- The script of a spent output. -/
def spentScript (prevout : COutPoint) : Option CScript := do
  let tx ← env.getTransaction prevout.hash
  -- the index is passed as an `int32_t`
  if prevout.n.toNat < 2 ^ 31 then (tx.vout[prevout.n.toNat]?).map CTxOut.scriptPubKey else none

/-- `gettxout_scriptPubKey`: at most `maxsize` bytes of the script. -/
def gettxoutScriptPubKey (maxsize : Nat) (prevout : COutPoint) : Option (List UInt8) :=
  (env.spentScript prevout).map (List.take maxsize)

/-- The inputs of transaction `i` of a block that are compared with the notaries. -/
def scannedInputs (i : Nat) (tx : CTransaction) : List CTxIn :=
  if i = 0 then tx.vin.drop 1 else tx.vin

/-- The notary an input is counted for. -/
def notaryOf (n : Notaries) (txin : CTxIn) : Option Nat :=
  match env.gettxoutScriptPubKey 35 txin.prevout with
  | none => none
  | some s => if 0 < s.length then notarycmp n s else none

/-- `signedmask` after the input loop. -/
def signedmask (height : Int) (n : Notaries) (i : Nat) (tx : CTransaction) : BitVec 64 :=
  collect (if height < 91400 then 1 else 0) ((scannedInputs i tx).filterMap (env.notaryOf n))

/-- Whether the signers of a transaction are enough for a notarisation. -/
def isNotarized (height : Int) (n : Notaries) (signedmask : BitVec 64) : Bool :=
  let numvalid := weight signedmask
  ((decide (height < 90000) || signedmask.getLsbD 0) && decide (minratify height ≤ numvalid)) ||
  (decide (minratify height ≤ numvalid) && !env.assetchainsSymbol.isEmpty) ||
  decide (n.numnotaries.tdiv 5 < numvalid)

/-- What a call of `komodo_voutupdate` is given by value. -/
structure VoutArgs where
  /-- Only look for a notarisation. -/
  fJustCheck : Bool
  /-- The length of the script. -/
  scriptlen : Nat
  /-- The height of the block. -/
  height : Int
  /-- The transaction. -/
  txhash : Uint256
  /-- The index of the transaction. -/
  i : Nat
  /-- The index of the output. -/
  j : Nat
  /-- The value of the output. -/
  value : Nat
  /-- Whether the transaction has enough signers. -/
  notarized : Bool
  /-- The signers. -/
  signedmask : BitVec 64
  /-- The time of the chain tip. -/
  timestamp : Nat

/-- What the calls for the outputs of one transaction share. -/
structure TxScan where
  /-- An output ratifies new notaries. -/
  isratification : Bool := false
  /-- The notary the outputs pay; negative for none. -/
  notaryid : Int := -1
  /-- The outputs that pay it. -/
  voutmask : BitVec 64 := 0
  /-- An output pays the special key. -/
  specialtx : Bool := false
  /-- The height read from a notarisation. -/
  notarizedheight : Int := 0

/-- `CRYPTO777_PUBSECPSTR`. -/
def crypto777 : List UInt8 :=
  [0x02, 0x0e, 0x46, 0xe7, 0x9a, 0x2a, 0x8d, 0x12, 0xb9, 0xb5, 0xd1, 0x2c, 0x7a, 0x91, 0xad, 0xb4,
   0xe4, 0x54, 0xed, 0xfa, 0xe4, 0x3c, 0x0a, 0x0c, 0xb8, 0x05, 0x42, 0x7d, 0x2a, 0xc7, 0x61, 0x3f,
   0xd9]

/-- The first half of `komodo_voutupdate`: a payment to a public key. -/
def scanPubkey (a : VoutArgs) (buf : ScriptBuf) (t : TxScan) : TxScan :=
  if a.scriptlen = 35 ∧ buf 0 = 33 ∧ buf 34 = 0xac then
    if buf.slice 1 33 = crypto777 then { t with specialtx := true }
    else
      let r := env.chosennotary a.height (buf.slice 1 33) a.timestamp
      if 0 ≤ r.1 ∧ t.notaryid < 64 then
        if t.notaryid < 0 then
          { t with notaryid := r.2, voutmask := t.voutmask ||| bit 64 a.j }
        else if t.notaryid ≠ r.2 then { t with notaryid := 64, voutmask := 0 }
        else { t with voutmask := t.voutmask ||| bit 64 a.j }
      else t
  else t

/-- The length an op_return states and the offset of its data. -/
def opretHeader (buf : ScriptBuf) : Nat × Nat :=
  if buf 1 = 0x4c then ((buf 2).toNat, 3)
  else if buf 1 = 0x4d then ((buf 2).toNat + 256 * (buf 3).toNat, 4)
  else ((buf 1).toNat, 2)

/-- `"KMD"`. -/
def kmdName : List UInt8 := [0x4b, 0x4d, 0x44]

/-- `"PIZZA"`. -/
def pizzaName : List UInt8 := [0x50, 0x49, 0x5a, 0x5a, 0x41]

/-- `"BEER"`. -/
def beerName : List UInt8 := [0x42, 0x45, 0x45, 0x52]

/-- `"TXSCL"`. -/
def txsclName : List UInt8 := [0x54, 0x58, 0x53, 0x43, 0x4c]

/-- The name at the end of a notarisation is this chain's. -/
def matched (buf : ScriptBuf) (opoffset : Nat) : Bool :=
  buf.strEq (if env.assetchainsSymbol = [] then kmdName else env.assetchainsSymbol)
    (opoffset + 68)

/-- `PIZZA`, `BEER` and the `TXSCL` chains need no signatures. -/
def unsignedSymbol (buf : ScriptBuf) (off : Nat) : Bool :=
  buf.strEq pizzaName off || buf.slice off 5 == txsclName || buf.strEq beerName off

/-- The Merkle root and depth of a notarisation, and the offset behind them. -/
def readMoM (buf : ScriptBuf) (opretlen opoffset len : Nat) (notarizedheight : Int) :
    Uint256 × Int × Nat :=
  if len + 36 - opoffset ≤ opretlen then
    let MoM := buf.uint256 len
    let MoMdepth := buf.int32 (len + 32)
    -- the chain id behind it is skipped
    let len := if len + 36 + 4 - opoffset ≤ opretlen then len + 36 + 4 else len + 36
    if MoM = 0 ∨ notarizedheight < MoMdepth % 65536 then (0, 0, len) else (MoM, MoMdepth, len)
  else (0, 0, len)

/-- A notarisation of this chain that passed all tests. -/
def notarize (a : VoutArgs) (buf : ScriptBuf) (opretlen opoffset : Nat) (notarizedheight : Int)
    (sp : KomodoState W) : KomodoState W :=
  let len := opoffset + 68 + buf.strlen (opoffset + 68) + 1
  let r := readMoM buf opretlen opoffset len notarizedheight
  if sp.notarizedHeight < notarizedheight ∧ notarizedheight < a.height then
    let sp := { sp with notarizedHeight := notarizedheight
                        notarizedHash := buf.uint256 opoffset
                        notarizedDesttxid := buf.uint256 (opoffset + 36) }
    let sp := if r.1 ≠ 0 ∧ 0 < r.2.1 % 65536 then { sp with MoM := r.1, MoMdepth := r.2.1 } else sp
    let sp := env.stateupdate { height := a.height } sp
    if env.assetchainsSymbol = [] ∧ r.2.2 < opretlen ∧ buf r.2.2 = 0x41 then
      env.stateupdate
        { height := a.height, txhash := a.txhash, opretvalue := a.value
          opretbuf := buf.shift r.2.2
          opretlen := opretlen - r.2.2 + 7 + if buf 1 = 0x4d then 1 else 0
          vout := a.j } sp
    else sp
  else sp

/-- An op_return of this chain that is not a notarisation. -/
def otherOpret (a : VoutArgs) (buf : ScriptBuf) (opretlen opoffset : Nat) (t : TxScan)
    (sp : KomodoState W) : TxScan × KomodoState W :=
  if a.i = 0 ∧ a.j = 1 ∧ opretlen = 149 then
    (t, if 0 ≤ t.notaryid ∧ t.notaryid < 64 then env.paxpricefeed a.height (buf.shift opoffset) sp
    else sp)
  else
    let t := if 68 ≤ opretlen ∧ buf.slice opoffset 32 = List.replicate 32 0 then
      { t with isratification := true } else t
    (t, if t.isratification = false ∧
        (a.signedmask ≠ 0 ∨ (buf opoffset ≠ 0x58 ∧ buf opoffset ≠ 0x41)) then
      env.stateupdate
        { height := a.height, txhash := a.txhash, opretvalue := a.value
          opretbuf := buf.shift opoffset, opretlen := opretlen, vout := a.j } sp
    else sp)

/-- The offset of the chain name in a notarisation. -/
def nameOffset (matched : Bool) : Nat := if matched then 68 else 36

/-- An op_return in output 1 that is long enough for a notarisation. -/
def notarisation (a : VoutArgs) (buf : ScriptBuf) (opretlen opoffset : Nat) (t : TxScan)
    (sp : KomodoState W) : TxScan × KomodoState W :=
  let matched := env.matched buf opoffset
  let notarized := a.notarized ||
    (!matched && a.signedmask != 0 && decide (minratify a.height ≤ weight a.signedmask)) ||
    unsignedSymbol buf (opoffset + nameOffset matched)
  let notarizedheight := buf.int32 (opoffset + 32)
  let t := { t with notarizedheight := notarizedheight }
  let validated := !matched || env.validateChain (buf.uint256 opoffset) notarizedheight
  if a.fJustCheck && matched then ({ t with notaryid := -2 }, sp)
  else if notarized && validated && matched then
    (t, env.notarize a buf opretlen opoffset notarizedheight sp)
  else (t, sp)

/-- The second half of `komodo_voutupdate`: an op_return. -/
def scanOpret (a : VoutArgs) (buf : ScriptBuf) (t : TxScan) (sp : KomodoState W) :
    TxScan × KomodoState W :=
  let opretlen := (opretHeader buf).1
  let opoffset := (opretHeader buf).2
  if env.assetchainsSymbol ≠ [] ∧ buf opoffset = 0x4b then
    -- a key-value op_return
    ({ t with notaryid := -1 },
      env.stateupdate
        { height := a.height, txhash := a.txhash, opretvalue := a.value
          opretbuf := buf.shift opoffset, opretlen := opretlen, vout := a.j } sp)
  else if a.j = 1 ∧ nameOffset (env.matched buf opoffset) ≤ opretlen then
    env.notarisation a buf opretlen opoffset t sp
  else if env.matched buf opoffset then env.otherOpret a buf opretlen opoffset t sp
  else (t, sp)

/-- `komodo_voutupdate`; the notary id it returns is left in the scan. -/
def voutupdate (a : VoutArgs) (buf : ScriptBuf) (t : TxScan) (sp : KomodoState W) :
    TxScan × KomodoState W :=
  let t := env.scanPubkey a buf t
  if buf 0 = 0x6a then env.scanOpret a buf t sp else (t, sp)

/-- What the transaction loop of `komodo_connectblock` carries along. -/
structure LoopState (W : Type) where
  /-- The notarisation state. -/
  sp : KomodoState W
  /-- The notaries; a ratification overwrites the keys. -/
  notaries : Notaries
  /-- The script buffer. -/
  scriptbuf : ScriptBuf
  /-- The transactions with a notarisation, when only checking. -/
  notarisations : List Nat

/-- What the loop is given for a block. -/
structure BlockArgs where
  /-- Only look for notarisations. -/
  fJustCheck : Bool
  /-- The height of the block. -/
  height : Int
  /-- The time of the block. -/
  blockTime : Nat
  /-- The block hash. -/
  blockHash : Uint256
  /-- The time of the chain tip. -/
  tipTime : Nat
  /-- The height of the chain tip. -/
  tipHeight : Int

/-- The output loop. -/
def voutLoop (b : BlockArgs) (i : Nat) (tx : CTransaction) (notarized : Bool) (mask : BitVec 64) :
    Nat → List CTxOut → TxScan → LoopState W → TxScan × LoopState W
  | _, [], t, s => (t, s)
  | j, out :: rest, t, s =>
    let len := out.scriptPubKey.length
    if 4 ≤ len ∧ len ≤ 10001 then
      let buf := s.scriptbuf.memcpy out.scriptPubKey
      let a : VoutArgs :=
        { fJustCheck := b.fJustCheck, scriptlen := len, height := b.height, txhash := tx.hash
          i := i, j := j, value := (out.nValue % 2 ^ 64).toNat, notarized := notarized
          signedmask := mask, timestamp := b.tipTime }
      let r := env.voutupdate a buf t s.sp
      let notarisations := if b.fJustCheck && r.1.notaryid == -2 then s.notarisations ++ [i]
        else s.notarisations
      voutLoop b i tx notarized mask (j + 1) rest r.1
        { s with sp := r.2, scriptbuf := buf, notarisations := notarisations }
    else voutLoop b i tx notarized mask (j + 1) rest t s

/-- The new notaries of a ratification, from all outputs but the first and the last. -/
def ratifiedKeys (outs : List CTxOut) : List (Vector UInt8 33) :=
  outs.filterMap fun out =>
    if h : out.scriptPubKey.length = 35 ∧ out.scriptPubKey.head? = some 33 ∧
        out.scriptPubKey.getLast? = some 0xac then
      some ⟨((out.scriptPubKey.drop 1).take 33).toArray, by simp [h.1]⟩
    else none

/-- The ratification of new notaries. The keys of the block are overwritten even when
the ratification has too few signers. -/
def ratify (b : BlockArgs) (tx : CTransaction) (mask : BitVec 64) (s : LoopState W) :
    LoopState W :=
  let outs := (tx.vout.drop 1).dropLast
  let keys := ratifiedKeys outs
  let copied := outs.filter fun out =>
    decide (4 ≤ out.scriptPubKey.length) && decide (out.scriptPubKey.length ≤ 10001)
  let s := { s with
    notaries := { s.notaries with pubkeys := fun k => keys.getD k (Vector.replicate 33 0) }
    scriptbuf := copied.foldl (fun buf out => buf.memcpy out.scriptPubKey) s.scriptbuf }
  if (env.assetchainsSymbol ≠ [] ∨ b.height < 100000) ∧
      ((mask.getLsbD 0 = true ∧ minratify b.height ≤ keys.length) ∨
        s.notaries.numnotaries.tdiv 3 < (weight mask : Int)) then
    { s with sp := env.stateupdate { height := b.height, notarypubs := keys } s.sp }
  else s

/-- One iteration of the transaction loop. -/
def connectTx (b : BlockArgs) (i : Nat) (tx : CTransaction) (s : LoopState W) : LoopState W :=
  let mask := env.signedmask b.height s.notaries i tx
  -- regtest simulates a notarisation of every seventh block
  let simulated := env.regtest && decide (b.height % 7 = 0)
  let notarized := env.isNotarized b.height s.notaries mask || simulated
  let s := if simulated then
    { s with sp := { s.sp with notarizedHeight := b.height, notarizedHash := b.blockHash
                               notarizedDesttxid := tx.hash } } else s
  let r := env.voutLoop b i tx notarized mask 0 tx.vout {} s
  if b.fJustCheck = false ∧ notarized = true ∧ r.1.specialtx = true ∧
      r.1.isratification = true ∧ 2 < tx.vout.length then
    env.ratify b tx mask r.2
  else r.2

/-- The transaction loop is left before transaction `i`. -/
def stopsAt (b : BlockArgs) (i : Nat) : Bool :=
  (env.isStaked != 0 && env.stakedEra b.blockTime == 0) || env.isStaked == 255 ||
    (!b.fJustCheck && decide (1 < i) && env.notaryPay)

/-- The transaction loop. -/
def connectLoop (b : BlockArgs) : Nat → List CTransaction → LoopState W → LoopState W
  | _, [], s => s
  | i, tx :: rest, s =>
    if env.stopsAt b i then s else connectLoop b (i + 1) rest (env.connectTx b i tx s)

/-- What `komodo_connectblock` keeps between calls. -/
structure ConnectState (W : Type) where
  /-- The notarisation state. -/
  sp : KomodoState W
  /-- The highest height so far. -/
  hwmheight : Int

/-- A call of `komodo_connectblock`: the block, its notaries and the stack it finds. -/
structure Call where
  /-- The arguments for the loop. -/
  args : BlockArgs
  /-- The transactions. -/
  vtx : List CTransaction
  /-- The result of `komodo_notaries`. -/
  numnotaries : Int
  /-- There are at most 64 notaries. -/
  numnotaries_le : numnotaries ≤ 64
  /-- Their keys. -/
  pubkeys : Nat → Vector UInt8 33
  /-- What the script buffer holds before the first copy. -/
  stack : ScriptBuf

/-- The notaries of the block. -/
def elected (c : Call) : Notaries where
  numnotaries := c.numnotaries
  numnotaries_le := c.numnotaries_le
  pubkeys := c.pubkeys
  rmd160 := env.calcRmd160Sha256 (c.pubkeys 0)

/-- A height that is not new is a reorganisation. -/
def reorganise (c : Call) (st : ConnectState W) : KomodoState W :=
  if st.hwmheight < c.args.height ∨ c.args.fJustCheck = true then st.sp
  else env.stateupdate { height := c.args.height, kmdheight := -c.args.height
                         kmdtimestamp := c.args.blockTime }
    (eventRewind c.args.height st.sp)

/-- The state the loop starts from. -/
def startOf (c : Call) (st : ConnectState W) : LoopState W where
  sp := { env.reorganise c st with currentHeight := c.args.tipHeight }
  notaries := env.elected c
  scriptbuf := c.stack
  notarisations := []

/-- `komodo_connectblock`. When only checking, the result says whether the only
notarisation is in transaction 1. -/
def connectblock (c : Call) (st : ConnectState W) : ConnectState W × Int :=
  let s := env.connectLoop c.args 0 c.vtx (env.startOf c st)
  let sp := if c.args.fJustCheck then s.sp
    else env.stateupdate { height := c.args.height, kmdheight := c.args.height
                           kmdtimestamp := c.args.blockTime } s.sp
  ({ sp := sp, hwmheight := c.args.height },
    if c.args.fJustCheck then
      if s.notarisations = [] then 0 else if s.notarisations = [1] then 1 else -1
    else 0)

end KomodoEnv

end IndexChain.Notary
