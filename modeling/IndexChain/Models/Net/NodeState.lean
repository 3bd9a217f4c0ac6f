import IndexChain.Core.Tally
import IndexChain.Models.Chain.ChainPower
import IndexChain.Models.Chain.ForkPoint

/-!
# Block download

What `main.cpp` knows about the nodes that it is connected to: the blocks that were requested
from each of them, and the blocks that are asked for next. Null pointers and iterators are
followed without a check in most places; where one leads nowhere, or an assertion fails, there
is no result.
-/

namespace IndexChain.Net

open IndexChain.Core Chain

/-- `NodeId`; -1 is no node. -/
abbrev NodeId : Type := Int

/-- `QueuedBlock`; an entry of the block index is known by its hash. -/
structure QueuedBlock where
  /-- `hash`. -/
  hash : Uint256
  /-- `pindex`, which may be null. -/
  pindex : Option Uint256
  /-- `nTime`, in microseconds. -/
  nTime : Int
  /-- `fValidatedHeaders`. -/
  fValidatedHeaders : Bool
  /-- `nTimeDisconnect`. -/
  nTimeDisconnect : Int
  deriving DecidableEq, Repr

/-- `CNodeState`, as far as blocks are downloaded. -/
structure CNodeState where
  /-- `pindexBestKnownBlock`. -/
  pindexBestKnownBlock : Option Uint256 := none
  /-- `hashLastUnknownBlock`. -/
  hashLastUnknownBlock : Uint256 := 0
  /-- `pindexLastCommonBlock`. -/
  pindexLastCommonBlock : Option Uint256 := none
  /-- `fSyncStarted`. -/
  fSyncStarted : Bool := false
  /-- `nStallingSince`, in microseconds, or 0. -/
  nStallingSince : Int := 0
  /-- `vBlocksInFlight`, every element with the iterator that points to it. -/
  vBlocksInFlight : List (Nat × QueuedBlock) := []
  /-- `nBlocksInFlight`. -/
  nBlocksInFlight : Int := 0
  /-- `nBlocksInFlightValidHeaders`. -/
  nBlocksInFlightValidHeaders : Int := 0
  /-- `fPreferredDownload`. -/
  fPreferredDownload : Bool := false
  deriving DecidableEq, Repr

/-- The variables of `main.cpp` about the nodes. -/
structure DownloadState where
  /-- `mapNodeState`. -/
  mapNodeState : NodeId → Option CNodeState := fun _ => none
  /-- `mapBlocksInFlight`. -/
  mapBlocksInFlight : Uint256 → Option (NodeId × Nat) := fun _ => none
  /-- `nQueuedValidatedHeaders`. -/
  nQueuedValidatedHeaders : Int := 0
  /-- `nPreferredDownload`. -/
  nPreferredDownload : Int := 0
  /-- `nSyncStarted`. -/
  nSyncStarted : Int := 0
  /-- The iterators that were given out. -/
  nIterators : Nat := 0

/-- A `bool` in a sum. -/
def flag (b : Bool) : Nat := if b then 1 else 0

/-- The state of a node without an element of its list. -/
def CNodeState.takeOut (state : CNodeState) (it : Nat) (queued : QueuedBlock) : CNodeState :=
  { state with
    nBlocksInFlightValidHeaders := state.nBlocksInFlightValidHeaders - flag queued.fValidatedHeaders
    vBlocksInFlight := state.vBlocksInFlight.filter fun entry => !(entry.1 == it)
    nBlocksInFlight := state.nBlocksInFlight - 1
    nStallingSince := 0 }

/-- The state of a node with an element more in its list. -/
def CNodeState.putIn (state : CNodeState) (it : Nat) (newentry : QueuedBlock) : CNodeState :=
  { state with
    vBlocksInFlight := state.vBlocksInFlight ++ [(it, newentry)]
    nBlocksInFlight := state.nBlocksInFlight + 1
    nBlocksInFlightValidHeaders :=
      state.nBlocksInFlightValidHeaders + flag newentry.fValidatedHeaders }

/-- `GetBlockTimeout`. -/
def getBlockTimeout (nPowTargetSpacing nTime nValidatedQueuedBefore : Int) : Int :=
  nTime + 500000 * nPowTargetSpacing * (4 + nValidatedQueuedBefore)

namespace DownloadState

variable (s : DownloadState)

/-- Change the state of a node. -/
def setNode (nodeid : NodeId) (state : CNodeState) : DownloadState :=
  { s with mapNodeState := Function.update s.mapNodeState nodeid (some state) }

/-- `InitializeNode`. -/
def initializeNode (nodeid : NodeId) : DownloadState :=
  match s.mapNodeState nodeid with
  | some _ => s
  | none => s.setNode nodeid {}

/-- `mapBlocksInFlight` without some hashes. -/
def eraseHashes (hashes : List Uint256) : Uint256 → Option (NodeId × Nat) :=
  hashes.foldl (fun m hash => Function.update m hash none) s.mapBlocksInFlight

/-- `FinalizeNode`. -/
def finalizeNode (nodeid : NodeId) : Option DownloadState := do
  let state ← s.mapNodeState nodeid
  return { s with
    nSyncStarted := s.nSyncStarted - flag state.fSyncStarted
    mapBlocksInFlight := s.eraseHashes (state.vBlocksInFlight.map fun entry => entry.2.hash)
    nPreferredDownload := s.nPreferredDownload - flag state.fPreferredDownload
    mapNodeState := Function.update s.mapNodeState nodeid none }

/-- `UpdatePreferredDownload`. -/
def updatePreferredDownload (nodeid : NodeId) (fInbound fWhitelisted fOneShot fClient : Bool) :
    Option DownloadState := do
  let state ← s.mapNodeState nodeid
  let fPreferredDownload := (!fInbound || fWhitelisted) && !fOneShot && !fClient
  return { s.setNode nodeid { state with fPreferredDownload } with
    nPreferredDownload :=
      s.nPreferredDownload - flag state.fPreferredDownload + flag fPreferredDownload }

/-- `MarkBlockAsReceived`. -/
def markBlockAsReceived (hash : Uint256) : Option (Bool × DownloadState) :=
  match s.mapBlocksInFlight hash with
  | none => some (false, s)
  | some (nodeid, it) => do
    let state ← s.mapNodeState nodeid
    let queued ← state.vBlocksInFlight.lookup it
    return (true, { s.setNode nodeid (state.takeOut it queued) with
      nQueuedValidatedHeaders := s.nQueuedValidatedHeaders - flag queued.fValidatedHeaders
      mapBlocksInFlight := Function.update s.mapBlocksInFlight hash none })

/-- A block is put at the end of the list of a node. -/
def queueBlock (nodeid : NodeId) (state : CNodeState) (newentry : QueuedBlock) : DownloadState :=
  { s.setNode nodeid (state.putIn s.nIterators newentry) with
    nQueuedValidatedHeaders := s.nQueuedValidatedHeaders + flag newentry.fValidatedHeaders
    mapBlocksInFlight :=
      Function.update s.mapBlocksInFlight newentry.hash (some (nodeid, s.nIterators))
    nIterators := s.nIterators + 1 }

/-- `MarkBlockAsInFlight`. -/
def markBlockAsInFlight (nPowTargetSpacing nNow : Int) (nodeid : NodeId) (hash : Uint256)
    (pindex : Option Uint256) : Option DownloadState := do
  let _ ← s.mapNodeState nodeid
  -- it is not listed somewhere else afterwards
  let (_, s) ← s.markBlockAsReceived hash
  let state ← s.mapNodeState nodeid
  return s.queueBlock nodeid state
    { hash, pindex, nTime := nNow, fValidatedHeaders := pindex.isSome,
      nTimeDisconnect := getBlockTimeout nPowTargetSpacing nNow s.nQueuedValidatedHeaders }

end DownloadState

/-! ## The blocks to ask for -/

/-- What is known about the blocks. -/
structure BlockView where
  /-- `mapBlockIndex`. -/
  tree : BlockTree
  /-- `chainActive`. -/
  chainActive : CChain
  /-- `chainPower` of an entry. -/
  chainPower : Uint256 → CChainPower
  /-- `nChainTx` of an entry. -/
  nChainTx : Uint256 → Nat
  /-- `BLOCK_DOWNLOAD_WINDOW`. -/
  blockDownloadWindow : Int

namespace BlockView

variable (v : BlockView)

/-- `ProcessBlockAvailability`, for the state of a node. -/
def processBlockAvailability (state : CNodeState) : CNodeState :=
  let hash := state.hashLastUnknownBlock
  if hash ≠ 0 ∧ (v.tree.find hash).isSome ∧ (v.chainPower hash).gt {} then
    { state with
      pindexBestKnownBlock := match state.pindexBestKnownBlock with
        | none => some hash
        | some best =>
          if ¬ (v.chainPower hash).lt (v.chainPower best) then some hash else some best
      hashLastUnknownBlock := 0 }
  else state

/-- The loop of `LastCommonAncestor`. -/
def walkTogether : Nat → Option Uint256 → Option Uint256 → Option Uint256 × Option Uint256
  | fuel + 1, some pa, some pb =>
    if pa = pb then (some pa, some pb)
    else walkTogether fuel ((v.tree.find pa).bind CBlockIndex.pprev)
      ((v.tree.find pb).bind CBlockIndex.pprev)
  | _, pa, pb => (pa, pb)

/-- `LastCommonAncestor`: null when there is none. -/
def lastCommonAncestor (pa pb : Uint256) : Option (Option Uint256) :=
  let ha := v.tree.heightOf pa
  let hb := v.tree.heightOf pb
  let pa' := if hb < ha then v.tree.getAncestor pa hb else some pa
  let pb' := if hb < ha then some pb else if ha < hb then v.tree.getAncestor pb ha else some pb
  let r := v.walkTogether ((min ha hb).toNat + 1) pa' pb'
  if r.1 = r.2 then some r.1 else none

/-- The blocks up to one, each the `pprev` of the next. -/
def fetchUpTo : Nat → Uint256 → Option (List Uint256)
  | 0, _ => some []
  | 1, pindex => some [pindex]
  | n + 2, pindex => do
    let pprev ← (v.tree.find pindex).bind CBlockIndex.pprev
    let before ← fetchUpTo (n + 1) pprev
    return before ++ [pindex]

/-- The variables of the loops of `FindNextBlocksToDownload`. -/
structure Fetch where
  /-- `vBlocks`. -/
  vBlocks : List Uint256
  /-- `pindexLastCommonBlock` of the node. -/
  pindexLastCommonBlock : Uint256
  /-- `waitingfor`. -/
  waitingfor : NodeId
  /-- `nodeStaller`. -/
  nodeStaller : NodeId
  /-- Whether the function has returned. -/
  returned : Bool
  deriving DecidableEq, Repr

variable (s : DownloadState) (nodeid : NodeId) (count : Nat) (nWindowEnd : Int)

/-- The body of the inner loop. -/
def fetchOne (f : Fetch) (pindex : Uint256) : Option Fetch :=
  if f.returned then some f
  else (v.tree.find pindex).map fun e =>
    if ¬ e.isValid BlockStatus.validTree then { f with returned := true }
    else if e.nStatus &&& BlockStatus.haveData ≠ 0 ∨ v.chainActive.contains v.tree pindex then
      if v.nChainTx pindex ≠ 0 then { f with pindexLastCommonBlock := pindex } else f
    else match s.mapBlocksInFlight pindex with
      | none =>
        if nWindowEnd < e.nHeight then
          { f with
            nodeStaller :=
              if f.vBlocks = [] ∧ f.waitingfor ≠ nodeid then f.waitingfor else f.nodeStaller
            returned := true }
        else { f with vBlocks := f.vBlocks ++ [pindex], returned := f.vBlocks.length + 1 = count }
      | some (owner, _) => if f.waitingfor = -1 then { f with waitingfor := owner } else f

/-- The outer loop, which reads some blocks at a time. -/
def fetchLoop (best : Uint256) (nMaxHeight : Int) : Nat → Uint256 → Fetch → Option Fetch
  | 0, _, f => some f
  | fuel + 1, pindexWalk, f =>
    let height := v.tree.heightOf pindexWalk
    if f.returned ∨ nMaxHeight ≤ height then some f
    else do
      let nToFetch := min (nMaxHeight - height) (max ((count : Int) - f.vBlocks.length) 128)
      let pindexWalk ← v.tree.getAncestor best (height + nToFetch)
      let vToFetch ← v.fetchUpTo nToFetch.toNat pindexWalk
      let f ← vToFetch.foldlM (v.fetchOne s nodeid count nWindowEnd) f
      fetchLoop best nMaxHeight fuel pindexWalk f

/-- `pindexLastCommonBlock` before the search. -/
def commonBefore (state : CNodeState) (best : Uint256) : Option (Option Uint256) := do
  let guess ← state.pindexLastCommonBlock.or
    (v.chainActive.atHeight (min (v.tree.heightOf best) v.chainActive.height))
  v.lastCommonAncestor guess best

/-- `FindNextBlocksToDownload` with an empty `vBlocks`: the blocks, `nodeStaller` and the state
of the node. -/
def findNextBlocksToDownload (state : CNodeState) :
    Option (List Uint256 × NodeId × CNodeState) :=
  if count = 0 then some ([], -1, state)
  else
    let state := v.processBlockAvailability state
    match state.pindexBestKnownBlock with
    | none => some ([], -1, state)
    | some best => do
      let tip ← v.chainActive.tip
      if (v.chainPower best).lt (v.chainPower tip) then some ([], -1, state)
      else do
        let common ← v.commonBefore state best
        let state := { state with pindexLastCommonBlock := common }
        if common = some best then some ([], -1, state)
        else do
          let pindexWalk ← common
          let nWindowEnd := v.tree.heightOf pindexWalk + v.blockDownloadWindow
          let nMaxHeight := min (v.tree.heightOf best) (nWindowEnd + 1)
          let f ← v.fetchLoop s nodeid count nWindowEnd best nMaxHeight
            (nMaxHeight - v.tree.heightOf pindexWalk).toNat pindexWalk
              ⟨[], pindexWalk, -1, -1, false⟩
          return (f.vBlocks, f.nodeStaller,
            { state with pindexLastCommonBlock := some f.pindexLastCommonBlock })

end BlockView

end IndexChain.Net
