import IndexChain.Models.Chain.BlockIndex
import Mathlib.Logic.Function.Basic

/-!
# Steps on the block index

The functions of `main.cpp` that create index entries and change their status. The
verdicts of the checks they call are inputs. A hash may be in the map with a null
pointer, which the source handles apart from a missing one. `connected` is not part
of the program: it records for which blocks `ConnectBlock` has returned true.
-/

namespace IndexChain.Chain

open BlockStatus

/-- Constants of the chain. -/
structure ChainEnv where
  /-- The genesis block. -/
  hashGenesisBlock : Uint256
  /-- Whether crypto conditions are active: `ASSETCHAINS_CC != 0`. -/
  assetchainsCC : Bool

/-- The block index. -/
structure BlockTree where
  /-- The entries by hash; an entry may be a null pointer. -/
  mapBlockIndex : Uint256 → Option (Option CBlockIndex) := fun _ => none
  /-- The blocks for which `ConnectBlock` has succeeded. -/
  connected : Uint256 → Bool := fun _ => false

namespace BlockTree

/-- The entry of a block. -/
def find (t : BlockTree) (hash : Uint256) : Option CBlockIndex :=
  (t.mapBlockIndex hash).join

/-- Write the entry of a block. -/
def set (t : BlockTree) (hash : Uint256) (e : CBlockIndex) : BlockTree :=
  { t with mapBlockIndex := Function.update t.mapBlockIndex hash (some (some e)) }

/-- Change the entry of a block, if there is one. -/
def modify (t : BlockTree) (hash : Uint256) (f : CBlockIndex → CBlockIndex) : BlockTree :=
  match t.find hash with
  | some e => t.set hash (f e)
  | none => t

/-- The block `n` steps up the tree. -/
def ancestorUp (t : BlockTree) : Nat → Uint256 → Option Uint256
  | 0, hash => some hash
  | n + 1, hash => ((t.find hash).bind CBlockIndex.pprev).bind (t.ancestorUp n)

/-- `GetAncestor`: the ancestor at a height, which is that many steps up. -/
def getAncestor (t : BlockTree) (hash : Uint256) (height : Int) : Option Uint256 :=
  match t.find hash with
  | some e =>
    if e.nHeight < height ∨ height < 0 then none else t.ancestorUp (e.nHeight - height).toNat hash
  | none => none

/-- The block and its ancestors, at most `fuel` of them. -/
def ancestry (t : BlockTree) : Nat → Uint256 → List Uint256
  | 0, _ => []
  | fuel + 1, hash => match t.find hash with
    | some e => hash :: (e.pprev.elim [] (t.ancestry fuel))
    | none => []

end BlockTree

/-! ## Headers -/

/-- The arguments of `AcceptBlockHeader` and the verdicts of its checks. -/
structure HeaderArgs where
  /-- The hash of the block. -/
  hash : Uint256
  /-- The hash of the previous block. -/
  hashPrevBlock : Uint256
  /-- The block time. -/
  nTime : Nat
  /-- `*futureblockp` on entry. -/
  futureblock : Bool := false
  /-- `*ppindex` on entry. -/
  ppindex : Option Uint256 := none
  /-- `CheckBlockHeader` passes. -/
  checkBlockHeader : Bool := true
  /-- `*futureblockp` after `CheckBlockHeader`. -/
  headerFuture : Bool := false
  /-- `ContextualCheckBlockHeader` passes. -/
  contextualCheckBlockHeader : Bool := true
  deriving DecidableEq, Repr

/-- What `AcceptBlockHeader` returns. -/
structure HeaderResult where
  /-- The return value. -/
  ok : Bool
  /-- `*futureblockp` on exit. -/
  futureblock : Bool
  /-- `*ppindex` on exit. -/
  ppindex : Option Uint256
  deriving DecidableEq, Repr

namespace BlockTree

/-- `AddToBlockIndex`: the block's entry, a new one unless there is one; null when
both the block and its predecessor are known by null pointers. -/
def addToBlockIndex (t : BlockTree) (a : HeaderArgs) : BlockTree × Option Uint256 :=
  match t.mapBlockIndex a.hash, t.mapBlockIndex a.hashPrevBlock with
  | some (some _), _ => (t, some a.hash)
  | some none, some none => (t, none)
  | _, prev =>
    let e : CBlockIndex := match prev.join with
      | some p => { pprev := some a.hashPrevBlock, nHeight := p.nHeight + 1, nTime := a.nTime }
      | none => { nTime := a.nTime }
    (t.set a.hash (e.raiseValidity validTree), some a.hash)

/-- `AcceptBlockHeader`. A known block that failed before is reconsidered on a chain
with crypto conditions. -/
def acceptBlockHeader (env : ChainEnv) (t : BlockTree) (a : HeaderArgs) :
    BlockTree × HeaderResult :=
  match t.mapBlockIndex a.hash with
  | some entry =>
    let (t, pindex) := match entry with
      | some _ => (t, some a.hash)
      | none => t.addToBlockIndex a
    let known := { ok := true, futureblock := a.futureblock, ppindex := pindex }
    match pindex.bind t.find with
    | some e =>
      if e.failed then
        if env.assetchainsCC then (t.modify a.hash fun e => e.clearStatus failedMask, known)
        else (t, { known with ok := false })
      else (t, known)
    | none => (t, known)
  | none =>
    let rejected := { ok := false, futureblock := a.headerFuture, ppindex := a.ppindex }
    if !a.checkBlockHeader && !a.headerFuture then (t, rejected)
    else if a.hash ≠ env.hashGenesisBlock ∧
        ((t.find a.hashPrevBlock).elim true CBlockIndex.failed) then (t, rejected)
    else if !a.contextualCheckBlockHeader then (t, rejected)
    else
      let (t, pindex) := t.addToBlockIndex a
      (t, { ok := true, futureblock := a.headerFuture, ppindex := pindex })

end BlockTree

/-! ## Blocks -/

/-- The arguments of `AcceptBlock` and the verdicts of its checks. -/
structure AcceptArgs extends HeaderArgs where
  /-- The block was asked for. -/
  fRequested : Bool := true
  /-- It has more work than the tip. -/
  fHasMoreWork : Bool := true
  /-- It is too far ahead of the tip. -/
  fTooFarAhead : Bool := false
  /-- `CheckBlock` passes. -/
  checkBlock : Bool := true
  /-- `*futureblockp` after `CheckBlock`. -/
  blockFuture : Bool := false
  /-- `ContextualCheckBlock` passes. -/
  contextualCheckBlock : Bool := true
  /-- A failed block near the Sapling activation counts as a future block. -/
  saplingFuture : Bool := false
  /-- The failure is definite: `state.IsInvalid() && !state.CorruptionPossible()`. -/
  definite : Bool := true
  /-- `FindBlockPos` finds room for the block. -/
  findBlockPos : Bool := true
  /-- The number of transactions. -/
  nTx : Nat := 1
  /-- The file the block is written to. -/
  nFile : Int := 0
  deriving DecidableEq, Repr

namespace BlockTree

/-- `AcceptBlock` up to the contextual flag: the block it goes on to store with
`futureblock`, or the value it returns. -/
def acceptChecks (env : ChainEnv) (t : BlockTree) (a : AcceptArgs) :
    BlockTree × Sum (Uint256 × Bool) Bool :=
  let (t, r) := t.acceptBlockHeader env a.toHeaderArgs
  if !r.ok && !r.futureblock then (t, .inr false)
  else match r.ppindex with
    | none => (t, .inr false)
    | some hash => match t.find hash with
      | none => (t, .inr false)
      | some e =>
        if e.nStatus &&& haveData != 0 then (t, .inr true)
        else if !a.fRequested && (e.nTx != 0 || !a.fHasMoreWork || a.fTooFarAhead) then
          (t, .inr true)
        else if !a.checkBlock || !a.contextualCheckBlock then
          if a.blockFuture || a.saplingFuture then (t, .inl (hash, true))
          else if a.definite then (t.modify hash fun e => e.orStatus failedValid, .inr false)
          else (t, .inr false)
        else (t, .inl (hash, a.blockFuture))

/-- `AcceptBlock`: check the block, mark it and write it to disk. -/
def acceptBlock (env : ChainEnv) (t : BlockTree) (a : AcceptArgs) : BlockTree × Bool :=
  match t.acceptChecks env a with
  | (t, .inr ret) => (t, ret)
  | (t, .inl (hash, futureblock)) =>
    let t := if a.contextualCheckBlock then t.modify hash fun e => e.orStatus validContext else t
    if !a.findBlockPos then (t, false)
    else (t.modify hash fun e => e.receivedBlockTransactions a.nTx a.nFile, !futureblock)

end BlockTree

/-- The arguments of `ConnectBlock` and the verdicts of its checks. A check that is
not reached counts as passed. -/
structure ConnectArgs where
  /-- The hash of the block. -/
  hash : Uint256
  /-- Nothing is written. -/
  fJustCheck : Bool := false
  /-- Proof of work and context are checked. -/
  fCheckPOW : Bool := true
  /-- The height is above `KOMODO_STOPAT`. -/
  stopAt : Bool := false
  /-- `CheckBlock` passes and the block is not from the future. -/
  checkBlock : Bool := true
  /-- `ContextualCheckBlock` passes. -/
  contextualCheckBlock : Bool := true
  /-- The notary payment is right, or none is due. -/
  notaryPay : Bool := true
  /-- A block in the temporary file can be moved. -/
  findBlockPos : Bool := true
  /-- The view belongs to the previous block. -/
  prevIsBest : Bool := true
  /-- The checks of the transactions, scripts and amounts pass. -/
  checks : Bool := true
  /-- The undo data is written. -/
  writeUndo : Bool := true
  /-- The block activates an upgrade. -/
  activates : Bool := false
  /-- The indexes are written. -/
  writeIndexes : Bool := true
  /-- The number of transactions. -/
  nTx : Nat := 1
  /-- The file the block is moved to. -/
  nFile : Int := 0
  deriving DecidableEq, Repr

/-- Blocks up to this time may fail the contextual checks when they are connected. -/
def grandfatherTime : Nat := 1547510400

namespace CBlockIndex

/-- The contextual checks of `ConnectBlock`, unless the flag says they were made. -/
def contextChecked (a : ConnectArgs) (e : CBlockIndex) : Option CBlockIndex :=
  if a.fCheckPOW && e.nStatus &&& validContext != validContext then
    if a.contextualCheckBlock then some (e.orStatus validContext)
    else if grandfatherTime < e.nTime then none
    else some e
  else some e

/-- Move the block out of the temporary file. -/
def movedFromTmpfile (a : ConnectArgs) (e : CBlockIndex) : Option CBlockIndex :=
  if e.nStatus &&& inTmpfile != 0 then
    if a.findBlockPos then
      some ((e.clearStatus inTmpfile).receivedBlockTransactions a.nTx a.nFile)
    else none
  else some e

/-- The end of `ConnectBlock`: undo data, validity, indexes. -/
def recordConnected (a : ConnectArgs) (e : CBlockIndex) : CBlockIndex × Bool :=
  if e.undoPosIsNull || !e.isValid validScripts then
    if e.undoPosIsNull && !a.writeUndo then (e, false)
    else
      let e := if e.undoPosIsNull then e.orStatus haveUndo else e
      let e := if a.activates then e.orStatus activatesUpgrade else e
      (e.raiseValidity validScripts, a.writeIndexes)
  else (e, a.writeIndexes)

/-- `ConnectBlock` after the contextual checks. -/
def connectChecked (env : ChainEnv) (a : ConnectArgs) (e : CBlockIndex) : CBlockIndex × Bool :=
  if !a.notaryPay then (e, false)
  else match e.movedFromTmpfile a with
    | none => (e, false)
    | some e =>
      if !a.prevIsBest then (e, false)
      else if a.hash = env.hashGenesisBlock then (e, true)
      else if !a.checks then (e, false)
      else if a.fJustCheck then (e, true)
      else e.recordConnected a

/-- `ConnectBlock` on the entry of its block. -/
def connectBlock (env : ChainEnv) (a : ConnectArgs) (e : CBlockIndex) : CBlockIndex × Bool :=
  if a.stopAt || !a.checkBlock then (e, false)
  else match e.contextChecked a with
    | none => (e, false)
    | some e => e.connectChecked env a

end CBlockIndex

namespace BlockTree

/-- `ConnectBlock`, recording whether it succeeds. -/
def connectBlock (env : ChainEnv) (t : BlockTree) (a : ConnectArgs) : BlockTree × Bool :=
  match t.find a.hash with
  | none => (t, false)
  | some e =>
    let (e, ok) := e.connectBlock env a
    let t := t.set a.hash e
    ({ t with connected := Function.update t.connected a.hash (t.connected a.hash || ok) }, ok)

/-- `InvalidBlockFound`. -/
def invalidBlockFound (t : BlockTree) (hash : Uint256) (corruptionPossible : Bool) : BlockTree :=
  if corruptionPossible then t else t.modify hash fun e => e.orStatus failedValid

/-- `InvalidateBlock`; `tips` are the tips of the active chain that its loop disconnects. -/
def invalidateBlock (t : BlockTree) (hash : Uint256) (tips : List Uint256) : BlockTree :=
  tips.foldl (fun t tip => t.modify tip fun e => e.orStatus failedChild)
    (t.modify hash fun e => e.orStatus failedValid)

/-- `ReconsiderBlock`: clear the failure of the block, its descendants and ancestors. -/
def reconsiderBlock (t : BlockTree) (hash : Uint256) : BlockTree :=
  match t.find hash with
  | none => t
  | some pindex =>
    let below := fun id e =>
      !e.isValid validTransactions && t.getAncestor id pindex.nHeight == some hash
    let above := t.ancestry (pindex.nHeight.toNat + 1) hash
    { t with mapBlockIndex := fun id => (t.mapBlockIndex id).map fun entry => entry.map fun e =>
        if below id e || (decide (id ∈ above) && e.failed) then e.clearStatus failedMask else e }

end BlockTree

/-! ## Runs -/

/-- The steps on the block index. -/
inductive ChainStep where
  | acceptBlockHeader (a : HeaderArgs)
  | acceptBlock (a : AcceptArgs)
  | receivedBlockTransactions (hash : Uint256) (nTx : Nat) (nFile : Int)
  | connectBlock (a : ConnectArgs)
  | invalidBlockFound (hash : Uint256) (corruptionPossible : Bool)
  | invalidateBlock (hash : Uint256) (tips : List Uint256)
  | reconsiderBlock (hash : Uint256)
  deriving DecidableEq, Repr

namespace BlockTree

/-- The tree after one step. -/
def step (env : ChainEnv) (t : BlockTree) : ChainStep → BlockTree
  | .acceptBlockHeader a => (t.acceptBlockHeader env a).1
  | .acceptBlock a => (t.acceptBlock env a).1
  | .receivedBlockTransactions hash nTx nFile =>
    t.modify hash fun e => e.receivedBlockTransactions nTx nFile
  | .connectBlock a => (t.connectBlock env a).1
  | .invalidBlockFound hash corruptionPossible => t.invalidBlockFound hash corruptionPossible
  | .invalidateBlock hash tips => t.invalidateBlock hash tips
  | .reconsiderBlock hash => t.reconsiderBlock hash

/-- The tree after a list of steps. -/
def run (env : ChainEnv) (t : BlockTree) (steps : List ChainStep) : BlockTree :=
  steps.foldl (step env) t

end BlockTree

end IndexChain.Chain
