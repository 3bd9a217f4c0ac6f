import IndexChain.Models.Chain.Accept

/-!
# The active chain

`CChain` of `chain.h`, and the functions of `main.cpp` that move its tip, invalidate
blocks and keep the set of candidates for the next tip. The order of the candidates
is that of a chain without `ASSETCHAINS_LWMAPOS`. A step that ends in a failed
assertion or in a null pointer gives `none`. The verdicts of the checks that a step
calls are inputs. `past` is not part of the program: it records every value that
`chainActive` has had.
-/

namespace IndexChain.Chain

open BlockStatus

/-! ## CChain -/

/-- `CChain`: the blocks by height. Its `lastTip` is always the tip. -/
abbrev CChain := List (Option Uint256)

namespace CChain

/-- The tip, or null. -/
def tip (c : CChain) : Option Uint256 :=
  c.getLast?.join

/-- The height of the tip, -1 without one. -/
def height (c : CChain) : Int :=
  (c.length : Int) - 1

/-- The block at a height, or null. -/
def atHeight (vChain : CChain) (nHeight : Int) : Option Uint256 :=
  if nHeight < 0 then none else vChain[nHeight.toNat]?.join

/-- `Contains`. -/
def contains (t : BlockTree) (c : CChain) (pindex : Uint256) : Bool :=
  (t.find pindex).elim false fun e => c.atHeight e.nHeight == some pindex

/-- `vChain.resize`, which fills up with null pointers. -/
def resize (c : CChain) (n : Nat) : CChain :=
  c.take n ++ List.replicate (n - c.length) none

/-- The loop of `SetTip`: write the block and its ancestors, up to one that is there. -/
def walkBack (t : BlockTree) : Nat → CChain → Uint256 → CChain
  | 0, vChain, _ => vChain
  | fuel + 1, vChain, pindex => match t.find pindex with
    | none => vChain
    | some e =>
      if vChain[e.nHeight.toNat]?.join = some pindex then vChain
      else
        let vChain := vChain.set e.nHeight.toNat (some pindex)
        e.pprev.elim vChain (walkBack t fuel vChain)

/-- `SetTip` of a block. -/
def setTip (t : BlockTree) (c : CChain) (pindex : Uint256) : CChain :=
  match t.find pindex with
  | none => c
  | some e => walkBack t (e.nHeight.toNat + 1) (c.resize (e.nHeight + 1).toNat) pindex

/-- `FindFork`: the last block that the chain shares with the ancestors of a block. -/
def findFork (t : BlockTree) (c : CChain) (pindex : Uint256) : Option Uint256 :=
  match t.find pindex with
  | none => none
  | some e =>
    let start := if c.height < e.nHeight then t.getAncestor pindex c.height else some pindex
    start.bind fun pindex => (t.ancestry (e.nHeight.toNat + 1) pindex).find? (c.contains t)

end CChain

/-! ## The state -/

/-- What the checks say that a call of `ConnectTip` or `DisconnectTip` makes. -/
structure TipVerdict where
  /-- The block is at hand or can be read from disk. -/
  readBlock : Bool := true
  /-- `DisconnectBlock` succeeds. -/
  disconnectBlock : Bool := true
  /-- The checks of `ConnectBlock`; its block is the one of the call. -/
  connectBlock : ConnectArgs := { hash := 0 }
  /-- `state.IsInvalid()` after `ConnectBlock` fails. -/
  isInvalid : Bool := true
  /-- `state.CorruptionPossible()` then. -/
  corruptionPossible : Bool := false
  /-- `FlushStateToDisk` succeeds. -/
  flushState : Bool := true

/-- What stays fixed: the last notarized point, constants, addresses of the entries and
the verdict of each call. -/
structure TipEnv extends ChainEnv where
  /-- `komodo_notarized_height`. -/
  notarizedHeight : Int
  /-- The hash it sets. -/
  notarizedHash : Uint256
  /-- `MAX_REORG_LENGTH`. -/
  maxReorgLength : Nat
  /-- The address of the entry of a block. -/
  addr : Uint256 → Nat
  /-- Two entries have two addresses. -/
  addr_injective : Function.Injective addr
  /-- The verdict of each call. -/
  verdict : Nat → TipVerdict

/-- The block index with the active chain and the candidates for the next tip. -/
structure ChainState where
  /-- The block index. -/
  tree : BlockTree := {}
  /-- The active chain. -/
  chainActive : CChain := []
  /-- Transactions up to a block, 0 unless it and all its ancestors are received. -/
  nChainTx : Uint256 → Nat := fun _ => 0
  /-- The order in which blocks were linked. -/
  nSequenceId : Uint256 → BitVec 32 := fun _ => 0
  /-- `chainPower.chainWork`. -/
  chainWork : Uint256 → Nat := fun _ => 0
  /-- The next `nSequenceId`. -/
  nBlockSequenceId : BitVec 32 := 1
  /-- The candidates for the next tip. -/
  setBlockIndexCandidates : Uint256 → Bool := fun _ => false
  /-- Received blocks by their predecessor, while an ancestor is missing. -/
  mapBlocksUnlinked : List (Uint256 × Uint256) := []
  /-- `KOMODO_REWIND`. -/
  rewind : Int := 0
  /-- The number of verdicts used. -/
  calls : Nat := 0
  /-- The values `chainActive` has had. -/
  past : List CChain := []

namespace ChainState

variable (env : TipEnv) (s : ChainState)

/-- The tip of the active chain. -/
def tip : Option Uint256 :=
  s.chainActive.tip

/-- The height of an entry. -/
def heightOf (hash : Uint256) : Int :=
  (s.tree.find hash).elim 0 CBlockIndex.nHeight

/-- Change the entry of a block. -/
def modify (hash : Uint256) (f : CBlockIndex → CBlockIndex) : ChainState :=
  { s with tree := s.tree.modify hash f }

/-- Take a block out of the candidates. -/
def eraseCandidate (hash : Uint256) : ChainState :=
  { s with setBlockIndexCandidates := Function.update s.setBlockIndexCandidates hash false }

/-- A verdict has been used. -/
def called : ChainState :=
  { s with calls := s.calls + 1 }

/-- `CBlockIndexWorkComparator`: less work, or the same and linked later, or the same
and at the larger address. -/
def workLess (pa pb : Uint256) : Bool :=
  if s.chainWork pa > s.chainWork pb then false
  else if s.chainWork pa < s.chainWork pb then true
  else if s.nSequenceId pa < s.nSequenceId pb then false
  else if s.nSequenceId pa > s.nSequenceId pb then true
  else if env.addr pa < env.addr pb then false
  else decide (env.addr pa > env.addr pb)

/-- Worse than the tip, in the order of the candidates. -/
def worseThanTip (hash : Uint256) : Bool :=
  s.tip.elim false (s.workLess env hash)

/-- `PruneBlockIndexCandidates`, without the assertion that a candidate is left. -/
def pruneBlockIndexCandidates : ChainState :=
  { s with setBlockIndexCandidates := fun hash =>
      s.setBlockIndexCandidates hash && !s.worseThanTip env hash }

/-- `UpdateTip`, which reads the new tip. -/
def updateTip (pindexNew : Option Uint256) : Option ChainState :=
  pindexNew.map fun hash =>
    { s with
      chainActive := s.chainActive.setTip s.tree hash
      past := s.chainActive :: s.past }

/-! ## Moving the tip -/

/-- `DisconnectTip`. The block read from disk has the hash of the entry. -/
def disconnectTip : Option (Bool × ChainState) :=
  match s.tip with
  | none => none
  | some pindexDelete =>
    let v := env.verdict s.calls
    let s := s.called
    if !v.readBlock then some (false, s)
    else if pindexDelete = env.notarizedHash then some (false, s)
    else if !v.disconnectBlock || !v.flushState then some (false, s)
    else (s.updateTip ((s.tree.find pindexDelete).bind CBlockIndex.pprev)).map fun s => (true, s)

/-- `InvalidBlockFound`. -/
def invalidBlockFound (pindex : Uint256) (corruptionPossible : Bool) : ChainState :=
  if corruptionPossible then s
  else (s.modify pindex fun e => e.orStatus failedValid).eraseCandidate pindex

/-- How `ConnectTip` ends. -/
inductive TipResult where
  /-- The block is the new tip. -/
  | connected
  /-- The block is invalid. -/
  | invalid
  /-- Another error. -/
  | error
  deriving DecidableEq, Repr

/-- `ConnectTip`. -/
def connectTip (pindexNew : Uint256) : Option (TipResult × ChainState) :=
  match s.tree.find pindexNew with
  | none => none
  | some e =>
    if e.pprev ≠ s.tip then none
    else
      let v := env.verdict s.calls
      let s := s.called
      if !v.readBlock then some (.error, s)
      else
        let (tree, ok) := s.tree.connectBlock env.toChainEnv
          { v.connectBlock with hash := pindexNew }
        let s := { s with tree := tree }
        if !ok then
          if v.isInvalid then some (.invalid, s.invalidBlockFound pindexNew v.corruptionPossible)
          else some (.error, s)
        else if !v.flushState then some (.error, s)
        else (s.updateTip (some pindexNew)).map fun s => (.connected, s)

/-! ## InvalidateBlock -/

/-- The loop of `InvalidateBlock`: disconnect tips while the block is in the chain. -/
def disconnectThrough (pindex : Uint256) : Nat → ChainState → Option (Bool × ChainState)
  | 0, s => some (true, s)
  | fuel + 1, s =>
    if s.chainActive.contains s.tree pindex then
      match s.tip with
      | none => none
      | some pindexWalk =>
        let s := (s.modify pindexWalk fun e => e.orStatus failedChild).eraseCandidate pindexWalk
        match s.disconnectTip env with
        | none => none
        | some (false, s) => some (false, s)
        | some (true, s) => disconnectThrough pindex fuel s
    else some (true, s)

/-- The valid linked blocks that are not worse than the tip become candidates. -/
def addCandidates : ChainState :=
  { s with setBlockIndexCandidates := fun hash =>
      s.setBlockIndexCandidates hash ||
        ((s.tree.find hash).elim false fun e => e.isValid validTransactions) &&
          s.nChainTx hash != 0 && !s.worseThanTip env hash }

/-- `InvalidateBlock`. -/
def invalidateBlock (pindex : Uint256) : Option (Bool × ChainState) :=
  let s := (s.modify pindex fun e => e.orStatus failedValid).eraseCandidate pindex
  match s.disconnectThrough env pindex s.chainActive.length with
  | none => none
  | some (false, s) => some (false, s)
  | some (true, s) => some (true, s.addCandidates env)

/-! ## ActivateBestChainStep -/

/-- Disconnect the blocks that are no longer in the best chain. -/
def disconnectToFork (pindexFork : Option Uint256) : Nat → ChainState → Option (Bool × ChainState)
  | 0, s => some (true, s)
  | fuel + 1, s =>
    if s.tip ≠ none ∧ s.tip ≠ pindexFork then
      match s.disconnectTip env with
      | none => none
      | some (false, s) => some (false, s)
      | some (true, s) => disconnectToFork pindexFork fuel s
    else some (true, s)

/-- Invalidate and disconnect tips down to the height of `-rewind`. -/
def rewindTips : Nat → ChainState → Option ChainState
  | 0, s => some s
  | fuel + 1, s => match s.tip with
    | none => some s
    | some tipindex =>
      if 0 < s.rewind ∧ s.rewind < s.heightOf tipindex then
        match s.invalidateBlock env tipindex with
        | none => none
        | some (_, s) => match s.disconnectTip env with
          | none => none
          | some (false, s) => some s
          | some (true, s) => rewindTips fuel s
      else some s

/-- `if ( KOMODO_REWIND != 0 )`. -/
def rewindStart : Option ChainState :=
  if s.rewind = 0 then some s
  else if s.tip = none then none
  else (s.rewindTips env s.chainActive.length).map fun s => { s with rewind := 0 }

/-- How the loop over the blocks to connect goes on. -/
inductive ConnectFlow where
  /-- All are connected. -/
  | goOn
  /-- The new tip is better than the old one, or a block is invalid. -/
  | stop
  /-- A system error. -/
  | failed
  deriving DecidableEq, Repr

/-- Connect new blocks until the tip is better than the old one. -/
def connectNew (pindexOldTip : Option Uint256) :
    List Uint256 → ChainState → Option (ConnectFlow × ChainState)
  | [], s => some (.goOn, s)
  | pindexConnect :: rest, s => match s.connectTip env pindexConnect with
    | none => none
    | some (.invalid, s) => some (.stop, s)
    | some (.error, s) => some (.failed, s)
    | some (.connected, s) =>
      let s := s.pruneBlockIndexCandidates env
      if pindexOldTip.elim true fun old => s.chainWork old < s.chainWork pindexConnect then
        some (.stop, s)
      else connectNew pindexOldTip rest s

/-- The list of blocks to connect: from the ancestor at the target height down to the
block above `nHeight`. -/
def toConnect (pindexMostWork : Uint256) (nHeight nTargetHeight : Int) : List Uint256 :=
  ((s.tree.getAncestor pindexMostWork nTargetHeight).elim [] fun pindexIter =>
    (s.tree.ancestry (nTargetHeight.toNat + 1) pindexIter).takeWhile
      fun hash => s.heightOf hash != nHeight)

/-- Connect the way to the best block, 32 heights at a time. -/
def connectChunks (pindexOldTip : Option Uint256) (pindexMostWork : Uint256) :
    Nat → Int → ChainState → Option (Bool × ChainState)
  | 0, _, s => some (true, s)
  | fuel + 1, nHeight, s =>
    if nHeight = s.heightOf pindexMostWork then some (true, s)
    else
      let nTargetHeight := min (nHeight + 32) (s.heightOf pindexMostWork)
      let blocks := (s.toConnect pindexMostWork nHeight nTargetHeight).reverse
      match s.connectNew env pindexOldTip blocks with
      | none => none
      | some (.goOn, s) => connectChunks pindexOldTip pindexMostWork fuel nTargetHeight s
      | some (.stop, s) => some (true, s)
      | some (.failed, s) => some (false, s)

/-- The reorganisation would go below the notarized height. -/
def pastNotarized (pindexOldTip pindexFork : Option Uint256) : Bool :=
  match pindexOldTip, pindexFork with
  | some old, some fork =>
    decide (env.notarizedHeight < s.heightOf old ∧ s.heightOf fork < env.notarizedHeight)
  | _, _ => false

/-- The number of blocks to disconnect. -/
def reorgLength (pindexOldTip pindexFork : Option Uint256) : Int :=
  pindexOldTip.elim 0 fun old => s.heightOf old - pindexFork.elim (-1) s.heightOf

/-- `ActivateBestChainStep`. The message about a reorganisation that is too long reads
the fork, and the end of the step reads the tip. -/
def activateBestChainStep (fSkipdpow : Bool) (pindexMostWork : Uint256) :
    Option (Bool × ChainState) :=
  let pindexOldTip := s.tip
  let pindexFork := s.chainActive.findFork s.tree pindexMostWork
  if !fSkipdpow && s.pastNotarized env pindexOldTip pindexFork then some (false, s)
  else if (env.maxReorgLength : Int) < s.reorgLength pindexOldTip pindexFork then
    pindexFork.map fun _ => (false, s)
  else match s.disconnectToFork env pindexFork s.chainActive.length with
    | none => none
    | some (false, s) => some (false, s)
    | some (true, s) => match s.rewindStart env with
      | none => none
      | some s =>
        let nHeight := pindexFork.elim (-1) s.heightOf
        let fuel := (s.heightOf pindexMostWork - nHeight).toNat
        match s.connectChunks env pindexOldTip pindexMostWork fuel nHeight with
        | none => none
        | some (false, s) => some (false, s)
        | some (true, s) => s.tip.map fun _ => (true, s)

end ChainState

end IndexChain.Chain
