import IndexChain.Models.Chain.ActiveChain

/-!
# Candidates for the next tip

The steps of `main.cpp` that add blocks to `setBlockIndexCandidates`, on top of those of
the active chain: headers get their chain work, received blocks are linked with those
that wait for them, and reconsidered blocks come back. `CandidateLaw` is what
`CheckBlockIndex` asserts of the set, with a block in the place of the tip. `best` is
not part of the program: it is the best tip since `InvalidateBlock` last filled the set.
-/

namespace IndexChain.Chain

open BlockStatus

/-- The block is on disk. -/
def CBlockIndex.hasData (e : CBlockIndex) : Bool :=
  e.nStatus &&& haveData != 0

namespace ChainState

variable (env : TipEnv) (s : ChainState)

/-! ## Headers -/

/-- The end of `AddToBlockIndex`: a new entry is not linked, and has the work of its
predecessor and its own. -/
def newEntry (hash : Uint256) (nProof : Nat) : ChainState :=
  { s with
    nChainTx := Function.update s.nChainTx hash 0
    nSequenceId := Function.update s.nSequenceId hash 0
    chainWork := Function.update s.chainWork hash
      (((s.tree.find hash).bind CBlockIndex.pprev).elim 0 s.chainWork + nProof) }

/-- `AcceptBlockHeader`; `nProof` is `GetBlockProof` of the block. -/
def acceptBlockHeader (a : HeaderArgs) (nProof : Nat) : ChainState × HeaderResult :=
  let (tree, r) := s.tree.acceptBlockHeader env.toChainEnv a
  let isNew := (s.tree.find a.hash).isNone && (tree.find a.hash).isSome
  let s := { s with tree := tree }
  (if isNew then s.newEntry a.hash nProof else s, r)

/-! ## Received blocks -/

/-- Give a block its place in the order of linked blocks. -/
def linkBlock (pindex : Uint256) : ChainState :=
  { s with
    nChainTx := Function.update s.nChainTx pindex
      ((((s.tree.find pindex).bind CBlockIndex.pprev).elim 0 s.nChainTx +
        (s.tree.find pindex).elim 0 CBlockIndex.nTx) % 2 ^ 32)
    nSequenceId := Function.update s.nSequenceId pindex s.nBlockSequenceId
    nBlockSequenceId := s.nBlockSequenceId + 1 }

/-- A block that is not worse than the tip becomes a candidate. -/
def offerCandidate (pindex : Uint256) : ChainState :=
  { s with
    setBlockIndexCandidates := Function.update s.setBlockIndexCandidates pindex
      (s.setBlockIndexCandidates pindex || !s.worseThanTip env pindex) }

/-- The blocks that wait for a block. -/
def waitingFor (pindex : Uint256) : List Uint256 :=
  (s.mapBlocksUnlinked.filter fun x => x.1 == pindex).map Prod.snd

/-- They wait no more. -/
def release (pindex : Uint256) : ChainState :=
  { s with mapBlocksUnlinked := s.mapBlocksUnlinked.filter fun x => x.1 != pindex }

/-- The loop of `ReceivedBlockTransactions` over its queue. -/
def linkQueue : Nat → List Uint256 → ChainState → ChainState
  | 0, _, s => s
  | _ + 1, [], s => s
  | fuel + 1, pindex :: queue, s =>
    let s := (s.linkBlock pindex).offerCandidate env pindex
    linkQueue fuel (queue ++ s.waitingFor pindex) (s.release pindex)

/-- The entry of a new block is written. -/
def onDisk (pindexNew : Uint256) (nTx : Nat) (nFile : Int) : ChainState :=
  { s.modify pindexNew fun e => e.receivedBlockTransactions nTx nFile with
    nChainTx := Function.update s.nChainTx pindexNew 0 }

/-- `ReceivedBlockTransactions`. Every block is at most once in the queue. -/
def receivedBlockTransactions (pindexNew : Uint256) (nTx : Nat) (nFile : Int) : ChainState :=
  let s := s.onDisk pindexNew nTx nFile
  match (s.tree.find pindexNew).bind CBlockIndex.pprev with
  | none => linkQueue env (s.mapBlocksUnlinked.length + 1) [pindexNew] s
  | some pprev =>
    if s.nChainTx pprev ≠ 0 then linkQueue env (s.mapBlocksUnlinked.length + 1) [pindexNew] s
    else if (s.tree.find pprev).elim false fun e => e.isValid validTree then
      { s with mapBlocksUnlinked := s.mapBlocksUnlinked ++ [(pprev, pindexNew)] }
    else s

/-! ## ReconsiderBlock -/

/-- A block whose marks the loop of `ReconsiderBlock` clears. -/
def reconsiders (pindex hash : Uint256) : Bool :=
  (s.tree.find hash).elim false fun e =>
    !e.isValid validTransactions && s.tree.getAncestor hash (s.heightOf pindex) == some pindex

/-- `ReconsiderBlock`: blocks whose marks the loop clears come back if they are better than
the tip. -/
def reconsiderBlock (pindex : Uint256) : ChainState :=
  { s with
    tree := s.tree.reconsiderBlock pindex
    setBlockIndexCandidates := fun hash => s.setBlockIndexCandidates hash ||
      s.reconsiders pindex hash &&
        ((s.tree.find hash).elim false fun e =>
          (e.clearStatus failedMask).isValid validTransactions) &&
        s.nChainTx hash != 0 && s.tip.elim false fun tip => s.workLess env tip hash }

/-! ## The law -/

/-- The block and its ancestors off the active chain are on disk. -/
def dataToFork (hash : Uint256) : Bool :=
  (s.tree.ancestry ((s.heightOf hash).toNat + 1) hash).all fun id =>
    s.chainActive.contains s.tree id || (s.tree.find id).elim false CBlockIndex.hasData

/-- The law of the candidates: linked blocks that are not failed, have their data and are
not worse than `ref` are there, but for those in `cleared`, and no block that is worse
than the tip or not linked. -/
structure CandidateLaw (ref : Uint256) (cleared : Uint256 → Bool) : Prop where
  /-- These blocks are candidates. -/
  present : ∀ hash e, s.tree.find hash = some e → s.nChainTx hash ≠ 0 → e.failed = false →
    s.dataToFork hash = true → s.workLess env hash ref = false → cleared hash = false →
    s.setBlockIndexCandidates hash = true
  /-- Candidates are linked. -/
  linked : ∀ hash, s.setBlockIndexCandidates hash = true → s.nChainTx hash ≠ 0
  /-- They are not worse than the tip. -/
  notWorse : ∀ hash, s.setBlockIndexCandidates hash = true → s.worseThanTip env hash = false

end ChainState

/-! ## Runs -/

/-- The block and its ancestors. -/
def BlockTree.path (t : BlockTree) (hash : Uint256) : List Uint256 :=
  t.ancestry (((t.find hash).elim 0 CBlockIndex.nHeight).toNat + 1) hash

/-- The transactions up to a block, counted from its last linked ancestor. -/
def ChainState.pathTx (s : ChainState) (hash : Uint256) : Nat :=
  (s.tree.path hash).foldr (fun id n =>
    if s.nChainTx id = 0 then (s.tree.find id).elim 0 CBlockIndex.nTx + n else s.nChainTx id) 0

/-- A state with what has happened since the candidates were last filled. -/
structure Watch where
  /-- The state. -/
  state : ChainState
  /-- The best tip. -/
  best : Uint256
  /-- The blocks whose marks were cleared by their header, or by `ReconsiderBlock` as an
  ancestor or as the tip. None of these steps makes the block a candidate. -/
  cleared : Uint256 → Bool

/-- The steps that touch the candidates. -/
inductive CandidateStep where
  | acceptBlockHeader (a : HeaderArgs) (nProof : Nat)
  | receivedBlockTransactions (pindexNew : Uint256) (nTx : Nat) (nFile : Int)
  | connectTip (pindexNew : Uint256)
  | disconnectTip
  | invalidateBlock (pindex : Uint256)
  | reconsiderBlock (pindex : Uint256)

namespace Watch

variable (env : TipEnv) (w : Watch)

/-- The tip has moved up. -/
def moveUp (s : ChainState) (tip : Uint256) : Watch :=
  { w with
    state := s
    best := if s.workLess env w.best tip then tip else w.best }

/-- The marks of failed blocks are cleared. -/
def clear (p : Uint256 → Bool) : Uint256 → Bool := fun hash =>
  w.cleared hash || p hash && (w.state.tree.find hash).elim false CBlockIndex.failed

/-- One step; `ConnectTip` is followed by `PruneBlockIndexCandidates`. -/
def step : CandidateStep → Option Watch
  | .acceptBlockHeader a nProof => some
    { w with
      state := (w.state.acceptBlockHeader env a nProof).1
      cleared := w.clear fun hash => env.assetchainsCC && hash == a.hash }
  | .receivedBlockTransactions pindexNew nTx nFile =>
    some { w with state := w.state.receivedBlockTransactions env pindexNew nTx nFile }
  | .connectTip pindexNew => (w.state.connectTip env pindexNew).map fun r =>
    match r.1 with
    | .connected => w.moveUp env (r.2.pruneBlockIndexCandidates env) pindexNew
    | _ => { w with state := r.2 }
  | .disconnectTip => (w.state.disconnectTip env).map fun r => { w with state := r.2 }
  | .invalidateBlock pindex => (w.state.invalidateBlock env pindex).map fun r =>
    if r.1 then { state := r.2, best := r.2.tip.getD w.best, cleared := fun _ => false }
    else { w with state := r.2 }
  | .reconsiderBlock pindex => some
    { w with
      state := w.state.reconsiderBlock env pindex
      cleared := w.clear fun hash =>
        (w.state.tree.ancestry ((w.state.heightOf pindex).toNat + 1) pindex).tail.contains hash ||
          w.state.tip == some hash }

/-- A list of steps. -/
def run : List CandidateStep → Watch → Option Watch
  | [], w => some w
  | step :: steps, w => (w.step env step).bind (run steps)

/-- What the callers see to: a header has work, a received block is new, not failed and has
transactions, of which fewer than `2 ^ 32` are on the path to any block that may be linked
now, and a connected block is linked. -/
def StepOk : CandidateStep → Prop
  | .acceptBlockHeader _ nProof => 0 < nProof
  | .receivedBlockTransactions pindexNew nTx nFile => 0 < nTx ∧
    (w.state.tree.find pindexNew).any (fun e => !e.hasData && !e.failed) = true ∧
      ∀ id ∈ pindexNew :: w.state.mapBlocksUnlinked.map Prod.snd,
        (w.state.onDisk pindexNew nTx nFile).pathTx id < 2 ^ 32
  | .connectTip pindexNew => w.state.nChainTx pindexNew ≠ 0
  | .disconnectTip => True
  | .invalidateBlock _ => True
  | .reconsiderBlock _ => True

instance (step : CandidateStep) : Decidable (w.StepOk step) :=
  match step with
  | .acceptBlockHeader _ _ => Nat.decLt _ _
  | .receivedBlockTransactions pindexNew nTx nFile =>
    have : Decidable (∀ id ∈ pindexNew :: w.state.mapBlocksUnlinked.map Prod.snd,
        (w.state.onDisk pindexNew nTx nFile).pathTx id < 2 ^ 32) := List.decidableBAll _ _
    inferInstanceAs (Decidable (_ ∧ _ ∧ _))
  | .connectTip _ => instDecidableNot
  | .disconnectTip => isTrue trivial
  | .invalidateBlock _ => isTrue trivial
  | .reconsiderBlock _ => isTrue trivial

/-- Every step of a run is as the callers see to. -/
def RunOk : List CandidateStep → Watch → Prop
  | [], _ => True
  | step :: steps, w => w.StepOk step ∧ ∀ w', w.step env step = some w' → RunOk steps w'

instance decidableRunOk : (steps : List CandidateStep) → (w : Watch) →
    Decidable (w.RunOk env steps)
  | [], _ => isTrue trivial
  | step :: steps, w =>
    have (w' : Watch) : Decidable (RunOk env steps w') := decidableRunOk steps w'
    have : Decidable (∀ w', w.step env step = some w' → RunOk env steps w') :=
      decidable_of_iff ((w.step env step).all fun w' => decide (RunOk env steps w'))
        (by simp [Option.all_eq_true])
    instDecidableAnd

end Watch

end IndexChain.Chain
