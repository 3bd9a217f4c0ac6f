import IndexChain.Core.Words
import IndexChain.Models.Chain.SkipList

/-!
# Sums over a block and its ancestors

`nChainTx`, `nChainSproutValue` and `nChainSaplingValue` add up the transactions and the
values of the shielded pools over a block and all its ancestors. Blocks arrive in any
order: `ReceivedBlockTransactions` links a block, and breadth first all that wait for it,
once its predecessor is linked. `LoadBlockIndexDB` computes the same sums in order of
height. A block that arrives while its predecessor is failed does not wait for it, so it
is not linked when the predecessor arrives after all.

Sums of amounts are `int64_t` and wrap around, and `nChainTx` has 32 bits: that the sums
over a path fit is part of the condition on a step.
-/

namespace IndexChain.Chain

open IndexChain.Core BlockStatus

/-! ## The index with its sums -/

/-- What the transactions of a block put into the Sapling pool, as an exact sum. -/
def saplingSum (vtx : List CTransaction) : Int :=
  (vtx.map fun tx => -tx.valueBalance).sum

/-- What they put into the Sprout pool. -/
def sproutSum (vtx : List CTransaction) : Int :=
  ((vtx.flatMap CTransaction.vjoinsplit).map fun js => js.vpubOld - js.vpubNew).sum

/-- `saplingValue`, an `int64_t` that wraps around. -/
def saplingValue (vtx : List CTransaction) : Int := toInt64 (saplingSum vtx)

/-- `sproutValue`. -/
def sproutValue (vtx : List CTransaction) : Int := toInt64 (sproutSum vtx)

/-- A sum that a `CAmount` holds. -/
def IsAmount (x : Int) : Prop := -2 ^ 63 ≤ x ∧ x < 2 ^ 63

instance (x : Int) : Decidable (IsAmount x) := inferInstanceAs (Decidable (_ ∧ _))

theorem toInt64_of_isAmount {x : Int} (h : IsAmount x) : toInt64 x = x :=
  toInt64_of_range h.1 h.2

/-- The block index with the pool values of each block and their sums. -/
structure SumIndex where
  /-- The index, with `nChainTx`. -/
  chain : ChainState := {}
  /-- `nSproutValue`, none until the block is received. -/
  nSproutValue : Uint256 → Option Int := fun _ => none
  /-- `nChainSproutValue`. -/
  nChainSproutValue : Uint256 → Option Int := fun _ => none
  /-- `nSaplingValue`. -/
  nSaplingValue : Uint256 → Int := fun _ => 0
  /-- `nChainSaplingValue`. -/
  nChainSaplingValue : Uint256 → Option Int := fun _ => none

namespace SumIndex

/-- The predecessor of a block. -/
def pprev (s : SumIndex) (hash : Uint256) : Option Uint256 :=
  (s.chain.tree.find hash).bind CBlockIndex.pprev

/-- The number of transactions of a block, 0 until it is received. -/
def nTx (s : SumIndex) (hash : Uint256) : Nat :=
  (s.chain.tree.find hash).elim 0 CBlockIndex.nTx

section Steps

variable (env : TipEnv) (s : SumIndex)

/-- `AcceptBlockHeader`; a new entry has no values. -/
def acceptBlockHeader (a : HeaderArgs) (nProof : Nat) : SumIndex :=
  let chain := (s.chain.acceptBlockHeader env a nProof).1
  if (s.chain.tree.find a.hash).isNone && (chain.tree.find a.hash).isSome then
    { chain := chain
      nSproutValue := Function.update s.nSproutValue a.hash none
      nChainSproutValue := Function.update s.nChainSproutValue a.hash none
      nSaplingValue := Function.update s.nSaplingValue a.hash 0
      nChainSaplingValue := Function.update s.nChainSaplingValue a.hash none }
  else { s with chain := chain }

/-- The sums of a block over those of its predecessor. -/
def linkBlock (pindex : Uint256) : SumIndex :=
  { s with
    chain := { s.chain.linkBlock pindex with
      nChainTx := Function.update s.chain.nChainTx pindex
        (((s.pprev pindex).elim 0 s.chain.nChainTx + s.nTx pindex) % 2 ^ 32) }
    nChainSproutValue := Function.update s.nChainSproutValue pindex
      (match s.pprev pindex with
        | some pprev => match s.nChainSproutValue pprev, s.nSproutValue pindex with
          | some chainValue, some value => some (toInt64 (chainValue + value))
          | _, _ => none
        | none => s.nSproutValue pindex)
    nChainSaplingValue := Function.update s.nChainSaplingValue pindex
      (match s.pprev pindex with
        | some pprev => match s.nChainSaplingValue pprev with
          | some chainValue => some (toInt64 (chainValue + s.nSaplingValue pindex))
          | none => none
        | none => some (s.nSaplingValue pindex)) }

/-- One block of the queue: its sums, its place among the candidates, and those that
waited for it wait no more. -/
def linkNext (pindex : Uint256) : SumIndex :=
  let s := s.linkBlock pindex
  { s with chain := (s.chain.offerCandidate env pindex).release pindex }

/-- The loop of `ReceivedBlockTransactions` over its queue. -/
def linkQueue : Nat → List Uint256 → SumIndex → SumIndex
  | 0, _, s => s
  | _ + 1, [], s => s
  | fuel + 1, pindex :: queue, s =>
    linkQueue fuel (queue ++ s.chain.waitingFor pindex) (s.linkNext env pindex)

/-- The entry of a block whose transactions have arrived. -/
def receive (pindexNew : Uint256) (vtx : List CTransaction) (nFile : Int) : SumIndex where
  chain :=
    { s.chain.modify pindexNew fun e =>
        e.receivedBlockTransactions (vtx.length % 2 ^ 32) nFile with
      nChainTx := Function.update s.chain.nChainTx pindexNew 0 }
  nSproutValue := Function.update s.nSproutValue pindexNew (some (sproutValue vtx))
  nChainSproutValue := Function.update s.nChainSproutValue pindexNew none
  nSaplingValue := Function.update s.nSaplingValue pindexNew (saplingValue vtx)
  nChainSaplingValue := Function.update s.nChainSaplingValue pindexNew none

/-- `ReceivedBlockTransactions`. -/
def receivedBlockTransactions (pindexNew : Uint256) (vtx : List CTransaction) (nFile : Int) :
    SumIndex :=
  let s := s.receive pindexNew vtx nFile
  match s.pprev pindexNew with
  | none => linkQueue env (s.chain.mapBlocksUnlinked.length + 1) [pindexNew] s
  | some pprev =>
    if s.chain.nChainTx pprev ≠ 0 then
      linkQueue env (s.chain.mapBlocksUnlinked.length + 1) [pindexNew] s
    else if (s.chain.tree.find pprev).elim false fun e => e.isValid validTree then
      { s with chain := { s.chain with
        mapBlocksUnlinked := s.chain.mapBlocksUnlinked ++ [(pprev, pindexNew)] } }
    else s

end Steps

/-! ## Start-up -/

section Load

variable (s : SumIndex)

/-- The index as it is read from disk: sums are not stored. -/
def loadBlockIndexGuts : SumIndex where
  chain := { tree := s.chain.tree }
  nSproutValue := s.nSproutValue
  nSaplingValue := s.nSaplingValue

/-- The sums of one block in the loop of `LoadBlockIndexDB`. -/
def loadBlock (pindex : Uint256) : SumIndex :=
  match s.chain.tree.find pindex with
  | none => s
  | some e =>
    if e.nTx > 0 then
      match e.pprev with
      | some pprev =>
        if s.chain.nChainTx pprev ≠ 0 then
          { s with
            chain := { s.chain with
              nChainTx := Function.update s.chain.nChainTx pindex
                ((s.chain.nChainTx pprev + e.nTx) % 2 ^ 32) }
            nChainSproutValue := Function.update s.nChainSproutValue pindex
              (match s.nChainSproutValue pprev, s.nSproutValue pindex with
                | some chainValue, some value => some (toInt64 (chainValue + value))
                | _, _ => none)
            nChainSaplingValue := Function.update s.nChainSaplingValue pindex
              (match s.nChainSaplingValue pprev with
                | some chainValue => some (toInt64 (chainValue + s.nSaplingValue pindex))
                | none => none) }
        else
          { s with
            chain := { s.chain with
              nChainTx := Function.update s.chain.nChainTx pindex 0
              mapBlocksUnlinked := s.chain.mapBlocksUnlinked ++ [(pprev, pindex)] }
            nChainSproutValue := Function.update s.nChainSproutValue pindex none
            nChainSaplingValue := Function.update s.nChainSaplingValue pindex none }
      | none =>
        { s with
          chain := { s.chain with nChainTx := Function.update s.chain.nChainTx pindex e.nTx }
          nChainSproutValue := Function.update s.nChainSproutValue pindex (s.nSproutValue pindex)
          nChainSaplingValue :=
            Function.update s.nChainSaplingValue pindex (some (s.nSaplingValue pindex)) }
    else s

/-- `LoadBlockIndexDB`, as far as the sums go. `vSortedByHeight` are the blocks by height,
and at one height by address. -/
def loadBlockIndexDB (vSortedByHeight : List Uint256) : SumIndex :=
  vSortedByHeight.foldl loadBlock s.loadBlockIndexGuts

/-- All blocks, each height after the lower ones. -/
structure SortedByHeight (vSortedByHeight : List Uint256) : Prop where
  /-- Every block of the index is there. -/
  all : ∀ hash e, s.chain.tree.find hash = some e → hash ∈ vSortedByHeight
  /-- Heights do not fall. -/
  sorted : vSortedByHeight.Pairwise fun a b => s.chain.heightOf a ≤ s.chain.heightOf b

end Load

/-! ## Runs -/

/-- The steps that change the index. -/
inductive Step where
  /-- A header arrives. -/
  | acceptBlockHeader (a : HeaderArgs) (nProof : Nat)
  /-- The transactions of a block arrive. -/
  | receivedBlockTransactions (pindexNew : Uint256) (vtx : List CTransaction) (nFile : Int)
  /-- Another function changes the marks of an entry. -/
  | mark (pindex : Uint256) (nStatus : BlockStatus)
  /-- The node starts again. -/
  | loadBlockIndexDB (vSortedByHeight : List Uint256)

variable (env : TipEnv)

/-- One step. -/
def step (s : SumIndex) : Step → SumIndex
  | .acceptBlockHeader a nProof => s.acceptBlockHeader env a nProof
  | .receivedBlockTransactions pindexNew vtx nFile =>
    s.receivedBlockTransactions env pindexNew vtx nFile
  | .mark pindex nStatus =>
    { s with chain := s.chain.modify pindex fun e => { e with nStatus := nStatus } }
  | .loadBlockIndexDB vSortedByHeight => s.loadBlockIndexDB vSortedByHeight

/-- A list of steps. -/
def run (s : SumIndex) (steps : List Step) : SumIndex :=
  steps.foldl (step env) s

/-! ## The sums -/

variable (s : SumIndex)

/-- The block and its ancestors. -/
def path (hash : Uint256) : List Uint256 :=
  s.chain.tree.ancestry ((s.chain.heightOf hash).toNat + 1) hash

/-- Their transactions are there. -/
def PathReceived (hash : Uint256) : Prop :=
  ∀ id ∈ s.path hash, s.nTx id ≠ 0

instance (hash : Uint256) : Decidable (s.PathReceived hash) :=
  List.decidableBAll _ _

/-- The transactions of the block and its ancestors. -/
def pathTx (hash : Uint256) : Nat :=
  ((s.path hash).map s.nTx).sum

/-- The Sprout values of the block and its ancestors, if all of them have one. -/
def pathSprout (hash : Uint256) : Option Int :=
  ((s.path hash).mapM s.nSproutValue).map List.sum

/-- Their Sapling values. -/
def pathSapling (hash : Uint256) : Int :=
  ((s.path hash).map s.nSaplingValue).sum

/-- The sums over the block and its ancestors fit into their types. -/
def Fits (hash : Uint256) : Prop :=
  s.pathTx hash < 2 ^ 32 ∧ (∀ value ∈ s.pathSprout hash, IsAmount value) ∧
    IsAmount (s.pathSapling hash)

instance (hash : Uint256) : Decidable (s.Fits hash) := inferInstanceAs (Decidable (_ ∧ _ ∧ _))

/-- The sums of a block are those of the block and its ancestors. -/
structure Summed (hash : Uint256) : Prop where
  /-- All of them are received. -/
  received : s.PathReceived hash
  /-- Their transactions. -/
  nChainTx : s.chain.nChainTx hash = s.pathTx hash
  /-- Their Sprout values. -/
  sprout : s.nChainSproutValue hash = s.pathSprout hash
  /-- Their Sapling values. -/
  sapling : s.nChainSaplingValue hash = some (s.pathSapling hash)

/-- An index as it can be on disk: heights count the steps from a root, and the sums over
the paths of received blocks fit. -/
structure OnDisk : Prop where
  /-- The predecessor of a block is there, one lower. -/
  path : CChain.Linked s.chain.tree []
  /-- No height is negative. -/
  height : ∀ hash p n, s.chain.tree.link hash = some (p, n) → 0 ≤ n
  /-- The transactions of a path can be counted, and its values added up. -/
  small : ∀ hash, s.PathReceived hash → s.Fits hash

/-- The condition on a step. A received block has an entry and transactions; its values fit,
and so do the sums over any path then received; its predecessor is linked or not failed; and
it has the values it had when it was received before. -/
def StepOk : Step → Prop
  | .receivedBlockTransactions pindexNew vtx nFile =>
    ((s.chain.tree.find pindexNew).isSome = true ∧ 0 < vtx.length ∧ vtx.length < 2 ^ 32 ∧
      ∀ hash, let s' := s.receive pindexNew vtx nFile
        s'.PathReceived hash → s'.Fits hash) ∧
      (IsAmount (sproutSum vtx) ∧ IsAmount (saplingSum vtx)) ∧
      (∀ p, s.pprev pindexNew = some p → s.chain.nChainTx p = 0 →
        (s.chain.tree.find p).any (fun e => e.isValid validTree) = true) ∧
      (s.nTx pindexNew ≠ 0 → s.nTx pindexNew = vtx.length ∧
        s.nSproutValue pindexNew = some (sproutSum vtx) ∧
          s.nSaplingValue pindexNew = saplingSum vtx)
  | .loadBlockIndexDB vSortedByHeight => s.SortedByHeight vSortedByHeight
  | _ => True

/-- Every step of a run meets the condition. -/
def RunOk (s : SumIndex) : List Step → Prop
  | [] => True
  | step :: steps => s.StepOk step ∧ RunOk (s.step env step) steps

/-! ## Paths -/

section Paths

variable {s s' : SumIndex} {hash id p : Uint256} {n : Int} {e : CBlockIndex}

/-- A block with transactions has an entry. -/
theorem find_of_nTx (h : s.nTx hash ≠ 0) :
    ∃ e, s.chain.tree.find hash = some e ∧ e.nTx = s.nTx hash := by
  unfold nTx at h ⊢
  cases he : s.chain.tree.find hash with
  | none =>
    rw [he] at h
    exact absurd rfl h
  | some e => exact ⟨e, rfl, rfl⟩

/-- The path of a block is the block and the path of its predecessor. -/
theorem path_eq_cons (h : s.OnDisk) (he : s.chain.tree.find hash = some e) :
    s.path hash = hash :: (s.pprev hash).elim [] s.path := by
  rw [pprev, he, Option.bind_some]
  exact BlockTree.path_eq_cons h.path h.height he

/-- A path is received when its block is and the path of the predecessor. -/
theorem pathReceived_iff (h : s.OnDisk) (he : s.chain.tree.find hash = some e) :
    s.PathReceived hash ↔ s.nTx hash ≠ 0 ∧ ∀ p, s.pprev hash = some p → s.PathReceived p := by
  unfold PathReceived
  rw [path_eq_cons h he, List.forall_mem_cons]
  cases s.pprev hash with
  | none => simp
  | some p => simp

theorem pathTx_eq (h : s.OnDisk) (he : s.chain.tree.find hash = some e) :
    s.pathTx hash = (s.pprev hash).elim 0 s.pathTx + s.nTx hash := by
  rw [pathTx, path_eq_cons h he, List.map_cons, List.sum_cons, Nat.add_comm]
  cases s.pprev hash with
  | none => rfl
  | some p => rfl

theorem pathSapling_eq (h : s.OnDisk) (he : s.chain.tree.find hash = some e) :
    s.pathSapling hash = (s.pprev hash).elim 0 s.pathSapling + s.nSaplingValue hash := by
  rw [pathSapling, path_eq_cons h he, List.map_cons, List.sum_cons, Int.add_comm]
  cases s.pprev hash with
  | none => rfl
  | some p => rfl

theorem pathSprout_eq (h : s.OnDisk) (he : s.chain.tree.find hash = some e) :
    s.pathSprout hash = match s.pprev hash with
      | some p => match s.pathSprout p, s.nSproutValue hash with
        | some chainValue, some value => some (chainValue + value)
        | _, _ => none
      | none => s.nSproutValue hash := by
  rw [pathSprout, path_eq_cons h he, List.mapM_cons]
  cases s.pprev hash with
  | none =>
    cases hv : s.nSproutValue hash with
    | none => rfl
    | some value => simp
  | some p =>
    simp only [Option.elim_some, pathSprout]
    cases hv : s.nSproutValue hash with
    | none => simp
    | some value =>
      cases hp : (s.path p).mapM s.nSproutValue with
      | none => simp
      | some values => simp [Int.add_comm]

end Paths

end SumIndex

end IndexChain.Chain
