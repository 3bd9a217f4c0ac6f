import IndexChain.Core.Serialize
import IndexChain.Models.Primitives.Transaction
import IndexChain.Models.Zcash.Frontier

/-!
# Incremental witnesses

`IncrementalWitness<Depth, Hash>` of `zcash/IncrementalMerkleTree.cpp`: a tree kept as
it was when a leaf was appended, the roots of the subtrees filled to its right since,
and a cursor, the tree of the subtree that is being filled. The depth of the cursor is
not serialised.
-/

namespace IndexChain

open IndexChain.Core (Reader writeOptional writeVector)

/-- `MerklePath`: the hashes next to the way from the root down to a leaf, and the
sides of that way. The hashes are kept whole, not spelt in bits. -/
structure MerklePath (H : Type) where
  /-- The hash next to each step, the one below the root first. -/
  authenticationPath : List H
  /-- Whether each step goes to the right. -/
  index : List Bool
  deriving DecidableEq, Repr

namespace MerklePath

variable {H : Type}

/-- The number whose digits are the index, the highest first. -/
def position (p : MerklePath H) : Nat :=
  Core.bitsValue p.index.reverse

/-- The root that a leaf hashes to along the path. -/
def rootFrom (h : TreeHash H) (p : MerklePath H) (leaf : H) : H :=
  Core.climb h.combine 0 leaf (p.index.reverse.zip p.authenticationPath.reverse)

end MerklePath

/-- How a hash is written and read. -/
structure HashCodec (H : Type) where
  write : H → List UInt8
  read : Reader H
  /-- What is written is read back. -/
  reads : ∀ x, Reader.Reads read (write x) x

/-- The 32 bytes of a `uint256`. -/
def uint256Codec : HashCodec Uint256 where
  write x := Core.leBytes 32 x.toNat
  read := do
    let n ← Reader.nat 32
    return BitVec.ofNat 256 n
  reads x := by
    have hlt : x.toNat < 256 ^ 32 := x.isLt
    refine (Reader.Reads.nat hlt).bind_pure ?_
    rw [BitVec.ofNat_toNat, BitVec.setWidth_eq]
    exact Reader.Reads.pure x

namespace IncrementalMerkleTree

variable {H : Type} (h : TreeHash H) (codec : HashCodec H) (depth : Nat)

/-- The part of `path` above the parents, `n` levels from level `d`. -/
def pathAbove : Nat → Nat → List H → List (Bool × H)
  | 0, _, _ => []
  | n + 1, d, queue =>
    let (f, queue) := fillerNext h queue d
    (false, f) :: pathAbove n (d + 1) queue

/-- The part of `path` over the parents and above them, from level `d`. -/
def pathFrom : Nat → List (Option H) → List H → List (Bool × H)
  | d, [], queue => pathAbove h (depth - d) d queue
  | d, some p :: ps, queue => (true, p) :: pathFrom (d + 1) ps queue
  | d, none :: ps, queue =>
    let (f, queue) := fillerNext h queue d
    (false, f) :: pathFrom (d + 1) ps queue

/-- `path(filler_hashes)`; `none` when the tree is empty. -/
def path (t : IncrementalMerkleTree H) (filler : List H) : Option (MerklePath H) :=
  match t.left with
  | none => none
  | some l =>
    let steps := match t.right with
      | some _ => (true, l) :: pathFrom h depth 1 t.parents filler
      | none =>
        let (f, queue) := fillerNext h filler 0
        (false, f) :: pathFrom h depth 1 t.parents queue
    some
      { authenticationPath := (steps.map Prod.snd).reverse
        index := (steps.map Prod.fst).reverse }

/-- The loop of `next_depth` over the parents, from level `d`. -/
def nextDepthFrom : Nat → List (Option H) → Nat → Nat
  | d, [], skip => d + skip
  | d, some _ :: ps, skip => nextDepthFrom (d + 1) ps skip
  | d, none :: _, 0 => d
  | d, none :: ps, skip + 1 => nextDepthFrom (d + 1) ps skip

/-- `next_depth(skip)`: the level of the next unfilled subtree, `skip` of them being
filled. -/
def nextDepth (t : IncrementalMerkleTree H) (skip : Nat) : Nat :=
  if t.left.isNone && skip == 0 then 0
  else
    let skip := if t.left.isNone then skip - 1 else skip
    if t.right.isNone && skip == 0 then 0
    else
      let skip := if t.right.isNone then skip - 1 else skip
      nextDepthFrom 1 t.parents skip

/-- The bytes of the fields of a tree. -/
def fieldBytes (t : IncrementalMerkleTree H) : List UInt8 :=
  writeOptional codec.write t.left ++
    (writeOptional codec.write t.right ++ writeVector (writeOptional codec.write) t.parents)

/-- `SerializationOp`, reading. -/
def unserialize : Reader (IncrementalMerkleTree H) := do
  let left ← Reader.optional codec.read
  let right ← Reader.optional codec.read
  let parents ← Reader.vectorOf (Reader.optional codec.read)
  if wfcheck depth { left := left, right := right, parents := parents } = false then Reader.fail
  else return { left := left, right := right, parents := parents }

/-- A canonical tree is read back. -/
theorem reads_unserialize {t : IncrementalMerkleTree H} (hwf : t.wfcheck depth = true)
    (hdepth : depth ≤ 0x02000000) :
    Reader.Reads (unserialize codec depth) (fieldBytes codec t) t := by
  have hlen : t.parents.length ≤ 0x02000000 := by
    have hlt : t.parents.length < depth := by
      by_contra hge
      rw [wfcheck, decide_eq_true (Nat.not_lt.1 hge)] at hwf
      exact absurd hwf (by simp)
    omega
  have hhash : ∀ (x : Option H), Reader.Reads (Reader.optional codec.read)
      (writeOptional codec.write x) x :=
    fun x => Reader.Reads.optional fun y _ => codec.reads y
  refine (hhash t.left).bind ((hhash t.right).bind ?_)
  refine (Reader.Reads.vectorOf hlen fun x _ => hhash x).bind_pure ?_
  exact Reader.Reads.guard t (by rw [hwf]; exact Bool.noConfusion)

end IncrementalMerkleTree

/-- The witness of a leaf. -/
structure IncrementalWitness (H : Type) where
  /-- The tree when the leaf had been appended. -/
  tree : IncrementalMerkleTree H
  /-- The roots of the subtrees filled since, from the bottom. -/
  filled : List H := []
  /-- The subtree that is being filled. -/
  cursor : Option (IncrementalMerkleTree H) := none
  /-- The level of the root of the cursor's subtree. -/
  cursorDepth : Nat := 0
  deriving DecidableEq, Repr

namespace IncrementalWitness

variable {H : Type} (h : TreeHash H) (codec : HashCodec H) (depth : Nat)

/-- `partial_path`: the filled subtrees and the cursor's. -/
def partialPath (w : IncrementalWitness H) : List H :=
  match w.cursor with
  | some c => w.filled ++ [c.root h w.cursorDepth]
  | none => w.filled

/-- `path()`. -/
def path (w : IncrementalWitness H) : Option (MerklePath H) :=
  w.tree.path h depth (w.partialPath h)

/-- `root()`. -/
def root (w : IncrementalWitness H) : H :=
  w.tree.rootWith h depth (w.partialPath h)

/-- `append(obj)`; `none` when the tree is full. -/
def append (w : IncrementalWitness H) (obj : H) : Option (IncrementalWitness H) :=
  match w.cursor with
  | some c =>
    (c.append h depth obj).map fun c =>
      if c.isComplete w.cursorDepth then
        { w with filled := w.filled ++ [c.root h w.cursorDepth], cursor := none }
      else { w with cursor := some c }
  | none =>
    let cursorDepth := w.tree.nextDepth w.filled.length
    if depth ≤ cursorDepth then none
    else if cursorDepth = 0 then
      some { w with filled := w.filled ++ [obj], cursorDepth := cursorDepth }
    else
      (IncrementalMerkleTree.append h depth {} obj).map fun c =>
        { w with cursor := some c, cursorDepth := cursorDepth }

/-- `SerializationOp`, writing; `none` when a tree in it is not canonical. -/
def serialize (w : IncrementalWitness H) : Option (List UInt8) :=
  if w.tree.wfcheck depth && w.cursor.all (IncrementalMerkleTree.wfcheck depth) then
    some (w.tree.fieldBytes codec ++ (writeVector codec.write w.filled ++
      writeOptional (IncrementalMerkleTree.fieldBytes codec) w.cursor))
  else none

/-- `SerializationOp`, reading: the depth of the cursor is computed from the rest. -/
def unserialize : Reader (IncrementalWitness H) := do
  let tree ← IncrementalMerkleTree.unserialize codec depth
  let filled ← Reader.vectorOf codec.read
  let cursor ← Reader.optional (IncrementalMerkleTree.unserialize codec depth)
  return { tree := tree, filled := filled, cursor := cursor,
           cursorDepth := tree.nextDepth filled.length }

/-- Serialise the witness and read it back. -/
def reload (w : IncrementalWitness H) : Option (IncrementalWitness H) :=
  (w.serialize codec depth).bind fun bs => (unserialize codec depth bs).map Prod.fst

/-- What reading back leaves of a witness with canonical trees. -/
theorem reload_eq {w : IncrementalWitness H} (htree : w.tree.wfcheck depth = true)
    (hcursor : ∀ c ∈ w.cursor, c.wfcheck depth = true) (hfilled : w.filled.length ≤ 0x02000000)
    (hdepth : depth ≤ 0x02000000) :
    w.reload codec depth = some { w with cursorDepth := w.tree.nextDepth w.filled.length } := by
  have hall : w.cursor.all (IncrementalMerkleTree.wfcheck depth) = true := by
    cases hc : w.cursor with
    | none => rfl
    | some c => exact hcursor c hc
  have hreads : Reader.Reads (unserialize codec depth)
      (w.tree.fieldBytes codec ++ (writeVector codec.write w.filled ++
        writeOptional (IncrementalMerkleTree.fieldBytes codec) w.cursor))
      { w with cursorDepth := w.tree.nextDepth w.filled.length } := by
    refine (IncrementalMerkleTree.reads_unserialize codec depth htree hdepth).bind ?_
    refine (Reader.Reads.vectorOf hfilled fun x _ => codec.reads x).bind ?_
    refine (Reader.Reads.optional fun c hc =>
      IncrementalMerkleTree.reads_unserialize codec depth (hcursor c hc) hdepth).bind_pure ?_
    exact Reader.Reads.pure _
  have hread := hreads []
  rw [List.append_nil] at hread
  rw [reload, serialize, htree, hall, Bool.and_self, if_pos rfl, Option.bind_some, hread]
  rfl

/-- A step in the life of a witness. -/
inductive WitnessOp (H : Type)
  | append (obj : H)
  | reload
  deriving DecidableEq, Repr

/-- Perform a step. -/
def step (w : IncrementalWitness H) : WitnessOp H → Option (IncrementalWitness H)
  | .append obj => w.append h depth obj
  | .reload => w.reload codec depth

/-- Perform the steps in order. -/
def run (w : IncrementalWitness H) : List (WitnessOp H) → Option (IncrementalWitness H)
  | [] => some w
  | op :: ops => (w.step h codec depth op).bind fun w => w.run ops

/-- The leaves that the steps append. -/
def appended : List (WitnessOp H) → List H
  | [] => []
  | .append obj :: ops => obj :: appended ops
  | .reload :: ops => appended ops

end IncrementalWitness

end IndexChain
