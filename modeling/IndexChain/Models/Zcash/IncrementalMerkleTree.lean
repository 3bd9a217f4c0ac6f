import Mathlib.Data.List.Basic

/-!
# Incremental Merkle trees

`IncrementalMerkleTree<Depth, Hash>` of `zcash/IncrementalMerkleTree.cpp`. The
tree keeps the last two leaves and one finished subtree per level. The hash is a
parameter: Sprout trees use the SHA-256 compression function, Sapling trees the
Pedersen hash of an external library.
-/

namespace IndexChain

/-- The node hash of a tree. -/
structure TreeHash (H : Type) where
  /-- The parent of two nodes at a level. -/
  combine : H → H → Nat → H
  /-- The value of an empty leaf. -/
  uncommitted : H

/-- The stored frontier of a tree. -/
structure IncrementalMerkleTree (H : Type) where
  /-- The left leaf of the last pair. -/
  left : Option H := none
  /-- The right leaf of the last pair. -/
  right : Option H := none
  /-- The finished subtrees above, from the bottom. -/
  parents : List (Option H) := []
  deriving DecidableEq, Repr

namespace IncrementalMerkleTree

variable {H : Type}

/-- `EmptyMerkleRoots::empty_root`: the root of an empty subtree. -/
def emptyRootAt (h : TreeHash H) : Nat → H
  | 0 => h.uncommitted
  | d + 1 => h.combine (emptyRootAt h d) (emptyRootAt h d) d

/-- Whether the tree is full to depth `depth`. -/
def isComplete (t : IncrementalMerkleTree H) (depth : Nat) : Bool :=
  t.left.isSome && t.right.isSome && t.parents.length == depth - 1 && t.parents.all Option.isSome

/-- Carry a finished subtree upwards from level `i`; at most `fuel` levels. -/
def carry (h : TreeHash H) (fuel i : Nat) (combined : H) :
    List (Option H) → List (Option H)
  | [] => if fuel = 0 then [] else [some combined]
  | some p :: ps =>
    if fuel = 0 then some p :: ps
    else none :: carry h (fuel - 1) (i + 1) (h.combine p combined (i + 1)) ps
  | none :: ps => if fuel = 0 then none :: ps else some combined :: ps

/-- Append a leaf; `none` when the tree is full. -/
def append (h : TreeHash H) (depth : Nat) (t : IncrementalMerkleTree H) (obj : H) :
    Option (IncrementalMerkleTree H) :=
  if t.isComplete depth then none
  else match t.left, t.right with
    | none, _ => some { t with left := some obj }
    | some _, none => some { t with right := some obj }
    | some l, some r =>
      some { left := some obj, right := none,
             parents := carry h depth 0 (h.combine l r 0) t.parents }

/-- Fold the subtrees above into a root, filling gaps with empty subtrees. -/
def foldParents (h : TreeHash H) : Nat → H → List (Option H) → Nat × H
  | d, root, [] => (d, root)
  | d, root, some p :: ps => foldParents h (d + 1) (h.combine p root d) ps
  | d, root, none :: ps => foldParents h (d + 1) (h.combine root (emptyRootAt h d) d) ps

/-- Extend a root at level `d` by `n` empty levels. -/
def fillUp (h : TreeHash H) : Nat → Nat → H → H
  | 0, _, root => root
  | n + 1, d, root => fillUp h n (d + 1) (h.combine root (emptyRootAt h d) d)

/-- The root of the tree, with no filler hashes. -/
def root (h : TreeHash H) (depth : Nat) (t : IncrementalMerkleTree H) : H :=
  let r := h.combine (t.left.getD (emptyRootAt h 0)) (t.right.getD (emptyRootAt h 0)) 0
  let (d, r) := foldParents h 1 r t.parents
  fillUp h (depth - d) d r

theorem fillUp_emptyRootAt (h : TreeHash H) (n d : Nat) :
    fillUp h n d (emptyRootAt h d) = emptyRootAt h (d + n) := by
  induction n generalizing d with
  | zero => rfl
  | succ n ih =>
    have hstep : h.combine (emptyRootAt h d) (emptyRootAt h d) d = emptyRootAt h (d + 1) := rfl
    rw [fillUp, hstep, ih, Nat.add_right_comm, Nat.add_assoc]

/-- The root of the empty tree is the empty root of its depth. -/
theorem root_empty (h : TreeHash H) {depth : Nat} (hd : 1 ≤ depth) :
    root h depth {} = emptyRootAt h depth := by
  have hstart : h.combine (emptyRootAt h 0) (emptyRootAt h 0) 0 = emptyRootAt h 1 := rfl
  simp only [root, foldParents, Option.getD_none, hstart]
  rw [fillUp_emptyRootAt, Nat.add_sub_cancel' hd]

end IncrementalMerkleTree

end IndexChain
