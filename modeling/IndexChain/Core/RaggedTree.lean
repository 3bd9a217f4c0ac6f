import Mathlib.Data.List.Basic
import Mathlib.Tactic.Ring

/-!
# Hash trees over any number of leaves

A binary tree over `n` leaves, with nodes numbered from the left at each height. A node
without a right child hashes its left child with itself. The pairs that are hashed are listed,
so that a hash without a collision is a statement about them: where two nodes of one height
have the same hash, they have the same first leaf (`leaf_of_node_eq`).
-/

namespace IndexChain.Core.Merkle

variable {α : Type*}

/-- The number of nodes at a height over `n` leaves. -/
def width (n height : Nat) : Nat := (n + 2 ^ height - 1) / 2 ^ height

@[simp] theorem width_zero (n : Nat) : width n 0 = n := by
  simp [width]

theorem width_succ (n height : Nat) : width n (height + 1) = (width n height + 1) / 2 := by
  unfold width
  have hpos : 0 < 2 ^ height := Nat.two_pow_pos height
  rw [← Nat.add_div_right _ hpos, Nat.div_div_eq_div_mul, ← Nat.pow_succ]
  congr 1
  rw [Nat.pow_succ]
  omega

/-- A node stands over a leaf. -/
theorem lt_width_iff {n height pos : Nat} : pos < width n height ↔ pos * 2 ^ height < n := by
  unfold width
  have hpos : 0 < 2 ^ height := Nat.two_pow_pos height
  rw [← Nat.succ_le_iff, Nat.le_div_iff_mul_le hpos, Nat.succ_mul]
  omega

/-- The left child of a node. -/
theorem left_lt {n height pos : Nat} (h : pos < width n (height + 1)) :
    pos * 2 < width n height := by
  rw [width_succ] at h
  omega

variable (hash : α → α → α) (n : Nat) (leaf : Nat → α)

/-- The hash of a node. -/
def node : Nat → Nat → α
  | 0, pos => leaf pos
  | height + 1, pos =>
    hash (node height (pos * 2))
      (if pos * 2 + 1 < width n height then node height (pos * 2 + 1) else node height (pos * 2))

/-- What is hashed for a node above the leaves. -/
def nodePair (height pos : Nat) : α × α :=
  (node hash n leaf height (pos * 2),
    if pos * 2 + 1 < width n height then node hash n leaf height (pos * 2 + 1)
    else node hash n leaf height (pos * 2))

theorem node_succ (height pos : Nat) :
    node hash n leaf (height + 1) pos =
      hash (nodePair hash n leaf height pos).1 (nodePair hash n leaf height pos).2 := rfl

/-- What is hashed for all nodes up to a height. -/
def pairs (top : Nat) : List (α × α) :=
  (List.range top).flatMap fun height =>
    (List.range (width n (height + 1))).map (nodePair hash n leaf height)

variable {hash n leaf}

theorem nodePair_mem {top height pos : Nat} (hheight : height < top)
    (hpos : pos < width n (height + 1)) :
    nodePair hash n leaf height pos ∈ pairs hash n leaf top :=
  List.mem_flatMap.2 ⟨height, List.mem_range.2 hheight,
    List.mem_map.2 ⟨pos, List.mem_range.2 hpos, rfl⟩⟩

variable (hash) in
/-- No pair of one list has the hash of another pair of the other list. -/
def NoCollision (ps qs : List (α × α)) : Prop :=
  ∀ p ∈ ps, ∀ q ∈ qs, hash p.1 p.2 = hash q.1 q.2 → p = q

instance [DecidableEq α] (ps qs : List (α × α)) : Decidable (NoCollision hash ps qs) :=
  inferInstanceAs (Decidable (∀ _ ∈ ps, ∀ _ ∈ qs, _ → _))

/-- Nodes of one height with the same hash have the same first leaf. -/
theorem leaf_of_node_eq {top : Nat}
    (hfree : NoCollision hash (pairs hash n leaf top) (pairs hash n leaf top)) {height p q : Nat}
    (hheight : height ≤ top) (hp : p < width n height) (hq : q < width n height)
    (heq : node hash n leaf height p = node hash n leaf height q) :
    leaf (p * 2 ^ height) = leaf (q * 2 ^ height) := by
  induction height generalizing p q with
  | zero =>
    rw [Nat.pow_zero, Nat.mul_one, Nat.mul_one]
    exact heq
  | succ height ih =>
    rw [node_succ, node_succ] at heq
    have hpair := hfree _ (nodePair_mem hheight hp) _ (nodePair_mem hheight hq) heq
    have hleft := ih (Nat.le_of_succ_le hheight) (left_lt hp) (left_lt hq)
      (congrArg Prod.fst hpair)
    rwa [Nat.mul_assoc, Nat.mul_assoc, ← Nat.pow_succ'] at hleft

/-- The two children of a node differ when the leaves do. -/
theorem children_ne {top : Nat}
    (hfree : NoCollision hash (pairs hash n leaf top) (pairs hash n leaf top))
    (hleaf : ∀ i < n, ∀ j < n, leaf i = leaf j → i = j) {height pos : Nat}
    (hheight : height ≤ top) (hpos : pos * 2 + 1 < width n height) :
    node hash n leaf height (pos * 2 + 1) ≠ node hash n leaf height (pos * 2) := by
  intro heq
  have hleft : pos * 2 < width n height := by omega
  have hfirst := leaf_of_node_eq hfree hheight hpos hleft heq
  have hindex := hleaf _ (lt_width_iff.1 hpos) _ (lt_width_iff.1 hleft) hfirst
  have hne := Nat.eq_of_mul_eq_mul_right (Nat.two_pow_pos height) hindex
  omega

end IndexChain.Core.Merkle
