import Mathlib.Algebra.Order.Ring.Nat
import Mathlib.Tactic.Ring

/-!
# Complete binary hash trees

The nodes of a complete binary tree over an infinite sequence of leaves. Node `i`
of level `d` covers the leaves from `i * 2 ^ d` on, `2 ^ d` of them. The hash of two
children may depend on their level.
-/

namespace IndexChain.Core

variable {H : Type*} (combine : H → H → Nat → H)

/-- Node `i` of level `d`. -/
def node (leaf : Nat → H) : Nat → Nat → H
  | 0, i => leaf i
  | d + 1, i => combine (node leaf d (2 * i)) (node leaf d (2 * i + 1)) d

variable {combine} {L M : Nat → H}

/-- A node depends on the leaves it covers. -/
theorem node_congr {d i : Nat}
    (h : ∀ j, i * 2 ^ d ≤ j → j < (i + 1) * 2 ^ d → L j = M j) :
    node combine L d i = node combine M d i := by
  induction d generalizing i with
  | zero => exact h i (by simp) (by simp)
  | succ d ih =>
    have hpow : 2 ^ (d + 1) = 2 * 2 ^ d := by rw [Nat.pow_succ, Nat.mul_comm]
    have hleft : node combine L d (2 * i) = node combine M d (2 * i) := by
      apply ih
      intro j hlo hhi
      apply h j
      · rw [hpow]
        calc i * (2 * 2 ^ d) = 2 * i * 2 ^ d := by ring
          _ ≤ j := hlo
      · rw [hpow]
        calc j < (2 * i + 1) * 2 ^ d := hhi
          _ ≤ (2 * i + 2) * 2 ^ d := Nat.mul_le_mul_right _ (by omega)
          _ = (i + 1) * (2 * 2 ^ d) := by ring
    have hright : node combine L d (2 * i + 1) = node combine M d (2 * i + 1) := by
      apply ih
      intro j hlo hhi
      apply h j
      · rw [hpow]
        calc i * (2 * 2 ^ d) = 2 * i * 2 ^ d := by ring
          _ ≤ (2 * i + 1) * 2 ^ d := Nat.mul_le_mul_right _ (by omega)
          _ ≤ j := hlo
      · rw [hpow]
        calc j < (2 * i + 1 + 1) * 2 ^ d := hhi
          _ = (i + 1) * (2 * 2 ^ d) := by ring
    rw [node, node, hleft, hright]

/-- The nodes of a subtree are those of the tree. -/
theorem node_shift (d u i : Nat) :
    node combine (fun j => L (u * 2 ^ d + j)) d i = node combine L d (u + i) := by
  induction d generalizing u i with
  | zero => simp [node]
  | succ d ih =>
    have hpow : u * 2 ^ (d + 1) = 2 * u * 2 ^ d := by rw [Nat.pow_succ]; ring
    have hleft : 2 * u + 2 * i = 2 * (u + i) := by ring
    have hright : 2 * u + (2 * i + 1) = 2 * (u + i) + 1 := by ring
    rw [node, node, hpow, ih, ih, hleft, hright]

variable (combine) in
/-- The parent of a right child and its sibling. -/
theorem combine_node_odd {d i : Nat} (h : i % 2 = 1) :
    combine (node combine L d (i - 1)) (node combine L d i) d = node combine L (d + 1) (i / 2) := by
  have hleft : i - 1 = 2 * (i / 2) := by omega
  have hright : i = 2 * (i / 2) + 1 := by omega
  rw [node, hleft, ← hright]

variable (combine) in
/-- The parent of a left child and its sibling. -/
theorem combine_node_even {d i : Nat} (h : i % 2 = 0) :
    combine (node combine L d i) (node combine L d (i + 1)) d = node combine L (d + 1) (i / 2) := by
  have hleft : i = 2 * (i / 2) := by omega
  rw [node, ← hleft]

/-! ## Openings -/

/-- The sibling of node `i`. -/
def sibling (i : Nat) : Nat :=
  if i % 2 = 1 then i - 1 else i + 1

variable (combine) in
/-- The siblings on the way from node `i` of level `d` up, `n` levels, each with the
side of the node it belongs to: true for a right child. -/
def opening (leaf : Nat → H) : Nat → Nat → Nat → List (Bool × H)
  | _, _, 0 => []
  | d, i, n + 1 =>
    (decide (i % 2 = 1), node combine leaf d (sibling i)) :: opening leaf (d + 1) (i / 2) n

variable (combine) in
/-- Hash a node of level `d` with its siblings. -/
def climb : Nat → H → List (Bool × H) → H
  | _, r, [] => r
  | d, r, (right, s) :: rest =>
    climb (d + 1) (if right then combine s r d else combine r s d) rest

/-- The number whose binary digits are given, the lowest first. -/
def bitsValue : List Bool → Nat
  | [] => 0
  | b :: bs => (if b then 1 else 0) + 2 * bitsValue bs

@[simp] theorem length_opening (d i n : Nat) : (opening combine L d i n).length = n := by
  induction n generalizing d i with
  | zero => rfl
  | succ n ih => rw [opening, List.length_cons, ih]

/-- Hashing a node with its siblings gives the root. -/
theorem climb_opening {d i n : Nat} (hi : i < 2 ^ n) :
    climb combine d (node combine L d i) (opening combine L d i n) =
      node combine L (d + n) 0 := by
  induction n generalizing d i with
  | zero =>
    have hzero : i = 0 := by simpa using hi
    rw [hzero]
    rfl
  | succ n ih =>
    have hhalf : i / 2 < 2 ^ n := by
      rw [Nat.pow_succ] at hi
      omega
    have hstep : (if decide (i % 2 = 1) = true then
        combine (node combine L d (sibling i)) (node combine L d i) d
        else combine (node combine L d i) (node combine L d (sibling i)) d) =
        node combine L (d + 1) (i / 2) := by
      by_cases hodd : i % 2 = 1
      · rw [decide_eq_true hodd, if_pos rfl, sibling, if_pos hodd]
        exact combine_node_odd combine hodd
      · have heven : i % 2 = 0 := by omega
        rw [decide_eq_false hodd, if_neg Bool.false_ne_true, sibling, if_neg hodd]
        exact combine_node_even combine heven
    rw [opening, climb, hstep, ih hhalf]
    congr 1
    omega

/-- The sides of an opening are the digits of the position. -/
theorem bitsValue_opening {d i n : Nat} (hi : i < 2 ^ n) :
    bitsValue ((opening combine L d i n).map Prod.fst) = i := by
  induction n generalizing d i with
  | zero =>
    have hzero : i = 0 := by simpa using hi
    rw [hzero]
    rfl
  | succ n ih =>
    have hhalf : i / 2 < 2 ^ n := by
      rw [Nat.pow_succ] at hi
      omega
    rw [opening, List.map_cons, bitsValue, ih hhalf]
    by_cases hodd : i % 2 = 1
    · simp only [hodd, decide_true, if_true]
      omega
    · simp only [hodd, decide_false, Bool.false_eq_true, if_false]
      omega

end IndexChain.Core
