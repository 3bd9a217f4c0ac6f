import IndexChain.Core.MerkleTree
import IndexChain.Models.Zcash.IncrementalMerkleTree

/-!
# What an incremental Merkle tree represents

The parents of an incremental tree count the finished pairs of leaves in binary:
the parent at a level is there when the count has that digit, and it is the root of
the finished subtree that the digit stands for (`Counter`). Appending a leaf is an
increment, and the root of the tree is the root of the complete tree over the leaves
padded with empty ones. The root may also be asked for with the roots of the subtrees
to the right of the last leaf given (`Uncles`), which is what a witness does.
-/

namespace IndexChain

namespace IncrementalMerkleTree

variable {H : Type} (h : TreeHash H)

/-- Node `i` of level `d` of the complete tree over a sequence of leaves. -/
abbrev nodeAt (leaf : Nat → H) (d i : Nat) : H :=
  Core.node h.combine leaf d i

/-- The leaves of a list, padded with empty ones. -/
def padded (xs : List H) (i : Nat) : H :=
  xs.getD i h.uncommitted

/-- The root of the complete tree of height `depth` over a padded list of leaves. -/
def completeRoot (depth : Nat) (xs : List H) : H :=
  nodeAt h (padded h xs) depth 0

/-- `wfcheck`: whether the representation is canonical. -/
def wfcheck (depth : Nat) (t : IncrementalMerkleTree H) : Bool :=
  !(decide (depth ≤ t.parents.length) ||
    (!t.parents.isEmpty && (t.parents.getLast?.join).isNone) ||
    (t.left.isNone && t.right.isSome) ||
    (t.left.isNone && !t.parents.isEmpty))

/-- Append a list of leaves. -/
def appendAll (depth : Nat) (t : IncrementalMerkleTree H) :
    List H → Option (IncrementalMerkleTree H)
  | [] => some t
  | x :: xs => (t.append h depth x).bind fun t => t.appendAll depth xs

/-! ## Roots with fillers -/

/-- `PathFiller::next`: the next given hash, or the empty root of the level. -/
def fillerNext (queue : List H) (d : Nat) : H × List H :=
  match queue with
  | f :: queue => (f, queue)
  | [] => (emptyRootAt h d, [])

/-- The loop of `root` over the parents, from level `d`. -/
def foldParentsWith : Nat → H → List (Option H) → List H → Nat × H × List H
  | d, root, [], queue => (d, root, queue)
  | d, root, some p :: ps, queue => foldParentsWith (d + 1) (h.combine p root d) ps queue
  | d, root, none :: ps, queue =>
    let (f, queue) := fillerNext h queue d
    foldParentsWith (d + 1) (h.combine root f d) ps queue

/-- The loop of `root` above the parents, `n` levels from level `d`. -/
def fillUpWith : Nat → Nat → H → List H → H
  | 0, _, root, _ => root
  | n + 1, d, root, queue =>
    let (f, queue) := fillerNext h queue d
    fillUpWith n (d + 1) (h.combine root f d) queue

/-- `root(depth, filler_hashes)`. -/
def rootWith (depth : Nat) (t : IncrementalMerkleTree H) (filler : List H) : H :=
  let (l, queue) := match t.left with
    | some l => (l, filler)
    | none => fillerNext h filler 0
  let (r, queue) := match t.right with
    | some r => (r, queue)
    | none => fillerNext h queue 0
  let (d, root, queue) := foldParentsWith h 1 (h.combine l r 0) t.parents queue
  fillUpWith h (depth - d) d root queue

variable {h}

theorem foldParentsWith_nil (d : Nat) (root : H) (ps : List (Option H)) :
    foldParentsWith h d root ps [] =
      ((foldParents h d root ps).1, (foldParents h d root ps).2, []) := by
  induction ps generalizing d root with
  | nil => rfl
  | cons p ps ih =>
    cases p with
    | some p => exact ih (d + 1) (h.combine p root d)
    | none => exact ih (d + 1) (h.combine root (emptyRootAt h d) d)

theorem fillUpWith_nil (n d : Nat) (root : H) :
    fillUpWith h n d root [] = fillUp h n d root := by
  induction n generalizing d root with
  | zero => rfl
  | succ n ih => exact ih (d + 1) (h.combine root (emptyRootAt h d) d)

/-- Without given hashes, the root is the one defined before. -/
theorem rootWith_nil (depth : Nat) (t : IncrementalMerkleTree H) :
    rootWith h depth t [] = root h depth t := by
  have hstart : rootWith h depth t [] =
      (fun p : Nat × H × List H => fillUpWith h (depth - p.1) p.1 p.2.1 p.2.2)
        (foldParentsWith h 1 (h.combine (t.left.getD (emptyRootAt h 0))
          (t.right.getD (emptyRootAt h 0)) 0) t.parents []) := by
    unfold rootWith
    cases t.left <;> cases t.right <;> rfl
  rw [hstart, foldParentsWith_nil]
  exact fillUpWith_nil _ _ _

/-! ## The finished subtrees -/

variable (h) in
/-- The parents from level `d` on, for `q` finished subtrees of that level. -/
inductive Counter (L : Nat → H) : Nat → Nat → List (Option H) → Prop
  | nil (d : Nat) : Counter L d 0 []
  | one {d q : Nat} {ps : List (Option H)} (hq : q % 2 = 1) :
    Counter L (d + 1) (q / 2) ps → Counter L d q (some (nodeAt h L d (q - 1)) :: ps)
  | zero {d q : Nat} {ps : List (Option H)} (hq : q % 2 = 0) (hpos : 0 < q) :
    Counter L (d + 1) (q / 2) ps → Counter L d q (none :: ps)

variable {L M : Nat → H} {d q n : Nat} {ps : List (Option H)} {t : IncrementalMerkleTree H}

/-- The number of parents is the number of binary digits of the count. -/
theorem Counter.bounds (hc : Counter h L d q ps) :
    q < 2 ^ ps.length ∧ (ps.length = 0 ∨ 2 ^ ps.length ≤ 2 * q) := by
  induction hc with
  | nil d => exact ⟨by simp, Or.inl rfl⟩
  | one hq _ ih =>
    obtain ⟨hlt, hlow⟩ := ih
    rw [List.length_cons, Nat.pow_succ]
    refine ⟨by omega, Or.inr ?_⟩
    rcases hlow with hzero | hlow
    · rw [hzero]
      omega
    · omega
  | zero hq hpos _ ih =>
    obtain ⟨hlt, hlow⟩ := ih
    rw [List.length_cons, Nat.pow_succ]
    refine ⟨by omega, Or.inr ?_⟩
    rcases hlow with hzero | hlow
    · rw [hzero] at hlt ⊢
      omega
    · omega

/-- All digits are ones just below a power of two. -/
theorem Counter.all_isSome_iff (hc : Counter h L d q ps) :
    ps.all Option.isSome = true ↔ q + 1 = 2 ^ ps.length := by
  induction hc with
  | nil d => simp
  | one hq _ ih =>
    rw [List.all_cons, Option.isSome_some, Bool.true_and, ih, List.length_cons, Nat.pow_succ]
    omega
  | zero hq hpos _ ih =>
    rw [List.all_cons, Option.isSome_none, Bool.false_and, List.length_cons, Nat.pow_succ]
    constructor
    · intro hfalse
      cases hfalse
    · intro heq
      omega

/-- The last digit is a one. -/
theorem Counter.getLast (hc : Counter h L d q ps) (hne : ps ≠ []) :
    (ps.getLast?.join).isSome = true := by
  induction hc with
  | nil d => exact absurd rfl hne
  | one hq hrest ih =>
    rename_i ps
    cases ps with
    | nil => rfl
    | cons p ps => exact ih (List.cons_ne_nil p ps)
  | zero hq hpos hrest ih =>
    rename_i ps
    cases ps with
    | nil =>
      have hlt := hrest.bounds.1
      rw [List.length_nil, Nat.pow_zero] at hlt
      omega
    | cons p ps => exact ih (List.cons_ne_nil p ps)

/-- Carrying a finished subtree upwards is an increment. -/
theorem Counter.carry (hc : Counter h L (d + 1) q ps) {fuel : Nat} (hfuel : ps.length < fuel) :
    Counter h L (d + 1) (q + 1)
      (carry h fuel d (nodeAt h L (d + 1) q) ps) := by
  induction ps generalizing d q fuel with
  | nil =>
    cases hc
    have hne : ¬ fuel = 0 := by omega
    rw [IncrementalMerkleTree.carry, if_neg hne]
    exact Counter.one (q := 1) rfl (Counter.nil _)
  | cons p ps ih =>
    rw [List.length_cons] at hfuel
    have hne : ¬ fuel = 0 := by omega
    cases hc with
    | one hq hrest =>
      have hcombined := Core.combine_node_odd h.combine (L := L) (d := d + 1) hq
      have hhalf : (q + 1) / 2 = q / 2 + 1 := by omega
      rw [IncrementalMerkleTree.carry, if_neg hne, hcombined]
      refine Counter.zero (by omega) (by omega) ?_
      rw [hhalf]
      exact ih hrest (by omega)
    | zero hq hpos hrest =>
      have hhalf : (q + 1) / 2 = q / 2 := by omega
      rw [IncrementalMerkleTree.carry, if_neg hne]
      refine Counter.one (q := q + 1) (by omega) ?_
      rw [hhalf]
      exact hrest

/-- The counter depends on the leaves below it only. -/
theorem Counter.congr (hc : Counter h L d q ps) (hLM : ∀ j, j < q * 2 ^ d → L j = M j) :
    Counter h M d q ps := by
  induction hc with
  | nil d => exact Counter.nil d
  | one hq hrest ih =>
    rename_i d q ps
    have hnode : nodeAt h L d (q - 1) = nodeAt h M d (q - 1) := by
      apply Core.node_congr
      intro j _ hj
      apply hLM
      have hsucc : q - 1 + 1 = q := by omega
      rwa [hsucc] at hj
    rw [hnode]
    refine Counter.one hq (ih fun j hj => hLM j ?_)
    calc j < q / 2 * 2 ^ (d + 1) := hj
      _ = q / 2 * 2 * 2 ^ d := by rw [Nat.pow_succ]; ring
      _ ≤ q * 2 ^ d := Nat.mul_le_mul_right _ (by omega)
  | zero hq hpos hrest ih =>
    rename_i d q ps
    refine Counter.zero hq hpos (ih fun j hj => hLM j ?_)
    calc j < q / 2 * 2 ^ (d + 1) := hj
      _ = q / 2 * 2 * 2 ^ d := by rw [Nat.pow_succ]; ring
      _ ≤ q * 2 ^ d := Nat.mul_le_mul_right _ (by omega)

/-! ## The subtrees to the right -/

variable (h) in
/-- `P` has the roots of the subtrees to the right of node `q` of level `d`, from the
bottom; those it leaves out have empty leaves only. -/
inductive Uncles (M : Nat → H) : Nat → Nat → List H → Prop
  | odd {d q : Nat} {P : List H} (hq : q % 2 = 1) :
    Uncles M (d + 1) (q / 2) P → Uncles M d q P
  | next {d q : Nat} {P : List H} (hq : q % 2 = 0) :
    Uncles M (d + 1) (q / 2) P → Uncles M d q (nodeAt h M d (q + 1) :: P)
  | done {d q : Nat} (hempty : ∀ j, (q + 1) * 2 ^ d ≤ j → M j = h.uncommitted) :
    Uncles M d q []

/-- A node over empty leaves is an empty root. -/
theorem nodeAt_eq_emptyRootAt {i : Nat} (hM : ∀ j, i * 2 ^ d ≤ j → M j = h.uncommitted) :
    nodeAt h M d i = emptyRootAt h d := by
  have hconst : nodeAt h M d i = nodeAt h (fun _ => h.uncommitted) d i :=
    Core.node_congr fun j hj _ => hM j hj
  have hempty : ∀ e k, nodeAt h (fun _ => h.uncommitted) e k = emptyRootAt h e := by
    intro e
    induction e with
    | zero => exact fun k => rfl
    | succ e ih =>
      intro k
      exact congrArg₂ (fun a b => h.combine a b e) (ih (2 * k)) (ih (2 * k + 1))
  rw [hconst, hempty]

/-- The next filler is the sibling to the right. -/
theorem Uncles.fillerNext {P : List H} (hu : Uncles h M d q P) (hq : q % 2 = 0) :
    (fillerNext h P d).1 = nodeAt h M d (q + 1) ∧
      Uncles h M (d + 1) (q / 2) (fillerNext h P d).2 := by
  cases hu with
  | odd hodd _ => omega
  | next _ hrest => exact ⟨rfl, hrest⟩
  | done hempty =>
    refine ⟨(nodeAt_eq_emptyRootAt hempty).symm, Uncles.done fun j hj => hempty j ?_⟩
    calc (q + 1) * 2 ^ d ≤ (q / 2 + 1) * 2 * 2 ^ d := Nat.mul_le_mul_right _ (by omega)
      _ = (q / 2 + 1) * 2 ^ (d + 1) := by rw [Nat.pow_succ]; ring
      _ ≤ j := hj

/-- Nothing is filled in next to a right child. -/
theorem Uncles.up {P : List H} (hu : Uncles h M d q P) (hq : q % 2 = 1) :
    Uncles h M (d + 1) (q / 2) P := by
  cases hu with
  | odd _ hrest => exact hrest
  | next heven _ => omega
  | done hempty =>
    refine Uncles.done fun j hj => hempty j ?_
    calc (q + 1) * 2 ^ d = (q / 2 + 1) * 2 * 2 ^ d := by
          congr 1
          omega
      _ = (q / 2 + 1) * 2 ^ (d + 1) := by rw [Nat.pow_succ]; ring
      _ ≤ j := hj

theorem fillUpWith_eq {P : List H} (hu : Uncles h M d 0 P) :
    fillUpWith h n d (nodeAt h M d 0) P = nodeAt h M (d + n) 0 := by
  induction n generalizing d P with
  | zero => rfl
  | succ n ih =>
    obtain ⟨hnext, hrest⟩ := hu.fillerNext rfl
    rw [fillUpWith]
    dsimp only
    rw [hnext, Core.combine_node_even h.combine rfl, ih hrest]
    congr 1
    omega

/-- Hashing node `q` with the parents and the given hashes gives the root. -/
theorem foldParentsWith_eq {P : List H} (hc : Counter h M d q ps) (hu : Uncles h M d q P)
    {D : Nat} (hD : d + ps.length ≤ D) :
    (fun p : Nat × H × List H => fillUpWith h (D - p.1) p.1 p.2.1 p.2.2)
        (foldParentsWith h d (nodeAt h M d q) ps P) = nodeAt h M D 0 := by
  induction hc generalizing P with
  | nil d =>
    rw [foldParentsWith]
    dsimp only
    rw [fillUpWith_eq hu]
    congr 1
    exact Nat.add_sub_of_le hD
  | one hq _ ih =>
    rw [foldParentsWith, Core.combine_node_odd h.combine hq]
    exact ih (hu.up hq) (by rw [List.length_cons] at hD; omega)
  | zero hq hpos _ ih =>
    obtain ⟨hnext, hrest⟩ := hu.fillerNext hq
    rw [foldParentsWith]
    dsimp only
    rw [hnext, Core.combine_node_even h.combine hq]
    exact ih hrest (by rw [List.length_cons] at hD; omega)

/-! ## Trees of a number of leaves -/

variable (h) in
/-- The tree that holds the first `n` leaves. -/
inductive Represents (L : Nat → H) : IncrementalMerkleTree H → Nat → Prop
  | empty : Represents L {} 0
  | left {q : Nat} {ps : List (Option H)} : Counter h L 1 q ps →
    Represents L { left := some (L (2 * q)), right := none, parents := ps } (2 * q + 1)
  | pair {q : Nat} {ps : List (Option H)} : Counter h L 1 q ps →
    Represents L { left := some (L (2 * q)), right := some (L (2 * q + 1)), parents := ps }
      (2 * q + 2)

/-- A tree is complete to a depth when it holds that many leaves. -/
theorem Represents.isComplete_iff (ht : Represents h L t n) {depth : Nat} (hdepth : 1 ≤ depth) :
    t.isComplete depth = true ↔ n = 2 ^ depth := by
  obtain ⟨k, rfl⟩ : ∃ k, depth = k + 1 := ⟨depth - 1, by omega⟩
  rw [Nat.pow_succ]
  cases ht with
  | empty =>
    have hpos : 0 < 2 ^ k := Nat.two_pow_pos k
    simp only [isComplete, Option.isSome_none, Bool.false_and, Bool.false_eq_true, false_iff]
    omega
  | left hc =>
    simp only [isComplete, Option.isSome_some, Option.isSome_none, Bool.true_and, Bool.false_and,
      Bool.false_eq_true, false_iff]
    omega
  | pair hc =>
    rename_i q ps
    have hall := hc.all_isSome_iff
    obtain ⟨hlt, hlow⟩ := hc.bounds
    have hsub : k + 1 - 1 = k := rfl
    simp only [isComplete, Option.isSome_some, Bool.true_and, Bool.and_eq_true, beq_iff_eq, hall,
      hsub]
    constructor
    · rintro ⟨hlen, hq⟩
      rw [hlen] at hq
      omega
    · intro hq
      have hq' : q + 1 = 2 ^ k := by omega
      have hle : k ≤ ps.length := by
        by_contra hgt
        have hpow : 2 ^ (ps.length + 1) ≤ 2 ^ k := Nat.pow_le_pow_right (by omega) (by omega)
        have hpos : 0 < 2 ^ ps.length := Nat.two_pow_pos _
        rw [Nat.pow_succ] at hpow
        omega
      have hge : ps.length ≤ k := by
        by_contra hgt
        have hpow : 2 ^ (k + 1) ≤ 2 ^ ps.length := Nat.pow_le_pow_right (by omega) (by omega)
        rw [Nat.pow_succ] at hpow
        rcases hlow with hzero | hlow
        · omega
        · omega
      have hlen : ps.length = k := by omega
      rw [hlen]
      exact ⟨rfl, hq'⟩

/-- The parents of a tree that is not overfull fit below its root. -/
theorem Represents.length_parents (ht : Represents h L t n) {depth : Nat} (hdepth : 1 ≤ depth)
    (hn : n ≤ 2 ^ depth) : 1 + t.parents.length ≤ depth := by
  have hq : ∀ {q : Nat} {ps : List (Option H)}, Counter h L 1 q ps → 2 * q + 1 ≤ 2 ^ depth →
      1 + ps.length ≤ depth := by
    intro q ps hc hle
    obtain ⟨-, hlow⟩ := hc.bounds
    rcases hlow with hzero | hlow
    · omega
    · by_contra hgt
      have hpow : 2 ^ depth ≤ 2 ^ ps.length := Nat.pow_le_pow_right (by omega) (by omega)
      omega
  cases ht with
  | empty => exact hdepth
  | left hc => exact hq hc hn
  | pair hc => exact hq hc (by omega)

/-- Appending a leaf to a tree that is not full. -/
theorem Represents.append (ht : Represents h L t n) {depth : Nat} (hdepth : 1 ≤ depth)
    (hn : n < 2 ^ depth) :
    ∃ t', t.append h depth (L n) = some t' ∧ Represents h L t' (n + 1) := by
  have hcomplete : ¬ t.isComplete depth = true := by
    rw [ht.isComplete_iff hdepth]
    omega
  have hlen := ht.length_parents hdepth (Nat.le_of_lt hn)
  cases ht with
  | empty =>
    refine ⟨_, by rw [IncrementalMerkleTree.append, if_neg hcomplete], ?_⟩
    exact Represents.left (q := 0) (Counter.nil 1)
  | left hc =>
    refine ⟨_, by rw [IncrementalMerkleTree.append, if_neg hcomplete], ?_⟩
    exact Represents.pair hc
  | pair hc =>
    rename_i q ps
    refine ⟨_, by rw [IncrementalMerkleTree.append, if_neg hcomplete], ?_⟩
    have hfuel : ps.length < depth := by
      dsimp only at hlen
      omega
    exact Represents.left (hc.carry hfuel)

/-- A full tree takes no leaf. -/
theorem Represents.append_full (ht : Represents h L t n) {depth : Nat} (hdepth : 1 ≤ depth)
    (hn : n = 2 ^ depth) (obj : H) : t.append h depth obj = none := by
  rw [IncrementalMerkleTree.append, if_pos ((ht.isComplete_iff hdepth).2 hn)]

/-- A tree that is not overfull passes the check of its form. -/
theorem Represents.wfcheck (ht : Represents h L t n) {depth : Nat} (hdepth : 1 ≤ depth)
    (hn : n ≤ 2 ^ depth) : t.wfcheck depth = true := by
  have hlen := ht.length_parents hdepth hn
  have hq : ∀ {q : Nat} {ps : List (Option H)}, Counter h L 1 q ps →
      (!ps.isEmpty && (ps.getLast?.join).isNone) = false := by
    intro q ps hc
    cases ps with
    | nil => rfl
    | cons p ps =>
      have hlast := hc.getLast (List.cons_ne_nil p ps)
      rw [Option.isNone_eq_false_iff.2 hlast, Bool.and_false]
  cases ht with
  | empty =>
    have hlt : ¬ depth ≤ 0 := by omega
    simp [IncrementalMerkleTree.wfcheck, hlt]
  | left hc =>
    have hlt : ¬ depth ≤ _ := Nat.not_le.2 (Nat.lt_of_succ_le (by rwa [Nat.add_comm] at hlen))
    simp [IncrementalMerkleTree.wfcheck, hq hc, hlt]
  | pair hc =>
    have hlt : ¬ depth ≤ _ := Nat.not_le.2 (Nat.lt_of_succ_le (by rwa [Nat.add_comm] at hlen))
    simp [IncrementalMerkleTree.wfcheck, hq hc, hlt]

/-- The sequence with empty leaves from `n` on. -/
def cut (h : TreeHash H) (L : Nat → H) (n j : Nat) : H :=
  if j < n then L j else h.uncommitted

/-- With the roots of the subtrees to the right given, the root of the tree is that of
the complete tree over all leaves. -/
theorem Represents.rootWith_eq (ht : Represents h L t n) (hpos : 0 < n)
    (hLM : ∀ j, j < n → L j = M j) {P : List H} (hu : Uncles h M 0 (n - 1) P) {depth : Nat}
    (hdepth : 1 ≤ depth) (hn : n ≤ 2 ^ depth) :
    rootWith h depth t P = nodeAt h M depth 0 := by
  have hlen := ht.length_parents hdepth hn
  cases ht with
  | empty => omega
  | left hc =>
    rename_i q ps
    have hsub : 2 * q + 1 - 1 = 2 * q := rfl
    have hhalf : 2 * q / 2 = q := by omega
    rw [hsub] at hu
    obtain ⟨hnext, hrest⟩ := hu.fillerNext (by omega)
    have hpair := Core.combine_node_even h.combine (L := M) (d := 0) (i := 2 * q) (by omega)
    rw [hhalf] at hrest hpair
    have hcM : Counter h M 1 q ps := hc.congr fun j hj => hLM j (by omega)
    unfold rootWith
    dsimp only
    rw [hnext, hLM (2 * q) (by omega)]
    exact (congrArg (fun r => (fun p : Nat × H × List H =>
      fillUpWith h (depth - p.1) p.1 p.2.1 p.2.2) (foldParentsWith h 1 r ps _)) hpair).trans
      (foldParentsWith_eq hcM hrest hlen)
  | pair hc =>
    rename_i q ps
    have hsub : 2 * q + 2 - 1 = 2 * q + 1 := rfl
    have hhalf : (2 * q + 1) / 2 = q := by omega
    rw [hsub] at hu
    have hrest := hu.up (by omega)
    have hpair := Core.combine_node_odd h.combine (L := M) (d := 0) (i := 2 * q + 1) (by omega)
    rw [hhalf] at hrest hpair
    have hcM : Counter h M 1 q ps := hc.congr fun j hj => hLM j (by omega)
    unfold rootWith
    dsimp only
    rw [hLM (2 * q) (by omega), hLM (2 * q + 1) (by omega)]
    exact (congrArg (fun r => (fun p : Nat × H × List H =>
      fillUpWith h (depth - p.1) p.1 p.2.1 p.2.2) (foldParentsWith h 1 r ps P)) hpair).trans
      (foldParentsWith_eq hcM hrest hlen)

/-- The root with no hashes given is that of the tree padded with empty leaves. -/
theorem Represents.root_eq (ht : Represents h L t n) {depth : Nat} (hdepth : 1 ≤ depth)
    (hn : n ≤ 2 ^ depth) : root h depth t = nodeAt h (cut h L n) depth 0 := by
  by_cases hpos : 0 < n
  · rw [← rootWith_nil]
    refine ht.rootWith_eq hpos (fun j hj => (if_pos hj).symm) (Uncles.done fun j hj => ?_) hdepth hn
    exact if_neg (by omega)
  · obtain rfl : n = 0 := by omega
    cases ht
    rw [root_empty h hdepth, nodeAt_eq_emptyRootAt]
    intro j _
    exact if_neg (Nat.not_lt_zero j)

/-! ## Appending lists of leaves -/

theorem cut_padded (xs : List H) : cut h (padded h xs) xs.length = padded h xs := by
  funext j
  unfold cut padded
  split
  · rfl
  · rename_i hj
    rw [List.getD_eq_getElem?_getD, List.getElem?_eq_none (Nat.not_lt.1 hj), Option.getD_none]

theorem padded_eq {xs : List H} {i : Nat} {x : H} (hx : xs[i]? = some x) : padded h xs i = x := by
  rw [padded, List.getD_eq_getElem?_getD, hx, Option.getD_some]

/-- The leaves of the front part stand at the start. -/
theorem padded_left (xs ys : List H) :
    ∀ i x, xs[i]? = some x → padded h (xs ++ ys) (0 + i) = x := by
  intro i x hx
  have hi : i < xs.length := (List.getElem?_eq_some_iff.1 hx).1
  rw [Nat.zero_add]
  apply padded_eq
  rwa [List.getElem?_append_left hi]

/-- Those of the back part stand after them. -/
theorem padded_right (xs ys : List H) :
    ∀ i y, ys[i]? = some y → padded h (xs ++ ys) (xs.length + i) = y := by
  intro i y hy
  apply padded_eq
  rwa [List.getElem?_append_right (Nat.le_add_right _ i), Nat.add_sub_cancel_left]

/-- Appending a list of leaves to a tree with room for them. -/
theorem Represents.appendAll {xs : List H} (ht : Represents h L t n) {depth : Nat}
    (hdepth : 1 ≤ depth) (hL : ∀ i x, xs[i]? = some x → L (n + i) = x)
    (hn : n + xs.length ≤ 2 ^ depth) :
    ∃ t', t.appendAll h depth xs = some t' ∧ Represents h L t' (n + xs.length) := by
  induction xs generalizing t n with
  | nil => exact ⟨t, rfl, ht⟩
  | cons x xs ih =>
    rw [List.length_cons] at hn
    obtain ⟨t₁, happend, ht₁⟩ := ht.append hdepth (by omega)
    rw [← Nat.add_zero n, hL 0 x rfl] at happend
    obtain ⟨t₂, hrest, ht₂⟩ := ih ht₁ (fun i y hy => by
      have hshift : n + 1 + i = n + (i + 1) := by omega
      rw [hshift]
      exact hL (i + 1) y hy) (by omega)
    refine ⟨t₂, ?_, ?_⟩
    · rw [IncrementalMerkleTree.appendAll, happend]
      exact hrest
    · have hlen : n + 1 + xs.length = n + (x :: xs).length := by
        rw [List.length_cons]
        omega
      rwa [hlen] at ht₂

/-- Appending leaves that fit gives a tree of them. -/
theorem appendAll_represents (h : TreeHash H) {depth : Nat} (hdepth : 1 ≤ depth) {xs : List H}
    (hxs : xs.length ≤ 2 ^ depth) :
    ∃ t, appendAll h depth {} xs = some t ∧ Represents h (padded h xs) t xs.length := by
  have hL : ∀ i x, xs[i]? = some x → padded h xs (0 + i) = x := by
    intro i x hx
    rw [Nat.zero_add, padded_eq hx]
  obtain ⟨t, happend, ht⟩ := (Represents.empty (h := h)).appendAll hdepth hL (by omega)
  rw [Nat.zero_add] at ht
  exact ⟨t, happend, ht⟩

/-- Appending up to `2 ^ depth` leaves to an empty tree never fails and leaves a
canonical tree, whose root is that of the complete tree over the padded leaves; another
leaf is refused exactly when the tree is full. -/
theorem appendAll_empty (h : TreeHash H) {depth : Nat} (hdepth : 1 ≤ depth) (xs : List H)
    (hxs : xs.length ≤ 2 ^ depth) :
    ∃ t, appendAll h depth {} xs = some t ∧ t.wfcheck depth = true ∧
      root h depth t = completeRoot h depth xs ∧
      ∀ obj, append h depth t obj = none ↔ xs.length = 2 ^ depth := by
  obtain ⟨t, hall, ht⟩ := appendAll_represents h hdepth hxs
  refine ⟨t, hall, ht.wfcheck hdepth hxs, ?_, fun obj => ⟨fun hnone => ?_, fun hfull => ?_⟩⟩
  · rw [ht.root_eq hdepth hxs, cut_padded]
    rfl
  · by_contra hne
    have hcomplete : ¬ t.isComplete depth = true := by
      rwa [ht.isComplete_iff hdepth]
    rw [append, if_neg hcomplete] at hnone
    split at hnone <;> cases hnone
  · exact ht.append_full hdepth hfull obj

/-- A hash that records its arguments and the level in decimal digits. -/
def sampleHash : TreeHash Nat where
  combine a b d := 100 * a + 10 * b + d
  uncommitted := 0

/-- Three leaves fit in a tree of depth 2, and a fourth one is taken. -/
theorem appendAll_three :
    ∃ t, appendAll sampleHash 2 {} [1, 2, 3] = some t ∧ t.wfcheck 2 = true ∧
      root sampleHash 2 t = 15001 ∧ append sampleHash 2 t 4 ≠ none := by
  obtain ⟨t, hall, hwf, hroot, hfull⟩ := appendAll_empty sampleHash
    (show 1 ≤ 2 by decide) [1, 2, 3] (by decide)
  refine ⟨t, hall, hwf, hroot.trans (by decide), ?_⟩
  rw [Ne, hfull 4]
  decide

end IncrementalMerkleTree

end IndexChain
