import IndexChain.Models.Merkle.PartialTree
import Mathlib.Data.List.GetD
import Mathlib.Data.Nat.Bitwise

/-!
# Merkle branches of a block

`BuildMerkleTree`, `GetMerkleBranch` and `CheckMerkleBranch` of `primitives/block.cpp`. The
branch of a leaf leads to the root of its tree. A level of odd length repeats its last hash,
so a list and one that repeats its end share a root; the flag `mutated` tells them apart as
long as no two pairs that are hashed collide.
-/

namespace IndexChain

open IndexChain.Core

namespace BlockTree

/-- `BuildMerkleTree` for a list of any length: the root, the tree and whether the list was
mutated. -/
def build (leaves : List Uint256) : Uint256 × List Uint256 × Bool :=
  let tree := merkleLevels leaves.length leaves
  (tree.1.getLast?.getD 0, tree.1, tree.2)

/-- The loop of `GetMerkleBranch` over the levels; `j` is where a level starts. -/
def getMerkleBranchFrom (vMerkleTree : List Uint256) : Nat → Nat → Nat → Nat → List Uint256
  | 0, _, _, _ => []
  | fuel + 1, nIndex, nSize, j =>
    if 1 < nSize then
      let i := min (nIndex ^^^ 1) (nSize - 1)
      vMerkleTree.getD (j + i) 0 ::
        getMerkleBranchFrom vMerkleTree fuel (nIndex >>> 1) ((nSize + 1) / 2) (j + nSize)
    else []

/-- `GetMerkleBranch`. -/
def getMerkleBranch (nIndex nLeaves : Nat) (vMerkleTree : List Uint256) : List Uint256 :=
  getMerkleBranchFrom vMerkleTree nLeaves nIndex nLeaves 0

/-- The loop of `CheckMerkleBranch`. -/
def foldBranch : Uint256 → List Uint256 → Int → Uint256
  | hash, [], _ => hash
  | hash, it :: vMerkleBranch, nIndex =>
    foldBranch (if nIndex % 2 = 1 then hashPair it hash else hashPair hash it) vMerkleBranch
      (nIndex / 2)

/-- `CBlock::CheckMerkleBranch`. -/
def checkMerkleBranch (hash : Uint256) (vMerkleBranch : List Uint256) (nIndex : Int) : Uint256 :=
  if nIndex = -1 then 0 else foldBranch hash vMerkleBranch nIndex

variable {l l' : List Uint256} {i j fuel : Nat}

/-! ## One level -/

theorem length_merkleLevel (l : List Uint256) : (merkleLevel l).length = (l.length + 1) / 2 := by
  rw [merkleLevel, List.length_map, List.length_range]

/-- What is hashed for a node. -/
def levelPair (l : List Uint256) (j : Nat) : Uint256 × Uint256 :=
  (l.getD (2 * j) 0, l.getD (min (2 * j + 1) (l.length - 1)) 0)

theorem getD_merkleLevel (h : j < (l.length + 1) / 2) :
    (merkleLevel l).getD j 0 = hashPair (levelPair l j).1 (levelPair l j).2 := by
  rw [merkleLevel, List.getD_eq_getElem?_getD, List.getElem?_map, List.getElem?_range h]
  rfl

/-- A node and its sibling are hashed to the node above. -/
theorem hashPair_sibling (hi : i < l.length) :
    (if i % 2 = 1 then hashPair (l.getD (min (i ^^^ 1) (l.length - 1)) 0) (l.getD i 0)
      else hashPair (l.getD i 0) (l.getD (min (i ^^^ 1) (l.length - 1)) 0)) =
      (merkleLevel l).getD (i / 2) 0 := by
  rw [getD_merkleLevel (by omega), levelPair]
  split
  · next hodd =>
    have hleft : min (i ^^^ 1) (l.length - 1) = 2 * (i / 2) := by
      rw [Nat.xor_one_of_odd (Nat.odd_iff.2 hodd)]
      omega
    have hright : min (2 * (i / 2) + 1) (l.length - 1) = i := by omega
    rw [hleft, hright]
  · next heven =>
    have hleft : 2 * (i / 2) = i := by omega
    rw [hleft, Nat.xor_one_of_even (Nat.even_iff.2 (by omega))]

/-! ## The branch of a leaf -/

/-- The levels end in one hash. -/
theorem merkleLevels_ne_nil (hl : l ≠ []) (fuel : Nat) : (merkleLevels fuel l).1 ≠ [] := by
  cases fuel with
  | zero => exact hl
  | succ fuel =>
    rw [merkleLevels]
    split
    · exact List.append_ne_nil_of_left_ne_nil hl _
    · exact hl

/-- The branch of a node: its sibling, and the branch of the node above. -/
theorem getMerkleBranchFrom_succ (pre : List Uint256) (hlen : 1 < l.length) :
    getMerkleBranchFrom (pre ++ (merkleLevels (fuel + 1) l).1) (fuel + 1) i l.length pre.length =
      l.getD (min (i ^^^ 1) (l.length - 1)) 0 ::
        getMerkleBranchFrom ((pre ++ l) ++ (merkleLevels fuel (merkleLevel l)).1) fuel (i / 2)
          (merkleLevel l).length (pre ++ l).length := by
  have hsib : (pre ++ (l ++ (merkleLevels fuel (merkleLevel l)).1)).getD
      (pre.length + min (i ^^^ 1) (l.length - 1)) 0 = l.getD (min (i ^^^ 1) (l.length - 1)) 0 := by
    rw [List.getD_append_right _ _ _ _ (by omega), Nat.add_sub_cancel_left,
      List.getD_append _ _ _ _ (by omega)]
  rw [getMerkleBranchFrom, merkleLevels, if_pos hlen, if_pos hlen]
  dsimp only
  rw [hsib, Nat.shiftRight_one, length_merkleLevel, List.length_append, List.append_assoc]

/-- The root of a level is the root of the next one. -/
theorem root_merkleLevel (hlen : 1 < l.length) :
    (merkleLevels (fuel + 1) l).1.getLast?.getD 0 =
      (merkleLevels fuel (merkleLevel l)).1.getLast?.getD 0 := by
  have hne : merkleLevel l ≠ [] := List.ne_nil_of_length_pos (by rw [length_merkleLevel]; omega)
  rw [merkleLevels, if_pos hlen]
  dsimp only
  rw [List.getLast?_append_of_ne_nil _ (merkleLevels_ne_nil hne fuel)]

/-- A single node has no branch, and is the root. -/
theorem branch_of_length_le_one (fuel : Nat) (tree : List Uint256) (j : Nat) (hi : i < l.length)
    (hlen : l.length ≤ 1) : getMerkleBranchFrom tree fuel i l.length j = [] ∧
      (merkleLevels fuel l).1.getLast?.getD 0 = l.getD i 0 := by
  obtain ⟨a, rfl⟩ : ∃ a, l = [a] := List.length_eq_one_iff.1 (by omega)
  obtain rfl : i = 0 := by simpa using hi
  cases fuel with
  | zero => exact ⟨rfl, rfl⟩
  | succ fuel => exact ⟨rfl, rfl⟩

/-- The branch from a level on leads from each of its nodes to the root. -/
theorem foldBranch_from (pre : List Uint256) (hi : i < l.length) (hfuel : l.length ≤ 2 ^ fuel) :
    foldBranch (l.getD i 0) (getMerkleBranchFrom (pre ++ (merkleLevels fuel l).1) fuel i l.length
      pre.length) i = (merkleLevels fuel l).1.getLast?.getD 0 := by
  induction fuel generalizing l pre i with
  | zero =>
    obtain ⟨hbranch, hroot⟩ := branch_of_length_le_one 0 (pre ++ (merkleLevels 0 l).1)
      pre.length hi hfuel
    rw [hbranch, hroot, foldBranch]
  | succ fuel ih =>
    by_cases hlen : 1 < l.length
    · rw [Nat.pow_succ] at hfuel
      have hup := length_merkleLevel l
      have hrest := ih (pre ++ l) (l := merkleLevel l) (i := i / 2) (by omega) (by omega)
      have hcast : ((i : Int) % 2 = 1) ↔ i % 2 = 1 := by omega
      rw [getMerkleBranchFrom_succ pre hlen, root_merkleLevel hlen, foldBranch,
        if_congr hcast rfl rfl, hashPair_sibling hi]
      exact_mod_cast hrest
    · obtain ⟨hbranch, hroot⟩ := branch_of_length_le_one (fuel + 1)
        (pre ++ (merkleLevels (fuel + 1) l).1) pre.length hi (by omega)
      rw [hbranch, hroot, foldBranch]

/-- A list has at most as many entries as its tree can take. -/
theorem length_le_two_pow (l : List Uint256) : l.length ≤ 2 ^ l.length :=
  Nat.lt_two_pow_self.le

/-- The branch of a leaf leads to the root. -/
theorem checkMerkleBranch_getMerkleBranch (hi : i < l.length) :
    checkMerkleBranch (l.getD i 0) (getMerkleBranch i l.length (build l).2.1) i = (build l).1 := by
  rw [checkMerkleBranch, if_neg (by omega)]
  exact foldBranch_from [] hi (length_le_two_pow l)

/-! ## Lists with the same root -/

/-- What is hashed for a level. -/
def levelPairs (l : List Uint256) : List (Uint256 × Uint256) :=
  (List.range ((l.length + 1) / 2)).map (levelPair l)

/-- What is hashed for the levels of a tree. -/
def pairsFrom : Nat → List Uint256 → List (Uint256 × Uint256)
  | 0, _ => []
  | fuel + 1, l =>
    if 1 < l.length then levelPairs l ++ pairsFrom fuel (merkleLevel l) else []

/-- What `BuildMerkleTree` hashes. -/
def hashedPairs (leaves : List Uint256) : List (Uint256 × Uint256) :=
  pairsFrom leaves.length leaves

/-- No leaf is the hash of one of the pairs. -/
def LeavesApart (leaves : List Uint256) (ps : List (Uint256 × Uint256)) : Prop :=
  ∀ a ∈ leaves, ∀ p ∈ ps, hashPair p.1 p.2 ≠ a

instance (leaves : List Uint256) (ps : List (Uint256 × Uint256)) :
    Decidable (LeavesApart leaves ps) :=
  have (a : Uint256) : Decidable (∀ p ∈ ps, hashPair p.1 p.2 ≠ a) := List.decidableBAll _ ps
  List.decidableBAll _ leaves

/-- The level a number of steps above a list. -/
def levelAt (l : List Uint256) (n : Nat) : List Uint256 := merkleLevel^[n] l

@[simp]
theorem levelAt_zero (l : List Uint256) : levelAt l 0 = l := rfl

theorem levelAt_succ (l : List Uint256) (n : Nat) : levelAt l (n + 1) = levelAt (merkleLevel l) n :=
  Function.iterate_succ_apply merkleLevel n l

theorem levelAt_succ' (l : List Uint256) (n : Nat) :
    levelAt l (n + 1) = merkleLevel (levelAt l n) :=
  Function.iterate_succ_apply' merkleLevel n l

theorem levelAt_add (l : List Uint256) (m n : Nat) : levelAt l (m + n) = levelAt (levelAt l n) m :=
  Function.iterate_add_apply merkleLevel m n l

theorem levelPair_mem (h : j < (l.length + 1) / 2) : levelPair l j ∈ levelPairs l :=
  List.mem_map_of_mem (List.mem_range.2 h)

/-- Every hash of the next level is one of a pair. -/
theorem mem_merkleLevel {a : Uint256} (ha : a ∈ merkleLevel l) :
    ∃ p ∈ levelPairs l, hashPair p.1 p.2 = a := by
  obtain ⟨j, hj, rfl⟩ := List.mem_map.1 ha
  exact ⟨levelPair l j, List.mem_map_of_mem hj, rfl⟩

/-- Levels with the same next level have the same pairs. -/
theorem levelPair_eq (hup : merkleLevel l = merkleLevel l')
    (hfree : Merkle.NoCollision hashPair (levelPairs l) (levelPairs l'))
    (hj : j < (l.length + 1) / 2) : levelPair l j = levelPair l' j := by
  have hlen := congrArg List.length hup
  rw [length_merkleLevel, length_merkleLevel] at hlen
  apply hfree _ (levelPair_mem hj) _ (levelPair_mem (hlen ▸ hj))
  rw [← getD_merkleLevel hj, ← getD_merkleLevel (hlen ▸ hj), hup]

/-- A level that has the pairs of a shorter one ends in two identical hashes. -/
theorem levelMutated_of_pairs (hpairs : ∀ j < (l.length + 1) / 2, levelPair l j = levelPair l' j)
    (hlen : l.length = l'.length + 1) (hhalf : (l.length + 1) / 2 = (l'.length + 1) / 2) :
    levelMutated l = true := by
  have hlast : (l.length + 1) / 2 - 1 < (l.length + 1) / 2 := by omega
  rw [levelMutated, List.any_eq_true]
  refine ⟨_, List.mem_range.2 hlast, ?_⟩
  have hpair := hpairs _ hlast
  have hright : min (2 * ((l.length + 1) / 2 - 1) + 1) (l'.length - 1) =
      2 * ((l.length + 1) / 2 - 1) := by omega
  rw [levelPair, levelPair, hright] at hpair
  have hsame := (congrArg Prod.fst hpair).trans (congrArg Prod.snd hpair).symm
  simp only [Bool.and_eq_true, beq_iff_eq]
  exact ⟨⟨by omega, by omega⟩, hsame⟩

/-- A level that is not mutated is known by the next one. -/
theorem eq_of_merkleLevel_eq (hup : merkleLevel l = merkleLevel l')
    (hfree : Merkle.NoCollision hashPair (levelPairs l) (levelPairs l'))
    (hl : levelMutated l = false) (hl' : levelMutated l' = false) : l = l' := by
  have hhalf := congrArg List.length hup
  rw [length_merkleLevel, length_merkleLevel] at hhalf
  have hpairs : ∀ j < (l.length + 1) / 2, levelPair l j = levelPair l' j :=
    fun j hj => levelPair_eq hup hfree hj
  have hlen : l.length = l'.length := by
    by_contra hne
    rcases Nat.lt_or_gt_of_ne hne with hlt | hgt
    · have hmut : levelMutated l' = true := levelMutated_of_pairs
        (fun j hj => (hpairs j (hhalf ▸ hj)).symm) (by omega) hhalf.symm
      exact Bool.false_ne_true (hl'.symm.trans hmut)
    · have hmut := levelMutated_of_pairs hpairs (by omega) hhalf
      exact Bool.false_ne_true (hl.symm.trans hmut)
  apply List.ext_getElem hlen
  intro i hi hi'
  have hpair := hpairs (i / 2) (by omega)
  rw [List.getElem_eq_getD 0, List.getElem_eq_getD 0]
  rcases Nat.mod_two_eq_zero_or_one i with heven | hodd
  · have hleft := congrArg Prod.fst hpair
    rwa [levelPair, levelPair, show 2 * (i / 2) = i by omega] at hleft
  · have hright := congrArg Prod.snd hpair
    rwa [levelPair, levelPair, ← hlen, show min (2 * (i / 2) + 1) (l.length - 1) = i by omega]
      at hright

/-- Lists whose levels agree some way up are the same. -/
theorem eq_of_levelAt_eq {n : Nat} (hup : levelAt l n = levelAt l' n)
    (hfree : ∀ i < n, Merkle.NoCollision hashPair (levelPairs (levelAt l i))
      (levelPairs (levelAt l' i)))
    (hl : ∀ i < n, levelMutated (levelAt l i) = false)
    (hl' : ∀ i < n, levelMutated (levelAt l' i) = false) : l = l' := by
  induction n generalizing l l' with
  | zero => exact hup
  | succ n ih =>
    rw [levelAt_succ, levelAt_succ] at hup
    have hnext : merkleLevel l = merkleLevel l' := by
      apply ih hup
      · intro i hi
        rw [← levelAt_succ, ← levelAt_succ]
        exact hfree (i + 1) (by omega)
      · intro i hi
        rw [← levelAt_succ]
        exact hl (i + 1) (by omega)
      · intro i hi
        rw [← levelAt_succ]
        exact hl' (i + 1) (by omega)
    exact eq_of_merkleLevel_eq hnext (hfree 0 (by omega)) (hl 0 (by omega)) (hl' 0 (by omega))

/-- The root is some way up, and the levels below it are those that are hashed and tested. -/
theorem exists_height (hl : l ≠ []) (hfuel : l.length ≤ 2 ^ fuel) :
    ∃ n, levelAt l n = [(merkleLevels fuel l).1.getLast?.getD 0] ∧
      (∀ i < n, ∀ p ∈ levelPairs (levelAt l i), p ∈ pairsFrom fuel l) ∧
      ((merkleLevels fuel l).2 = false → ∀ i < n, levelMutated (levelAt l i) = false) := by
  induction fuel generalizing l with
  | zero =>
    obtain ⟨a, rfl⟩ : ∃ a, l = [a] := by
      have hpos := List.length_pos_iff.2 hl
      exact List.length_eq_one_iff.1 (by omega)
    exact ⟨0, rfl, nofun, nofun⟩
  | succ fuel ih =>
    rw [pairsFrom]
    split
    · next hlen =>
      have hne : merkleLevel l ≠ [] :=
        List.ne_nil_of_length_pos (by rw [length_merkleLevel]; omega)
      obtain ⟨n, hroot, hpairs, hmut⟩ :=
        ih hne (by rw [length_merkleLevel]; rw [Nat.pow_succ] at hfuel; omega)
      refine ⟨n + 1, ?_, ?_, ?_⟩
      · rw [levelAt_succ, hroot, root_merkleLevel hlen]
      · intro i hi p hp
        rw [List.mem_append]
        cases i with
        | zero => exact Or.inl hp
        | succ i =>
          rw [levelAt_succ] at hp
          exact Or.inr (hpairs i (by omega) p hp)
      · intro hfalse i hi
        rw [merkleLevels, if_pos hlen] at hfalse
        obtain ⟨hfirst, hrest⟩ := Bool.or_eq_false_iff.1 hfalse
        cases i with
        | zero => exact hfirst
        | succ i =>
          rw [levelAt_succ]
          exact hmut hrest i (by omega)
    · obtain ⟨a, rfl⟩ : ∃ a, l = [a] := by
        have hpos := List.length_pos_iff.2 hl
        exact List.length_eq_one_iff.1 (by omega)
      exact ⟨0, rfl, nofun, nofun⟩

/-- Where one tree is at least as high as the other: if it is higher, then the leaves of the
other are among its inner hashes. -/
theorem eq_of_levelAt_le {m n : Nat} (hl : l ≠ []) (hle : m ≤ n) (hup : levelAt l m = levelAt l' n)
    (hfree : ∀ i < m, ∀ k < n,
      Merkle.NoCollision hashPair (levelPairs (levelAt l i)) (levelPairs (levelAt l' k)))
    (hapart : ∀ k < n, LeavesApart l (levelPairs (levelAt l' k)))
    (hmut : ∀ i < m, levelMutated (levelAt l i) = false)
    (hmut' : ∀ k < n, levelMutated (levelAt l' k) = false) : l = l' := by
  obtain ⟨d, rfl⟩ := Nat.exists_eq_add_of_le hle
  rw [levelAt_add] at hup
  have hsame : l = levelAt l' d := by
    apply eq_of_levelAt_eq hup
    · intro i hi
      rw [← levelAt_add]
      exact hfree i hi (i + d) (by omega)
    · exact hmut
    · intro i hi
      rw [← levelAt_add]
      exact hmut' (i + d) (by omega)
  cases d with
  | zero => exact hsame
  | succ d =>
    exfalso
    rw [levelAt_succ'] at hsame
    obtain ⟨a, ha⟩ := List.exists_mem_of_ne_nil l hl
    obtain ⟨p, hp, heq⟩ := mem_merkleLevel (hsame ▸ ha)
    exact hapart d (by omega) a ha p hp heq

/-- Two lists with the same root that are not mutated are the same. -/
theorem leaves_eq (hl : l ≠ []) (hl' : l' ≠ [])
    (hfree : Merkle.NoCollision hashPair (hashedPairs l) (hashedPairs l'))
    (hapart : LeavesApart l (hashedPairs l')) (hapart' : LeavesApart l' (hashedPairs l))
    (hmut : (build l).2.2 = false) (hmut' : (build l').2.2 = false)
    (hroot : (build l).1 = (build l').1) : l = l' := by
  obtain ⟨m, htop, hpairs, hlow⟩ := exists_height hl (length_le_two_pow l)
  obtain ⟨n, htop', hpairs', hlow'⟩ := exists_height hl' (length_le_two_pow l')
  have hup : levelAt l m = levelAt l' n :=
      htop.trans ((congrArg (fun a => [a]) hroot).trans htop'.symm)
  rcases Nat.le_total m n with hle | hle
  · apply eq_of_levelAt_le hl hle hup _ _ (hlow hmut) (hlow' hmut')
    · intro i hi k hk p hp q hq
      exact hfree p (hpairs i hi p hp) q (hpairs' k hk q hq)
    · intro k hk a ha p hp
      exact hapart a ha p (hpairs' k hk p hp)
  · symm
    apply eq_of_levelAt_le hl' hle hup.symm _ _ (hlow' hmut') (hlow hmut)
    · intro k hk i hi q hq p hp heq
      exact (hfree p (hpairs i hi p hp) q (hpairs' k hk q hq) heq.symm).symm
    · intro i hi a ha p hp
      exact hapart' a ha p (hpairs i hi p hp)

/-- The branch of every leaf leads to the root, and lists that are not empty and not mutated
have different roots unless they are the same, where no pairs that are hashed for them
collide and no leaf of one is a hash in the other. -/
theorem branch_and_root :
    (∀ (leaves : List Uint256) (i : Nat) (h : i < leaves.length),
      checkMerkleBranch leaves[i] (getMerkleBranch i leaves.length (build leaves).2.1) i =
        (build leaves).1) ∧
    ∀ l l' : List Uint256, l ≠ [] → l' ≠ [] →
      Merkle.NoCollision hashPair (hashedPairs l) (hashedPairs l') →
      LeavesApart l (hashedPairs l') → LeavesApart l' (hashedPairs l) →
      (build l).2.2 = false → (build l').2.2 = false → (build l).1 = (build l').1 → l = l' := by
  constructor
  · intro leaves i h
    rw [List.getElem_eq_getD 0]
    exact checkMerkleBranch_getMerkleBranch h
  · intro l l' hl hl' hfree hapart hapart' hmut hmut' hroot
    exact leaves_eq hl hl' hfree hapart hapart' hmut hmut' hroot

/-- Three leaves. -/
def threeLeaves : List Uint256 := [5, 6, 7]

/-- The last of three leaves. -/
theorem branch_and_root_three :
    checkMerkleBranch threeLeaves[2]
      (getMerkleBranch 2 threeLeaves.length (build threeLeaves).2.1) (2 : Nat) =
        (build threeLeaves).1 ∧ ([5, 6] : List Uint256) = [5, 6] :=
  ⟨branch_and_root.1 threeLeaves 2 (by decide),
    branch_and_root.2 [5, 6] [5, 6] (List.cons_ne_nil _ _) (List.cons_ne_nil _ _)
      (by decide +kernel) (by decide +kernel) (by decide +kernel) rfl rfl rfl⟩

/-- The root of no leaves is null, and so is the root of a single null leaf. -/
theorem empty_null : ¬∀ l l' : List Uint256,
    Merkle.NoCollision hashPair (hashedPairs l) (hashedPairs l') →
    LeavesApart l (hashedPairs l') → LeavesApart l' (hashedPairs l) →
    (build l).2.2 = false → (build l').2.2 = false → (build l).1 = (build l').1 → l = l' := by
  intro h
  have heq := h [] [0] nofun nofun (fun _ _ => nofun) rfl rfl rfl
  cases heq

end BlockTree

end IndexChain
