import IndexChain.Core.RaggedTree
import IndexChain.Models.Import.Approval

/-!
# Building partial Merkle trees

`CPartialMerkleTree` of `merkleblock.cpp` as it is built for a block, with the Merkle root of
`BuildMerkleTree` of `primitives/block.cpp`. The root is found level by level there and by
descending from the root in `CalcHash`; the two agree (`merkleRoot_eq`).
-/

namespace IndexChain

open IndexChain.Core

/-! ## The Merkle root of a block -/

/-- The next level of `BuildMerkleTree`. -/
def merkleLevel (level : List Uint256) : List Uint256 :=
  (List.range ((level.length + 1) / 2)).map fun j =>
    hashPair (level.getD (2 * j) 0) (level.getD (min (2 * j + 1) (level.length - 1)) 0)

/-- The last two hashes of a level are identical. -/
def levelMutated (level : List Uint256) : Bool :=
  (List.range ((level.length + 1) / 2)).any fun j =>
    let i2 := min (2 * j + 1) (level.length - 1)
    i2 == 2 * j + 1 && i2 + 1 == level.length && level.getD (2 * j) 0 == level.getD i2 0

/-- The loop of `BuildMerkleTree` over the levels, for at most `2 ^ 32` leaves. -/
def merkleLevels : Nat → List Uint256 → List Uint256 × Bool
  | 0, level => (level, false)
  | fuel + 1, level =>
    if 1 < level.length then
      let above := merkleLevels fuel (merkleLevel level)
      (level ++ above.1, levelMutated level || above.2)
    else (level, false)

/-- `BuildMerkleTree`: the root, the tree and whether the list was mutated. -/
def buildMerkleTree (leaves : List Uint256) : Uint256 × List Uint256 × Bool :=
  let tree := merkleLevels 32 leaves
  (tree.1.getLast?.getD 0, tree.1, tree.2)

/-- The Merkle root of a list of txids. -/
def merkleRoot (leaves : List Uint256) : Uint256 := (buildMerkleTree leaves).1

namespace CPartialMerkleTree

/-! ## The partial tree of a block -/

/-- `CalcHash`. -/
def calcHash (t : CPartialMerkleTree) (vTxid : List Uint256) : Nat → Nat → Uint256
  | 0, pos => vTxid.getD pos 0
  | height + 1, pos =>
    let left := calcHash t vTxid height (pos * 2)
    let right := if pos * 2 + 1 < t.calcTreeWidth height then
      calcHash t vTxid height (pos * 2 + 1) else left
    hashPair left right

/-- The loop of `TraverseAndBuild`: a node is the parent of a matched txid. -/
def parentOfMatch (t : CPartialMerkleTree) (vMatch : List Bool) (height pos : Nat) : Bool :=
  (List.range' (pos <<< height) ((pos + 1) <<< height - pos <<< height)).any fun p =>
    decide (p < t.nTransactions) && vMatch.getD p false

/-- `TraverseAndBuild`. -/
def traverseAndBuild (vTxid : List Uint256) (vMatch : List Bool) :
    Nat → Nat → CPartialMerkleTree → CPartialMerkleTree
  | height, pos, t =>
    let fParentOfMatch := t.parentOfMatch vMatch height pos
    let t := { t with vBits := t.vBits ++ [fParentOfMatch] }
    match height, fParentOfMatch with
    | 0, _ | _ + 1, false => { t with vHash := t.vHash ++ [t.calcHash vTxid height pos] }
    | height + 1, true =>
      let t := traverseAndBuild vTxid vMatch height (pos * 2) t
      if pos * 2 + 1 < t.calcTreeWidth height then
        traverseAndBuild vTxid vMatch height (pos * 2 + 1) t
      else t

/-- The constructor from txids and matches. -/
def ofMatches (vTxid : List Uint256) (vMatch : List Bool) : CPartialMerkleTree :=
  let t : CPartialMerkleTree :=
    { nTransactions := vTxid.length % 2 ^ 32, vBits := [], vHash := [] }
  traverseAndBuild vTxid vMatch (t.heightFrom 32 0) 0 t

/-- `ExtractMatches` of an object whose flag `fBad` may be set by an earlier call. -/
def extractMatchesFrom (t : CPartialMerkleTree) (fBad : Bool) (maxBlockSize : Nat) :
    Uint256 × List Uint256 :=
  if t.nTransactions = 0 ∨ maxBlockSize / 60 < t.nTransactions ∨
      t.nTransactions < t.vHash.length ∨ t.vBits.length < t.vHash.length then (0, [])
  else
    let r := t.traverseAndExtract (t.heightFrom 32 0) 0 { fBad := fBad }
    if r.2.fBad ∨ (r.2.nBitsUsed + 7) / 8 ≠ (t.vBits.length + 7) / 8 ∨
        r.2.nHashUsed ≠ t.vHash.length then (0, r.2.vMatch)
    else (r.1, r.2.vMatch)

/-- An object that was just built or read. -/
theorem extractMatches_eq (t : CPartialMerkleTree) (maxBlockSize : Nat) :
    t.extractMatches maxBlockSize = t.extractMatchesFrom false maxBlockSize := rfl

/-- The pairs that `TraverseAndExtract` hashes. -/
def extractPairs (t : CPartialMerkleTree) :
    Nat → Nat → ExtractState → List (Uint256 × Uint256)
  | height, pos, st => match t.vBits[st.nBitsUsed]? with
    | none => []
    | some fParentOfMatch =>
      let st := { st with nBitsUsed := st.nBitsUsed + 1 }
      match height, fParentOfMatch with
      | 0, _ | _ + 1, false => []
      | height + 1, true =>
        let left := t.traverseAndExtract height (pos * 2) st
        if pos * 2 + 1 < t.calcTreeWidth height then
          let right := t.traverseAndExtract height (pos * 2 + 1) left.2
          extractPairs t height (pos * 2) st ++
            extractPairs t height (pos * 2 + 1) left.2 ++ [(left.1, right.1)]
        else extractPairs t height (pos * 2) st ++ [(left.1, left.1)]

/-! ## The height of a tree -/

variable {t : CPartialMerkleTree}

theorem calcTreeWidth_eq (t : CPartialMerkleTree) (height : Nat) :
    t.calcTreeWidth height = Merkle.width t.nTransactions height := rfl

/-- One node is at the top, and there are more below. -/
theorem heightFrom_spec {fuel nHeight : Nat} (hpos : 0 < t.calcTreeWidth nHeight)
    (hfuel : t.calcTreeWidth nHeight ≤ 2 ^ fuel) :
    nHeight ≤ t.heightFrom fuel nHeight ∧ t.calcTreeWidth (t.heightFrom fuel nHeight) = 1 := by
  induction fuel generalizing nHeight with
  | zero => exact ⟨le_rfl, Nat.le_antisymm hfuel hpos⟩
  | succ fuel ih =>
    unfold heightFrom
    have hwidth := Merkle.width_succ t.nTransactions nHeight
    rw [← calcTreeWidth_eq, ← calcTreeWidth_eq] at hwidth
    rw [Nat.pow_succ] at hfuel
    split
    · obtain ⟨hle, htop⟩ : nHeight + 1 ≤ _ ∧ _ := ih (by omega) (by omega)
      exact ⟨Nat.le_of_succ_le hle, htop⟩
    · exact ⟨le_rfl, by omega⟩

/-- Two children are hashed together. -/
theorem calcHash_succ_pair {t : CPartialMerkleTree} (vTxid : List Uint256) {height pos : Nat}
    (h : pos * 2 + 1 < t.calcTreeWidth height) :
    t.calcHash vTxid (height + 1) pos =
      hashPair (t.calcHash vTxid height (pos * 2)) (t.calcHash vTxid height (pos * 2 + 1)) := by
  conv_lhs => unfold calcHash
  dsimp only
  rw [if_pos h]

/-- A single child is hashed with itself. -/
theorem calcHash_succ_single {t : CPartialMerkleTree} (vTxid : List Uint256) {height pos : Nat}
    (h : ¬ pos * 2 + 1 < t.calcTreeWidth height) :
    t.calcHash vTxid (height + 1) pos =
      hashPair (t.calcHash vTxid height (pos * 2)) (t.calcHash vTxid height (pos * 2)) := by
  conv_lhs => unfold calcHash
  dsimp only
  rw [if_neg h]

/-- `CalcHash` is the hash of a node. -/
theorem calcHash_eq (t : CPartialMerkleTree) (vTxid : List Uint256) (height pos : Nat) :
    t.calcHash vTxid height pos =
      Merkle.node hashPair t.nTransactions (fun p => vTxid.getD p 0) height pos := by
  induction height generalizing pos with
  | zero => rfl
  | succ height ih =>
    unfold calcHash Merkle.node
    dsimp only
    rw [ih, ih, calcTreeWidth_eq]

/-! ## The root -/

/-- The nodes of a height. -/
def levelNodes (t : CPartialMerkleTree) (vTxid : List Uint256) (height : Nat) : List Uint256 :=
  (List.range (t.calcTreeWidth height)).map (t.calcHash vTxid height)

theorem length_levelNodes (vTxid : List Uint256) (height : Nat) :
    (t.levelNodes vTxid height).length = t.calcTreeWidth height := by
  unfold levelNodes
  rw [List.length_map, List.length_range]

theorem getD_levelNodes {vTxid : List Uint256} {height pos : Nat}
    (h : pos < t.calcTreeWidth height) :
    (t.levelNodes vTxid height).getD pos 0 = t.calcHash vTxid height pos := by
  unfold levelNodes
  rw [List.getD_eq_getElem?_getD, List.getElem?_map, List.getElem?_range h]
  rfl

/-- The next level of the nodes of a height. -/
theorem merkleLevel_levelNodes (vTxid : List Uint256) (height : Nat) :
    merkleLevel (t.levelNodes vTxid height) = t.levelNodes vTxid (height + 1) := by
  have hwidth := Merkle.width_succ t.nTransactions height
  rw [← calcTreeWidth_eq, ← calcTreeWidth_eq] at hwidth
  unfold merkleLevel
  rw [length_levelNodes, ← hwidth]
  refine List.map_congr_left fun j hj => ?_
  have hlt := List.mem_range.1 hj
  rw [hwidth] at hlt
  unfold calcHash
  dsimp only
  rw [getD_levelNodes (by omega), getD_levelNodes (by omega), Nat.mul_comm 2 j]
  split
  · rename_i hright
    rw [Nat.min_eq_left (by omega)]
  · rename_i hright
    have hlast : min (j * 2 + 1) (t.calcTreeWidth height - 1) = j * 2 := by omega
    rw [hlast]

theorem getLast_levelNodes {vTxid : List Uint256} {height : Nat}
    (h : t.calcTreeWidth height = 1) :
    (t.levelNodes vTxid height).getLast? = some (t.calcHash vTxid height 0) := by
  unfold levelNodes
  rw [h]
  rfl

/-- The last hash of the levels is the one at the top. -/
theorem getLast_merkleLevels {vTxid : List Uint256} {fuel height : Nat}
    (hpos : 0 < t.calcTreeWidth height) (hfuel : t.calcTreeWidth height ≤ 2 ^ fuel) :
    (merkleLevels fuel (t.levelNodes vTxid height)).1.getLast? =
      some (t.calcHash vTxid (t.heightFrom fuel height) 0) := by
  induction fuel generalizing height with
  | zero => exact getLast_levelNodes (Nat.le_antisymm hfuel hpos)
  | succ fuel ih =>
    have hwidth := Merkle.width_succ t.nTransactions height
    rw [← calcTreeWidth_eq, ← calcTreeWidth_eq] at hwidth
    rw [Nat.pow_succ] at hfuel
    unfold merkleLevels heightFrom
    rw [length_levelNodes, merkleLevel_levelNodes]
    split
    · dsimp only
      rw [List.getLast?_append, ih (by omega) (by omega), Option.some_or]
    · exact getLast_levelNodes (by omega)

theorem levelNodes_zero {vTxid : List Uint256} (hn : t.nTransactions = vTxid.length) :
    t.levelNodes vTxid 0 = vTxid := by
  have hwidth : t.calcTreeWidth 0 = vTxid.length := by
    rw [calcTreeWidth_eq, Merkle.width_zero, hn]
  refine List.ext_getElem (by rw [length_levelNodes, hwidth]) fun i hi hi' => ?_
  rw [List.getElem_eq_getD 0, List.getElem_eq_getD 0, getD_levelNodes (by omega)]
  rfl

/-- The Merkle root of a block is the hash at the top of its tree. -/
theorem merkleRoot_eq {vTxid : List Uint256} (hn : t.nTransactions = vTxid.length)
    (hne : vTxid ≠ []) (hlen : vTxid.length ≤ 2 ^ 32) :
    merkleRoot vTxid = t.calcHash vTxid (t.heightFrom 32 0) 0 := by
  have hwidth : t.calcTreeWidth 0 = vTxid.length := by
    rw [calcTreeWidth_eq, Merkle.width_zero, hn]
  have hpos := List.length_pos_iff.2 hne
  have hlast : (merkleLevels 32 (t.levelNodes vTxid 0)).1.getLast? = _ :=
    getLast_merkleLevels (by omega) (by omega)
  rw [levelNodes_zero hn] at hlast
  unfold merkleRoot buildMerkleTree
  dsimp only
  rw [hlast]
  rfl

end CPartialMerkleTree

end IndexChain
