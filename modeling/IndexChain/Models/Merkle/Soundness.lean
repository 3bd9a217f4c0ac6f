import IndexChain.Models.Merkle.Matches

/-!
# What an extraction proves

An extraction that gives the hash of a node has descended to txids under that node, whatever
bits and hashes it was given: the pairs that it hashes are those of the tree, from the top
down (`mem_of_extract`). The two halves are stated together in `partialMerkleTree_correct`;
the samples are a block of two transactions, a block that is too large to be proved, and a
block whose root is the null hash, which failed extractions return.
-/

namespace IndexChain.CPartialMerkleTree

open IndexChain.Core

variable {t : CPartialMerkleTree} {vTxid : List Uint256}

/-! ## Arbitrary trees -/

/-- What is hashed from a node that is combined from its children. -/
theorem extractPairs_descend {height pos : Nat} {st : ExtractState}
    (hbit : t.vBits[st.nBitsUsed]? = some true) :
    t.extractPairs (height + 1) pos st =
      (let st := { st with nBitsUsed := st.nBitsUsed + 1 }
      let left := t.traverseAndExtract height (pos * 2) st
      if pos * 2 + 1 < t.calcTreeWidth height then
        let right := t.traverseAndExtract height (pos * 2 + 1) left.2
        t.extractPairs height (pos * 2) st ++
          t.extractPairs height (pos * 2 + 1) left.2 ++ [(left.1, right.1)]
      else t.extractPairs height (pos * 2) st ++ [(left.1, left.1)]) := by
  conv_lhs => unfold extractPairs
  rw [hbit]

/-- A node that is not combined adds its own hash at most, when it is a leaf. -/
theorem vMatch_of_stop {height pos : Nat} {st : ExtractState}
    (h : height = 0 ∨ t.vBits[st.nBitsUsed]? ≠ some true) {txid : Uint256}
    (hmem : txid ∈ (t.traverseAndExtract height pos st).2.vMatch) :
    txid ∈ st.vMatch ∨ height = 0 ∧ txid = (t.traverseAndExtract height pos st).1 := by
  cases hbit : t.vBits[st.nBitsUsed]? with
  | none =>
    unfold traverseAndExtract at hmem
    rw [hbit] at hmem
    exact Or.inl hmem
  | some fParentOfMatch =>
    have hstop : height = 0 ∨ fParentOfMatch = false := by
      rcases h with hzero | hne
      · exact Or.inl hzero
      · rw [hbit] at hne
        exact Or.inr (Bool.eq_false_iff.2 fun htrue => hne (congrArg some htrue))
    cases hhash : t.vHash[st.nHashUsed]? with
    | none =>
      refine Or.inl ?_
      unfold traverseAndExtract at hmem
      rw [hbit] at hmem
      dsimp only at hmem
      rcases hstop with rfl | rfl
      · rw [hhash] at hmem
        exact hmem
      · cases height with
        | zero =>
          rw [hhash] at hmem
          exact hmem
        | succ height =>
          rw [hhash] at hmem
          exact hmem
    | some hash =>
      rw [traverseAndExtract_stop hbit hhash hstop] at hmem ⊢
      dsimp only at hmem ⊢
      split at hmem
      · rename_i hleaf
        rw [Bool.and_eq_true, beq_iff_eq] at hleaf
        rcases List.mem_append.1 hmem with hold | hnew
        · exact Or.inl hold
        · exact Or.inr ⟨hleaf.1, List.mem_singleton.1 hnew⟩
      · exact Or.inl hmem

/-- An extraction that gives the hash of a node yields txids of the block only. -/
theorem mem_of_extract (hn : t.nTransactions = vTxid.length) {top height pos : Nat}
    {st : ExtractState} (hheight : height ≤ top) (hpos : pos < t.calcTreeWidth height)
    (hfree : Merkle.NoCollision hashPair (t.extractPairs height pos st)
      (Merkle.pairs hashPair t.nTransactions (fun p => vTxid.getD p 0) top))
    (heq : (t.traverseAndExtract height pos st).1 = t.calcHash vTxid height pos) {txid : Uint256}
    (hmem : txid ∈ (t.traverseAndExtract height pos st).2.vMatch) :
    txid ∈ st.vMatch ∨ txid ∈ vTxid := by
  induction height generalizing pos st txid with
  | zero =>
    rcases vMatch_of_stop (Or.inl rfl) hmem with hold | ⟨-, rfl⟩
    · exact Or.inl hold
    · have hlt : pos < vTxid.length := by
        rwa [calcTreeWidth_eq, Merkle.width_zero, hn] at hpos
      rw [heq]
      unfold calcHash
      rw [List.getD_eq_getElem _ _ hlt]
      exact Or.inr (List.getElem_mem hlt)
  | succ height ih =>
    by_cases hbit : t.vBits[st.nBitsUsed]? = some true
    · have hle : height ≤ top := Nat.le_of_succ_le hheight
      have hchild : pos * 2 < t.calcTreeWidth height := Merkle.left_lt hpos
      have hpair : Merkle.nodePair hashPair t.nTransactions (fun p => vTxid.getD p 0) height pos ∈
          Merkle.pairs hashPair t.nTransactions (fun p => vTxid.getD p 0) top :=
        Merkle.nodePair_mem hheight hpos
      rw [calcHash_eq, Merkle.node_succ, traverseAndExtract_descend hbit] at heq
      rw [traverseAndExtract_descend hbit] at hmem
      rw [extractPairs_descend hbit] at hfree
      dsimp only at heq hmem hfree
      by_cases hright : pos * 2 + 1 < t.calcTreeWidth height
      · rw [if_pos hright] at heq hmem hfree
        have hnodes := hfree _ (List.mem_append_right _ List.mem_cons_self) _ hpair heq
        unfold Merkle.nodePair at hnodes
        rw [← calcTreeWidth_eq, if_pos hright, ← calcHash_eq, ← calcHash_eq,
          Prod.mk.injEq] at hnodes
        have hrightFree := fun p hp =>
          hfree p (List.mem_append_left _ (List.mem_append_right _ hp))
        have hleftFree := fun p hp =>
          hfree p (List.mem_append_left _ (List.mem_append_left _ hp))
        rcases ih hle hright hrightFree hnodes.2 hmem with hold | hnew
        · exact ih hle hchild hleftFree hnodes.1 hold
        · exact Or.inr hnew
      · rw [if_neg hright] at heq hmem hfree
        have hnodes := hfree _ (List.mem_append_right _ List.mem_cons_self) _ hpair heq
        unfold Merkle.nodePair at hnodes
        rw [← calcHash_eq, Prod.mk.injEq] at hnodes
        exact ih hle hchild (fun p hp => hfree p (List.mem_append_left _ hp)) hnodes.1 hmem
    · rcases vMatch_of_stop (Or.inr hbit) hmem with hold | ⟨hzero, -⟩
      · exact Or.inl hold
      · exact absurd hzero (Nat.succ_ne_zero _)

/-- The pairs that `ExtractMatches` hashes. -/
def extractedPairs (t : CPartialMerkleTree) (fBad : Bool) : List (Uint256 × Uint256) :=
  t.extractPairs (t.heightFrom 32 0) 0 { fBad := fBad }

/-- An extraction that gives the root of a block yields txids of the block only. -/
theorem mem_of_extractMatches {maxBlockSize : Nat} (hmax : maxBlockSize < 2 ^ 31) {fBad : Bool}
    (hn : t.nTransactions = vTxid.length) (hroot : merkleRoot vTxid ≠ 0)
    (hfree : Merkle.NoCollision hashPair (t.extractedPairs fBad) (treePairs vTxid))
    (heq : (t.extractMatchesFrom fBad maxBlockSize).1 = merkleRoot vTxid) {txid : Uint256}
    (hmem : txid ∈ (t.extractMatchesFrom fBad maxBlockSize).2) : txid ∈ vTxid := by
  unfold extractMatchesFrom at heq hmem
  split at heq
  · exact absurd heq.symm hroot
  rename_i hguard
  rw [if_neg hguard] at hmem
  rw [not_or, not_or] at hguard
  dsimp only at heq hmem
  split at heq
  · exact absurd heq.symm hroot
  rename_i hgood
  rw [if_neg hgood] at hmem
  -- the extraction went through and gave the root
  have hpos : t.nTransactions ≠ 0 := hguard.1
  have hsize : t.nTransactions ≤ maxBlockSize / 60 := Nat.not_lt.1 hguard.2.1
  have hne : vTxid ≠ [] := by
    rintro rfl
    exact hpos hn
  have hwidth : t.calcTreeWidth 0 = t.nTransactions := by
    rw [calcTreeWidth_eq, Merkle.width_zero]
  obtain ⟨-, htop⟩ : 0 ≤ _ ∧ t.calcTreeWidth (t.heightFrom 32 0) = 1 :=
    heightFrom_spec (by omega) (by omega)
  have hheight := heightFrom_congr (t := t)
    (u := { nTransactions := vTxid.length, vBits := [], vHash := [] }) hn.symm 32 0
  unfold treePairs at hfree
  rw [hheight, ← hn] at hfree
  dsimp only at heq
  rw [merkleRoot_eq hn hne (by omega)] at heq
  rcases mem_of_extract hn le_rfl (htop ▸ Nat.one_pos) hfree heq hmem with hold | hnew
  · exact absurd hold List.not_mem_nil
  · exact hnew

/-- A non-empty list of distinct txids that is not too long is proved with its matches, and
whatever gives the root of a block yields txids of the block only, where no two pairs that are
hashed have the same hash. -/
theorem partialMerkleTree_correct {maxBlockSize : Nat} (hmax : maxBlockSize < 2 ^ 31)
    (vTxid : List Uint256) :
    (∀ vMatch : List Bool, vMatch.length = vTxid.length → vTxid ≠ [] →
      vTxid.length ≤ maxBlockSize / 60 → vTxid.Nodup →
      Merkle.NoCollision hashPair (treePairs vTxid) (treePairs vTxid) →
      (ofMatches vTxid vMatch).extractMatches maxBlockSize =
        (merkleRoot vTxid, matchedTxids (vTxid.zip vMatch))) ∧
    ∀ (t : CPartialMerkleTree) (fBad : Bool), t.nTransactions = vTxid.length →
      merkleRoot vTxid ≠ 0 →
      Merkle.NoCollision hashPair (t.extractedPairs fBad) (treePairs vTxid) →
      (t.extractMatchesFrom fBad maxBlockSize).1 = merkleRoot vTxid →
      ∀ txid ∈ (t.extractMatchesFrom fBad maxBlockSize).2, txid ∈ vTxid :=
  ⟨fun _ hlen hne hsize hnodup hfree =>
    extractMatches_ofMatches hmax hlen hne hsize hnodup hfree,
    fun _ _ hn hroot hfree heq _ hmem => mem_of_extractMatches hmax hn hroot hfree heq hmem⟩

end IndexChain.CPartialMerkleTree

namespace IndexChain.MerkleSample

open IndexChain.Core

/-- A block of two transactions. -/
def two : List Uint256 := [1, 2]

/-- The second is matched and proved, and nothing else is yielded. -/
theorem two_extracted :
    (CPartialMerkleTree.ofMatches two [false, true]).extractMatches 4194304 =
        (merkleRoot two, [2]) ∧
      ∀ txid ∈ ((CPartialMerkleTree.ofMatches two [false, true]).extractMatchesFrom false
        4194304).2, txid ∈ two := by
  have hcorrect := CPartialMerkleTree.partialMerkleTree_correct
    (by decide : 4194304 < 2 ^ 31) two
  have hextracted := hcorrect.1 [false, true] rfl (by decide) (by decide) (by decide)
    (by decide +kernel)
  have hroot := congrArg Prod.fst hextracted
  rw [CPartialMerkleTree.extractMatches_eq] at hroot
  refine ⟨hextracted, hcorrect.2 _ false ?_ ?_ ?_ hroot⟩
  · rw [CPartialMerkleTree.nTransactions_ofMatches]
    rfl
  · decide +kernel
  · decide +kernel

/-- More txids than a block may have. -/
def many : List Uint256 := (List.range 69906).map (BitVec.ofNat 256)

/-- A block whose only txid is the null hash. -/
def nullBlock : List Uint256 := [0]

/-- A tree with a hash of its own and too many bits. -/
def forged : CPartialMerkleTree where
  nTransactions := 1
  vBits := true :: List.replicate 15 false
  vHash := [5]

theorem many_nodup : many.Nodup := by
  refine List.Nodup.map_on (fun x hx y hy heq => ?_) List.nodup_range
  have hxlt := List.mem_range.1 hx
  have hylt := List.mem_range.1 hy
  have hnat := congrArg BitVec.toNat heq
  rw [BitVec.toNat_ofNat, BitVec.toNat_ofNat] at hnat
  omega

/-- A list of distinct txids that is too long is not proved, and a failed extraction returns
the root of a block whose root is the null hash. -/
theorem not_always_extracted :
    (many.Nodup ∧ (CPartialMerkleTree.ofMatches many (List.replicate 69906 true)).extractMatches
        4194304 ≠ (merkleRoot many, CPartialMerkleTree.matchedTxids
          (many.zip (List.replicate 69906 true)))) ∧
      forged.nTransactions = nullBlock.length ∧
      Merkle.NoCollision hashPair (forged.extractedPairs false)
        (CPartialMerkleTree.treePairs nullBlock) ∧
      (forged.extractMatchesFrom false 4194304).1 = merkleRoot nullBlock ∧
      5 ∈ (forged.extractMatchesFrom false 4194304).2 ∧ (5 : Uint256) ∉ nullBlock := by
  refine ⟨⟨many_nodup, ?_⟩, rfl, ?_, ?_, ?_, ?_⟩
  · have hlength : many.length = 69906 := by
      unfold many
      rw [List.length_map, List.length_range]
    have hlong : 4194304 / 60 < (CPartialMerkleTree.ofMatches many
        (List.replicate 69906 true)).nTransactions := by
      rw [CPartialMerkleTree.nTransactions_ofMatches, hlength]
      decide
    rw [CPartialMerkleTree.extractMatches_of_long hlong]
    intro heq
    -- the first txid is matched
    have hfirst : (0, true) ∈ many.zip (List.replicate 69906 true) := by
      refine List.mem_iff_getElem?.2 ⟨0, List.getElem?_zip_eq_some.2 ⟨?_, ?_⟩⟩
      · unfold many
        rw [List.getElem?_map, List.getElem?_range (by decide)]
        rfl
      · rw [List.getElem?_replicate, if_pos (by decide)]
    have hmem : (0 : Uint256) ∈ CPartialMerkleTree.matchedTxids
        (many.zip (List.replicate 69906 true)) :=
      List.mem_filterMap.2 ⟨(0, true), hfirst, rfl⟩
    rw [← (Prod.mk.inj heq).2] at hmem
    exact List.not_mem_nil hmem
  · decide
  · decide +kernel
  · decide +kernel
  · decide

end IndexChain.MerkleSample
