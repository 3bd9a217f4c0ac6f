import IndexChain.Models.Import.ImportTx
import IndexChain.Models.Merkle.BlockBranch
import IndexChain.Models.Notary.NotarisationDB

/-!
# Proofs from a transaction to a notarisation

`GetAssetchainProof` of `crosschain.cpp` joins the Merkle branch of a transaction in its
block and the branch of the block under the Merkle root of a notarisation, and packs the two
positions into one `int`. A proof that is returned leads to the root. One is returned for
every covered block, as long as the positions fit and no node on the way up from the block
equals the sibling to its left.
-/

namespace IndexChain.Notary

open IndexChain.Core BlockTree Wire

/-- What an entry of the block index says. -/
structure ProofBlockIndex where
  height : Nat
  hashMerkleRoot : Uint256
  /-- `nStatus & BLOCK_HAVE_DATA`. -/
  haveData : Bool := true
  nTx : Nat := 1
  deriving DecidableEq, Repr

/-- What is read of a block. -/
structure ProofBlock where
  hashMerkleRoot : Uint256
  /-- The ids of `vtx`. -/
  vtx : List Uint256
  deriving DecidableEq, Repr

/-- The parts of a node that a proof is made from. -/
structure ProofNode where
  /-- `ASSETCHAINS_SYMBOL`. -/
  symbol : List UInt8
  /-- `GetTransaction`: the hash of its block, null in the memory pool. -/
  getTransaction : Uint256 → Option Uint256
  /-- `komodo_getblockindex`. -/
  getBlockIndex : Uint256 → Option ProofBlockIndex
  /-- `chainActive[height]`. -/
  chainActive : Nat → Option ProofBlockIndex
  /-- `chainActive.Height()`. -/
  chainHeight : Nat
  /-- `GetBlockNotarisations` of the block at a height of the active chain. -/
  notarisations : Nat → Option NotarisationsInBlock
  /-- `fHavePruned`. -/
  fHavePruned : Bool
  /-- `ReadBlockFromDisk`. -/
  readBlockFromDisk : ProofBlockIndex → Option ProofBlock

/-- How the function ends without a proof. -/
inductive ProofError where
  | thrown (what : String)
  /-- A null pointer, or an `int` out of its range. -/
  | undefined
  deriving DecidableEq, Repr

/-- The loop of `SafeCheckMerkleBranch`. -/
def safeFoldBranch : Uint256 → List Uint256 → Int → Uint256
  | hash, [], _ => hash
  | hash, it :: vMerkleBranch, nIndex =>
    if nIndex % 2 = 1 then
      -- the hash may be equal to the node beside it, but never on the right
      if it = hash then 0 else safeFoldBranch (hashPair it hash) vMerkleBranch (nIndex / 2)
    else safeFoldBranch (hashPair hash it) vMerkleBranch (nIndex / 2)

/-- `SafeCheckMerkleBranch`. -/
def safeCheckMerkleBranch (hash : Uint256) (vMerkleBranch : List Uint256) (nIndex : Int) :
    Uint256 :=
  if nIndex = -1 then 0 else safeFoldBranch hash vMerkleBranch nIndex

/-- `NOTARISATION_SCAN_LIMIT_BLOCKS`. -/
def notarisationScanLimitBlocks : Nat := 1440

namespace ProofNode

variable (node : ProofNode)

/-- `IsSameAssetChain`. -/
def isSameAssetChain (nota : Notarisation) : Bool := nota.2.symbol.chars == node.symbol

/-- `ScanNotarisationsFromHeight`. -/
def scanNotarisationsFromHeight (nHeight : Nat) (f : Notarisation → Bool) : Option Notarisation :=
  let limit := min (nHeight + notarisationScanLimitBlocks) node.chainHeight
  let start := max nHeight 1
  (List.range' start (limit - start)).findSome? fun h => (node.notarisations h).bind (List.find? f)

/-- The block of a transaction, and the first notarisation at its height or above. -/
def findNotarisation (hash : Uint256) : Except ProofError (ProofBlockIndex × Notarisation) :=
  match node.getTransaction hash with
  | none => .error (.thrown "cannot find transaction")
  | some blockHash =>
    if blockHash = 0 then .error (.thrown "tx still in mempool")
    else match node.getBlockIndex blockHash with
      | none => .error .undefined
      | some blockIndex =>
        match node.scanNotarisationsFromHeight blockIndex.height fun nota =>
            node.isSameAssetChain nota && decide (blockIndex.height ≤ nota.2.height.toNat) with
        | none => .error (.thrown "backnotarisation not yet confirmed")
        | some nota => .ok (blockIndex, nota)

/-- The leaves under the root of a notarisation, from its height down. -/
def momLeaves (nota : Notarisation) : Option (List Uint256) :=
  (List.range nota.2.MoMDepth.toNat).mapM fun i =>
    if i ≤ nota.2.height.toNat then
      (node.chainActive (nota.2.height.toNat - i)).map ProofBlockIndex.hashMerkleRoot
    else none

/-- The branch from a block to the root of a notarisation. -/
def blockBranch (blockIndex : ProofBlockIndex) (nota : Notarisation) (nIndex : Nat) :
    Except ProofError (List Uint256) :=
  match node.momLeaves nota with
  | none => .error .undefined
  | some leaves =>
    let branch := getMerkleBranch nIndex leaves.length (build leaves).2.1
    if nota.2.MoM ≠ safeCheckMerkleBranch blockIndex.hashMerkleRoot branch nIndex then
      .error (.thrown "Failed merkle block->MoM")
    else .ok branch

/-- The position of a transaction in its block, and the branch from there to its root. -/
def txBranch (blockIndex : ProofBlockIndex) (hash : Uint256) :
    Except ProofError (Nat × List Uint256) :=
  if node.fHavePruned ∧ blockIndex.haveData = false ∧ 0 < blockIndex.nTx then
    .error (.thrown "Block not available (pruned data)")
  else match node.readBlockFromDisk blockIndex with
    | none => .error (.thrown "Can't read block from disk")
    | some block =>
      let nTxIndex := block.vtx.idxOf hash
      if nTxIndex = block.vtx.length then .error (.thrown "Error locating tx in block")
      else
        let branch := getMerkleBranch nTxIndex block.vtx.length (build block.vtx).2.1
        if block.hashMerkleRoot ≠ checkMerkleBranch hash branch nTxIndex then
          .error (.thrown "Failed merkle tx->block")
        else .ok (nTxIndex, branch)

/-- The two branches one after the other, with both positions in one `int`. -/
def joinBranches (hash : Uint256) (nota : Notarisation) (nIndex : Nat) (branch : List Uint256)
    (nTxIndex : Nat) (txBranch : List Uint256) : Except ProofError TxProof :=
  let packed := nIndex * 2 ^ txBranch.length + nTxIndex
  if 2 ^ 31 ≤ packed then .error .undefined
  else if nota.2.MoM ≠ checkMerkleBranch hash (txBranch ++ branch) packed then
    .error (.thrown "Failed validating MoM")
  else .ok (nota.2.txHash, { nIndex := Int32.ofNat packed, branch := txBranch ++ branch })

/-- `GetAssetchainProof`. -/
def getAssetchainProof (hash : Uint256) : Except ProofError TxProof := do
  let (blockIndex, nota) ← node.findNotarisation hash
  let nIndex := nota.2.height.toNat - blockIndex.height
  if 2 ^ 31 ≤ nIndex then .error .undefined
  else do
    let branch ← node.blockBranch blockIndex nota nIndex
    let (nTxIndex, txBranch) ← node.txBranch blockIndex hash
    joinBranches hash nota nIndex branch nTxIndex txBranch

end ProofNode

/-! ## The two branches -/

variable {l l' : List Uint256} {fuel i n t : Nat} {hash : Uint256} {branch branch' : List Uint256}

/-- No node on the way up from an index equals the sibling to its left. -/
def CanonicalFrom : Nat → List Uint256 → Nat → Prop
  | 0, _, _ => True
  | fuel + 1, l, i =>
    1 < l.length → (i % 2 = 1 → l.getD (i - 1) 0 ≠ l.getD i 0) ∧
      CanonicalFrom fuel (merkleLevel l) (i / 2)

/-- No node on the way up from a leaf equals the sibling to its left. -/
def Canonical (leaves : List Uint256) (i : Nat) : Prop := CanonicalFrom leaves.length leaves i

/-- The index says which way each node goes, and a part of it the ways of a part. -/
theorem foldBranch_append (ht : t < 2 ^ branch.length) :
    foldBranch hash (branch ++ branch') (n * 2 ^ branch.length + t : Nat) =
      foldBranch (foldBranch hash branch t) branch' n := by
  induction branch generalizing hash t with
  | nil =>
    obtain rfl : t = 0 := by simpa using ht
    simp [foldBranch]
  | cons it branch ih =>
    rw [List.length_cons, Nat.pow_succ] at ht ⊢
    have hbit : ((n * (2 ^ branch.length * 2) + t : Nat) : Int) % 2 = (t : Int) % 2 := by
      rw [← Nat.mul_assoc]
      omega
    have hrest : ((n * (2 ^ branch.length * 2) + t : Nat) : Int) / 2 =
        (n * 2 ^ branch.length + t / 2 : Nat) := by
      rw [← Nat.mul_assoc]
      omega
    rw [List.cons_append, foldBranch, foldBranch, hbit, hrest, ih (by omega)]
    rfl

/-- A branch is as long as the tree is high. -/
theorem le_two_pow_length_branch (tree : List Uint256) (j : Nat) (hn : n ≤ 2 ^ fuel) :
    n ≤ 2 ^ (getMerkleBranchFrom tree fuel i n j).length := by
  induction fuel generalizing n i j with
  | zero => exact hn
  | succ fuel ih =>
    rw [getMerkleBranchFrom]
    split
    · rw [List.length_cons, Nat.pow_succ]
      rw [Nat.pow_succ] at hn
      have hup := ih (n := (n + 1) / 2) (i := i >>> 1) (j + n) (by omega)
      omega
    · rw [List.length_nil]
      omega

/-- The guarded walk ends at the root of a level, or gives nothing where a node equals the
sibling to its left. -/
theorem safeFoldBranch_from (pre : List Uint256) (hi : i < l.length) (hfuel : l.length ≤ 2 ^ fuel) :
    (CanonicalFrom fuel l i → safeFoldBranch (l.getD i 0) (getMerkleBranchFrom
      (pre ++ (merkleLevels fuel l).1) fuel i l.length pre.length) i =
        (merkleLevels fuel l).1.getLast?.getD 0) ∧
    (¬CanonicalFrom fuel l i → safeFoldBranch (l.getD i 0) (getMerkleBranchFrom
      (pre ++ (merkleLevels fuel l).1) fuel i l.length pre.length) i = 0) := by
  induction fuel generalizing l pre i with
  | zero =>
    obtain ⟨hbranch, hroot⟩ := branch_of_length_le_one 0 (pre ++ (merkleLevels 0 l).1) pre.length
      hi hfuel
    rw [hbranch, hroot, safeFoldBranch]
    exact ⟨fun _ => rfl, fun hnot => absurd trivial hnot⟩
  | succ fuel ih =>
    rw [CanonicalFrom]
    by_cases hlen : 1 < l.length
    · rw [Nat.pow_succ] at hfuel
      have hup := length_merkleLevel l
      obtain ⟨hroot, hnull⟩ := ih (pre ++ l) (l := merkleLevel l) (i := i / 2) (by omega) (by omega)
      have hpair := hashPair_sibling hi
      rw [getMerkleBranchFrom_succ pre hlen, root_merkleLevel hlen, safeFoldBranch]
      rcases Nat.mod_two_eq_zero_or_one i with heven | hodd
      · rw [if_neg (by omega)] at hpair
        rw [if_neg (by omega), hpair]
        constructor
        · intro hcanonical
          exact_mod_cast hroot (hcanonical hlen).2
        · intro hnot
          have habove : ¬CanonicalFrom fuel (merkleLevel l) (i / 2) :=
            fun h => hnot fun _ => ⟨fun hodd => by omega, h⟩
          exact_mod_cast hnull habove
      · have hleft : min (i ^^^ 1) (l.length - 1) = i - 1 := by
          rw [Nat.xor_one_of_odd (Nat.odd_iff.2 hodd)]
          omega
        rw [if_pos hodd, hleft] at hpair
        rw [if_pos (by omega), hleft]
        by_cases heq : l.getD (i - 1) 0 = l.getD i 0
        · rw [if_pos heq]
          exact ⟨fun hcanonical => absurd heq ((hcanonical hlen).1 hodd), fun _ => rfl⟩
        · rw [if_neg heq, hpair]
          constructor
          · intro hcanonical
            exact_mod_cast hroot (hcanonical hlen).2
          · intro hnot
            have habove : ¬CanonicalFrom fuel (merkleLevel l) (i / 2) :=
              fun h => hnot fun _ => ⟨fun _ => heq, h⟩
            exact_mod_cast hnull habove
    · obtain ⟨hbranch, hroot⟩ := branch_of_length_le_one (fuel + 1)
        (pre ++ (merkleLevels (fuel + 1) l).1) pre.length hi (by omega)
      rw [hbranch, hroot, safeFoldBranch]
      exact ⟨fun _ => rfl, fun hnot => absurd (fun h => absurd h hlen) hnot⟩

/-- The guarded test of the branch of a leaf. -/
theorem safeCheckMerkleBranch_getMerkleBranch (hi : i < l.length) :
    (Canonical l i → safeCheckMerkleBranch (l.getD i 0)
      (getMerkleBranch i l.length (build l).2.1) i = (build l).1) ∧
    (¬Canonical l i → safeCheckMerkleBranch (l.getD i 0)
      (getMerkleBranch i l.length (build l).2.1) i = 0) := by
  rw [safeCheckMerkleBranch, if_neg (by omega)]
  exact safeFoldBranch_from [] hi (length_le_two_pow l)

/-- The branch of the first place of a leaf leads to the root. -/
theorem checkMerkleBranch_idxOf (h : hash ∈ l) :
    checkMerkleBranch hash (getMerkleBranch (l.idxOf hash) l.length (build l).2.1) (l.idxOf hash) =
      (build l).1 := by
  have hlt := List.idxOf_lt_length_of_mem h
  have hget : l.getD (l.idxOf hash) 0 = hash :=
    (List.getElem_eq_getD 0).symm.trans (List.getElem_idxOf hlt)
  have hcheck := checkMerkleBranch_getMerkleBranch hlt
  rwa [hget] at hcheck

/-! ## Covered blocks -/

/-- The transaction is in a block of the active chain, which the first notarisation at its
height or above covers; the roots of the block and of the notarisation are right. -/
structure Covered (node : ProofNode) (hash : Uint256) (nota : Notarisation)
    (blockIndex : ProofBlockIndex) (block : ProofBlock) (leaves : List Uint256) : Prop where
  found : node.findNotarisation hash = .ok (blockIndex, nota)
  inChain : node.chainActive blockIndex.height = some blockIndex
  momLeaves : node.momLeaves nota = some leaves
  covers : nota.2.height.toNat - blockIndex.height < nota.2.MoMDepth.toNat
  mom : nota.2.MoM = (build leaves).1
  haveData : blockIndex.haveData = true
  onDisk : node.readBlockFromDisk blockIndex = some block
  sameRoot : block.hashMerkleRoot = blockIndex.hashMerkleRoot
  root : block.hashMerkleRoot = (build block.vtx).1
  mem : hash ∈ block.vtx

/-- What a list is read to, entry by entry. -/
theorem getElem?_of_mapM {α β : Type} {f : α → Option β} {as : List α} {bs : List β}
    (h : as.mapM f = some bs) : bs.length = as.length ∧
      ∀ (i : Nat) (a : α), as[i]? = some a → ∃ b, bs[i]? = some b ∧ f a = some b := by
  induction as generalizing bs with
  | nil =>
    obtain rfl : [] = bs := by simpa using h
    exact ⟨rfl, nofun⟩
  | cons a as ih =>
    rw [List.mapM_cons] at h
    obtain ⟨b, hb, h⟩ := Option.bind_eq_some_iff.1 h
    obtain ⟨bs', hbs, h⟩ := Option.bind_eq_some_iff.1 h
    obtain rfl := Option.some.inj h
    obtain ⟨hlen, hget⟩ := ih hbs
    refine ⟨by simp [hlen], ?_⟩
    intro i x hx
    cases i with
    | zero => exact ⟨b, rfl, Option.some.inj hx ▸ hb⟩
    | succ i => exact hget i x hx

namespace Covered

variable {node : ProofNode} {nota : Notarisation} {blockIndex : ProofBlockIndex}
  {block : ProofBlock} {leaves : List Uint256}

/-- The scan stops at the height of the block or above. -/
theorem height_le (h : Covered node hash nota blockIndex block leaves) :
    blockIndex.height ≤ nota.2.height.toNat := by
  have hfound := h.found
  rw [ProofNode.findNotarisation] at hfound
  split at hfound
  · cases hfound
  · split at hfound
    · cases hfound
    · split at hfound
      · cases hfound
      · split at hfound
        · cases hfound
        · next nota' hscan =>
          obtain ⟨rfl, rfl⟩ := Prod.mk.inj (Except.ok.inj hfound)
          rw [ProofNode.scanNotarisationsFromHeight] at hscan
          obtain ⟨k, -, hk⟩ := List.exists_of_findSome?_eq_some hscan
          obtain ⟨nibs, -, hfind⟩ := Option.bind_eq_some_iff.1 hk
          have htarget := List.find?_some hfind
          rw [Bool.and_eq_true, decide_eq_true_eq] at htarget
          exact htarget.2

/-- The root of the block is one of the leaves. -/
theorem leaf (h : Covered node hash nota blockIndex block leaves) :
    nota.2.height.toNat - blockIndex.height < leaves.length ∧
      leaves.getD (nota.2.height.toNat - blockIndex.height) 0 = blockIndex.hashMerkleRoot := by
  obtain ⟨hlen, hget⟩ := getElem?_of_mapM h.momLeaves
  rw [List.length_range] at hlen
  refine ⟨by rw [hlen]; exact h.covers, ?_⟩
  obtain ⟨b, hb, hleaf⟩ := hget _ _ (List.getElem?_range h.covers)
  have hheight : nota.2.height.toNat - (nota.2.height.toNat - blockIndex.height) =
      blockIndex.height := by
    have hle := h.height_le
    omega
  rw [if_pos (Nat.sub_le _ _), hheight, h.inChain, Option.map_some, Option.some.injEq] at hleaf
  rw [List.getD_eq_getElem?_getD, hb, ← hleaf]
  rfl

/-- The branch of the block is found unless a node on its way equals the one to its left. -/
theorem blockBranch_eq (h : Covered node hash nota blockIndex block leaves) :
    let nIndex := nota.2.height.toNat - blockIndex.height
    (Canonical leaves nIndex → node.blockBranch blockIndex nota nIndex =
      .ok (getMerkleBranch nIndex leaves.length (build leaves).2.1)) ∧
    (¬Canonical leaves nIndex → nota.2.MoM ≠ 0 → node.blockBranch blockIndex nota nIndex =
      .error (.thrown "Failed merkle block->MoM")) := by
  intro nIndex
  obtain ⟨hlt, hleaf⟩ := h.leaf
  obtain ⟨hroot, hnull⟩ := safeCheckMerkleBranch_getMerkleBranch hlt
  rw [hleaf] at hroot hnull
  rw [ProofNode.blockBranch, h.momLeaves]
  constructor
  · intro hcanonical
    exact if_neg (not_not.2 (h.mom.trans (hroot hcanonical).symm))
  · intro hnot hmom
    exact if_pos (hnull hnot ▸ hmom)

/-- The branch of the transaction is found. -/
theorem txBranch_eq (h : Covered node hash nota blockIndex block leaves) :
    node.txBranch blockIndex hash = .ok (block.vtx.idxOf hash,
      getMerkleBranch (block.vtx.idxOf hash) block.vtx.length (build block.vtx).2.1) := by
  have hlt : block.vtx.idxOf hash < block.vtx.length := List.idxOf_lt_length_of_mem h.mem
  have hcheck := checkMerkleBranch_idxOf h.mem
  rw [← h.root] at hcheck
  rw [ProofNode.txBranch, if_neg (by simp [h.haveData]), h.onDisk]
  dsimp only
  rw [if_neg hlt.ne, if_neg (not_not.2 hcheck.symm)]

/-- Both branches together lead from the transaction to the root of the notarisation. -/
theorem checkMerkleBranch_eq (h : Covered node hash nota blockIndex block leaves) :
    let nIndex := nota.2.height.toNat - blockIndex.height
    let nTxIndex := block.vtx.idxOf hash
    let txBranch := getMerkleBranch nTxIndex block.vtx.length (build block.vtx).2.1
    checkMerkleBranch hash (txBranch ++ getMerkleBranch nIndex leaves.length (build leaves).2.1)
      (nIndex * 2 ^ txBranch.length + nTxIndex : Nat) = nota.2.MoM := by
  intro nIndex nTxIndex txBranch
  have hlt : nTxIndex < block.vtx.length := List.idxOf_lt_length_of_mem h.mem
  have hpow : block.vtx.length ≤ 2 ^ txBranch.length :=
    le_two_pow_length_branch _ 0 (length_le_two_pow block.vtx)
  have htx := checkMerkleBranch_idxOf h.mem
  obtain ⟨hblock, hleaf⟩ := h.leaf
  have hmom := checkMerkleBranch_getMerkleBranch hblock
  rw [← h.root, h.sameRoot, checkMerkleBranch, if_neg (by omega)] at htx
  rw [hleaf, ← h.mom, checkMerkleBranch, if_neg (by omega)] at hmom
  rw [checkMerkleBranch, if_neg (by omega), foldBranch_append (hlt.trans_le hpow), htx, hmom]

end Covered

namespace Covered

variable {node : ProofNode} {nota : Notarisation} {blockIndex : ProofBlockIndex}
  {block : ProofBlock} {leaves : List Uint256}

/-- What is left to do once the notarisation is found. -/
theorem getAssetchainProof_eq (h : Covered node hash nota blockIndex block leaves) :
    let nIndex := nota.2.height.toNat - blockIndex.height
    node.getAssetchainProof hash = (node.blockBranch blockIndex nota nIndex).bind fun branch =>
      (node.txBranch blockIndex hash).bind fun tx =>
        ProofNode.joinBranches hash nota nIndex branch tx.1 tx.2 := by
  intro nIndex
  have hindex : ¬2 ^ 31 ≤ nota.2.height.toNat - blockIndex.height := by
    have hdepth := nota.2.MoMDepth.toNat_lt
    have hcovers := h.covers
    omega
  rw [ProofNode.getAssetchainProof, h.found, except_ok_bind]
  dsimp only
  rw [if_neg hindex]
  rfl

/-- A proof that is returned consists of the two branches and the packed positions, and leads
to the root of the notarisation. -/
theorem proof_eq (h : Covered node hash nota blockIndex block leaves) {proof : TxProof}
    (hproof : node.getAssetchainProof hash = .ok proof) :
    let nIndex := nota.2.height.toNat - blockIndex.height
    let nTxIndex := block.vtx.idxOf hash
    let txBranch := getMerkleBranch nTxIndex block.vtx.length (build block.vtx).2.1
    proof = (nota.2.txHash, {
      nIndex := Int32.ofNat (nIndex * 2 ^ txBranch.length + nTxIndex)
      branch := txBranch ++ getMerkleBranch nIndex leaves.length (build leaves).2.1 }) ∧
    checkMerkleBranch hash proof.2.branch proof.2.nIndex.toInt = nota.2.MoM := by
  intro nIndex nTxIndex txBranch
  rw [h.getAssetchainProof_eq, h.txBranch_eq] at hproof
  obtain ⟨branch, hbranch, hjoin⟩ := except_bind_eq_ok.1 hproof
  rw [ProofNode.blockBranch, h.momLeaves] at hbranch
  dsimp only at hbranch
  split at hbranch
  · cases hbranch
  obtain rfl := Except.ok.inj hbranch
  dsimp only [Except.bind, ProofNode.joinBranches] at hjoin
  split at hjoin
  · cases hjoin
  next hfit =>
  split at hjoin
  · cases hjoin
  next hmom =>
  obtain rfl := Except.ok.inj hjoin
  refine ⟨rfl, ?_⟩
  rw [Int32.toInt_ofNat_of_lt (by omega)]
  exact (not_not.1 hmom).symm

/-- A node that equals the one to its left stops the proof of the block. -/
theorem error_of_not_canonical (h : Covered node hash nota blockIndex block leaves)
    (hnot : ¬Canonical leaves (nota.2.height.toNat - blockIndex.height)) (hmom : nota.2.MoM ≠ 0) :
    node.getAssetchainProof hash = .error (.thrown "Failed merkle block->MoM") := by
  rw [h.getAssetchainProof_eq, h.blockBranch_eq.2 hnot hmom]
  rfl

end Covered

/-- For a covered block, every proof that is returned is the branch of the transaction followed
by that of the block, and leads to the root of the notarisation. One is returned for a
position that fits into an `int`; but where a node on the way up from the block equals the
one to its left, there is none. -/
theorem getAssetchainProof_covered (node : ProofNode) (hash : Uint256) (nota : Notarisation)
    (blockIndex : ProofBlockIndex) (block : ProofBlock) (leaves : List Uint256)
    (h : Covered node hash nota blockIndex block leaves) :
    let nIndex := nota.2.height.toNat - blockIndex.height
    let nTxIndex := block.vtx.idxOf hash
    let txBranch := getMerkleBranch nTxIndex block.vtx.length (build block.vtx).2.1
    let branch := txBranch ++ getMerkleBranch nIndex leaves.length (build leaves).2.1
    let packed := Int32.ofNat (nIndex * 2 ^ txBranch.length + nTxIndex)
    (nIndex * 2 ^ txBranch.length + nTxIndex < 2 ^ 31 → Canonical leaves nIndex →
      node.getAssetchainProof hash = .ok (nota.2.txHash, { nIndex := packed, branch := branch }) ∧
        checkMerkleBranch hash branch packed.toInt = nota.2.MoM) ∧
    (∀ proof, node.getAssetchainProof hash = .ok proof →
      proof = (nota.2.txHash, { nIndex := packed, branch := branch }) ∧
        checkMerkleBranch hash proof.2.branch proof.2.nIndex.toInt = nota.2.MoM) ∧
    (¬Canonical leaves nIndex → nota.2.MoM ≠ 0 →
      node.getAssetchainProof hash = .error (.thrown "Failed merkle block->MoM")) := by
  intro nIndex nTxIndex txBranch branch packed
  refine ⟨?_, ?_, ?_⟩
  · intro hfit hcanonical
    have hleads := h.checkMerkleBranch_eq
    rw [h.getAssetchainProof_eq, h.blockBranch_eq.1 hcanonical, h.txBranch_eq]
    dsimp only [Except.bind, ProofNode.joinBranches]
    rw [if_neg (Nat.not_le.2 hfit), if_neg (not_not.2 hleads.symm), Int32.toInt_ofNat_of_lt hfit]
    exact ⟨rfl, hleads⟩
  · exact fun proof hproof => h.proof_eq hproof
  · exact fun hnot hmom => h.error_of_not_canonical hnot hmom

/-- A notarisation of the blocks at heights 5 and 6. -/
def twoBlocksNota (vtx vtx' : List Uint256) : Notarisation :=
  (3, { height := 6, txHash := 4, symbol := ⟨[0x41], by decide, by decide⟩
        MoM := (build [(build vtx').1, (build vtx).1]).1, MoMDepth := 2 })

/-- A chain with given transactions at heights 5 and 6, notarised in the block at height 8. -/
def twoBlocks (vtx vtx' : List Uint256) : ProofNode where
  symbol := [0x41]
  getTransaction := fun hash => if hash ∈ vtx then some 1 else none
  getBlockIndex := fun _ => some { height := 5, hashMerkleRoot := (build vtx).1 }
  chainActive := fun height =>
    some { height := height, hashMerkleRoot := if height = 5 then (build vtx).1
      else (build vtx').1 }
  chainHeight := 10
  notarisations := fun height => if height = 8 then some [twoBlocksNota vtx vtx'] else none
  fHavePruned := false
  readBlockFromDisk := fun _ => some { hashMerkleRoot := (build vtx).1, vtx := vtx }

theorem twoBlocks_covered {vtx : List Uint256} (vtx' : List Uint256) (h : hash ∈ vtx) :
    Covered (twoBlocks vtx vtx') hash (twoBlocksNota vtx vtx')
      { height := 5, hashMerkleRoot := (build vtx).1 }
      { hashMerkleRoot := (build vtx).1, vtx := vtx } [(build vtx').1, (build vtx).1] where
  found := by
    have htx : (twoBlocks vtx vtx').getTransaction hash = some 1 := if_pos h
    rw [ProofNode.findNotarisation, htx]
    rfl
  inChain := rfl
  momLeaves := rfl
  covers := show (6 : UInt32).toNat - 5 < (2 : UInt16).toNat by decide
  mom := rfl
  haveData := rfl
  onDisk := rfl
  sameRoot := rfl
  root := rfl
  mem := h

/-- The second of two transactions, in the second leaf of two. -/
theorem getAssetchainProof_second : ∃ proof,
    (twoBlocks [11, 12] [13]).getAssetchainProof 12 = .ok proof ∧
      checkMerkleBranch 12 proof.2.branch proof.2.nIndex.toInt =
        (twoBlocksNota [11, 12] [13]).2.MoM := by
  have hmem : (12 : Uint256) ∈ ([11, 12] : List Uint256) := by simp
  obtain ⟨hproof, -, -⟩ := getAssetchainProof_covered (twoBlocks [11, 12] [13]) 12
    (twoBlocksNota [11, 12] [13]) _ _ _ (twoBlocks_covered [13] hmem)
  have hcanonical : Canonical [(build [13]).1, (build [11, 12]).1] 1 := by
    have hne : (build [13]).1 ≠ (build [11, 12]).1 := by decide +kernel
    have hup : (merkleLevel [(build [13]).1, (build [11, 12]).1]).length = 1 := length_merkleLevel _
    exact fun _ => ⟨fun _ => hne, fun hlen => absurd (hup ▸ hlen) (lt_irrefl 1)⟩
  exact ⟨_, hproof (by decide +kernel) hcanonical⟩

end IndexChain.Notary
