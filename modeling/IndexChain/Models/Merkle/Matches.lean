import IndexChain.Models.Merkle.PartialTree
import Mathlib.Data.List.GetD

/-!
# Extracting what was built

The bits and hashes that are stored for a node are consumed again by the extraction from that
node, which returns its hash and adds the matched txids under it (`extract_stored`). Under the
root this gives the Merkle root and all matched txids in order (`extractMatches_ofMatches`).
-/

namespace IndexChain.CPartialMerkleTree

open IndexChain.Core

/-- The txids under a node with their matches. -/
def slice {α : Type} (xs : List α) (height pos : Nat) : List α :=
  (xs.drop (pos * 2 ^ height)).take (2 ^ height)

/-- The matched txids of a list, in order. -/
def matchedTxids (txids : List (Uint256 × Bool)) : List Uint256 :=
  txids.filterMap fun txid => if txid.2 then some txid.1 else none

/-- The txids under a node are those under its children. -/
theorem slice_succ {α : Type} (xs : List α) (height pos : Nat) :
    slice xs (height + 1) pos = slice xs height (pos * 2) ++ slice xs height (pos * 2 + 1) := by
  have hfirst : pos * 2 ^ (height + 1) = pos * 2 * 2 ^ height := by
    rw [Nat.pow_succ', Nat.mul_assoc]
  have hsecond : (pos * 2 + 1) * 2 ^ height = pos * 2 * 2 ^ height + 2 ^ height :=
    Nat.succ_mul _ _
  have hsize : 2 ^ (height + 1) = 2 ^ height + 2 ^ height := by
    rw [Nat.pow_succ, Nat.mul_two]
  unfold slice
  rw [hfirst, hsecond, hsize, List.take_add, List.drop_drop]

theorem slice_eq_nil {α : Type} {xs : List α} {height pos : Nat}
    (h : ¬ pos < Merkle.width xs.length height) : slice xs height pos = [] := by
  rw [Merkle.lt_width_iff, Nat.not_lt] at h
  unfold slice
  rw [List.drop_eq_nil_of_le h, List.take_nil]

theorem slice_zero {α : Type} {xs : List α} {pos : Nat} (h : pos < xs.length) :
    slice xs 0 pos = [xs[pos]] := by
  unfold slice
  rw [Nat.pow_zero, Nat.mul_one, List.drop_eq_getElem_cons h]
  rfl

theorem length_slice_pos {α : Type} {xs : List α} {height pos : Nat}
    (h : pos < Merkle.width xs.length height) : 0 < (slice xs height pos).length := by
  rw [Merkle.lt_width_iff] at h
  have hpos : 0 < 2 ^ height := Nat.two_pow_pos height
  unfold slice
  rw [List.length_take, List.length_drop]
  omega

/-- The only node at the top is over all txids. -/
theorem slice_top {α : Type} {xs : List α} {height : Nat}
    (h : Merkle.width xs.length height = 1) : slice xs height 0 = xs := by
  have hle : ¬ 1 < Merkle.width xs.length height := by omega
  rw [Merkle.lt_width_iff, Nat.one_mul, Nat.not_lt] at hle
  unfold slice
  rw [Nat.zero_mul, List.drop_zero, List.take_of_length_le hle]

/-! ## What is stored -/

variable {t : CPartialMerkleTree} {vTxid : List Uint256} {vMatch : List Bool}

theorem getElem?_slice {α : Type} (xs : List α) (height pos : Nat) {i : Nat}
    (hi : i < 2 ^ height) : (slice xs height pos)[i]? = xs[pos * 2 ^ height + i]? := by
  unfold slice
  rw [List.getElem?_take_of_lt hi, List.getElem?_drop]

/-- A node is the parent of a match when a txid under it is matched. -/
theorem parentOfMatch_eq (hn : t.nTransactions = vTxid.length)
    (hlen : vMatch.length = vTxid.length) (height pos : Nat) :
    t.parentOfMatch vMatch height pos =
      (slice (vTxid.zip vMatch) height pos).any Prod.snd := by
  have hshift : (pos + 1) <<< height - pos <<< height = 2 ^ height := by
    rw [Nat.shiftLeft_eq, Nat.shiftLeft_eq, Nat.succ_mul, Nat.add_sub_cancel_left]
  unfold parentOfMatch
  rw [hshift, Nat.shiftLeft_eq, Bool.eq_iff_iff, List.any_eq_true, List.any_eq_true]
  constructor
  · rintro ⟨p, hp, hmatch⟩
    obtain ⟨i, hi, rfl⟩ := List.mem_range'.1 hp
    rw [Nat.one_mul, Bool.and_eq_true, decide_eq_true_eq] at hmatch
    obtain ⟨hlt, hmatched⟩ := hmatch
    rw [List.getD_eq_getElem _ _ (by omega)] at hmatched
    refine ⟨(vTxid[pos * 2 ^ height + i], vMatch[pos * 2 ^ height + i]), ?_, hmatched⟩
    refine List.mem_iff_getElem?.2 ⟨i, ?_⟩
    rw [getElem?_slice _ _ _ hi, List.getElem?_eq_getElem (by rw [List.length_zip]; omega),
      List.getElem_zip]
  · rintro ⟨⟨txid, matched⟩, hmem, hmatched⟩
    obtain ⟨i, hi⟩ := List.mem_iff_getElem?.1 hmem
    have hlt : i < 2 ^ height := by
      have hbound := (List.getElem?_eq_some_iff.1 hi).1
      unfold slice at hbound
      rw [List.length_take] at hbound
      omega
    rw [getElem?_slice _ _ _ hlt, List.getElem?_zip_eq_some] at hi
    refine ⟨pos * 2 ^ height + i, List.mem_range'.2 ⟨i, hlt, by rw [Nat.one_mul]⟩, ?_⟩
    have hp := (List.getElem?_eq_some_iff.1 hi.1).1
    rw [Bool.and_eq_true, decide_eq_true_eq, List.getD_eq_getElem?_getD, hi.2]
    exact ⟨by omega, hmatched⟩

/-- The bits and hashes that are stored for a node. -/
def stored (t : CPartialMerkleTree) (vTxid : List Uint256) (vMatch : List Bool) :
    Nat → Nat → List Bool × List Uint256
  | height, pos =>
    let fParentOfMatch := t.parentOfMatch vMatch height pos
    match height, fParentOfMatch with
    | 0, _ | _ + 1, false => ([fParentOfMatch], [t.calcHash vTxid height pos])
    | height + 1, true =>
      let left := stored t vTxid vMatch height (pos * 2)
      if pos * 2 + 1 < t.calcTreeWidth height then
        let right := stored t vTxid vMatch height (pos * 2 + 1)
        (true :: (left.1 ++ right.1), left.2 ++ right.2)
      else (true :: left.1, left.2)

/-- A node at the bottom, or without a match under it. -/
theorem stored_of_stop {height pos : Nat}
    (h : height = 0 ∨ t.parentOfMatch vMatch height pos = false) :
    t.stored vTxid vMatch height pos =
      ([t.parentOfMatch vMatch height pos], [t.calcHash vTxid height pos]) := by
  unfold stored
  rcases h with rfl | hno
  · rfl
  · rw [hno]
    cases height <;> rfl

/-- A node with a match under it. -/
theorem stored_of_descend {height pos : Nat}
    (h : t.parentOfMatch vMatch (height + 1) pos = true) :
    t.stored vTxid vMatch (height + 1) pos =
      if pos * 2 + 1 < t.calcTreeWidth height then
        (true :: ((t.stored vTxid vMatch height (pos * 2)).1 ++
          (t.stored vTxid vMatch height (pos * 2 + 1)).1),
          (t.stored vTxid vMatch height (pos * 2)).2 ++
            (t.stored vTxid vMatch height (pos * 2 + 1)).2)
      else (true :: (t.stored vTxid vMatch height (pos * 2)).1,
        (t.stored vTxid vMatch height (pos * 2)).2) := by
  conv_lhs => unfold stored
  rw [h]

theorem calcHash_congr (vTxid : List Uint256) {u : CPartialMerkleTree}
    (h : u.nTransactions = t.nTransactions) (height pos : Nat) :
    u.calcHash vTxid height pos = t.calcHash vTxid height pos := by
  rw [calcHash_eq, calcHash_eq, h]

theorem parentOfMatch_congr {u : CPartialMerkleTree} (h : u.nTransactions = t.nTransactions)
    (height pos : Nat) : u.parentOfMatch vMatch height pos = t.parentOfMatch vMatch height pos := by
  unfold parentOfMatch
  rw [h]

/-- What is stored depends on the number of transactions only. -/
theorem traverseAndBuild_eq {u : CPartialMerkleTree} (h : u.nTransactions = t.nTransactions)
    (height pos : Nat) :
    traverseAndBuild vTxid vMatch height pos u =
      { u with
        vBits := u.vBits ++ (t.stored vTxid vMatch height pos).1
        vHash := u.vHash ++ (t.stored vTxid vMatch height pos).2 } := by
  induction height generalizing pos u with
  | zero =>
    rw [stored_of_stop (Or.inl rfl), ← parentOfMatch_congr h]
    rfl
  | succ height ih =>
    unfold traverseAndBuild
    rw [parentOfMatch_congr h]
    cases hmatch : t.parentOfMatch vMatch (height + 1) pos with
    | false =>
      have hcalc := calcHash_congr vTxid (u := { u with vBits := u.vBits ++ [false] }) (t := t) h
        (height + 1) pos
      rw [stored_of_stop (Or.inr hmatch), hmatch]
      dsimp only
      rw [hcalc]
    | true =>
      have hleft := ih (u := { u with vBits := u.vBits ++ [true] }) h (pos * 2)
      have hwidth : ∀ bits hashes, ({ u with vBits := bits, vHash := hashes }
          : CPartialMerkleTree).calcTreeWidth height = t.calcTreeWidth height := by
        intro bits hashes
        unfold calcTreeWidth
        rw [← h]
      rw [stored_of_descend hmatch]
      dsimp only
      rw [hleft, hwidth]
      split
      · have hright := fun bits hashes =>
          ih (u := { u with vBits := bits, vHash := hashes }) h (pos * 2 + 1)
        rw [hright]
        simp
      · simp

/-! ## What is consumed -/

theorem prefix_drop_cons {α : Type} {x : α} {xs ys : List α} {k : Nat}
    (h : x :: xs <+: ys.drop k) : ys[k]? = some x ∧ xs <+: ys.drop (k + 1) := by
  obtain ⟨rest, hrest⟩ := h
  refine ⟨?_, rest, ?_⟩
  · rw [← Nat.add_zero k, ← List.getElem?_drop, ← hrest]
    rfl
  · rw [← List.drop_drop, ← hrest]
    rfl

theorem prefix_drop_append {α : Type} {xs ys zs : List α} {k : Nat}
    (h : xs ++ ys <+: zs.drop k) : xs <+: zs.drop k ∧ ys <+: zs.drop (k + xs.length) := by
  obtain ⟨rest, hrest⟩ := h
  rw [List.append_assoc] at hrest
  refine ⟨⟨ys ++ rest, hrest⟩, rest, ?_⟩
  rw [← List.drop_drop, ← hrest, List.drop_left]

theorem matchedTxids_append (xs ys : List (Uint256 × Bool)) :
    matchedTxids (xs ++ ys) = matchedTxids xs ++ matchedTxids ys :=
  List.filterMap_append

theorem matchedTxids_eq_nil {xs : List (Uint256 × Bool)} (h : xs.any Prod.snd = false) :
    matchedTxids xs = [] := by
  rw [List.any_eq_false] at h
  refine List.filterMap_eq_nil_iff.2 fun x hx => ?_
  rw [if_neg (h x hx)]

/-- A node at the bottom, or without a match under it, has its hash stored. -/
theorem traverseAndExtract_stop {height pos : Nat} {st : ExtractState} {fParentOfMatch : Bool}
    {hash : Uint256} (hbit : t.vBits[st.nBitsUsed]? = some fParentOfMatch)
    (hhash : t.vHash[st.nHashUsed]? = some hash) (h : height = 0 ∨ fParentOfMatch = false) :
    t.traverseAndExtract height pos st =
      (hash, { nBitsUsed := st.nBitsUsed + 1, nHashUsed := st.nHashUsed + 1, fBad := st.fBad,
               vMatch := if height == 0 && fParentOfMatch then st.vMatch ++ [hash]
                 else st.vMatch }) := by
  unfold traverseAndExtract
  rw [hbit]
  dsimp only
  rcases h with rfl | rfl
  · rw [hhash]
  · cases height with
    | zero => rw [hhash]
    | succ height => rw [hhash]

/-- A node with a match under it is combined from its children. -/
theorem traverseAndExtract_descend {height pos : Nat} {st : ExtractState}
    (hbit : t.vBits[st.nBitsUsed]? = some true) :
    t.traverseAndExtract (height + 1) pos st =
      (let left := t.traverseAndExtract height (pos * 2)
          { st with nBitsUsed := st.nBitsUsed + 1 }
      if pos * 2 + 1 < t.calcTreeWidth height then
        let right := t.traverseAndExtract height (pos * 2 + 1) left.2
        (hashPair left.1 right.1, { right.2 with fBad := right.2.fBad || right.1 == left.1 })
      else (hashPair left.1 left.1, left.2)) := by
  conv_lhs => unfold traverseAndExtract
  rw [hbit]

/-- The children of a node differ when the txids do and no two pairs collide. -/
theorem calcHash_children_ne (hn : t.nTransactions = vTxid.length) (hnodup : vTxid.Nodup)
    {top : Nat}
    (hfree : Merkle.NoCollision hashPair
      (Merkle.pairs hashPair t.nTransactions (fun p => vTxid.getD p 0) top)
      (Merkle.pairs hashPair t.nTransactions (fun p => vTxid.getD p 0) top))
    {height pos : Nat} (hle : height ≤ top) (hright : pos * 2 + 1 < t.calcTreeWidth height) :
    t.calcHash vTxid height (pos * 2 + 1) ≠ t.calcHash vTxid height (pos * 2) := by
  rw [calcHash_eq, calcHash_eq]
  refine Merkle.children_ne hfree (fun i hi j hj heq => ?_) hle hright
  rw [List.getD_eq_getElem _ _ (by omega), List.getD_eq_getElem _ _ (by omega)] at heq
  exact (List.Nodup.getElem_inj_iff hnodup).1 heq

/-- What is stored for a node is consumed by the extraction, which gives the hash of the node
and the matched txids under it. -/
theorem extract_stored (hn : t.nTransactions = vTxid.length)
    (hlen : vMatch.length = vTxid.length) (hnodup : vTxid.Nodup) {top : Nat}
    (hfree : Merkle.NoCollision hashPair
      (Merkle.pairs hashPair t.nTransactions (fun p => vTxid.getD p 0) top)
      (Merkle.pairs hashPair t.nTransactions (fun p => vTxid.getD p 0) top))
    {height pos : Nat} (hheight : height ≤ top) (hpos : pos < t.calcTreeWidth height)
    {st : ExtractState}
    (hbits : (t.stored vTxid vMatch height pos).1 <+: t.vBits.drop st.nBitsUsed)
    (hhashes : (t.stored vTxid vMatch height pos).2 <+: t.vHash.drop st.nHashUsed) :
    t.traverseAndExtract height pos st =
      (t.calcHash vTxid height pos,
        { nBitsUsed := st.nBitsUsed + (t.stored vTxid vMatch height pos).1.length
          nHashUsed := st.nHashUsed + (t.stored vTxid vMatch height pos).2.length
          vMatch := st.vMatch ++ matchedTxids (slice (vTxid.zip vMatch) height pos)
          fBad := st.fBad }) := by
  have hzip : (vTxid.zip vMatch).length = t.nTransactions := by
    rw [List.length_zip, hlen, hn, Nat.min_self]
  induction height generalizing pos st with
  | zero =>
    rw [stored_of_stop (Or.inl rfl)] at hbits hhashes ⊢
    rw [calcTreeWidth_eq, Merkle.width_zero] at hpos
    rw [traverseAndExtract_stop (prefix_drop_cons hbits).1 (prefix_drop_cons hhashes).1
      (Or.inl rfl), parentOfMatch_eq hn hlen, slice_zero (by omega), List.getElem_zip]
    have hleaf : t.calcHash vTxid 0 pos = vTxid[pos] := List.getD_eq_getElem _ _ (by omega)
    rw [hleaf]
    cases vMatch[pos] <;> simp [matchedTxids]
  | succ height ih =>
    have hle : height ≤ top := Nat.le_of_succ_le hheight
    cases hmatch : t.parentOfMatch vMatch (height + 1) pos with
    | false =>
      rw [stored_of_stop (Or.inr hmatch), hmatch] at hbits hhashes ⊢
      rw [traverseAndExtract_stop (prefix_drop_cons hbits).1 (prefix_drop_cons hhashes).1
        (Or.inr rfl)]
      rw [parentOfMatch_eq hn hlen] at hmatch
      rw [matchedTxids_eq_nil hmatch, List.append_nil, Bool.and_false, if_neg Bool.false_ne_true]
      rfl
    | true =>
      have hchild : pos * 2 < t.calcTreeWidth height := Merkle.left_lt hpos
      have hslice := slice_succ (vTxid.zip vMatch) height pos
      rw [stored_of_descend hmatch] at hbits hhashes ⊢
      by_cases hright : pos * 2 + 1 < t.calcTreeWidth height
      · rw [if_pos hright] at hbits hhashes ⊢
        obtain ⟨hbit, hbits⟩ := prefix_drop_cons hbits
        obtain ⟨hleftBits, hrightBits⟩ := prefix_drop_append hbits
        obtain ⟨hleftHashes, hrightHashes⟩ := prefix_drop_append hhashes
        have hleft : t.traverseAndExtract height (pos * 2)
            { st with nBitsUsed := st.nBitsUsed + 1 } = _ := ih hle hchild hleftBits hleftHashes
        rw [traverseAndExtract_descend hbit]
        dsimp only
        rw [hleft, if_pos hright, ih hle hright hrightBits hrightHashes]
        -- the children differ, so nothing is marked as bad
        have hne := calcHash_children_ne hn hnodup hfree hle hright
        rw [calcHash_succ_pair vTxid hright, hslice, matchedTxids_append, beq_eq_false_iff_ne.2 hne,
          Bool.or_false]
        simp [Nat.add_assoc, Nat.add_comm]
      · rw [if_neg hright] at hbits hhashes ⊢
        obtain ⟨hbit, hbits⟩ := prefix_drop_cons hbits
        have hleft : t.traverseAndExtract height (pos * 2)
            { st with nBitsUsed := st.nBitsUsed + 1 } = _ := ih hle hchild hbits hhashes
        have hempty : slice (vTxid.zip vMatch) height (pos * 2 + 1) = [] :=
          slice_eq_nil (by rw [hzip]; exact hright)
        rw [traverseAndExtract_descend hbit]
        dsimp only
        rw [hleft, if_neg hright, calcHash_succ_single vTxid hright, hslice, hempty,
          List.append_nil]
        simp [Nat.add_assoc, Nat.add_comm]

/-! ## The whole tree -/

/-- There is a bit for each hash that is stored, and a txid for each hash. -/
theorem length_stored (hn : t.nTransactions = vTxid.length)
    (hlen : vMatch.length = vTxid.length) {height pos : Nat}
    (hpos : pos < t.calcTreeWidth height) :
    (t.stored vTxid vMatch height pos).2.length ≤ (t.stored vTxid vMatch height pos).1.length ∧
      (t.stored vTxid vMatch height pos).2.length ≤
        (slice (vTxid.zip vMatch) height pos).length := by
  have hzip : (vTxid.zip vMatch).length = t.nTransactions := by
    rw [List.length_zip, hlen, hn, Nat.min_self]
  have hstop : ∀ height pos, pos < t.calcTreeWidth height →
      1 ≤ (slice (vTxid.zip vMatch) height pos).length := by
    intro height pos hpos
    exact length_slice_pos (by rw [hzip]; exact hpos)
  induction height generalizing pos with
  | zero =>
    rw [stored_of_stop (Or.inl rfl)]
    exact ⟨le_rfl, hstop 0 pos hpos⟩
  | succ height ih =>
    cases hmatch : t.parentOfMatch vMatch (height + 1) pos with
    | false =>
      rw [stored_of_stop (Or.inr hmatch)]
      exact ⟨le_rfl, hstop (height + 1) pos hpos⟩
    | true =>
      have hleft := ih (Merkle.left_lt hpos)
      rw [stored_of_descend hmatch, slice_succ, List.length_append]
      split
      · rename_i hright
        have hright' := ih hright
        simp only [List.length_cons, List.length_append]
        omega
      · simp only [List.length_cons]
        omega

theorem heightFrom_congr {u : CPartialMerkleTree} (h : u.nTransactions = t.nTransactions)
    (fuel nHeight : Nat) : u.heightFrom fuel nHeight = t.heightFrom fuel nHeight := by
  induction fuel generalizing nHeight with
  | zero => rfl
  | succ fuel ih =>
    unfold heightFrom
    rw [ih, calcTreeWidth_eq, calcTreeWidth_eq, h]

/-- The pairs that are hashed for the Merkle root of a block. -/
def treePairs (vTxid : List Uint256) : List (Uint256 × Uint256) :=
  Merkle.pairs hashPair vTxid.length (fun p => vTxid.getD p 0)
    (heightFrom { nTransactions := vTxid.length, vBits := [], vHash := [] } 32 0)

theorem nTransactions_ofMatches (vTxid : List Uint256) (vMatch : List Bool) :
    (ofMatches vTxid vMatch).nTransactions = vTxid.length % 2 ^ 32 := by
  unfold ofMatches
  rw [traverseAndBuild_eq rfl]

/-- A list that is too long is not proved. -/
theorem extractMatches_of_long {maxBlockSize : Nat} (h : maxBlockSize / 60 < t.nTransactions) :
    t.extractMatches maxBlockSize = (0, []) :=
  if_pos (Or.inr (Or.inl h))

/-- What is built for a block gives its Merkle root and the matched txids in order. -/
theorem extractMatches_ofMatches {maxBlockSize : Nat} (hmax : maxBlockSize < 2 ^ 31)
    (hlen : vMatch.length = vTxid.length) (hne : vTxid ≠ [])
    (hsize : vTxid.length ≤ maxBlockSize / 60) (hnodup : vTxid.Nodup)
    (hfree : Merkle.NoCollision hashPair (treePairs vTxid) (treePairs vTxid)) :
    (ofMatches vTxid vMatch).extractMatches maxBlockSize =
      (merkleRoot vTxid, matchedTxids (vTxid.zip vMatch)) := by
  have hpos := List.length_pos_iff.2 hne
  have hzip : (vTxid.zip vMatch).length = vTxid.length := by
    rw [List.length_zip, hlen, Nat.min_self]
  have hword : vTxid.length % 2 ^ 32 = vTxid.length := Nat.mod_eq_of_lt (by omega)
  unfold ofMatches
  dsimp only
  rw [hword]
  generalize hempty : ({ nTransactions := vTxid.length, vBits := [], vHash := [] }
    : CPartialMerkleTree) = empty
  have hn0 : empty.nTransactions = vTxid.length := by rw [← hempty]
  generalize hbuilt : traverseAndBuild vTxid vMatch (empty.heightFrom 32 0) 0 empty = t
  have hn : t.nTransactions = vTxid.length := by
    rw [← hbuilt, traverseAndBuild_eq (t := empty) rfl]
    exact hn0
  have hheight := heightFrom_congr (hn.trans hn0.symm) 32 0
  have hstored : t = _ := hbuilt.symm.trans
    (traverseAndBuild_eq (t := t) (hn0.trans hn.symm) (empty.heightFrom 32 0) 0)
  rw [← hheight] at hstored
  have hbits : t.vBits = (t.stored vTxid vMatch (t.heightFrom 32 0) 0).1 := by
    refine (congrArg CPartialMerkleTree.vBits hstored).trans ?_
    rw [← hempty]
    rfl
  have hhashes : t.vHash = (t.stored vTxid vMatch (t.heightFrom 32 0) 0).2 := by
    refine (congrArg CPartialMerkleTree.vHash hstored).trans ?_
    rw [← hempty]
    rfl
  -- one node is at the top
  have hwidth : t.calcTreeWidth 0 = vTxid.length := by
    rw [calcTreeWidth_eq, Merkle.width_zero, hn]
  obtain ⟨-, htop⟩ : 0 ≤ _ ∧ t.calcTreeWidth (t.heightFrom 32 0) = 1 :=
    heightFrom_spec (by omega) (by omega)
  have hslice : slice (vTxid.zip vMatch) (t.heightFrom 32 0) 0 = vTxid.zip vMatch :=
    slice_top (by rw [hzip, ← hn]; exact htop)
  obtain ⟨hcount, hleaves⟩ := length_stored hn hlen (htop ▸ Nat.one_pos)
  rw [hslice, hzip, ← hhashes] at hleaves
  rw [← hbits, ← hhashes] at hcount
  unfold treePairs at hfree
  rw [hempty, ← hheight, ← hn] at hfree
  have hextract : t.traverseAndExtract (t.heightFrom 32 0) 0 {} = _ :=
    extract_stored hn hlen hnodup hfree le_rfl (htop ▸ Nat.one_pos)
      (by rw [← hbits]; exact List.prefix_rfl) (by rw [← hhashes]; exact List.prefix_rfl)
  rw [hslice, ← hbits, ← hhashes] at hextract
  unfold extractMatches
  rw [if_neg (by omega), hextract]
  dsimp only
  rw [if_neg (by simp), merkleRoot_eq hn hne (by omega), List.nil_append]

end IndexChain.CPartialMerkleTree
