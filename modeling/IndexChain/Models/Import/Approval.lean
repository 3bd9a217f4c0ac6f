import IndexChain.Core.Batch
import IndexChain.Models.CC.Contract

/-!
# Approval of imports by notaries

`CheckNotariesApproval` of `crosschain.cpp` with the proofs it decodes: the partial
Merkle trees of `merkleblock.cpp`. The test of a proof accepts one whose root is not the
root that its header states, or one that matches the burn transaction, where both the
right root and a match are wanted. An approval is therefore good as long as no notary has
signed a proof in the list that passes the test by its wrong root, and in a list of five
transactions only then (`approval_sound`). The array of keys is not cleared either: where
there are fewer than 64 notaries, its other entries are those of a call before.
-/

namespace IndexChain

open IndexChain.Core

/-! ## Partial Merkle trees -/

/-- `Hash(BEGIN(left), END(left), BEGIN(right), END(right))`. -/
def hashPair (left right : Uint256) : Uint256 :=
  BitVec.ofNat 256
    (leNat (sha256 (sha256 (leBytes 32 left.toNat ++ leBytes 32 right.toNat))))

/-- `CPartialMerkleTree` as it is read from a stream. -/
structure CPartialMerkleTree where
  /-- The number of transactions of the block. -/
  nTransactions : Nat
  /-- Whether a node is the parent of a match. -/
  vBits : List Bool
  /-- The txids and inner hashes. -/
  vHash : List Uint256
  deriving DecidableEq, Repr

/-- The variables of a traversal. -/
structure ExtractState where
  /-- The number of bits used. -/
  nBitsUsed : Nat := 0
  /-- The number of hashes used. -/
  nHashUsed : Nat := 0
  /-- The matched txids. -/
  vMatch : List Uint256 := []
  /-- Invalid data was met. -/
  fBad : Bool := false

namespace CPartialMerkleTree

variable (t : CPartialMerkleTree)

/-- `CalcTreeWidth`. -/
def calcTreeWidth (height : Nat) : Nat := (t.nTransactions + 2 ^ height - 1) / 2 ^ height

/-- The loop that finds the height of the tree, for trees of at most `2 ^ 32` leaves. -/
def heightFrom : Nat → Nat → Nat
  | 0, nHeight => nHeight
  | fuel + 1, nHeight =>
    if 1 < t.calcTreeWidth nHeight then heightFrom fuel (nHeight + 1) else nHeight

/-- `TraverseAndExtract`. -/
def traverseAndExtract : Nat → Nat → ExtractState → Uint256 × ExtractState
  | height, pos, st => match t.vBits[st.nBitsUsed]? with
    | none => (0, { st with fBad := true })
    | some fParentOfMatch =>
      let st := { st with nBitsUsed := st.nBitsUsed + 1 }
      match height, fParentOfMatch with
      | 0, _ | _ + 1, false => match t.vHash[st.nHashUsed]? with
        | none => (0, { st with fBad := true })
        | some hash =>
          (hash, { st with
            nHashUsed := st.nHashUsed + 1
            vMatch := if height == 0 && fParentOfMatch then st.vMatch ++ [hash] else st.vMatch })
      | height + 1, true =>
        let left := traverseAndExtract height (pos * 2) st
        if pos * 2 + 1 < t.calcTreeWidth height then
          let right := traverseAndExtract height (pos * 2 + 1) left.2
          (hashPair left.1 right.1,
            -- the two branches of a tree of distinct txids differ
            { right.2 with fBad := right.2.fBad || right.1 == left.1 })
        else (hashPair left.1 left.1, left.2)

/-- `ExtractMatches`: the root, null on failure, and the matched txids. -/
def extractMatches (maxBlockSize : Nat) : Uint256 × List Uint256 :=
  if t.nTransactions = 0 ∨ maxBlockSize / 60 < t.nTransactions ∨
      t.nTransactions < t.vHash.length ∨ t.vBits.length < t.vHash.length then (0, [])
  else
    let r := t.traverseAndExtract (t.heightFrom 32 0) 0 {}
    if r.2.fBad ∨ (r.2.nBitsUsed + 7) / 8 ≠ (t.vBits.length + 7) / 8 ∨
        r.2.nHashUsed ≠ t.vHash.length then (0, r.2.vMatch)
    else (r.1, r.2.vMatch)

/-- The bits of a byte, least significant first. -/
def byteBits (b : UInt8) : List Bool := (List.range 8).map b.toNat.testBit

/-- `SerializationOp` of a reader. -/
def read : Reader CPartialMerkleTree := do
  let nTransactions ← Reader.nat 4
  let n ← Reader.compactSize
  let vHash ← Reader.repeated readUint256 n
  let vBytes ← Reader.vector
  return { nTransactions := nTransactions, vBits := vBytes.flatMap byteBits, vHash := vHash }

end CPartialMerkleTree

/-- `CMerkleBlock`, with the field of the header that is read. -/
structure CMerkleBlock where
  /-- The Merkle root that the header states. -/
  hashMerkleRoot : Uint256
  /-- The partial tree. -/
  txn : CPartialMerkleTree
  deriving DecidableEq, Repr

namespace CMerkleBlock

/-- Read a header and a partial tree. -/
def read : Reader CMerkleBlock := do
  let _nVersion ← Reader.bytes 4
  let _hashPrevBlock ← readUint256
  let hashMerkleRoot ← readUint256
  let _hashFinalSaplingRoot ← readUint256
  let _nTime ← Reader.bytes 4
  let _nBits ← Reader.bytes 4
  let _nNonce ← readUint256
  let _nSolution ← Reader.vector
  let txn ← CPartialMerkleTree.read
  return { hashMerkleRoot := hashMerkleRoot, txn := txn }

/-- The test of `CheckNotariesApproval`. -/
def passes (maxBlockSize : Nat) (burntxid : Uint256) (mb : CMerkleBlock) : Bool :=
  let r := mb.txn.extractMatches maxBlockSize
  r.1 != mb.hashMerkleRoot || r.2.contains burntxid

/-- The tree has the root that the header states and matches the burn transaction. -/
def Proves (maxBlockSize : Nat) (burntxid : Uint256) (mb : CMerkleBlock) : Prop :=
  (mb.txn.extractMatches maxBlockSize).1 = mb.hashMerkleRoot ∧
    burntxid ∈ (mb.txn.extractMatches maxBlockSize).2

instance (maxBlockSize : Nat) (burntxid : Uint256) (mb : CMerkleBlock) :
    Decidable (mb.Proves maxBlockSize burntxid) :=
  inferInstanceAs (Decidable (_ ∧ _))

end CMerkleBlock

/-! ## Counting notaries -/

/-- The 33 bytes of a public key. -/
abbrev PubKey33 := Vector UInt8 33

/-- The answer of `komodo_notaries`: its result, and what it writes into the array. -/
structure NotariesAnswer where
  /-- The number of notaries, negative on failure. -/
  ret : Int
  /-- The entries written, in order. -/
  writes : Batch (Fin 64) PubKey33
  /-- The entries of all notaries are written. -/
  written : ∀ i : Fin 64, (i.val : Int) < ret → i ∈ writes.map Prod.fst

namespace NotariesAnswer

/-- The keys of the notaries. -/
def notaries (a : NotariesAnswer) : List PubKey33 :=
  ((List.finRange 64).filter fun i => decide ((i.val : Int) < a.ret)).filterMap
    (Store.writeBatch (fun _ => none) a.writes)

/-- A key in the array is one of a notary, or in an entry behind theirs. -/
theorem mem_notaries_or {a : NotariesAnswer} {pubkeys : Store (Fin 64) PubKey33} {pk : PubKey33}
    {i : Fin 64} (h : pubkeys.writeBatch a.writes i = some pk) :
    pk ∈ a.notaries ∨ a.ret ≤ i.val := by
  by_cases hlt : (i.val : Int) < a.ret
  · rw [Store.writeBatch_congr (a.written i hlt) pubkeys fun _ => none] at h
    refine Or.inl (List.mem_filterMap.2 ⟨i, List.mem_filter.2 ⟨List.mem_finRange i, ?_⟩, h⟩)
    exact decide_eq_true hlt
  · exact Or.inr (not_lt.1 hlt)

end NotariesAnswer

/-- What `CheckNotariesApproval` asks the node for. -/
structure NotaryOracle where
  /-- `MAX_BLOCK_SIZE(10000000)`. -/
  maxBlockSize : Nat
  /-- `GetTxConfirmed`: a transaction with the height and the time of its block. -/
  getTxConfirmed : Uint256 → Option (CTransaction × Int × Nat)
  /-- `komodo_notaries` at a height and a time. -/
  komodoNotaries : Int → Nat → NotariesAnswer
  /-- `CheckVinPubKey` of the first input. -/
  checkVinPubKey : CTransaction → PubKey33 → Bool

/-- The variables of the loop over the notary transactions. -/
structure ApprovalState where
  /-- `notaries_pubkeys`, not initialised before the loop. -/
  pubkeys : Store (Fin 64) PubKey33
  /-- The keys counted so far. -/
  alreadySigned : List PubKey33 := []
  /-- Their number. -/
  count : Nat := 0

namespace NotaryOracle

variable (o : NotaryOracle)

/-- The `txoutproof` of a notary transaction. -/
def merkleBlock (notarytx : CTransaction) : Option CMerkleBlock :=
  match notarytx.vout.getLast? with
  | none => none
  | some out => match CScript.opReturnData out.scriptPubKey with
    | (true, vopret) => match Reader.unmarshal Reader.vector vopret with
      | none => none
      | some txoutproof => Reader.unmarshal CMerkleBlock.read txoutproof
    | (false, _) => none

/-- The first key of the array that signed and was not counted yet. -/
def freshSigner (notarytx : CTransaction) (pubkeys : Store (Fin 64) PubKey33)
    (alreadySigned : List PubKey33) : Option PubKey33 :=
  ((List.finRange 64).filterMap pubkeys).find? fun pk =>
    o.checkVinPubKey notarytx pk && !alreadySigned.contains pk

/-- The loop body once a proof has passed. -/
def countSigner (notarytx : CTransaction) (answer : NotariesAnswer) (st : ApprovalState) :
    ApprovalState :=
  let pubkeys := st.pubkeys.writeBatch answer.writes
  if answer.ret < 0 then { st with pubkeys := pubkeys }
  else match o.freshSigner notarytx pubkeys st.alreadySigned with
    | none => { st with pubkeys := pubkeys }
    | some pk =>
      { pubkeys := pubkeys, alreadySigned := st.alreadySigned ++ [pk], count := st.count + 1 }

/-- The loop body. -/
def approve (burntxid : Uint256) (st : ApprovalState) (notarytxid : Uint256) : ApprovalState :=
  match o.getTxConfirmed notarytxid with
  | none => st
  | some (notarytx, height, time) => match merkleBlock notarytx with
    | none => st
    | some mb =>
      if mb.passes o.maxBlockSize burntxid then
        o.countSigner notarytx (o.komodoNotaries height time) st
      else st

/-- The number of signers that `CheckNotariesApproval` requires. -/
def required : Nat := 5

/-- `CheckNotariesApproval`, with the contents of the array before the loop. -/
def checkNotariesApproval (pubkeys : Store (Fin 64) PubKey33) (burntxid : Uint256)
    (notaryTxids : List Uint256) : Bool :=
  decide (required ≤ (notaryTxids.foldl (o.approve burntxid) { pubkeys := pubkeys }).count)

/-! ## What an approval is worth -/

/-- A notary at the height of a transaction has signed it, and its proof is as given. -/
def SignedWith (P : CMerkleBlock → Prop) (notarytxid : Uint256) (pk : PubKey33) : Prop :=
  ∃ notarytx height time mb, o.getTxConfirmed notarytxid = some (notarytx, height, time) ∧
    merkleBlock notarytx = some mb ∧ P mb ∧ 0 ≤ (o.komodoNotaries height time).ret ∧
      pk ∈ (o.komodoNotaries height time).notaries ∧ o.checkVinPubKey notarytx pk = true

/-- A notary has signed a transaction whose proof passes the test. -/
def Counted (burntxid : Uint256) : Uint256 → PubKey33 → Prop :=
  o.SignedWith fun mb => mb.passes o.maxBlockSize burntxid = true

/-- A notary has signed a transaction whose proof has the stated root and matches the burn
transaction. -/
def Approves (burntxid : Uint256) : Uint256 → PubKey33 → Prop :=
  o.SignedWith fun mb => mb.Proves o.maxBlockSize burntxid

/-- As many distinct notaries as are required have signed transactions of the list, in the
given sense. -/
def Enough (signed : Uint256 → PubKey33 → Prop) (notaryTxids : List Uint256) : Prop :=
  ∃ pks : List PubKey33, pks.Nodup ∧ required ≤ pks.length ∧
    ∀ pk ∈ pks, ∃ notarytxid ∈ notaryTxids, signed notarytxid pk

/-- A notary has signed a transaction whose proof has another root than its header states. -/
def WrongRoot : Uint256 → PubKey33 → Prop :=
  o.SignedWith fun mb => (mb.txn.extractMatches o.maxBlockSize).1 ≠ mb.hashMerkleRoot

/-- A key that an entry of the array can have in the loop: what was there before, or what is
written for a transaction of the list. -/
def LeftOver (pubkeys : Store (Fin 64) PubKey33) (notaryTxids : List Uint256) (i : Fin 64)
    (pk : PubKey33) : Prop :=
  pubkeys i = some pk ∨ ∃ notarytxid ∈ notaryTxids, ∃ notarytx height time,
    o.getTxConfirmed notarytxid = some (notarytx, height, time) ∧
      (i, some pk) ∈ (o.komodoNotaries height time).writes

/-- No transaction of the list is signed by a key in an entry behind those of the notaries,
unless it is a notary's too. -/
def NoStaleSigner (pubkeys : Store (Fin 64) PubKey33) (notaryTxids : List Uint256) : Prop :=
  ∀ notarytxid ∈ notaryTxids, ∀ notarytx height time,
    o.getTxConfirmed notarytxid = some (notarytx, height, time) →
    ∀ (i : Fin 64) pk, (o.komodoNotaries height time).ret ≤ i.val →
      o.LeftOver pubkeys notaryTxids i pk → o.checkVinPubKey notarytx pk = true →
      pk ∈ (o.komodoNotaries height time).notaries

/-- A transaction is signed by one notary at most: keys have distinct addresses. -/
def SignerUnique : Prop :=
  ∀ notarytx height time pk pk', pk ∈ (o.komodoNotaries height time).notaries →
    pk' ∈ (o.komodoNotaries height time).notaries → o.checkVinPubKey notarytx pk = true →
    o.checkVinPubKey notarytx pk' = true → pk = pk'

variable {o} {burntxid notarytxid : Uint256} {notaryTxids : List Uint256} {pk : PubKey33}
  {pubkeys : Store (Fin 64) PubKey33}

/-- What holds after every notary transaction: the keys are distinct, each has signed a
transaction of the list that passed, and they are counted. -/
structure CountedAll (o : NotaryOracle) (burntxid : Uint256) (pubkeys : Store (Fin 64) PubKey33)
    (notaryTxids : List Uint256) (st : ApprovalState) : Prop where
  /-- The count. -/
  count : st.count = st.alreadySigned.length
  /-- No key is counted twice. -/
  nodup : st.alreadySigned.Nodup
  /-- Each has signed. -/
  counted : ∀ pk ∈ st.alreadySigned, ∃ notarytxid ∈ notaryTxids, o.Counted burntxid notarytxid pk
  /-- Where the keys of the array come from. -/
  leftOver : ∀ i pk, st.pubkeys i = some pk → o.LeftOver pubkeys notaryTxids i pk

theorem freshSigner_eq_some {notarytx : CTransaction} {pubkeys : Store (Fin 64) PubKey33}
    {alreadySigned : List PubKey33} (h : o.freshSigner notarytx pubkeys alreadySigned = some pk) :
    pk ∈ (List.finRange 64).filterMap pubkeys ∧ o.checkVinPubKey notarytx pk = true ∧
      pk ∉ alreadySigned := by
  have hsome := List.find?_some h
  rw [Bool.and_eq_true, Bool.not_eq_true', ← Bool.not_eq_true, List.contains_iff_mem] at hsome
  exact ⟨List.mem_of_find?_eq_some h, hsome.1, hsome.2⟩

/-- The array after the notaries of a transaction of the list are written. -/
theorem CountedAll.leftOver_writes {st : ApprovalState}
    (h : CountedAll o burntxid pubkeys notaryTxids st) (hmem : notarytxid ∈ notaryTxids)
    {notarytx : CTransaction} {height : Int} {time : Nat}
    (htx : o.getTxConfirmed notarytxid = some (notarytx, height, time)) (i : Fin 64)
    (pk : PubKey33)
    (hpk : st.pubkeys.writeBatch (o.komodoNotaries height time).writes i = some pk) :
    o.LeftOver pubkeys notaryTxids i pk := by
  by_cases hi : i ∈ (o.komodoNotaries height time).writes.map Prod.fst
  · have hwritten := Store.writeBatch_mem st.pubkeys hi
    rw [hpk] at hwritten
    exact Or.inr ⟨notarytxid, hmem, notarytx, height, time, htx, hwritten⟩
  · rw [Store.writeBatch_of_notMem hi] at hpk
    exact h.leftOver i pk hpk

/-- An approval counts its transaction. -/
theorem CountedAll.approve (hstale : o.NoStaleSigner pubkeys notaryTxids) {st : ApprovalState}
    (h : CountedAll o burntxid pubkeys notaryTxids st) (hmem : notarytxid ∈ notaryTxids) :
    CountedAll o burntxid pubkeys notaryTxids (o.approve burntxid st notarytxid) := by
  unfold NotaryOracle.approve
  split
  · exact h
  · rename_i notarytx height time htx
    have hkeys := h.leftOver_writes hmem htx
    split
    · exact h
    · rename_i mb hmb
      split
      · rename_i hpasses
        unfold countSigner
        dsimp only
        split
        · exact ⟨h.count, h.nodup, h.counted, hkeys⟩
        · rename_i hret
          split
          · exact ⟨h.count, h.nodup, h.counted, hkeys⟩
          · rename_i pk hfresh
            obtain ⟨harray, hvin, hnew⟩ := freshSigner_eq_some hfresh
            obtain ⟨i, -, hi⟩ := List.mem_filterMap.1 harray
            have hnotary : pk ∈ (o.komodoNotaries height time).notaries :=
              (NotariesAnswer.mem_notaries_or hi).elim id fun hle =>
                hstale notarytxid hmem notarytx height time htx i pk hle (hkeys i pk hi) hvin
            refine ⟨?_, ?_, ?_, hkeys⟩
            · rw [List.length_append, h.count]
              rfl
            · exact List.nodup_append.2 ⟨h.nodup, List.nodup_singleton pk, by
                intro a ha b hb heq
                rw [List.mem_singleton.1 hb] at heq
                exact hnew (heq ▸ ha)⟩
            · intro pk' hpk'
              rw [List.mem_append, List.mem_singleton] at hpk'
              rcases hpk' with hold | rfl
              · exact h.counted pk' hold
              · exact ⟨notarytxid, hmem, notarytx, height, time, mb, htx, hmb, hpasses,
                  not_lt.1 hret, hnotary, hvin⟩
      · exact h

theorem CountedAll.foldl (hstale : o.NoStaleSigner pubkeys notaryTxids) {l : List Uint256}
    {st : ApprovalState} (h : CountedAll o burntxid pubkeys notaryTxids st)
    (hl : ∀ x ∈ l, x ∈ notaryTxids) :
    CountedAll o burntxid pubkeys notaryTxids (l.foldl (o.approve burntxid) st) := by
  induction l generalizing st with
  | nil => exact h
  | cons x l ih =>
    exact ih (h.approve hstale (hl x List.mem_cons_self))
      fun y hy => hl y (List.mem_cons_of_mem x hy)

/-- An approval has counted enough notaries. -/
theorem enough_counted (hstale : o.NoStaleSigner pubkeys notaryTxids)
    (h : o.checkNotariesApproval pubkeys burntxid notaryTxids = true) :
    Enough (o.Counted burntxid) notaryTxids := by
  have hinit : CountedAll o burntxid pubkeys notaryTxids { pubkeys := pubkeys } :=
    ⟨rfl, List.nodup_nil, fun pk hpk => absurd hpk List.not_mem_nil, fun _ _ => Or.inl⟩
  have hall := hinit.foldl hstale fun x hx => hx
  have hcount := of_decide_eq_true h
  rw [hall.count] at hcount
  exact ⟨_, hall.nodup, hcount, hall.counted⟩

/-- A transaction has one signer. -/
theorem SignedWith.signer_unique {P Q : CMerkleBlock → Prop} {pk' : PubKey33}
    (hunique : o.SignerUnique) (h : o.SignedWith P notarytxid pk)
    (h' : o.SignedWith Q notarytxid pk') : pk = pk' := by
  obtain ⟨notarytx, height, time, mb, htx, -, -, -, hnotary, hvin⟩ := h
  obtain ⟨notarytx', height', time', mb', htx', -, -, -, hnotary', hvin'⟩ := h'
  rw [htx, Option.some.injEq, Prod.mk.injEq, Prod.mk.injEq] at htx'
  obtain ⟨rfl, rfl, rfl⟩ := htx'
  exact hunique notarytx height time pk pk' hnotary hnotary' hvin hvin'

/-- A proof that passes the test is good when its root is right. -/
theorem Counted.approves (h : o.Counted burntxid notarytxid pk)
    (hroot : ¬o.WrongRoot notarytxid pk) : o.Approves burntxid notarytxid pk := by
  obtain ⟨notarytx, height, time, mb, htx, hmb, hpasses, hsigned⟩ := h
  have hright : (mb.txn.extractMatches o.maxBlockSize).1 = mb.hashMerkleRoot := by
    by_contra hne
    exact hroot ⟨notarytx, height, time, mb, htx, hmb, hne, hsigned⟩
  refine ⟨notarytx, height, time, mb, htx, hmb, ⟨hright, ?_⟩, hsigned⟩
  rw [CMerkleBlock.passes, hright, bne_self_eq_false, Bool.false_or] at hpasses
  exact List.contains_iff_mem.1 hpasses

/-- A transaction has one proof. -/
theorem Approves.not_wrongRoot {pk' : PubKey33} (h : o.Approves burntxid notarytxid pk) :
    ¬o.WrongRoot notarytxid pk' := by
  rintro ⟨notarytx', height', time', mb', htx', hmb', hwrong, -⟩
  obtain ⟨notarytx, height, time, mb, htx, hmb, ⟨hright, -⟩, -⟩ := h
  rw [htx, Option.some.injEq, Prod.mk.injEq] at htx'
  rw [← htx'.1, hmb, Option.some.injEq] at hmb'
  exact hwrong (hmb' ▸ hright)

/-- Choose a transaction for each signer. -/
theorem exists_pairs {signed : Uint256 → PubKey33 → Prop} {pks : List PubKey33}
    (h : ∀ pk ∈ pks, ∃ notarytxid ∈ notaryTxids, signed notarytxid pk) :
    ∃ pairs : List (Uint256 × PubKey33), pairs.map Prod.snd = pks ∧
      ∀ p ∈ pairs, p.1 ∈ notaryTxids ∧ signed p.1 p.2 := by
  induction pks with
  | nil => exact ⟨[], rfl, fun p hp => absurd hp List.not_mem_nil⟩
  | cons pk pks ih =>
    obtain ⟨notarytxid, hmem, hsigned⟩ := h pk List.mem_cons_self
    obtain ⟨pairs, hmap, hall⟩ := ih fun pk' hpk' => h pk' (List.mem_cons_of_mem pk hpk')
    refine ⟨(notarytxid, pk) :: pairs, by rw [List.map_cons, hmap], ?_⟩
    intro p hp
    rcases List.mem_cons.1 hp with rfl | hp
    · exact ⟨hmem, hsigned⟩
    · exact hall p hp

/-- Five notaries have signed five transactions, so each of five is signed. -/
theorem Enough.signed_of_length_le {signed : Uint256 → PubKey33 → Prop}
    (h : Enough signed notaryTxids) (hlen : notaryTxids.length ≤ required)
    (hunique : ∀ notarytxid pk pk', signed notarytxid pk → signed notarytxid pk' → pk = pk')
    (hmem : notarytxid ∈ notaryTxids) : ∃ pk, signed notarytxid pk := by
  obtain ⟨pks, hnodup, hlong, hsigned⟩ := h
  obtain ⟨pairs, hmap, hall⟩ := exists_pairs hsigned
  have hpairs : (pairs.map Prod.fst).Nodup := by
    rw [List.nodup_map_iff_inj_on (List.Nodup.of_map Prod.snd (hmap ▸ hnodup))]
    intro p hp q hq heq
    have hq' := (hall q hq).2
    rw [← heq] at hq'
    exact Prod.ext heq (hunique _ _ _ (hall p hp).2 hq')
  have hsub : pairs.map Prod.fst ⊆ notaryTxids := by
    intro x hx
    obtain ⟨p, hp, rfl⟩ := List.mem_map.1 hx
    exact (hall p hp).1
  have hlength : notaryTxids.length ≤ (pairs.map Prod.fst).length := by
    rw [← hmap, List.length_map] at hlong
    rw [List.length_map]
    omega
  have hperm := (List.subperm_of_subset hpairs hsub).perm_of_length_le hlength
  obtain ⟨p, hp, rfl⟩ := List.mem_map.1 (hperm.mem_iff.2 hmem)
  exact ⟨p.2, (hall p hp).2⟩

/-- An approval is backed by the required number of notaries with good proofs when no notary
has signed a transaction of the list whose proof has a wrong root and no signer is taken from
a stale entry of the array; in a list of no more transactions than are required, no proof has
a wrong root where there are enough good ones. -/
theorem approval_sound (o : NotaryOracle) (pubkeys : Store (Fin 64) PubKey33) (burntxid : Uint256)
    (notaryTxids : List Uint256) :
    (o.NoStaleSigner pubkeys notaryTxids →
      (∀ notarytxid ∈ notaryTxids, ∀ pk, ¬o.WrongRoot notarytxid pk) →
      o.checkNotariesApproval pubkeys burntxid notaryTxids = true →
      Enough (o.Approves burntxid) notaryTxids) ∧
    (o.SignerUnique → notaryTxids.length ≤ required →
      Enough (o.Approves burntxid) notaryTxids →
      ∀ notarytxid ∈ notaryTxids, ∀ pk, ¬o.WrongRoot notarytxid pk) := by
  constructor
  · intro hstale hroots happroval
    obtain ⟨pks, hnodup, hlen, hsigned⟩ := enough_counted hstale happroval
    refine ⟨pks, hnodup, hlen, fun pk hpk => ?_⟩
    obtain ⟨notarytxid, hmem, hcounted⟩ := hsigned pk hpk
    exact ⟨notarytxid, hmem, Counted.approves hcounted (hroots notarytxid hmem pk)⟩
  · intro hunique hlen henough notarytxid hmem pk
    obtain ⟨pk', happroves⟩ := henough.signed_of_length_le hlen
      (fun _ _ _ h h' => SignedWith.signer_unique hunique h h') hmem
    exact Approves.not_wrongRoot happroves

end NotaryOracle

namespace ForgedProofs

open NotaryOracle

/-- A Merkle block that states a root over the single transaction 77. -/
def txoutproof (root : Nat) : List UInt8 :=
  leBytes 4 4 ++ leBytes 32 0 ++ leBytes 32 root ++ leBytes 32 0 ++ leBytes 4 0 ++ leBytes 4 0 ++
    leBytes 32 0 ++ [0] ++ (leBytes 4 1 ++ ([1] ++ leBytes 32 77) ++ [1, 1])

/-- A notary transaction with that proof. -/
def notarytx (root : Nat) (txid : Uint256) : CTransaction :=
  { hash := txid
    vout := [⟨0, 0x6a :: CScript.pushBytes
      (UInt8.ofNat (txoutproof root).length :: txoutproof root)⟩] }

/-- The key whose bytes are all the same. -/
def key (n : Nat) : PubKey33 := Vector.replicate 33 (UInt8.ofNat n)

theorem written_all (i : Fin 64) :
    i ∈ ((List.finRange 64).map fun i => (i, some (key i.val))).map Prod.fst := by
  rw [List.map_map]
  exact List.mem_map.2 ⟨i, List.mem_finRange i, rfl⟩

/-- A node with 64 notaries, where notary `n` has signed transaction `n`. -/
def oracle (root : Nat) : NotaryOracle where
  maxBlockSize := 4194304
  getTxConfirmed := fun txid =>
    if txid.toNat < 64 then some (notarytx root txid, 100, 1600000000) else none
  komodoNotaries := fun _ _ =>
    { ret := 64
      writes := (List.finRange 64).map fun i => (i, some (key i.val))
      written := fun i _ => written_all i }
  checkVinPubKey := fun tx pk => pk == key tx.hash.toNat

theorem oracle_signerUnique (root : Nat) : (oracle root).SignerUnique := by
  intro tx _ _ pk pk' _ _ hpk hpk'
  rw [eq_of_beq hpk, eq_of_beq hpk']

/-- Five notary transactions that prove something else are taken for an approval of the burn
transaction 99. -/
theorem approval_forged :
    (oracle 1).checkNotariesApproval (fun _ => none) 99 [1, 2, 3, 4, 5] = true := by
  decide +kernel

/-- The proof of a notary transaction is that of transaction 77 alone. -/
theorem merkleBlock_root {root : Nat} {txid : Uint256} {notarytx : CTransaction} {height : Int}
    {time : Nat} {mb : CMerkleBlock}
    (htx : (oracle root).getTxConfirmed txid = some (notarytx, height, time))
    (hmb : merkleBlock notarytx = some mb) :
    merkleBlock (ForgedProofs.notarytx root 0) = some mb := by
  unfold oracle at htx
  dsimp only at htx
  split at htx
  · rw [Option.some.injEq, Prod.mk.injEq] at htx
    have hvout : (ForgedProofs.notarytx root txid).vout =
        (ForgedProofs.notarytx root 0).vout := rfl
    rw [← hmb, ← htx.1, merkleBlock, merkleBlock, hvout]
  · cases htx

/-- The approval is not backed by a single good proof. -/
theorem approval_unsound :
    ¬ ((oracle 1).checkNotariesApproval (fun _ => none) 99 [1, 2, 3, 4, 5] = true →
      Enough ((oracle 1).Approves 99) [1, 2, 3, 4, 5]) := by
  intro h
  obtain ⟨pks, -, hlen, happroves⟩ := h approval_forged
  obtain ⟨pk, hpk⟩ : ∃ pk, pk ∈ pks := by
    apply List.exists_mem_of_length_pos
    unfold required at hlen
    omega
  obtain ⟨txid, -, tx, height, time, mb, htx, hmb, hproves, -⟩ := happroves pk hpk
  have hforged : (merkleBlock (notarytx 1 0)).all (fun mb => !decide (mb.Proves 4194304 99)) =
      true := by decide +kernel
  rw [merkleBlock_root htx hmb, Option.all_some, Bool.not_eq_true', decide_eq_false_iff_not]
    at hforged
  exact hforged hproves

/-- Five notary transactions that prove the burn transaction 77 with the right root. -/
theorem approval_sound_five :
    (oracle 77).checkNotariesApproval (fun _ => none) 77 [1, 2, 3, 4, 5] = true ∧
      Enough ((oracle 77).Approves 77) [1, 2, 3, 4, 5] ∧
      ∀ notarytxid ∈ ([1, 2, 3, 4, 5] : List Uint256), ∀ pk,
        ¬(oracle 77).WrongRoot notarytxid pk := by
  obtain ⟨hsound, hneeded⟩ := approval_sound (oracle 77) (fun _ => none) 77 [1, 2, 3, 4, 5]
  have happroval : (oracle 77).checkNotariesApproval (fun _ => none) 77 [1, 2, 3, 4, 5] = true := by
    decide +kernel
  have hstale : (oracle 77).NoStaleSigner (fun _ => none) [1, 2, 3, 4, 5] := by
    intro _ _ _ _ _ _ i _ hle
    have hlt := i.isLt
    have hret : (64 : Int) ≤ i.val := hle
    omega
  have hroots : ∀ notarytxid ∈ ([1, 2, 3, 4, 5] : List Uint256), ∀ pk,
      ¬(oracle 77).WrongRoot notarytxid pk := by
    rintro txid - pk ⟨tx, height, time, mb, htx, hmb, hwrong, -⟩
    have hright : (merkleBlock (notarytx 77 0)).all (fun mb =>
        (mb.txn.extractMatches 4194304).1 == mb.hashMerkleRoot) = true := by decide +kernel
    rw [merkleBlock_root htx hmb, Option.all_some, beq_iff_eq] at hright
    exact hwrong hright
  have henough := hsound hstale hroots happroval
  exact ⟨happroval, henough, hneeded (oracle_signerUnique 77) (by decide) henough⟩

end ForgedProofs

end IndexChain
