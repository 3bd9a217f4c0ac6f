import IndexChain.Models.Coins.IndexedChain
import IndexChain.Models.Primitives.Standard

/-!
# Daily snapshots

`Snapshot2` of `txdb.cpp` adds up the unspent index by address, without crypto-conditions and
without the addresses of a list. `komodo_dailysnapshot` of `main.cpp` starts from there and takes
back the last blocks, by the destination of every output that they create or spend. The two agree
on the scripts that both of them treat alike.
-/

namespace IndexChain

open IndexChain.Core AddressEnv

/-- The map from addresses to amounts. -/
abbrev AddressAmounts := Store String Int

/-- The amount of an address, 0 without an entry. -/
def AddressAmounts.balance (m : AddressAmounts) (address : String) : Int :=
  (m address).getD 0

/-- What the snapshots read besides the unspent index. -/
structure SnapshotEnv where
  /-- The solver. -/
  standard : StandardEnv
  /-- `CBitcoinAddress` of a `CKeyID`, as a string. -/
  keyAddress : BitVec 160 → String
  /-- `CBitcoinAddress` of a `CScriptID`, as a string. -/
  scriptAddress : BitVec 160 → String
  /-- `-addressindex`. -/
  fAddressIndex : Bool
  /-- `-txindex`. -/
  fTxIndex : Bool
  /-- `mempool.lookup`. -/
  mempool : Uint256 → Option CTransaction
  /-- `ReadTxIndex`, and the transaction at the position it gives. -/
  readTxIndex : Uint256 → Option CTransaction
  /-- `komodo_chainactive` and `komodo_blockload`: the block at a height. -/
  blockload : Int → Option CBlock
  /-- `KOMODO_SNAPSHOT_INTERVAL`. -/
  snapshotInterval : Int
  /-- `ScanNotarisationsDB`: the height of the last notarisation, in 100 blocks from a height. -/
  scanNotarisationsDB : Int → Option Int
  /-- `komodo_notarized_height`. -/
  notarizedHeight : Int

/-- `DECLARE_IGNORELIST`. -/
def ignoredMap : List String :=
  ["RReUxSs5hGE39ELU23DfydX8riUuzdrHAE", "RMUF3UDmzWFLSKV82iFbMaqzJpUnrWjcT4",
    "RA5imhVyJa7yHhggmBytWuDr923j2P1bxx", "RBM5LofZFodMeewUzoMWcxedm3L3hYRaWg",
    "RAdcko2d94TQUcJhtFHZZjMyWBKEVfgn4J", "RLzUaZ934k2EFCsAiVjrJqM8uU1vmMRFzk",
    "RMSZMWZXv4FhUgWhEo4R3AQXmRDJ6rsGyt", "RUDrX1v5toCsJMUgtvBmScKjwCB5NaR8py",
    "RMSZMWZXv4FhUgWhEo4R3AQXmRDJ6rsGyt", "RRvwmbkxR5YRzPGL5kMFHMe1AH33MeD8rN",
    "RQLQvSgpPAJNPgnpc8MrYsbBhep95nCS8L", "RK8JtBV78HdvEPvtV5ckeMPSTojZPzHUTe",
    "RHVs2KaCTGUMNv3cyWiG1jkEvZjigbCnD2", "RE3SVaDgdjkRPYA6TRobbthsfCmxQedVgF",
    "RW6S5Lw5ZCCvDyq4QV9vVy7jDHfnynr5mn", "RTkJwAYtdXXhVsS3JXBAJPnKaBfMDEswF8",
    "RD6GgnrMpPaTSMn8vai6yiGA7mN4QGPVMY"]

namespace SnapshotEnv

variable (e : SnapshotEnv)

/-- The address index of the node. -/
def addressEnv : AddressEnv where
  getAddressType := e.standard.getAddressType
  hash160 := e.standard.hash160

/-! ## `Snapshot2` -/

/-- `getAddressFromIndex`. -/
def getAddressFromIndex (type : Nat) (hash : BitVec 160) : Option String :=
  if type = 2 then some (e.scriptAddress hash)
  else if type = 1 then some (e.keyAddress hash)
  else if type = 3 then some (e.keyAddress hash)
  else none

/-- An entry of the unspent index. The string of the address is kept from entry to entry. -/
def snapshot2Step (s : String × AddressAmounts)
    (entry : CAddressUnspentKey × CAddressUnspentValue) : String × AddressAmounts :=
  let nValue := entry.2.satoshis
  if nValue = 0 then s
  else
    let address := (e.getAddressFromIndex entry.1.type entry.1.hashBytes).getD s.1
    if entry.1.type = 3 then (address, s.2)
    else if address ∈ ignoredMap then (address, s.2)
    else match s.2 address with
      | none => (address, Function.update s.2 address (some nValue))
      | some amount => (address, Function.update s.2 address (some (amount + nValue)))

/-- `Snapshot2`, for the entries in the order of the iterator. -/
def snapshot2 (entries : List (CAddressUnspentKey × CAddressUnspentValue)) : AddressAmounts :=
  (entries.foldl e.snapshot2Step ("", fun _ => none)).2

/-! ## `komodo_dailysnapshot` -/

/-- `CBitcoinAddress(vDest).ToString()`. -/
def addressOf : CTxDestination → String
  -- the checksum of no data
  | .noDestination => "3QJmnh"
  | .pubKey vch => e.keyAddress (e.standard.hash160 vch)
  | .keyID id => e.keyAddress id
  | .scriptID id => e.scriptAddress id

/-- The address of the destination of an output. -/
def destination (out : CTxOut) : Option String :=
  (e.standard.extractDestination out.scriptPubKey).map e.addressOf

/-- `myGetTransaction`. -/
def myGetTransaction (hash : Uint256) : Option CTransaction :=
  match e.mempool hash with
  | some tx => some tx
  | none =>
    if e.fTxIndex then (e.readTxIndex hash).filter fun tx => tx.hash = hash else none

/-- Remove what an output received. -/
def undoOutput (out : CTxOut) (m : AddressAmounts) : AddressAmounts :=
  match e.destination out with
  | none => m
  | some address =>
    let m := Function.update m address (some (m.balance address - out.nValue))
    if AddressAmounts.balance m address < 1 then Function.update m address none else m

/-- Return what an input sent. An index that is out of range does not come up: the chain has the
outputs that are spent. -/
def undoInput (input : CTxIn) (m : AddressAmounts) : AddressAmounts :=
  match input.spentOutput e.myGetTransaction with
  | none => m
  | some out =>
    match e.destination out with
    | none => m
    | some address => Function.update m address (some (m.balance address + out.nValue))

/-- A transaction, from the last output to the first input. -/
def undoTx (tx : CTransaction) (m : AddressAmounts) : AddressAmounts :=
  let m := tx.vout.foldr e.undoOutput m
  if ¬ tx.isCoinImport ∧ ¬ tx.isCoinBase then tx.vin.foldr e.undoInput m else m

/-- Undo blocks in reverse order, from height `n` on. -/
def undoBlocks : Nat → Int → AddressAmounts → Option AddressAmounts
  | 0, _, m => some m
  | count + 1, n, m => do
    let block ← e.blockload n
    undoBlocks count (n - 1) (block.vtx.foldr e.undoTx m)

/-- The height that the blocks are undone to. -/
def undoHeight (height : Int) : Int :=
  let reorglimit := 100
  let extraoffset := height.tmod e.snapshotInterval
  if extraoffset ≠ 0 then
    match e.scanNotarisationsDB (height - extraoffset) with
    | none => height - extraoffset - reorglimit
    | some notaHeight => notaHeight
  else if e.notarizedHeight > height - reorglimit then e.notarizedHeight
  else height - reorglimit

/-- `komodo_dailysnapshot` up to the sorting, with the map of amounts of a new snapshot; none when
it fails. There is no new snapshot at the height of the last one. -/
def dailySnapshot (entries : List (CAddressUnspentKey × CAddressUnspentValue))
    (lastSnapShotHeight : Int) (height : Int) : Option (Option AddressAmounts) :=
  let undoHeight := e.undoHeight height
  if undoHeight = lastSnapShotHeight then some none
  else if ¬ e.fAddressIndex then none
  else (e.undoBlocks (height - undoHeight).toNat height (e.snapshot2 entries)).map some

/-! ## What both count -/

/-- `Snapshot2` counts the entries of this kind and hash for an address. -/
def counts (address : String) (type : Nat) (hash : BitVec 160) : Bool :=
  type ≠ 3 ∧ e.getAddressFromIndex type hash = some address ∧ address ∉ ignoredMap

/-- What the undo loop takes an output to pay to an address. -/
def received (address : String) (out : CTxOut) : Int :=
  if e.destination out = some address then out.nValue else 0

end SnapshotEnv

namespace AddressAmounts

variable {m : AddressAmounts} {address : String}

theorem balance_update (m : AddressAmounts) (address address' : String) (o : Option Int) :
    AddressAmounts.balance (Function.update m address' o) address =
      if address = address' then o.getD 0 else m.balance address := by
  unfold balance
  rw [Function.update_apply]
  split <;> rfl

end AddressAmounts

namespace SnapshotEnv

variable {e : SnapshotEnv} {address : String} {m : AddressAmounts}

open AddressAmounts

/-- What an entry adds to the amount of an address. -/
theorem balance_snapshot2Step (s : String × AddressAmounts)
    {entry : CAddressUnspentKey × CAddressUnspentValue}
    (h : e.getAddressFromIndex entry.1.type entry.1.hashBytes ≠ none) :
    (e.snapshot2Step s entry).2.balance address =
      s.2.balance address + weigh (e.counts address) entry.1 entry.2 := by
  obtain ⟨found, hfound⟩ := Option.ne_none_iff_exists'.1 h
  have hcounts : e.counts address entry.1.type entry.1.hashBytes = true ↔
      entry.1.type ≠ 3 ∧ found = address ∧ found ∉ ignoredMap := by
    unfold counts
    rw [hfound, decide_eq_true_iff, Option.some.injEq]
    exact and_congr_right fun _ => and_congr_right_iff.2 fun heq => by rw [heq]
  unfold snapshot2Step weigh
  dsimp only
  rw [hfound, Option.getD_some]
  by_cases hzero : entry.2.satoshis = 0
  · rw [if_pos hzero, hzero, ite_self, Int.add_zero]
  rw [if_neg hzero]
  by_cases htype : entry.1.type = 3
  · rw [if_pos htype, if_neg fun hc => (hcounts.1 hc).1 htype, Int.add_zero]
  rw [if_neg htype]
  by_cases hignored : found ∈ ignoredMap
  · rw [if_pos hignored, if_neg fun hc => (hcounts.1 hc).2.2 hignored, Int.add_zero]
  rw [if_neg hignored]
  have hadded : ∀ amount, s.2.balance found = amount →
      balance (Function.update s.2 found (some (amount + entry.2.satoshis))) address =
        s.2.balance address +
          if e.counts address entry.1.type entry.1.hashBytes then entry.2.satoshis else 0 := by
    rintro amount rfl
    rw [balance_update]
    by_cases heq : address = found
    · rw [if_pos heq, if_pos (hcounts.2 ⟨htype, heq.symm, hignored⟩), heq, Option.getD_some]
    · rw [if_neg heq, if_neg fun hc => heq (hcounts.1 hc).2.1.symm, Int.add_zero]
  cases hm : s.2 found with
  | none =>
    have hbalance : s.2.balance found = 0 := by rw [balance, hm, Option.getD_none]
    have := hadded 0 hbalance
    rwa [Int.zero_add] at this
  | some amount => exact hadded amount (by rw [balance, hm, Option.getD_some])

/-- `Snapshot2` adds up the entries that count. -/
theorem balance_snapshot2 {entries : List (CAddressUnspentKey × CAddressUnspentValue)}
    (h : ∀ entry ∈ entries, e.getAddressFromIndex entry.1.type entry.1.hashBytes ≠ none) :
    (e.snapshot2 entries).balance address =
      (entries.map fun entry => weigh (e.counts address) entry.1 entry.2).sum := by
  have hfold : ∀ s : String × AddressAmounts,
      (entries.foldl e.snapshot2Step s).2.balance address = s.2.balance address +
        (entries.map fun entry => weigh (e.counts address) entry.1 entry.2).sum := by
    induction entries with
    | nil => exact fun s => (Int.add_zero _).symm
    | cons entry rest ih =>
      intro s
      obtain ⟨hentry, hrest⟩ := List.forall_mem_cons.1 h
      rw [List.foldl_cons, ih hrest, balance_snapshot2Step s hentry, List.map_cons, List.sum_cons,
        Int.add_assoc]
  exact (hfold _).trans (Int.zero_add _)

/-! ## Undoing blocks -/

/-- An output is taken back, as far as the amount goes. -/
theorem balance_undoOutput (out : CTxOut) (hm : 0 ≤ m.balance address) :
    (e.undoOutput out m).balance address =
      max 0 (m.balance address - e.received address out) := by
  unfold undoOutput received
  cases hdest : e.destination out with
  | none =>
    rw [if_neg (Option.some_ne_none address).symm, Int.sub_zero, max_eq_right hm]
  | some found =>
    dsimp only
    simp only [Option.some.injEq, balance_update, if_true, Option.getD_some]
    by_cases heq : found = address
    · subst heq
      rw [if_pos rfl]
      split
      · rw [balance_update, if_pos rfl, Option.getD_none]
        omega
      · rw [balance_update, if_pos rfl, Option.getD_some]
        omega
    · rw [if_neg heq, Int.sub_zero, max_eq_right hm]
      split
      · rw [balance_update, if_neg (Ne.symm heq), balance_update, if_neg (Ne.symm heq)]
      · rw [balance_update, if_neg (Ne.symm heq)]

/-- What an input sent is returned. -/
theorem balance_undoInput {input : CTxIn} (hm : 0 ≤ m.balance address)
    (hpos : ∀ out, input.spentOutput e.myGetTransaction = some out → 0 ≤ out.nValue) :
    (e.undoInput input m).balance address = max 0 (m.balance address -
      -(input.spentOutput e.myGetTransaction).elim 0 (e.received address)) := by
  unfold undoInput
  cases hspent : input.spentOutput e.myGetTransaction with
  | none => rw [Option.elim_none, Int.neg_zero, Int.sub_zero, max_eq_right hm]
  | some out =>
    have hout := hpos out hspent
    rw [Option.elim_some, Int.sub_neg]
    dsimp only
    unfold received
    cases hdest : e.destination out with
    | none => rw [if_neg (Option.some_ne_none address).symm, Int.add_zero, max_eq_right hm]
    | some found =>
      dsimp only
      simp only [Option.some.injEq, balance_update]
      by_cases heq : found = address
      · subst heq
        rw [if_pos rfl, if_pos rfl, Option.getD_some]
        omega
      · rw [if_neg heq, if_neg (Ne.symm heq), Int.add_zero, max_eq_right hm]

/-- What the undo loop takes a transaction to change, input by input and output by output. -/
def txReceived (e : SnapshotEnv) (address : String) (tx : CTransaction) : List Int :=
  tx.changes e.myGetTransaction (e.received address)

/-- Undoing outputs, or inputs, one by one. -/
theorem balance_foldr {α : Type} {undo : α → AddressAmounts → AddressAmounts} {change : α → Int}
    {l : List α} (h : ∀ x ∈ l, ∀ m : AddressAmounts, 0 ≤ m.balance address →
      (undo x m).balance address = max 0 (m.balance address - change x))
    (hm : 0 ≤ m.balance address) :
    (l.foldr undo m).balance address = undoClamped (m.balance address) (l.map change) := by
  induction l with
  | nil => rfl
  | cons x rest ih =>
    obtain ⟨hx, hrest⟩ := List.forall_mem_cons.1 h
    have heq := ih hrest
    rw [List.foldr_cons, List.map_cons, undoClamped, hx, heq]
    rw [heq]
    exact undoClamped_nonneg hm

/-- The transactions of which the undo loop takes the changes back. -/
def Undoable (e : SnapshotEnv) (tx : CTransaction) : Prop :=
  tx.isMint = false → ∀ input ∈ tx.vin, ∀ out,
    input.spentOutput e.myGetTransaction = some out → 0 ≤ out.nValue

/-- A transaction is undone, as far as the amounts go. -/
theorem balance_undoTx {tx : CTransaction} (htx : e.Undoable tx) (hm : 0 ≤ m.balance address) :
    (e.undoTx tx m).balance address =
      undoClamped (m.balance address) (e.txReceived address tx) := by
  have houts : (tx.vout.foldr e.undoOutput m).balance address =
      undoClamped (m.balance address) (tx.vout.map (e.received address)) :=
    balance_foldr (fun out _ m hm => balance_undoOutput out hm) hm
  unfold undoTx txReceived CTransaction.changes
  rw [undoClamped_append, ← houts]
  dsimp only
  have hmint : tx.isMint = true ↔ ¬ (¬ tx.isCoinImport = true ∧ ¬ tx.isCoinBase = true) := by
    rw [CTransaction.isMint, Bool.or_eq_true]
    tauto
  by_cases h : tx.isMint = true
  · rw [if_neg (hmint.1 h), if_pos h]
    rfl
  · rw [if_pos (not_not.1 fun hnot => h (hmint.2 hnot)), if_neg h]
    rw [Bool.not_eq_true] at h
    refine balance_foldr (fun input hinput m hm => balance_undoInput hm (htx h input hinput)) ?_
    rw [houts]
    exact undoClamped_nonneg hm

/-- So are the transactions of blocks. -/
theorem balance_undoTxs {txs : List CTransaction} (htxs : ∀ tx ∈ txs, e.Undoable tx)
    (hm : 0 ≤ m.balance address) :
    (txs.foldr e.undoTx m).balance address =
      undoClamped (m.balance address) (txs.flatMap (e.txReceived address)) := by
  induction txs with
  | nil => rfl
  | cons tx rest ih =>
    obtain ⟨htx, hrest⟩ := List.forall_mem_cons.1 htxs
    have heq := ih hrest
    rw [List.foldr_cons, List.flatMap_cons, undoClamped_append, ← heq]
    refine balance_undoTx htx ?_
    rw [heq]
    exact undoClamped_nonneg hm

/-- The loop undoes the blocks above a height, the last one first. -/
theorem undoBlocks_eq (below : List CBlock) {above : List CBlock} (rest : List CBlock)
    {m' : AddressAmounts} {n : Int}
    (hload : ∀ (i : Nat) block, e.blockload i = some block →
      (below ++ above ++ rest)[i]? = some block)
    (hn : n + 1 = (below ++ above).length) (h : e.undoBlocks above.length n m = some m') :
    m' = (transactions above).foldr e.undoTx m := by
  induction above using List.reverseRecOn generalizing m n rest with
  | nil => exact (Option.some.inj h).symm
  | append_singleton above block ih =>
    rw [List.length_append, List.length_singleton, undoBlocks] at h
    obtain ⟨loaded, hloaded, hrest⟩ := Option.bind_eq_some_iff.1 h
    rw [← List.append_assoc, List.length_append, List.length_singleton] at hn
    obtain rfl : n = ((below ++ above).length : Nat) := by omega
    rw [← List.append_assoc, List.append_assoc] at hload
    have hblock := hload _ loaded hloaded
    rw [List.getElem?_append_right (le_refl _), Nat.sub_self] at hblock
    obtain rfl := Option.some.inj hblock
    have hblock' : transactions [block] = block.vtx := List.flatMap_singleton _ _
    rw [transactions_append, List.foldr_append, hblock']
    exact ih _ hload (Int.sub_add_cancel _ _) hrest

/-! ## The snapshot after undoing blocks -/

/-- What blocks change in what `Snapshot2` counts for an address, in the order of the chain. -/
def countedChanges (e : SnapshotEnv) (address : String) (blocks : List CBlock) : List Int :=
  (transactions blocks).flatMap
    (CTransaction.changes e.myGetTransaction (e.addressEnv.counted (e.counts address)))

/-- What they change altogether. -/
def countedChange (e : SnapshotEnv) (address : String) (blocks : List CBlock) : Int :=
  (e.countedChanges address blocks).sum

/-- What the undo loop takes blocks to change for an address, in the order of the chain. -/
def receivedChanges (e : SnapshotEnv) (address : String) (blocks : List CBlock) : List Int :=
  (transactions blocks).flatMap (e.txReceived address)

/-- The changes that are undone make up for what is counted. They leave no amount below 0 on the way
from the lower height, and no less than what is counted; they leave more only where the amount had
been 0, since it is then cut off. -/
structure UndoesExactly (e : SnapshotEnv) (below above : List CBlock) (address : String) :
    Prop where
  /-- No less than what is counted is undone. -/
  enough : e.countedChange address above ≤ (e.receivedChanges address above).sum
  /-- The amount never falls below 0. -/
  covered : ∀ n < (e.receivedChanges address above).length,
    0 ≤ e.countedChange address below + ((e.receivedChanges address above).take n).sum
  /-- Just what is counted is undone, or the amount is 0 before one of the changes. -/
  exact : e.countedChange address above = (e.receivedChanges address above).sum ∨
    ∃ n < (e.receivedChanges address above).length,
      e.countedChange address below + ((e.receivedChanges address above).take n).sum = 0

/-- An output is treated alike: `Snapshot2` counts for every address what its destination
receives. -/
def Alike (e : SnapshotEnv) (out : CTxOut) : Prop :=
  ∀ address, e.addressEnv.counted (e.counts address) out = e.received address out

/-- The outputs that a transaction creates and spends are treated alike. -/
structure AlikeTx (e : SnapshotEnv) (tx : CTransaction) : Prop where
  /-- What it creates. -/
  creates : ∀ out ∈ tx.vout, e.Alike out
  /-- What it spends. -/
  spends : tx.isMint = false → ∀ input ∈ tx.vin, ∀ out,
    input.spentOutput e.myGetTransaction = some out → e.Alike out

theorem AlikeTx.changes_eq {tx : CTransaction} (h : e.AlikeTx tx) (address : String) :
    tx.changes e.myGetTransaction (e.addressEnv.counted (e.counts address)) =
      e.txReceived address tx := by
  unfold txReceived CTransaction.changes
  congr 1
  · split
    · rfl
    · rename_i hmint
      rw [Bool.not_eq_true] at hmint
      refine List.map_congr_left fun input hinput => congrArg Neg.neg ?_
      cases hspent : input.spentOutput e.myGetTransaction with
      | none => rfl
      | some out => exact h.spends hmint input hinput out hspent address
  · exact List.map_congr_left fun out hout => h.creates out hout address

/-- An output with one address is treated alike, if that is the address of its destination and is
neither ignored nor that of a crypto-condition. -/
theorem alike_of_address {out : CTxOut} {type : Nat} {id : BitVec 160} {address : String}
    (htype : e.standard.getAddressType out.scriptPubKey = (type, [leBytes 20 id.toNat]))
    (hkind : type ≠ 0 ∧ type ≠ 3) (hget : e.getAddressFromIndex type id = some address)
    (hdest : e.destination out = some address) (hnot : address ∉ ignoredMap) : e.Alike out := by
  have hkey : e.addressEnv.keyType out.scriptPubKey = type := congrArg Prod.fst htype
  have hhash : e.addressEnv.addrHashes out.scriptPubKey = [id] := by
    rw [addrHashes, if_pos (by rw [hkey]; exact hkind.1)]
    unfold addressEnv
    dsimp only
    rw [htype]
    exact congrArg (fun id => [id]) (StandardEnv.uint160_leBytes id)
  intro address'
  have hcounts : e.counts address' type id = true ↔ some address = some address' := by
    unfold counts
    rw [hget, decide_eq_true_iff]
    refine ⟨fun h => h.2.1, fun h => ⟨hkind.2, h, ?_⟩⟩
    rwa [← Option.some.inj h]
  have hdedup : [id].dedup = [id] := List.dedup_eq_self.2 (List.nodup_singleton id)
  unfold AddressEnv.counted received
  rw [hkey, hhash, hdest, hdedup, List.map_singleton, List.sum_singleton]
  exact if_congr hcounts rfl rfl

/-- So is an output without an address and without a destination. -/
theorem alike_of_none {out : CTxOut} (hkey : e.addressEnv.keyType out.scriptPubKey = 0)
    (hdest : e.destination out = none) : e.Alike out := by
  intro address
  have hnone : e.addressEnv.addrHashes out.scriptPubKey = [] := if_neg (not_not.2 hkey)
  unfold AddressEnv.counted received
  rw [hnone, hdest]
  rfl

/-- So are payments to a script hash. -/
theorem alike_scriptID {out : CTxOut} {id : BitVec 160}
    (hout : out.scriptPubKey = StandardEnv.getScriptForDestination (.scriptID id))
    (hnot : e.scriptAddress id ∉ ignoredMap) : e.Alike out := by
  have htype : e.standard.getAddressType out.scriptPubKey = (2, [leBytes 20 id.toNat]) := by
    rw [hout, StandardEnv.getAddressType, StandardEnv.solver_scriptID]
    rfl
  refine alike_of_address htype ⟨by decide, by decide⟩ rfl ?_ hnot
  rw [destination, hout, StandardEnv.extractDestination_scriptID]
  rfl

end SnapshotEnv

/-- `Snapshot2` adds up what the index records. -/
theorem Recorded.balance_snapshot2 {e : SnapshotEnv} {coins : Uint256 → CCoins}
    {index : Store CAddressUnspentKey CAddressUnspentValue} {txs : List CTransaction}
    {look : Uint256 → Option CTransaction} {F : Finset CAddressUnspentKey}
    {entries : List (CAddressUnspentKey × CAddressUnspentValue)}
    (h : Recorded e.addressEnv coins index txs) (hcov : Covers e.addressEnv look F txs)
    (hentries : Iterates entries index) (address : String) :
    (e.snapshot2 entries).balance address =
      storeTotal (weigh (e.counts address)) F index := by
  have hentry : ∀ entry ∈ entries, ∃ tx ∈ txs, ∃ o, tx.vout[entry.1.index]? = some o ∧
      entry.1 ∈ e.addressEnv.outputKeys o tx.hash entry.1.index := fun entry hmem =>
    (h.entry entry.1 entry.2 ((hentries.mem_iff _ _).1 hmem)).2
  rw [SnapshotEnv.balance_snapshot2, hentries.sum_eq]
  · intro entry hmem
    obtain ⟨tx, htx, o, ho, hkey⟩ := hentry entry hmem
    exact hcov.keys tx htx _ _ ho _ hkey
  · intro entry hmem
    obtain ⟨tx, htx, o, ho, hkey⟩ := hentry entry hmem
    obtain ⟨⟨htype, haddr⟩, -⟩ := mem_outputKeys.1 hkey
    have hne : (e.standard.getAddressType o.scriptPubKey).1 ≠ 0 := by
      intro hzero
      have hnone : ¬ e.addressEnv.keyType o.scriptPubKey ≠ 0 := not_not.2 hzero
      rw [addrHashes, if_neg hnone] at haddr
      cases haddr
    have hcases := e.standard.getAddressType_cases hne
    rw [show (e.standard.getAddressType o.scriptPubKey).1 = entry.1.type from htype] at hcases
    unfold SnapshotEnv.getAddressFromIndex
    rcases hcases with h1 | h2 | h3
    · simp [h1]
    · simp [h2]
    · simp [h3]

/-- A chain in two parts, with the states at the end of both, as a snapshot of it finds it. -/
structure SnapshotChain (env : ConnectEnv) (e : SnapshotEnv) (genesis : CBlock)
    (below above : List CBlock) (s s' : IndexedState) : Prop where
  /-- The first part follows the genesis block. -/
  before : ∃ s0, AfterGenesis env genesis s0 ∧ Connects env e.addressEnv s0 below s
  /-- The second part follows the first. -/
  after : Connects env e.addressEnv s above s'
  /-- Tombstones stay. -/
  keeps : env.checks.KeepsTombstones
  /-- No transaction comes twice. -/
  nodup : ((transactions (below ++ above)).map CTransaction.hash).Nodup
  /-- The transactions are in the transaction index. -/
  found : ∀ tx ∈ transactions (below ++ above), e.myGetTransaction tx.hash = some tx
  /-- The blocks that are read are those of the chain. -/
  loaded : ∀ (n : Nat) block, e.blockload n = some block →
    (genesis :: below ++ above)[n]? = some block

namespace SnapshotChain

variable {env : ConnectEnv} {e : SnapshotEnv} {genesis : CBlock} {below above : List CBlock}
  {s s' : IndexedState}

/-- What `Snapshot2` reports at both heights, and what the transactions above spend. -/
theorem balances (h : SnapshotChain env e genesis below above s s')
    {entries entries' : List (CAddressUnspentKey × CAddressUnspentValue)}
    (hentries : Iterates entries s.db.addressUnspentIndex)
    (hentries' : Iterates entries' s'.db.addressUnspentIndex) :
    (∀ address, (e.snapshot2 entries).balance address = e.countedChange address below) ∧
      (∀ address, (e.snapshot2 entries').balance address =
        e.countedChange address below + e.countedChange address above) ∧
      (∀ address, Steady (e.countedChange address below) (e.countedChanges address above)) ∧
      ∀ tx ∈ transactions above, e.Undoable tx := by
  obtain ⟨s0, hgenesis, hbelow⟩ := h.before
  obtain ⟨hreach0, hrecorded0⟩ := hgenesis.recorded e.addressEnv
  let F : Finset CAddressUnspentKey := ((transactions (below ++ above)).flatMap fun tx =>
    tx.vout.zipIdx.flatMap fun o => e.addressEnv.outputKeys o.1 tx.hash o.2).toFinset
  have hcov : Covers e.addressEnv e.myGetTransaction F
      ([] ++ transactions below ++ transactions above) := by
    rw [List.nil_append, ← transactions_append]
    refine ⟨h.found, fun tx htx n o ho key hkey => List.mem_toFinset.2 ?_⟩
    refine List.mem_flatMap.2 ⟨tx, htx, List.mem_flatMap.2 ⟨(o, n), ?_, hkey⟩⟩
    exact List.mem_zipIdx_iff_getElem?.2 ho
  have hnodup := h.nodup
  rw [transactions_append, ← List.nil_append (transactions below)] at hnodup
  have hcovBelow := hcov.mono (List.subset_append_left _ _)
  obtain ⟨hreach, hrecorded, halong⟩ := hbelow.recorded hreach0 hrecorded0 hcovBelow h.keeps
    (hnodup.sublist ((List.sublist_append_left _ _).map _))
  obtain ⟨-, hrecorded', halong'⟩ := h.after.recorded hreach hrecorded hcov h.keeps hnodup
  have hbelow' : ∀ address, storeTotal (weigh (e.counts address)) F s.db.addressUnspentIndex =
      e.countedChange address below := by
    intro address
    have hempty : storeTotal (weigh (e.counts address)) F s0.db.addressUnspentIndex = 0 := by
      rw [hgenesis.index]
      exact Finset.sum_eq_zero fun _ _ => rfl
    rw [(halong.follows _).total, hempty, Int.zero_add]
    rfl
  refine ⟨fun address => ?_, fun address => ?_, fun address => ?_, ?_⟩
  · rw [hrecorded.balance_snapshot2 hcovBelow hentries, hbelow']
  · rw [hrecorded'.balance_snapshot2 hcov hentries', (halong'.follows _).total, hbelow']
    rfl
  · rw [← hbelow']
    exact (halong'.follows _).steady
  · intro tx htx hmint input hinput out hout
    obtain ⟨tx', htx', o, ho, hspent⟩ := halong'.spends tx htx hmint input hinput
    obtain rfl := Option.some.inj (hspent.symm.trans hout)
    exact List.forall_mem_append.2 ⟨halong.nonneg, halong'.nonneg⟩ tx' htx' o ho

/-- The amounts of a daily snapshot are those of `Snapshot2` with the blocks above undone. -/
theorem balance_dailySnapshot (h : SnapshotChain env e genesis below above s s')
    {entries : List (CAddressUnspentKey × CAddressUnspentValue)} {lastSnapShotHeight : Int}
    {m : AddressAmounts} (hundo : e.undoHeight s'.tip.nHeight = s.tip.nHeight)
    (hm : e.dailySnapshot entries lastSnapShotHeight s'.tip.nHeight = some (some m)) :
    m = (transactions above).foldr e.undoTx (e.snapshot2 entries) := by
  obtain ⟨s0, hgenesis, hbelow⟩ := h.before
  have hheight : s.tip.nHeight = below.length := by
    rw [hbelow.nHeight_eq, hgenesis.tip]
    exact Nat.zero_add _
  have hheight' := h.after.nHeight_eq
  unfold SnapshotEnv.dailySnapshot at hm
  dsimp only at hm
  rw [hundo] at hm
  split at hm
  · cases hm
  · split at hm
    · cases hm
    · obtain ⟨m', hm', heq⟩ := Option.map_eq_some_iff.1 hm
      obtain rfl := Option.some.inj heq
      have hcount : ((s'.tip.nHeight : Int) - s.tip.nHeight).toNat = above.length := by omega
      rw [hcount] at hm'
      refine SnapshotEnv.undoBlocks_eq (genesis :: below) [] ?_ ?_ hm'
      · rw [List.append_nil]
        exact h.loaded
      · rw [List.length_append, List.length_cons]
        omega

/-- So they are if all that the blocks above create or spend is treated alike. -/
theorem undoesExactly_of_alike (h : SnapshotChain env e genesis below above s s')
    {entries entries' : List (CAddressUnspentKey × CAddressUnspentValue)}
    (hentries : Iterates entries s.db.addressUnspentIndex)
    (hentries' : Iterates entries' s'.db.addressUnspentIndex)
    (halike : ∀ tx ∈ transactions above, e.AlikeTx tx) (address : String) :
    e.UndoesExactly below above address := by
  obtain ⟨-, -, hsteady, -⟩ := h.balances hentries hentries'
  have hchanges : e.receivedChanges address above = e.countedChanges address above :=
    List.flatMap_congr fun tx htx => ((halike tx htx).changes_eq address).symm
  refine ⟨?_, fun n _ => ?_, Or.inl ?_⟩
  · rw [hchanges]
    exact le_refl _
  · rw [hchanges]
    exact (hsteady address).take_nonneg n
  · rw [hchanges]
    rfl

end SnapshotChain

/-! ## A reward that is spent -/

namespace RewardChain

open SampleChain

/-- The sample chain with scripts that do not spend tombstones. -/
def checkedEnv : ConnectEnv :=
  { env with
    checks := { env.checks with
      contextualCheckInputs := fun v tx _ => tx.vin.all fun input =>
        v.getOutputFor input != some CCoinsViewCache.tombstone } }

theorem keepsTombstones : checkedEnv.checks.KeepsTombstones := by
  intro v tx pindex h input hinput
  have hall := List.all_eq_true.1 h input hinput
  exact bne_iff_ne.1 hall

/-- A coinbase that pays to a script. -/
def reward (script : CScript) : CTransaction :=
  { coinbase 0x11 with vout := [{ nValue := 300000000, scriptPubKey := script }] }

/-- The block with this coinbase. -/
def rewardBlock (script : CScript) : CBlock := blockOf 7 Payment.seven_ne_null [reward script]

/-- The script for the secp256k1 condition of the test vectors. -/
def condition : CScript :=
  [0x29, 0xa5, 0x27, 0x80, 0x20, 0x9c, 0x28, 0x50, 0xf5, 0x14, 0x7e, 0x99, 0x03, 0xdd, 0x31, 0x7c,
    0x65, 0x0a, 0xc1, 0xd6, 0xe8, 0x0e, 0x69, 0x52, 0x80, 0x78, 0x98, 0x87, 0xf2, 0xe3, 0x17,
    0x9e, 0x5c, 0x65, 0xc9, 0xdf, 0x3a, 0x81, 0x03, 0x02, 0x00, 0x00, 0xcc]

/-- The chain whose second block spends the reward, with a snapshot every other block. -/
def snapshots (script : CScript) : SnapshotEnv where
  standard := { hash160 := fun _ => 7, isCryptoConditionsEnabled := true
                mayAcceptCryptoCondition := fun s => s == condition, ccKeys := fun _ => []
                datacarrier := true, nMaxDatacarrierBytes := 8192 }
  keyAddress _ := "R"
  scriptAddress _ := "b"
  fAddressIndex := true
  fTxIndex := true
  mempool _ := none
  readTxIndex hash := (transactions [rewardBlock script, Payment.spendBlock]).find? fun tx =>
    tx.hash = hash
  blockload n := if n < 0 then none
    else [genesis, rewardBlock script, Payment.spendBlock][n.toNat]?
  snapshotInterval := 2
  scanNotarisationsDB _ := none
  notarizedHeight := 1

/-- The state after the genesis block. -/
def start : IndexedState := ⟨db, genesisView, genesisIndex, Payment.emptyIndexes⟩

/-- The state after a further block; the same when it is rejected. -/
def next (ae : AddressEnv) (s : IndexedState) (block : CBlock) : IndexedState :=
  match checkedEnv.connectBlockIndexed ae s.base block s.tip s.cache s.db with
  | some (c, _, db) => ⟨s.base, c, CBlockIndex.ofBlock block (some s.tip), db⟩
  | none => s

theorem connects_next {ae : AddressEnv} {s : IndexedState} {block : CBlock}
    (h : (checkedEnv.connectBlockIndexed ae s.base block s.tip s.cache s.db).isSome = true) :
    Connects checkedEnv ae s [block] (next ae s block) := by
  obtain ⟨⟨c, undo, db⟩, hr⟩ := Option.isSome_iff_exists.1 h
  unfold next
  rw [hr]
  exact .connect (.refl s) hr

/-- The state after the reward. -/
def rewarded (script : CScript) : IndexedState :=
  next (snapshots script).addressEnv start (rewardBlock script)

/-- The state after the reward is spent. -/
def spent (script : CScript) : IndexedState :=
  next (snapshots script).addressEnv (rewarded script) Payment.spendBlock

theorem afterGenesis : AfterGenesis checkedEnv genesis start where
  connected := ⟨_, rfl⟩
  base := rfl
  tip := rfl
  index := rfl

/-- Both parts of the chain. -/
theorem snapshotChain (script : CScript)
    (hreward : Connects checkedEnv (snapshots script).addressEnv start [rewardBlock script]
      (rewarded script))
    (hspend : Connects checkedEnv (snapshots script).addressEnv (rewarded script)
      [Payment.spendBlock] (spent script)) :
    SnapshotChain checkedEnv (snapshots script) genesis [rewardBlock script] [Payment.spendBlock]
      (rewarded script) (spent script) where
  before := ⟨start, afterGenesis, hreward⟩
  after := hspend
  keeps := keepsTombstones
  nodup := show ([0x11, 0x31, 0x32] : List Uint256).Nodup by decide
  found := by
    intro tx htx
    have hcases : tx = reward script ∨ tx = coinbase 0x31 ∨ tx = Payment.spend := by
      simpa [transactions, rewardBlock, Payment.spendBlock, blockOf] using htx
    rcases hcases with rfl | rfl | rfl
    · rfl
    · rfl
    · rfl
  loaded := by
    intro n block h
    have hn : ¬ (n : Int) < 0 := by omega
    unfold snapshots at h
    dsimp only at h
    rwa [if_neg hn] at h

/-- The entry of the reward. -/
def entry (script : CScript) (type : Nat) (hash : BitVec 160) :
    CAddressUnspentKey × CAddressUnspentValue :=
  (⟨type, hash, 0x11, 0⟩, ⟨300000000, script, 1⟩)

/-- The reward is the only entry of the index, and is erased with the next block. -/
theorem iterates (script : CScript) (type : Nat) (hash : BitVec 160)
    (hreward : (rewarded script).db.addressUnspentIndex = Function.update (fun _ => none)
      (entry script type hash).1 (some (entry script type hash).2))
    (hspend : (spent script).db.addressUnspentIndex =
      Function.update (rewarded script).db.addressUnspentIndex (entry script type hash).1 none) :
    Iterates [entry script type hash] (rewarded script).db.addressUnspentIndex ∧
      Iterates [] (spent script).db.addressUnspentIndex := by
  rw [hspend, hreward, Function.update_idem, Function.update_eq_self_iff.2 rfl]
  exact ⟨.singleton _ _, .nil⟩

/-- The snapshot after the reward is spent. -/
theorem exists_dailySnapshot (script : CScript) (amount : Int)
    (h : ((snapshots script).dailySnapshot [] 0 (spent script).tip.nHeight).map
      (fun o => o.map fun m => m.balance "R") = some (some amount)) :
    ∃ m, (snapshots script).dailySnapshot [] 0 (spent script).tip.nHeight = some (some m) ∧
      m.balance "R" = amount := by
  obtain ⟨o, ho, hbalance⟩ := Option.map_eq_some_iff.1 h
  obtain ⟨m, rfl, hm⟩ := Option.map_eq_some_iff.1 hbalance
  exact ⟨m, ho, hm⟩

/-- A payment to a script hash. -/
def scriptHash : CScript :=
  [0xa9, 0x14, 5, 0, 0, 0, 0, 0, 0, 0, 0, 0, 0, 0, 0, 0, 0, 0, 0, 0, 0, 0, 0x87]

/-- All that the second block creates and spends is treated alike. -/
theorem alike_spendBlock : ∀ tx ∈ transactions [Payment.spendBlock],
    (snapshots scriptHash).AlikeTx tx := by
  have hplain : ∀ nValue,
      (snapshots scriptHash).Alike { nValue := nValue, scriptPubKey := [0x51] } :=
    fun nValue => SnapshotEnv.alike_of_none rfl rfl
  have hscript : scriptHash = StandardEnv.getScriptForDestination (.scriptID 5) := by
    decide
  have hreward : (snapshots scriptHash).Alike
      { nValue := 300000000, scriptPubKey := scriptHash } :=
    SnapshotEnv.alike_scriptID hscript (by decide)
  intro tx htx
  have hcases : tx = coinbase 0x31 ∨ tx = Payment.spend := by
    simpa [transactions, Payment.spendBlock, blockOf] using htx
  rcases hcases with rfl | rfl
  · refine ⟨fun out hout => ?_, fun hmint => ?_⟩
    · obtain rfl := List.mem_singleton.1 hout
      exact hplain _
    · cases hmint
  · refine ⟨fun out hout => ?_, fun _ input hinput out hspent => ?_⟩
    · obtain rfl := List.mem_singleton.1 hout
      exact hplain _
    · obtain rfl := List.mem_singleton.1 hinput
      obtain rfl : { nValue := 300000000, scriptPubKey := scriptHash } = out :=
        Option.some.inj hspent
      exact hreward

end RewardChain

end IndexChain
