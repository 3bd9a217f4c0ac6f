import IndexChain.Models.Validation.CheckTransaction

/-!
# Connecting a block

`UpdateCoins` and `ConnectBlock` of `main.cpp` on a coins cache, with the undo
data they produce. What `ConnectBlock` tests without touching the coins state
(header, proof of work, scripts, amounts, reward) enters through `BlockChecks`.
The tests that the coins state depends on are written out, including the
exemption of blocks before 2019 from `ContextualCheckBlock`.
-/

namespace IndexChain

open IndexChain.Core

/-- Undo data of a transaction, one entry per input. -/
structure CTxUndo where
  /-- The spent outputs. -/
  vprevout : List CTxInUndo
  deriving DecidableEq, Repr

/-- Undo data of a block, for all transactions but the coinbase. -/
structure CBlockUndo where
  /-- The undo data of the transactions. -/
  vtxundo : List CTxUndo
  /-- The best Sprout anchor before the block. -/
  oldSproutTreeRoot : Uint256
  deriving DecidableEq, Repr

/-- The upgrade heights and the genesis block of a chain. -/
structure ConsensusParams where
  /-- The hash of the genesis block. -/
  hashGenesisBlock : Uint256
  /-- Activation height of Overwinter, `-1` when it never activates. -/
  overwinterHeight : Int
  /-- Activation height of Sapling, `-1` when it never activates. -/
  saplingHeight : Int
  /-- An activation height is positive. -/
  saplingHeight_pos : saplingHeight = -1 ∨ 0 < saplingHeight

/-- `NetworkUpgradeActive` for an upgrade with the given activation height. -/
def networkUpgradeActive (nHeight : Nat) (nActivationHeight : Int) : Bool :=
  nActivationHeight != -1 && decide (nActivationHeight ≤ nHeight)

theorem networkUpgradeActive_mono {h h' : Nat} {a : Int} (hle : h ≤ h')
    (ha : networkUpgradeActive h a = true) : networkUpgradeActive h' a = true := by
  simp only [networkUpgradeActive, Bool.and_eq_true, bne_iff_ne, decide_eq_true_eq] at ha ⊢
  exact ⟨ha.1, by omega⟩

/-- The tests of `ConnectBlock` that do not depend on how the coins are stored. -/
structure BlockChecks where
  /-- The remaining tests of `CheckBlock`. -/
  checkBlock : CBlock → CBlockIndex → Bool
  /-- The remaining tests of `ContextualCheckTransaction` and `ContextualCheckBlock`. -/
  contextualCheckTransaction : CBlock → CTransaction → Nat → Bool
  /-- `ContextualCheckInputs` and the limits on amounts and signature operations. -/
  contextualCheckInputs : CCoinsView → CTransaction → CBlockIndex → Bool
  /-- The coinbase amount. -/
  checkReward : CBlock → CBlockIndex → Bool
  /-- The configuration of the context-free transaction checks. -/
  txEnv : TxCheckEnv

namespace CCoinsViewCache

variable (base : CCoinsView)

/-- Spend the inputs of a transaction in order; `none` when the assertion that the
output is there fails. -/
def spendInputs : List CTxIn → CCoinsViewCache → Option (CCoinsViewCache × List CTxInUndo)
  | [], c => some (c, [])
  | txin :: rest, c => do
    let (coins, undo) ←
      (c.coinsAt base txin.prevout.hash).spendUndo txin.prevout.n.toNat
    let (c, undos) ← spendInputs rest (c.modifyCoins base txin.prevout.hash fun _ => coins)
    return (c, undo :: undos)

/-- Spend what a transaction spends; minting transactions spend no coin. -/
def spendCoins (tx : CTransaction) (c : CCoinsViewCache) :
    Option (CCoinsViewCache × List CTxInUndo) :=
  if tx.isMint then some (c, []) else c.spendInputs base tx.vin

/-- The tombstone output, with script `CScript() << OP_0`. -/
def tombstone : CTxOut := { nValue := 0, scriptPubKey := [0x00] }

/-- Record that the burn transaction of an import has been redeemed. -/
def addImportTombstone (importTx : CTransaction) (c : CCoinsViewCache) (nHeight : Nat) :
    CCoinsViewCache :=
  match importTx.vin with
  | [] => c
  | txin :: _ => c.modifyCoins base txin.prevout.hash fun k =>
      { k with nHeight := nHeight, nVersion := 4, vout := k.vout ++ [tombstone] }

/-- Remove the record of a redeemed burn. -/
def removeImportTombstone (importTx : CTransaction) (c : CCoinsViewCache) : CCoinsViewCache :=
  match importTx.vin with
  | [] => c
  | txin :: _ => c.modifyCoins base txin.prevout.hash fun _ => {}

/-- Whether the burn of an import has been redeemed. -/
def existsImportTombstone (importTx : CTransaction) (c : CCoinsViewCache) : Bool :=
  match importTx.vin with
  | [] => false
  | txin :: _ => c.haveCoins base txin.prevout.hash

/-- Apply a transaction to the coins state. -/
def updateCoins (tx : CTransaction) (c : CCoinsViewCache) (nHeight : Nat) :
    Option (CCoinsViewCache × CTxUndo) := do
  let (c, undo) ← c.spendCoins base tx
  let c := c.setNullifiers tx true
  let c := c.modifyCoins base tx.hash fun _ => CCoins.fromTx tx nHeight
  return (if tx.isCoinImport then addImportTombstone base tx c nHeight else c, ⟨undo⟩)

end CCoinsViewCache

namespace CCoinsView

variable (P : TreeHashes)

/-- The JoinSplits of a transaction: nullifiers unspent, and each anchor known or
produced by an earlier JoinSplit of the transaction. -/
def joinSplitsOk (v : CCoinsView) : List (Uint256 × MerkleTree) → List JSDescription → Bool
  | _, [] => true
  | intermediates, js :: rest =>
    if js.nullifiers.toList.any (v.getNullifier .sprout) then false
    else
      let tree := match intermediates.find? fun e => e.1 == js.anchor with
        | some e => some e.2
        | none => v.getAnchorAt .sprout js.anchor
      match tree.bind fun t => js.commitments.toList.foldlM (P.append .sprout) t with
      | none => false
      | some t => joinSplitsOk v (intermediates ++ [(P.root .sprout t, t)]) rest

/-- `HaveJoinSplitRequirements`. -/
def haveJoinSplitRequirements (v : CCoinsView) (tx : CTransaction) : Bool :=
  v.joinSplitsOk P [] tx.vjoinsplit &&
    tx.vShieldedSpend.all fun s =>
      !v.getNullifier .sapling s.nullifier && (v.getAnchorAt .sapling s.anchor).isSome

end CCoinsView

/-- The version rules of `ContextualCheckTransaction`. -/
def contextualCheckVersion (params : ConsensusParams) (tx : CTransaction) (nHeight : Nat) : Bool :=
  let overwinterActive := networkUpgradeActive nHeight params.overwinterHeight
  let saplingActive := networkUpgradeActive nHeight params.saplingHeight
  !(!overwinterActive && tx.fOverwintered) &&
  (if saplingActive then
    !(decide (4 ≤ tx.nVersion) && !tx.fOverwintered) &&
    !(tx.fOverwintered && tx.nVersionGroupId != saplingVersionGroupId) &&
    !(tx.fOverwintered && decide (tx.nVersion < 4)) &&
    !(tx.fOverwintered && decide (4 < tx.nVersion))
  else if overwinterActive then
    !(decide (3 ≤ tx.nVersion) && !tx.fOverwintered) &&
    !(tx.fOverwintered && tx.nVersionGroupId != overwinterVersionGroupId) &&
    !(tx.fOverwintered && decide (3 < tx.nVersion))
  else true) &&
  (!overwinterActive || tx.fOverwintered)

/-- What the transaction loop of `ConnectBlock` carries along. -/
structure LoopState where
  /-- The coins state. -/
  view : CCoinsViewCache
  /-- The Sprout tree with the commitments seen so far. -/
  sproutTree : MerkleTree
  /-- The Sapling tree with the commitments seen so far. -/
  saplingTree : MerkleTree

/-- Everything `ConnectBlock` reads besides the block and the view. -/
structure ConnectEnv where
  /-- The chain parameters. -/
  params : ConsensusParams
  /-- The commitment tree hashes. -/
  trees : TreeHashes
  /-- The tests outside the coins state. -/
  checks : BlockChecks

namespace ConnectEnv

variable (env : ConnectEnv) (base : CCoinsView)

/-- One iteration of the transaction loop. -/
def connectTx (pindex : CBlockIndex) (tx : CTransaction) (s : LoopState) :
    Option (LoopState × CTxUndo) := do
  let v := s.view.view base
  ensure (tx.isMint || (v.haveInputs tx && v.haveJoinSplitRequirements env.trees tx))
  ensure (tx.isCoinBase || env.checks.contextualCheckInputs v tx pindex)
  let (c, undo) ← s.view.updateCoins base tx pindex.nHeight
  let sproutTree ← (tx.vjoinsplit.flatMap fun js => js.commitments.toList).foldlM
    (env.trees.append .sprout) s.sproutTree
  let saplingTree ← (tx.vShieldedOutput.map OutputDescription.cm).foldlM
    (env.trees.append .sapling) s.saplingTree
  return ({ view := c, sproutTree := sproutTree, saplingTree := saplingTree }, undo)

/-- The transaction loop, with the undo data of every transaction. -/
def connectLoop (pindex : CBlockIndex) :
    List CTransaction → LoopState → Option (LoopState × List CTxUndo)
  | [], s => some (s, [])
  | tx :: rest, s => do
    let (s, undo) ← env.connectTx base pindex tx s
    let (s, undos) ← connectLoop pindex rest s
    return (s, undo :: undos)

/-- `CheckBlock`: the first transaction is the only coinbase, and every
transaction passes the context-free checks. -/
def checkBlock (block : CBlock) (pindex : CBlockIndex) : Bool :=
  env.checks.checkBlock block pindex &&
  (match block.vtx with
    | [] => false
    | tx :: rest => tx.isCoinBase && rest.all fun tx => !tx.isCoinBase) &&
  block.vtx.all fun tx => (env.checks.txEnv.checkTransaction tx).isOk

/-- `ContextualCheckBlock`. -/
def contextualCheckBlock (block : CBlock) (nHeight : Nat) : Bool :=
  block.vtx.all fun tx => contextualCheckVersion env.params tx nHeight &&
    env.checks.contextualCheckTransaction block tx nHeight

/-- No transaction of the block has unspent outputs already (BIP30). -/
def noOverwrites (v : CCoinsView) (block : CBlock) : Bool :=
  block.vtx.all fun tx => match v.getCoins tx.hash with
    | some k => k.isPruned
    | none => true

/-- Blocks up to January 15th 2019 are connected even when the contextual checks fail. -/
def grandfatheredUntil : Nat := 1547510400

/-- `ConnectBlock` on a view, for a block over `pprev`. -/
def connectBlock (block : CBlock) (pprev : Option CBlockIndex) (c : CCoinsViewCache) :
    Option (CCoinsViewCache × CBlockUndo) := do
  let pindex := CBlockIndex.ofBlock block pprev
  let v := c.view base
  ensure (env.checkBlock block pindex)
  ensure (env.contextualCheckBlock block pindex.nHeight ||
    decide (block.nTime ≤ grandfatheredUntil))
  ensure ((match pprev with | none => 0 | some p => p.phashBlock) == v.getBestBlock)
  if block.hash = env.params.hashGenesisBlock then
    ensure pprev.isNone
    return (c.setBestBlock block.hash, { vtxundo := [], oldSproutTreeRoot := 0 })
  else
    -- only the genesis block has no predecessor
    ensure pprev.isSome
    ensure (noOverwrites v block)
    let oldSproutTreeRoot := v.getBestAnchor .sprout
    let sproutTree ← v.getAnchorAt .sprout oldSproutTreeRoot
    ensure (env.trees.root .sprout sproutTree == oldSproutTreeRoot)
    let saplingTree ← v.getAnchorAt .sapling (v.getBestAnchor .sapling)
    let (s, undos) ← env.connectLoop base pindex block.vtx
      { view := c, sproutTree := sproutTree, saplingTree := saplingTree }
    let c := s.view.pushAnchor base env.trees .sprout s.sproutTree
    let c := c.pushAnchor base env.trees .sapling s.saplingTree
    ensure (!networkUpgradeActive pindex.nHeight env.params.saplingHeight ||
      block.hashFinalSaplingRoot == env.trees.root .sapling s.saplingTree)
    ensure (env.checks.checkReward block pindex)
    return (c.setBestBlock block.hash,
      { vtxundo := undos.drop 1, oldSproutTreeRoot := oldSproutTreeRoot })

end ConnectEnv

end IndexChain
