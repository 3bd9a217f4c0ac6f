import IndexChain.Models.Coins.CCoins
import IndexChain.Models.Zcash.IncrementalMerkleTree
import Mathlib.Logic.Function.Basic

/-!
# Coins views and caches

A coins view is what it answers (`CCoinsView`). A `CCoinsViewCache` layers
modified and fetched entries over a base view. A lookup that misses copies the
base's answer into the cache in the source; the copy is not observable and is
left out here, so lookups are functions. `CacheWf` is the invariant of the
`FRESH` flag, under which modifying an entry acts on the contents of the view as
a point update (`contents_modifyCoins`).
-/

namespace IndexChain

/-- The two shielded pools. -/
inductive ShieldedType where
  | sprout
  | sapling
  deriving DecidableEq, Repr

/-- A stored commitment tree of either pool. -/
abbrev MerkleTree := IncrementalMerkleTree Uint256

/-- The depth of the commitment tree of a pool. -/
def treeDepth : ShieldedType → Nat
  | .sprout => 29
  | .sapling => 32

/-- The node hashes of the two pools' trees. -/
structure TreeHashes where
  /-- The node hash of a pool. -/
  hash : ShieldedType → TreeHash Uint256

namespace TreeHashes

/-- The root of a pool's tree. -/
def root (P : TreeHashes) (ty : ShieldedType) (t : MerkleTree) : Uint256 :=
  IncrementalMerkleTree.root (P.hash ty) (treeDepth ty) t

/-- The root of a pool's empty tree. -/
def emptyRoot (P : TreeHashes) (ty : ShieldedType) : Uint256 :=
  IncrementalMerkleTree.emptyRootAt (P.hash ty) (treeDepth ty)

/-- Append a commitment to a pool's tree. -/
def append (P : TreeHashes) (ty : ShieldedType) (t : MerkleTree) (cm : Uint256) :
    Option MerkleTree :=
  IncrementalMerkleTree.append (P.hash ty) (treeDepth ty) t cm

theorem root_empty (P : TreeHashes) (ty : ShieldedType) : P.root ty {} = P.emptyRoot ty :=
  IncrementalMerkleTree.root_empty _ (by cases ty <;> decide)

end TreeHashes

/-- The answers of a view of the chain state. -/
structure CCoinsView where
  /-- The unspent outputs of a transaction. -/
  getCoins : Uint256 → Option CCoins
  /-- Whether a nullifier is spent. -/
  getNullifier : ShieldedType → Uint256 → Bool
  /-- The tree with a given root. -/
  getAnchorAt : ShieldedType → Uint256 → Option MerkleTree
  /-- The root of the latest tree. -/
  getBestAnchor : ShieldedType → Uint256
  /-- The block this state belongs to. -/
  getBestBlock : Uint256

/-- A cached record and its flags. -/
structure CCoinsCacheEntry where
  /-- The record. -/
  coins : CCoins
  /-- The record may differ from the base's. -/
  dirty : Bool := false
  /-- The base has no record here, or a fully spent one. -/
  fresh : Bool := false
  deriving DecidableEq, Repr

/-- The entry after a modification: trimmed, and erased when fresh and fully spent. -/
def CCoinsCacheEntry.modify (e : CCoinsCacheEntry) (f : CCoins → CCoins) :
    Option CCoinsCacheEntry :=
  let coins := (f e.coins).cleanup
  if e.fresh && coins.isPruned then none
  else some { coins := coins, dirty := true, fresh := e.fresh }

/-- A cached tree; `entered` is false once the anchor is removed. -/
structure CAnchorsCacheEntry where
  /-- Whether the anchor is present. -/
  entered : Bool := false
  /-- The tree. -/
  tree : MerkleTree := {}
  /-- The entry may differ from the base's. -/
  dirty : Bool := false
  deriving DecidableEq, Repr

/-- A cached nullifier. -/
structure CNullifiersCacheEntry where
  /-- Whether the nullifier is spent. -/
  entered : Bool := false
  /-- The entry may differ from the base's. -/
  dirty : Bool := false
  deriving DecidableEq, Repr

/-- The contents of a cache; a null hash means "ask the base". -/
structure CCoinsViewCache where
  /-- The best block. -/
  hashBlock : Uint256 := 0
  /-- The cached records. -/
  cacheCoins : Uint256 → Option CCoinsCacheEntry := fun _ => none
  /-- The best anchor of each pool. -/
  hashAnchor : ShieldedType → Uint256 := fun _ => 0
  /-- The cached anchors of each pool. -/
  cacheAnchors : ShieldedType → Uint256 → Option CAnchorsCacheEntry := fun _ _ => none
  /-- The cached nullifiers of each pool. -/
  cacheNullifiers : ShieldedType → Uint256 → Option CNullifiersCacheEntry := fun _ _ => none

/-- The nullifiers a transaction reveals in a pool. -/
def CTransaction.nullifiers (tx : CTransaction) : ShieldedType → List Uint256
  | .sprout => tx.vjoinsplit.flatMap fun js => js.nullifiers.toList
  | .sapling => tx.vShieldedSpend.map SpendDescription.nullifier

namespace CCoinsViewCache

variable (base : CCoinsView)

/-- What the cache over `base` answers. -/
def view (c : CCoinsViewCache) : CCoinsView where
  getCoins txid := match c.cacheCoins txid with
    | some e => some e.coins
    | none => base.getCoins txid
  getNullifier ty nf := match c.cacheNullifiers ty nf with
    | some e => e.entered
    | none => base.getNullifier ty nf
  getAnchorAt ty rt := match c.cacheAnchors ty rt with
    | some e => if e.entered then some e.tree else none
    | none => base.getAnchorAt ty rt
  getBestAnchor ty := if c.hashAnchor ty = 0 then base.getBestAnchor ty else c.hashAnchor ty
  getBestBlock := if c.hashBlock = 0 then base.getBestBlock else c.hashBlock

/-- The entry that `ModifyCoins` opens: the cached one, or one fetched from the base. -/
def entryFor (c : CCoinsViewCache) (txid : Uint256) : CCoinsCacheEntry :=
  match c.cacheCoins txid with
  | some e => e
  | none => match base.getCoins txid with
    | none => { coins := {}, fresh := true }
    | some k => { coins := k, fresh := k.isPruned }

/-- Modify a record through `ModifyCoins`. The `CCoinsModifier` destructor trims it
and erases a fresh entry that is now fully spent. -/
def modifyCoins (c : CCoinsViewCache) (txid : Uint256) (f : CCoins → CCoins) : CCoinsViewCache :=
  { c with cacheCoins := Function.update c.cacheCoins txid (c.entryFor base txid |>.modify f) }

/-- Mark a list of nullifiers of one pool. -/
def markNullifiers (ty : ShieldedType) (spent : Bool) (nfs : List Uint256) (c : CCoinsViewCache) :
    CCoinsViewCache :=
  { c with cacheNullifiers := fun ty' nf =>
      if ty' = ty ∧ nf ∈ nfs then some { entered := spent, dirty := true }
      else c.cacheNullifiers ty' nf }

/-- Mark the nullifiers of a transaction as spent or unspent. -/
def setNullifiers (c : CCoinsViewCache) (tx : CTransaction) (spent : Bool) : CCoinsViewCache :=
  (c.markNullifiers .sprout spent (tx.nullifiers .sprout)).markNullifiers .sapling spent
    (tx.nullifiers .sapling)

/-- Add a tree and make its root the best anchor, unless it already is. -/
def pushAnchor (P : TreeHashes) (ty : ShieldedType) (tree : MerkleTree) (c : CCoinsViewCache) :
    CCoinsViewCache :=
  let newrt := P.root ty tree
  if (c.view base).getBestAnchor ty = newrt then c
  else
    { c with
      cacheAnchors := Function.update c.cacheAnchors ty
        (Function.update (c.cacheAnchors ty) newrt
          (some { entered := true, tree := tree, dirty := true }))
      hashAnchor := Function.update c.hashAnchor ty newrt }

/-- Remove the best anchor and go back to `newrt`; `none` when the assertion that
the best anchor can be found fails. -/
def popAnchor (newrt : Uint256) (ty : ShieldedType) (c : CCoinsViewCache) :
    Option CCoinsViewCache :=
  let currentRoot := (c.view base).getBestAnchor ty
  if currentRoot = newrt then some c
  else match (c.view base).getAnchorAt ty currentRoot with
    | none => none
    | some tree =>
      some { c with
        cacheAnchors := Function.update c.cacheAnchors ty
          (Function.update (c.cacheAnchors ty) currentRoot
            (some { entered := false, tree := tree, dirty := true }))
        hashAnchor := Function.update c.hashAnchor ty newrt }

/-- Move the best block. -/
def setBestBlock (c : CCoinsViewCache) (hashBlock : Uint256) : CCoinsViewCache :=
  { c with hashBlock := hashBlock }

/-- Whether a record with outputs is there. -/
def haveCoins (c : CCoinsViewCache) (txid : Uint256) : Bool :=
  match (c.view base).getCoins txid with
  | some k => !k.vout.isEmpty
  | none => false

end CCoinsViewCache

/-- Whether all inputs of a transaction are unspent in a view. -/
def CCoinsView.haveInputs (v : CCoinsView) (tx : CTransaction) : Bool :=
  tx.isMint || tx.vin.all fun txin =>
    match v.getCoins txin.prevout.hash with
    | some k => k.isAvailable txin.prevout.n.toNat
    | none => false

namespace CCoinsViewCache

variable {base : CCoinsView}

/-! ## Contents of a cache -/

variable (base) in
/-- The record a modification of `txid` starts from. -/
def coinsAt (c : CCoinsViewCache) (txid : Uint256) : CCoins :=
  (c.entryFor base txid).coins

variable (base) in
/-- The content of every record of the view. -/
def contents (c : CCoinsViewCache) (txid : Uint256) : CCoins :=
  (c.coinsAt base txid).live

variable (base) in
/-- The invariant of the `FRESH` flag. -/
structure CacheWf (c : CCoinsViewCache) : Prop where
  /-- Under a fresh entry the base has nothing unspent. -/
  fresh : ∀ txid e, c.cacheCoins txid = some e → e.fresh = true →
    ∀ k, base.getCoins txid = some k → k.isPruned = true
  /-- An entry that is not fresh comes from the base. -/
  known : ∀ txid e, c.cacheCoins txid = some e → e.fresh = false →
    (base.getCoins txid).isSome = true
  /-- A fresh entry that the base lacks altogether is erased when it is spent. -/
  kept : ∀ txid e, c.cacheCoins txid = some e → e.fresh = true → base.getCoins txid = none →
    e.coins.isPruned = false

theorem CacheWf.empty : CacheWf base {} where
  fresh := by intro txid e h; cases h
  known := by intro txid e h; cases h
  kept := by intro txid e h; cases h

variable (base) in
theorem getCoins_getD (c : CCoinsViewCache) (txid : Uint256) :
    ((c.view base).getCoins txid).getD {} = c.coinsAt base txid := by
  unfold coinsAt entryFor view
  dsimp only
  cases c.cacheCoins txid with
  | some e => rfl
  | none => cases base.getCoins txid <;> rfl

/-- A fresh entry, cached or about to be fetched, has nothing unspent below it. -/
theorem CacheWf.entryFor_fresh {c : CCoinsViewCache} (h : CacheWf base c) {txid : Uint256}
    (hf : (c.entryFor base txid).fresh = true) {k : CCoins} (hk : base.getCoins txid = some k) :
    k.isPruned = true := by
  unfold entryFor at hf
  cases he : c.cacheCoins txid with
  | some e =>
    rw [he] at hf
    exact h.fresh txid e he hf k hk
  | none =>
    rw [he, hk] at hf
    exact hf

theorem CacheWf.entryFor_known {c : CCoinsViewCache} (h : CacheWf base c) {txid : Uint256}
    (hf : (c.entryFor base txid).fresh = false) : (base.getCoins txid).isSome = true := by
  unfold entryFor at hf
  cases he : c.cacheCoins txid with
  | some e =>
    rw [he] at hf
    exact h.known txid e he hf
  | none =>
    rw [he] at hf
    cases hk : base.getCoins txid with
    | none =>
      rw [hk] at hf
      cases hf
    | some k => rfl

/-- The entry left by a modification. -/
theorem modify_eq_some {e e' : CCoinsCacheEntry} {f : CCoins → CCoins}
    (h : e.modify f = some e') :
    e'.coins = (f e.coins).cleanup ∧ e'.fresh = e.fresh ∧
      (e.fresh = true → e'.coins.isPruned = false) := by
  unfold CCoinsCacheEntry.modify at h
  dsimp only at h
  split at h
  · cases h
  · rename_i her
    cases h
    refine ⟨rfl, rfl, fun hf => ?_⟩
    rw [hf, Bool.true_and, Bool.not_eq_true] at her
    exact her

/-- A modified entry is dirty. -/
theorem dirty_of_modify {e e' : CCoinsCacheEntry} {f : CCoins → CCoins}
    (h : e.modify f = some e') : e'.dirty = true := by
  unfold CCoinsCacheEntry.modify at h
  dsimp only at h
  split at h
  · cases h
  · cases h
    rfl

/-- An entry is erased only when it is fresh and its new content is spent. -/
theorem modify_eq_none {e : CCoinsCacheEntry} {f : CCoins → CCoins} (h : e.modify f = none) :
    e.fresh = true ∧ (f e.coins).cleanup.isPruned = true := by
  unfold CCoinsCacheEntry.modify at h
  dsimp only at h
  split at h
  · rename_i her
    exact Bool.and_eq_true_iff.1 her
  · cases h

/-- On contents, modifying a record is a point update. -/
theorem contents_modifyCoins {c : CCoinsViewCache} (h : CacheWf base c) (txid : Uint256)
    (f : CCoins → CCoins) :
    (c.modifyCoins base txid f).contents base =
      Function.update (c.contents base) txid (f (c.coinsAt base txid)).cleanup.live := by
  funext id
  unfold contents coinsAt
  by_cases hid : id = txid
  · subst hid
    rw [Function.update_self, entryFor, CCoinsViewCache.modifyCoins]
    simp only [Function.update_self]
    cases hm : (c.entryFor base id).modify f with
    | some e => rw [(modify_eq_some hm).1]
    | none =>
      -- the entry is erased: what shows through is spent as well
      obtain ⟨hf, hpr⟩ := modify_eq_none hm
      rw [CCoins.live_of_isPruned hpr]
      cases hk : base.getCoins id with
      | none => rfl
      | some k => exact CCoins.live_of_isPruned (h.entryFor_fresh hf hk)
  · rw [Function.update_of_ne hid]
    simp only [entryFor, CCoinsViewCache.modifyCoins, Function.update_of_ne hid]

/-- `ModifyCoins` keeps the flags right. -/
theorem CacheWf.modifyCoins {c : CCoinsViewCache} (h : CacheWf base c) (txid : Uint256)
    (f : CCoins → CCoins) : CacheWf base (c.modifyCoins base txid f) := by
  have key : ∀ id e, (c.modifyCoins base txid f).cacheCoins id = some e →
      c.cacheCoins id = some e ∨ (id = txid ∧ e.fresh = (c.entryFor base txid).fresh ∧
        (e.fresh = true → e.coins.isPruned = false)) := by
    intro id e he
    by_cases hid : id = txid
    · subst hid
      simp only [CCoinsViewCache.modifyCoins, Function.update_self] at he
      obtain ⟨-, hf, hpr⟩ := modify_eq_some he
      exact Or.inr ⟨rfl, hf, hf ▸ hpr⟩
    · simp only [CCoinsViewCache.modifyCoins, Function.update_of_ne hid] at he
      exact Or.inl he
  refine ⟨?_, ?_, ?_⟩
  · intro id e he hf k hk
    rcases key id e he with hc | ⟨rfl, hfe, -⟩
    · exact h.fresh id e hc hf k hk
    · exact h.entryFor_fresh (hfe ▸ hf) hk
  · intro id e he hf
    rcases key id e he with hc | ⟨rfl, hfe, -⟩
    · exact h.known id e hc hf
    · exact h.entryFor_known (hfe ▸ hf)
  · intro id e he hf hk
    rcases key id e he with hc | ⟨-, -, hpr⟩
    · exact h.kept id e hc hf hk
    · exact hpr hf

/-- Under the invariant, whether a lookup finds a record depends on contents only. -/
theorem CacheWf.isSome_iff {c : CCoinsViewCache} (h : CacheWf base c) (txid : Uint256) :
    ((c.view base).getCoins txid).isSome = true ↔
      (base.getCoins txid).isSome = true ∨ (c.contents base txid).isPruned = false := by
  unfold contents coinsAt entryFor view
  rw [CCoins.isPruned_live]
  dsimp only
  cases he : c.cacheCoins txid with
  | some e =>
    simp only [Option.isSome_some, true_iff]
    cases hf : e.fresh with
    | false => exact Or.inl (h.known txid e he hf)
    | true =>
      cases hk : base.getCoins txid with
      | some k => exact Or.inl rfl
      | none => exact Or.inr (h.kept txid e he hf hk)
  | none => cases hk : base.getCoins txid <;> simp [CCoins.isPruned]

end CCoinsViewCache

/-- Two lookups agree: both miss, or they find records that the source's equality
identifies. -/
def sameCoins : Option CCoins → Option CCoins → Bool
  | none, none => true
  | some a, some b => a.beq b
  | _, _ => false

/-- Caches over one base with the same contents answer every lookup alike. -/
theorem sameCoins_of_contents {base : CCoinsView} {c d : CCoinsViewCache}
    (hc : c.CacheWf base) (hd : d.CacheWf base) {txid : Uint256}
    (heq : c.contents base txid = d.contents base txid) :
    sameCoins ((c.view base).getCoins txid) ((d.view base).getCoins txid) = true := by
  have hc' := hc.isSome_iff txid
  have hd' := hd.isSome_iff txid
  rw [heq, ← hd'] at hc'
  have hca := CCoinsViewCache.getCoins_getD base c txid
  have hda := CCoinsViewCache.getCoins_getD base d txid
  unfold CCoinsViewCache.contents at heq
  rw [← hca, ← hda] at heq
  cases h1 : (c.view base).getCoins txid with
  | none =>
    cases h2 : (d.view base).getCoins txid with
    | none => rfl
    | some b => simp [h1, h2] at hc'
  | some a =>
    cases h2 : (d.view base).getCoins txid with
    | none => simp [h1, h2] at hc'
    | some b =>
      rw [h1, h2] at heq
      exact (CCoins.beq_iff_live a b).2 heq

end IndexChain
