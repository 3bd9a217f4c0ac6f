import IndexChain.Models.Coins.ViewDB

/-!
# Stacks of caches

A node keeps several `CCoinsViewCache` layers over a base view. A lookup that
misses in a layer asks the next one and keeps a copy of the answer, so lookups
change every layer above the one that answered. `Flush` writes the modified
entries of the top layer to the layer below through `BatchWrite` and clears the
top one. `step` runs one operation on the top layer, and `run` a list of them.
-/

namespace IndexChain

/-- The view under the caches: the database, or a view that takes no writes. -/
inductive Bottom where
  | view (v : CCoinsView)
  | db (d : CCoinsViewDB)

/-- What the view under the caches answers. -/
def Bottom.answers (P : TreeHashes) : Bottom → CCoinsView
  | .view v => v
  | .db d => d.view P

/-! ## Lookups through the layers -/

namespace CCoinsViewCache

/-- Insert an entry for a record. -/
def putCoins (c : CCoinsViewCache) (txid : Uint256) (e : CCoinsCacheEntry) : CCoinsViewCache :=
  { c with cacheCoins := Function.update c.cacheCoins txid (some e) }

/-- Insert an entry for a nullifier. -/
def putNullifier (c : CCoinsViewCache) (ty : ShieldedType) (nf : Uint256)
    (e : CNullifiersCacheEntry) : CCoinsViewCache :=
  { c with
    cacheNullifiers := Function.update c.cacheNullifiers ty
      (Function.update (c.cacheNullifiers ty) nf (some e)) }

/-- Insert an entry for an anchor. -/
def putAnchor (c : CCoinsViewCache) (ty : ShieldedType) (rt : Uint256) (e : CAnchorsCacheEntry) :
    CCoinsViewCache :=
  { c with
    cacheAnchors := Function.update c.cacheAnchors ty
      (Function.update (c.cacheAnchors ty) rt (some e)) }

/-- Set the best anchor of a pool. -/
def setHashAnchor (c : CCoinsViewCache) (ty : ShieldedType) (h : Uint256) : CCoinsViewCache :=
  { c with hashAnchor := Function.update c.hashAnchor ty h }

end CCoinsViewCache

namespace Layers

variable (v : CCoinsView)

/-- What a list of layers, the top one first, answers over `v`. -/
def view : List CCoinsViewCache → CCoinsView
  | [] => v
  | c :: lower => c.view (view lower)

/-- `FetchCoins` and `GetCoins`: a record found below is copied, and it is fresh
when it is fully spent. -/
def fetchCoins (txid : Uint256) : List CCoinsViewCache → Option CCoins × List CCoinsViewCache
  | [] => (v.getCoins txid, [])
  | c :: lower =>
    match c.cacheCoins txid with
    | some e => (some e.coins, c :: lower)
    | none =>
      match fetchCoins txid lower with
      | (none, lower) => (none, c :: lower)
      | (some k, lower) =>
        (some k, c.putCoins txid { coins := k, fresh := k.isPruned } :: lower)

/-- `GetNullifier`: the answer is copied in either case. -/
def getNullifier (ty : ShieldedType) (nf : Uint256) :
    List CCoinsViewCache → Bool × List CCoinsViewCache
  | [] => (v.getNullifier ty nf, [])
  | c :: lower =>
    match c.cacheNullifiers ty nf with
    | some e => (e.entered, c :: lower)
    | none =>
      let (tmp, lower) := getNullifier ty nf lower
      (tmp, c.putNullifier ty nf { entered := tmp } :: lower)

/-- `GetSproutAnchorAt` and `GetSaplingAnchorAt`: a tree found below is copied. -/
def getAnchorAt (ty : ShieldedType) (rt : Uint256) :
    List CCoinsViewCache → Option MerkleTree × List CCoinsViewCache
  | [] => (v.getAnchorAt ty rt, [])
  | c :: lower =>
    match c.cacheAnchors ty rt with
    | some e => (if e.entered then some e.tree else none, c :: lower)
    | none =>
      match getAnchorAt ty rt lower with
      | (none, lower) => (none, c :: lower)
      | (some tree, lower) =>
        (some tree, c.putAnchor ty rt { entered := true, tree := tree } :: lower)

/-- `GetBestBlock`: a null hash means that the layer below has not been asked. -/
def getBestBlock : List CCoinsViewCache → Uint256 × List CCoinsViewCache
  | [] => (v.getBestBlock, [])
  | c :: lower =>
    if c.hashBlock = 0 then
      let (h, lower) := getBestBlock lower
      (h, c.setBestBlock h :: lower)
    else (c.hashBlock, c :: lower)

/-- `GetBestAnchor`, which caches in the same way. -/
def getBestAnchor (ty : ShieldedType) : List CCoinsViewCache → Uint256 × List CCoinsViewCache
  | [] => (v.getBestAnchor ty, [])
  | c :: lower =>
    if c.hashAnchor ty = 0 then
      let (h, lower) := getBestAnchor ty lower
      (h, c.setHashAnchor ty h :: lower)
    else (c.hashAnchor ty, c :: lower)

end Layers

/-! ## Writing one cache to another -/

namespace CCoinsViewCache

/-- What `BatchWrite` does to the parent's entry `p` for the child's entry `e`. -/
def mergeCoins : Option CCoinsCacheEntry → Option CCoinsCacheEntry → Option CCoinsCacheEntry
  | some e, none =>
    if e.dirty && !e.coins.isPruned then some { coins := e.coins, dirty := true, fresh := true }
    else none
  | some e, some p =>
    if e.dirty then
      if p.fresh && e.coins.isPruned then none
      else some { p with coins := e.coins, dirty := true }
    else some p
  | none, p => p

/-- `BatchWriteNullifiers`, for one nullifier. -/
def mergeNullifier :
    Option CNullifiersCacheEntry → Option CNullifiersCacheEntry → Option CNullifiersCacheEntry
  | some e, none => if e.dirty then some { entered := e.entered, dirty := true } else none
  | some e, some p =>
    if e.dirty && p.entered != e.entered then some { entered := e.entered, dirty := true }
    else some p
  | none, p => p

/-- `BatchWriteAnchors`, for one root. The tree of an anchor the parent has is kept. -/
def mergeAnchor :
    Option CAnchorsCacheEntry → Option CAnchorsCacheEntry → Option CAnchorsCacheEntry
  | some e, none =>
    if e.dirty then some { entered := e.entered, tree := e.tree, dirty := true } else none
  | some e, some p =>
    if e.dirty && p.entered != e.entered then some { p with entered := e.entered, dirty := true }
    else some p
  | none, p => p

/-- `CCoinsViewCache::BatchWrite`. The hashes of the child are copied as they are. -/
def batchWrite (parent child : CCoinsViewCache) : CCoinsViewCache where
  hashBlock := child.hashBlock
  cacheCoins txid := mergeCoins (child.cacheCoins txid) (parent.cacheCoins txid)
  hashAnchor := child.hashAnchor
  cacheAnchors ty rt := mergeAnchor (child.cacheAnchors ty rt) (parent.cacheAnchors ty rt)
  cacheNullifiers ty nf :=
    mergeNullifier (child.cacheNullifiers ty nf) (parent.cacheNullifiers ty nf)

/-- The assertion inside `BatchWrite`: an unspent record that the parent does not
hold is fresh. -/
def FreshAsserted (parent child : CCoinsViewCache) : Prop :=
  ∀ txid e, child.cacheCoins txid = some e → e.dirty = true → parent.cacheCoins txid = none →
    e.coins.isPruned = false → e.fresh = true

/-- The cache after its entries are written; the hashes stay. -/
def clear (c : CCoinsViewCache) : CCoinsViewCache :=
  { hashBlock := c.hashBlock, hashAnchor := c.hashAnchor }

end CCoinsViewCache

/-! ## Operations on a stack -/

/-- A top layer, the layers under it from the top, and the view at the bottom. -/
structure Stack where
  /-- The layer the operations are applied to. -/
  top : CCoinsViewCache := {}
  /-- The layers below, the nearest first. -/
  lower : List CCoinsViewCache := []
  /-- The view under all layers. -/
  bottom : Bottom

namespace Stack

variable (P : TreeHashes)

/-- What the layers under the top one answer. -/
def base (s : Stack) : CCoinsView :=
  Layers.view (s.bottom.answers P) s.lower

/-- What the stack answers. -/
def view (s : Stack) : CCoinsView :=
  s.top.view (s.base P)

/-- Put back the layers that a lookup returned. -/
def withLayers (s : Stack) : List CCoinsViewCache → Stack
  | [] => s
  | c :: lower => { s with top := c, lower := lower }

/-- `GetCoins` on the top layer, with the state it leaves. -/
def getCoins (s : Stack) (txid : Uint256) : Option CCoins × Stack :=
  (Layers.fetchCoins (s.bottom.answers P) txid (s.top :: s.lower)).map id s.withLayers

/-- `HaveCoins` on the top layer: a record with an output slot is there. -/
def haveCoins (s : Stack) (txid : Uint256) : Bool × Stack :=
  (s.getCoins P txid).map (fun k => k.any fun k => !k.vout.isEmpty) id

/-- `GetNullifier` on the top layer. -/
def getNullifier (s : Stack) (ty : ShieldedType) (nf : Uint256) : Bool × Stack :=
  (Layers.getNullifier (s.bottom.answers P) ty nf (s.top :: s.lower)).map id s.withLayers

/-- `GetSproutAnchorAt` or `GetSaplingAnchorAt` on the top layer. -/
def getAnchorAt (s : Stack) (ty : ShieldedType) (rt : Uint256) : Option MerkleTree × Stack :=
  (Layers.getAnchorAt (s.bottom.answers P) ty rt (s.top :: s.lower)).map id s.withLayers

/-- `GetBestBlock` on the top layer. -/
def getBestBlock (s : Stack) : Uint256 × Stack :=
  (Layers.getBestBlock (s.bottom.answers P) (s.top :: s.lower)).map id s.withLayers

/-- `GetBestAnchor` on the top layer. -/
def getBestAnchor (s : Stack) (ty : ShieldedType) : Uint256 × Stack :=
  (Layers.getBestAnchor (s.bottom.answers P) ty (s.top :: s.lower)).map id s.withLayers

/-- `ModifyCoins`, the modification and the destructor of `CCoinsModifier`. A record
that the top layer does not hold is looked up below, which fills the lower layers. -/
def modifyCoins (s : Stack) (txid : Uint256) (f : CCoins → CCoins) : Stack :=
  { s with
    top := s.top.modifyCoins (s.base P) txid f
    lower := match s.top.cacheCoins txid with
      | some _ => s.lower
      | none => (Layers.fetchCoins (s.bottom.answers P) txid s.lower).2 }

/-- `PushAnchor`, after the lookup of the best anchor. -/
def pushAnchor (s : Stack) (ty : ShieldedType) (tree : MerkleTree) : Stack :=
  let s := (s.getBestAnchor P ty).2
  { s with top := s.top.pushAnchor (s.base P) P ty tree }

/-- `PopAnchor`. The tree of the best anchor is looked up when the root changes. -/
def popAnchor (s : Stack) (newrt : Uint256) (ty : ShieldedType) : Option Stack :=
  let (currentRoot, s) := s.getBestAnchor P ty
  let s := if currentRoot = newrt then s else (s.getAnchorAt P ty currentRoot).2
  (s.top.popAnchor (s.base P) newrt ty).map fun c => { s with top := c }

/-- `Flush`; `none` when it returns false, as it does over a view that takes no writes. -/
def flush (s : Stack) : Option Stack :=
  match s.lower, s.bottom with
  | p :: lower, _ => some { s with top := s.top.clear, lower := p.batchWrite s.top :: lower }
  | [], .db d => some { s with top := s.top.clear, bottom := .db (d.batchWrite P s.top) }
  | [], .view _ => none

end Stack

/-- The operations on a stack of caches. -/
inductive CacheOp where
  /-- `FetchCoins`, `AccessCoins`, `GetCoins` or `HaveCoins`. -/
  | fetchCoins (txid : Uint256)
  | getNullifier (ty : ShieldedType) (nf : Uint256)
  | getAnchorAt (ty : ShieldedType) (rt : Uint256)
  | getBestBlock
  | getBestAnchor (ty : ShieldedType)
  | modifyCoins (txid : Uint256) (f : CCoins → CCoins)
  | setNullifiers (tx : CTransaction) (spent : Bool)
  | setBestBlock (hashBlock : Uint256)
  | pushAnchor (ty : ShieldedType) (tree : MerkleTree)
  | popAnchor (newrt : Uint256) (ty : ShieldedType)
  | flush
  /-- Build a new cache on top. -/
  | push
  /-- Drop the top cache, which discards what it has not flushed. -/
  | pop

namespace Stack

variable (P : TreeHashes)

/-- One operation; `none` when it fails. -/
def step (s : Stack) : CacheOp → Option Stack
  | .fetchCoins txid => some (s.getCoins P txid).2
  | .getNullifier ty nf => some (s.getNullifier P ty nf).2
  | .getAnchorAt ty rt => some (s.getAnchorAt P ty rt).2
  | .getBestBlock => some (s.getBestBlock P).2
  | .getBestAnchor ty => some (s.getBestAnchor P ty).2
  | .modifyCoins txid f => some (s.modifyCoins P txid f)
  | .setNullifiers tx spent => some { s with top := s.top.setNullifiers tx spent }
  | .setBestBlock hashBlock => some { s with top := s.top.setBestBlock hashBlock }
  | .pushAnchor ty tree => some (s.pushAnchor P ty tree)
  | .popAnchor newrt ty => s.popAnchor P newrt ty
  | .flush => s.flush P
  | .push => some { s with top := {}, lower := s.top :: s.lower }
  | .pop => match s.lower with
    | p :: lower => some { s with top := p, lower := lower }
    | [] => none

/-- A list of operations, one after another. -/
def run (s : Stack) : List CacheOp → Option Stack
  | [] => some s
  | op :: ops => (s.step P op).bind fun s => s.run ops

end Stack

end IndexChain
