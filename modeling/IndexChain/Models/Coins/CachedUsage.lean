import IndexChain.Core.Checked
import IndexChain.Core.Tally
import IndexChain.Core.Traces
import IndexChain.Models.Coins.StackRun

/-!
# The memory a cache accounts for

`cachedCoinsUsage` is the running total of the dynamic memory of the cached records
and trees. Every operation that inserts, changes or erases an entry adjusts it by
differences; `CCoinsModifier` keeps the usage its record had when it was opened and
settles it in its destructor. `PushAnchor` replaces the tree of an entry it already
has without an adjustment.

Usages are sums over memory that is allocated, so the additions stay within `size_t`;
a subtraction is checked. What the allocator gives a record is a parameter.
-/

namespace IndexChain

/-- `IncrementalMerkleTree::DynamicMemoryUsage`. -/
def IncrementalMerkleTree.dynamicMemoryUsage {H : Type} (t : IncrementalMerkleTree H) : Nat :=
  32 + 32 + t.parents.length * 32

/-- What ends an operation on a cache. -/
inductive CacheFault where
  /-- An assertion fails. -/
  | assertion
  /-- A modifier is used that is not open, or the entry under an open one is cleared. -/
  | dangling
  /-- A subtraction from `cachedCoinsUsage` wraps around. -/
  | underflow
  deriving DecidableEq, Repr

/-- A cache with its running total. -/
structure UsageCache where
  /-- The entries and hashes. -/
  cache : CCoinsViewCache := {}
  /-- The running total. -/
  cachedCoinsUsage : Nat := 0
  /-- The record under the open `CCoinsModifier`, and the usage it had before. -/
  modifier : Option (Uint256 × Nat) := none

/-- The maps of a child cache that `BatchWrite` goes through, in the order of iteration. -/
structure CacheMaps where
  /-- `mapCoins`. -/
  mapCoins : List (Uint256 × CCoinsCacheEntry) := []
  /-- The best block. -/
  hashBlock : Uint256 := 0
  /-- The best anchors. -/
  hashAnchor : ShieldedType → Uint256 := fun _ => 0
  /-- `mapSproutAnchors` and `mapSaplingAnchors`. -/
  mapAnchors : ShieldedType → List (Uint256 × CAnchorsCacheEntry) := fun _ => []
  /-- `mapSproutNullifiers` and `mapSaplingNullifiers`. -/
  mapNullifiers : ShieldedType → List (Uint256 × CNullifiersCacheEntry) := fun _ => []

/-- The operations on a cache. -/
inductive UsageOp where
  /-- `FetchCoins`, `AccessCoins`, `GetCoins` or `HaveCoins`. -/
  | fetchCoins (txid : Uint256)
  | getAnchorAt (ty : ShieldedType) (rt : Uint256)
  | getBestAnchor (ty : ShieldedType)
  | getNullifier (ty : ShieldedType) (nf : Uint256)
  | getBestBlock
  | setBestBlock (hashBlock : Uint256)
  | setNullifiers (tx : CTransaction) (spent : Bool)
  /-- `ModifyCoins`, which opens a modifier. -/
  | modifyCoins (txid : Uint256)
  /-- Any change through the open modifier. -/
  | modify (f : CCoins → CCoins)
  /-- The destructor of the open modifier. -/
  | closeModifier
  | pushAnchor (ty : ShieldedType) (tree : MerkleTree)
  | popAnchor (newrt : Uint256) (ty : ShieldedType)
  /-- `BatchWrite` from a child. -/
  | batchWrite (child : CacheMaps)
  | flush

namespace UsageCache

/-- Remove an entry for a record. -/
def eraseCoins (c : CCoinsViewCache) (txid : Uint256) : CCoinsViewCache :=
  { c with cacheCoins := Function.update c.cacheCoins txid none }

/-- Subtract from the running total. -/
def subUsage (m : UsageCache) (n : Nat) : Except CacheFault UsageCache :=
  if n ≤ m.cachedCoinsUsage then .ok { m with cachedCoinsUsage := m.cachedCoinsUsage - n }
  else .error .underflow

section Operations

variable (usage : CCoins → Nat) (P : TreeHashes) (base : CCoinsView)

/-- `FetchCoins`. -/
def fetchCoins (txid : Uint256) (m : UsageCache) : UsageCache :=
  match m.cache.cacheCoins txid with
  | some _ => m
  | none => match base.getCoins txid with
    | none => m
    | some k =>
      { m with
        cache := m.cache.putCoins txid { coins := k, fresh := k.isPruned }
        cachedCoinsUsage := m.cachedCoinsUsage + usage k }

/-- `GetSproutAnchorAt` and `GetSaplingAnchorAt`, with the cache they leave. -/
def getAnchorAt (ty : ShieldedType) (rt : Uint256) (m : UsageCache) :
    Option MerkleTree × UsageCache :=
  match m.cache.cacheAnchors ty rt with
  | some e => (if e.entered then some e.tree else none, m)
  | none => match base.getAnchorAt ty rt with
    | none => (none, m)
    | some tree =>
      (some tree,
        { m with
          cache := m.cache.putAnchor ty rt { entered := true, tree := tree }
          cachedCoinsUsage := m.cachedCoinsUsage + tree.dynamicMemoryUsage })

/-- `GetBestAnchor`, with the cache it leaves. -/
def getBestAnchor (ty : ShieldedType) (m : UsageCache) : Uint256 × UsageCache :=
  if m.cache.hashAnchor ty = 0 then
    (base.getBestAnchor ty,
      { m with cache := m.cache.setHashAnchor ty (base.getBestAnchor ty) })
  else (m.cache.hashAnchor ty, m)

/-- `GetNullifier`: the answer of the base is copied in either case. -/
def getNullifier (ty : ShieldedType) (nf : Uint256) (m : UsageCache) : UsageCache :=
  match m.cache.cacheNullifiers ty nf with
  | some _ => m
  | none =>
    { m with cache := m.cache.putNullifier ty nf { entered := base.getNullifier ty nf } }

/-- `GetBestBlock`. -/
def getBestBlock (m : UsageCache) : UsageCache :=
  if m.cache.hashBlock = 0 then
    { m with cache := m.cache.setBestBlock base.getBestBlock }
  else m

/-- `ModifyCoins`. An entry that is inserted counts from the destructor on. -/
def modifyCoins (txid : Uint256) (m : UsageCache) : Except CacheFault UsageCache :=
  match m.modifier with
  | some _ => .error .assertion
  | none =>
    .ok { m with
      cache := m.cache.putCoins txid { m.cache.entryFor base txid with dirty := true }
      modifier := some (txid, (m.cache.cacheCoins txid).elim 0 fun e => usage e.coins) }

/-- Change the record under the open modifier. -/
def modify (f : CCoins → CCoins) (m : UsageCache) : Except CacheFault UsageCache :=
  match m.modifier with
  | none => .error .dangling
  | some (txid, _) => match m.cache.cacheCoins txid with
    | none => .error .dangling
    | some e => .ok { m with cache := m.cache.putCoins txid { e with coins := f e.coins } }

/-- `CCoinsModifier::~CCoinsModifier`. -/
def closeModifier (m : UsageCache) : Except CacheFault UsageCache :=
  match m.modifier with
  | none => .error .dangling
  | some (txid, cachedCoinUsage) => match m.cache.cacheCoins txid with
    | none => .error .dangling
    | some e => do
      let coins := e.coins.cleanup
      let m ← subUsage { m with modifier := none } cachedCoinUsage
      if e.fresh && coins.isPruned then .ok { m with cache := eraseCoins m.cache txid }
      else
        .ok { m with
          cache := m.cache.putCoins txid { e with coins := coins }
          cachedCoinsUsage := m.cachedCoinsUsage + usage coins }

/-- `AbstractPushAnchor`. -/
def pushAnchor (ty : ShieldedType) (tree : MerkleTree) (m : UsageCache) : UsageCache :=
  let newrt := P.root ty tree
  let (currentRoot, m) := m.getBestAnchor base ty
  if currentRoot = newrt then m
  else
    { m with
      cache := (m.cache.putAnchor ty newrt
        { entered := true, tree := tree, dirty := true }).setHashAnchor ty newrt
      -- only an insertion is counted
      cachedCoinsUsage := match m.cache.cacheAnchors ty newrt with
        | some _ => m.cachedCoinsUsage
        | none => m.cachedCoinsUsage + tree.dynamicMemoryUsage }

/-- `AbstractPopAnchor`, with the assertion of `BringBestAnchorIntoCache`. -/
def popAnchor (newrt : Uint256) (ty : ShieldedType) (m : UsageCache) :
    Except CacheFault UsageCache :=
  let (currentRoot, m) := m.getBestAnchor base ty
  if currentRoot = newrt then .ok m
  else match m.getAnchorAt base ty currentRoot with
    | (none, _) => .error .assertion
    | (some tree, m) =>
      .ok { m with
        cache := (m.cache.putAnchor ty currentRoot
          { entered := false, tree := tree, dirty := true }).setHashAnchor ty newrt }

/-- The body of the loop of `BatchWrite` over `mapCoins`. -/
def batchWriteCoins (m : UsageCache) (child : Uint256 × CCoinsCacheEntry) :
    Except CacheFault UsageCache :=
  let (txid, e) := child
  if !e.dirty then .ok m
  else match m.cache.cacheCoins txid with
    | none =>
      if e.coins.isPruned then .ok m
      else if !e.fresh then .error .assertion
      else
        .ok { m with
          cache := m.cache.putCoins txid { coins := e.coins, dirty := true, fresh := true }
          cachedCoinsUsage := m.cachedCoinsUsage + usage e.coins }
    | some p => do
      let m ← m.subUsage (usage p.coins)
      if p.fresh && e.coins.isPruned then .ok { m with cache := eraseCoins m.cache txid }
      else
        .ok { m with
          cache := m.cache.putCoins txid { p with coins := e.coins, dirty := true }
          cachedCoinsUsage := m.cachedCoinsUsage + usage e.coins }

/-- The body of the loop of `BatchWriteAnchors`. -/
def batchWriteAnchors (ty : ShieldedType) (m : UsageCache) (child : Uint256 × CAnchorsCacheEntry) :
    UsageCache :=
  let (rt, e) := child
  if !e.dirty then m
  else match m.cache.cacheAnchors ty rt with
    | none =>
      { m with
        cache := m.cache.putAnchor ty rt { entered := e.entered, tree := e.tree, dirty := true }
        cachedCoinsUsage := m.cachedCoinsUsage + e.tree.dynamicMemoryUsage }
    | some p =>
      if p.entered != e.entered then
        { m with cache := m.cache.putAnchor ty rt { p with entered := e.entered, dirty := true } }
      else m

/-- The body of the loop of `BatchWriteNullifiers`. -/
def batchWriteNullifiers (ty : ShieldedType) (m : UsageCache)
    (child : Uint256 × CNullifiersCacheEntry) : UsageCache :=
  let (nf, e) := child
  if !e.dirty then m
  else match m.cache.cacheNullifiers ty nf with
    | none => { m with cache := m.cache.putNullifier ty nf { entered := e.entered, dirty := true } }
    | some p =>
      if p.entered != e.entered then
        { m with
          cache := m.cache.putNullifier ty nf { p with entered := e.entered, dirty := true } }
      else m

/-- `CCoinsViewCache::BatchWrite`. -/
def batchWrite (child : CacheMaps) (m : UsageCache) : Except CacheFault UsageCache :=
  match m.modifier with
  | some _ => .error .assertion
  | none => do
    let m ← child.mapCoins.foldlM (batchWriteCoins usage) m
    let m := (child.mapAnchors .sprout).foldl (batchWriteAnchors .sprout) m
    let m := (child.mapAnchors .sapling).foldl (batchWriteAnchors .sapling) m
    let m := (child.mapNullifiers .sprout).foldl (batchWriteNullifiers .sprout) m
    let m := (child.mapNullifiers .sapling).foldl (batchWriteNullifiers .sapling) m
    .ok { m with
      cache := { m.cache with
        hashAnchor := child.hashAnchor
        hashBlock := child.hashBlock } }

/-- `Flush`. The entry under an open modifier would be gone. -/
def flush (m : UsageCache) : Except CacheFault UsageCache :=
  match m.modifier with
  | some _ => .error .dangling
  | none => .ok { cache := m.cache.clear }

/-- One operation over a base that answers as `base`. -/
def step (m : UsageCache) : UsageOp → Except CacheFault UsageCache
  | .fetchCoins txid => .ok (m.fetchCoins usage base txid)
  | .getAnchorAt ty rt => .ok (m.getAnchorAt base ty rt).2
  | .getBestAnchor ty => .ok (m.getBestAnchor base ty).2
  | .getNullifier ty nf => .ok (m.getNullifier base ty nf)
  | .getBestBlock => .ok (m.getBestBlock base)
  | .setBestBlock hashBlock => .ok { m with cache := m.cache.setBestBlock hashBlock }
  | .setNullifiers tx spent => .ok { m with cache := m.cache.setNullifiers tx spent }
  | .modifyCoins txid => m.modifyCoins usage base txid
  | .modify f => m.modify f
  | .closeModifier => m.closeModifier usage
  | .pushAnchor ty tree => .ok (m.pushAnchor P base ty tree)
  | .popAnchor newrt ty => m.popAnchor base newrt ty
  | .batchWrite child => m.batchWrite usage child
  | .flush => m.flush

end Operations

/-- A list of operations. The base is other code's: what it answers may change from
one operation to the next. -/
def run (usage : CCoins → Nat) (P : TreeHashes) (m : UsageCache) :
    List (CCoinsView × UsageOp) → Except CacheFault UsageCache
  | [] => .ok m
  | (base, op) :: ops => m.step usage P base op >>= fun m => m.run usage P ops

/-! ## The sum the total stands for -/

section Sums

variable (usage : CCoins → Nat) (m : UsageCache)

/-- The anchors of both pools as one map. -/
def anchors (m : UsageCache) : ShieldedType × Uint256 → Option CAnchorsCacheEntry :=
  fun p => m.cache.cacheAnchors p.1 p.2

/-- The usage of all cached records. -/
noncomputable def coinsUsage : Nat :=
  Core.tally (fun e => usage e.coins) m.cache.cacheCoins

/-- The usage of all cached trees. -/
noncomputable def anchorsUsage : Nat :=
  Core.tally (fun e => e.tree.dynamicMemoryUsage) m.anchors

/-- The usage of the record under the open modifier. -/
def openUsage : Nat :=
  m.modifier.elim 0 fun o => (m.cache.cacheCoins o.1).elim 0 fun e => usage e.coins

/-- The usage the open modifier will subtract. -/
def savedUsage : Nat :=
  m.modifier.elim 0 fun o => o.2

/-- The running total is the sum. While a modifier is open its record counts with the
usage it had before. -/
def Exact : Prop :=
  m.cachedCoinsUsage + m.openUsage usage = m.coinsUsage usage + m.anchorsUsage + m.savedUsage

/-- The condition under which an operation keeps the total exact: a tree that replaces
one of the same root uses as much memory. -/
def Fits (P : TreeHashes) (base : CCoinsView) : UsageOp → Prop
  | .pushAnchor ty tree =>
    (m.getBestAnchor base ty).1 ≠ P.root ty tree →
      ∀ e, m.cache.cacheAnchors ty (P.root ty tree) = some e →
        e.tree.dynamicMemoryUsage = tree.dynamicMemoryUsage
  | _ => True

end Sums

/-! ## The account of a cache -/

variable {usage : CCoins → Nat} {m m' : UsageCache} {a d : Nat}

/-- What the running total is made of: the records, and the share `a` of the trees. -/
structure Account (usage : CCoins → Nat) (m : UsageCache) (a : Nat) : Prop where
  /-- Finitely many records are cached. -/
  coins : Core.FiniteMap m.cache.cacheCoins
  /-- Finitely many trees are cached. -/
  anchors : Core.FiniteMap m.anchors
  /-- The record under the open modifier is cached. -/
  held : ∀ o, m.modifier = some o → (m.cache.cacheCoins o.1).isSome = true
  /-- The parts of the total. -/
  sum : m.cachedCoinsUsage + m.openUsage usage = m.coinsUsage usage + m.savedUsage + a

theorem Account.empty : Account usage {} 0 where
  coins := Core.FiniteMap.empty
  anchors := Core.FiniteMap.empty
  held := by
    intro o h
    cases h
  sum := by simp [coinsUsage, openUsage, savedUsage]

theorem Account.exact_iff (h : Account usage m a) : m.Exact usage ↔ a = m.anchorsUsage := by
  have hsum := h.sum
  unfold Exact
  omega

/-- Changing the trees adds `d` to their share when it adds `d` to the total. -/
theorem Account.of_anchors (h : Account usage m a)
    (hcoins : m'.cache.cacheCoins = m.cache.cacheCoins) (hmod : m'.modifier = m.modifier)
    (hanchors : Core.FiniteMap m'.anchors)
    (hn : m'.cachedCoinsUsage = m.cachedCoinsUsage + d) : Account usage m' (a + d) where
  coins := by
    rw [hcoins]
    exact h.coins
  anchors := hanchors
  held := by
    rw [hcoins, hmod]
    exact h.held
  sum := by
    have hsum := h.sum
    unfold openUsage coinsUsage savedUsage at *
    rw [hcoins, hmod, hn]
    omega

/-- Changing one record leaves the share of the trees as it is when the total moves with
the usage of the record. -/
theorem Account.of_coins (h : Account usage m a) {txid : Uint256} {o : Option CCoinsCacheEntry}
    (hcoins : m'.cache.cacheCoins = Function.update m.cache.cacheCoins txid o)
    (hanchors : m'.cache.cacheAnchors = m.cache.cacheAnchors)
    (hheld : ∀ o, m'.modifier = some o → (m'.cache.cacheCoins o.1).isSome = true)
    (hn : m'.cachedCoinsUsage + m'.openUsage usage + m.savedUsage +
        (m.cache.cacheCoins txid).elim 0 (fun e => usage e.coins) =
      m.cachedCoinsUsage + m.openUsage usage + m'.savedUsage +
        o.elim 0 (fun e => usage e.coins)) : Account usage m' a where
  coins := by
    rw [hcoins]
    exact h.coins.update txid o
  anchors := by
    have : m'.anchors = m.anchors := by
      unfold UsageCache.anchors
      rw [hanchors]
    rw [this]
    exact h.anchors
  held := hheld
  sum := by
    have hsum := h.sum
    have htally := Core.tally_update (fun e => usage e.coins) h.coins txid o
    unfold coinsUsage at *
    rw [hcoins]
    omega

/-- Without an open modifier the total moves with the usage of the record alone. -/
theorem Account.of_coins_idle (h : Account usage m a) (hmod : m.modifier = none)
    {txid : Uint256} {o : Option CCoinsCacheEntry}
    (hcoins : m'.cache.cacheCoins = Function.update m.cache.cacheCoins txid o)
    (hanchors : m'.cache.cacheAnchors = m.cache.cacheAnchors) (hmod' : m'.modifier = none)
    (hn : m'.cachedCoinsUsage + (m.cache.cacheCoins txid).elim 0 (fun e => usage e.coins) =
      m.cachedCoinsUsage + o.elim 0 (fun e => usage e.coins)) : Account usage m' a := by
  apply h.of_coins hcoins hanchors
  · intro o ho
    rw [hmod'] at ho
    cases ho
  · simp only [openUsage, savedUsage, hmod, hmod', Option.elim_none]
    omega

/-- A cached record is part of the total. -/
theorem Account.usage_le (h : Account usage m a) {txid : Uint256} {e : CCoinsCacheEntry}
    (he : m.cache.cacheCoins txid = some e) : usage e.coins ≤ m.coinsUsage usage := by
  have htally := Core.tally_update (fun e => usage e.coins) h.coins txid none
  rw [he] at htally
  exact le_of_le_of_eq (Nat.le_add_left _ _) htally

theorem anchors_of_putAnchor {ty : ShieldedType} {rt : Uint256} {e : CAnchorsCacheEntry}
    (h : m'.cache.cacheAnchors = (m.cache.putAnchor ty rt e).cacheAnchors) :
    m'.anchors = Function.update m.anchors (ty, rt) (some e) := by
  funext ⟨ty', rt'⟩
  rw [anchors, h]
  by_cases hty : ty' = ty
  · subst hty
    by_cases hrt : rt' = rt
    · subst hrt
      simp [CCoinsViewCache.putAnchor]
    · simp [CCoinsViewCache.putAnchor, hrt, anchors]
  · simp [CCoinsViewCache.putAnchor, hty, anchors]

/-! ## Moves that keep the account -/

/-- From `m` to `m'` the share of the trees stays exact. -/
def Moves (usage : CCoins → Nat) (m m' : UsageCache) : Prop :=
  ∀ a, Account usage m a →
    ∃ a', Account usage m' a' ∧ (a = m.anchorsUsage → a' = m'.anchorsUsage)

theorem Moves.refl : Moves usage m m := fun a h => ⟨a, h, id⟩

theorem Moves.trans {m'' : UsageCache} (h : Moves usage m m') (h' : Moves usage m' m'') :
    Moves usage m m'' := by
  intro a ha
  obtain ⟨a', ha', hto⟩ := h a ha
  obtain ⟨a'', ha'', hto'⟩ := h' a' ha'
  exact ⟨a'', ha'', fun heq => hto' (hto heq)⟩

/-- Only the records, the trees, the total and the modifier count. -/
theorem Moves.frame (hcoins : m'.cache.cacheCoins = m.cache.cacheCoins)
    (hanchors : m'.cache.cacheAnchors = m.cache.cacheAnchors)
    (hn : m'.cachedCoinsUsage = m.cachedCoinsUsage) (hmod : m'.modifier = m.modifier) :
    Moves usage m m' := by
  intro a ha
  have hsame : m'.anchors = m.anchors := by
    unfold UsageCache.anchors
    rw [hanchors]
  refine ⟨a + 0, ha.of_anchors hcoins hmod ?_ hn, fun heq => ?_⟩
  · rw [hsame]
    exact ha.anchors
  · rw [anchorsUsage, hsame]
    exact heq

/-- A tree under a root that had none is counted. -/
theorem Moves.insertAnchor {ty : ShieldedType} {rt : Uint256} {e : CAnchorsCacheEntry}
    (hnone : m.cache.cacheAnchors ty rt = none)
    (hcoins : m'.cache.cacheCoins = m.cache.cacheCoins)
    (hanchors : m'.cache.cacheAnchors = (m.cache.putAnchor ty rt e).cacheAnchors)
    (hn : m'.cachedCoinsUsage = m.cachedCoinsUsage + e.tree.dynamicMemoryUsage)
    (hmod : m'.modifier = m.modifier) : Moves usage m m' := by
  intro a ha
  have hput := anchors_of_putAnchor hanchors
  have hfree : m.anchors (ty, rt) = none := hnone
  refine ⟨a + e.tree.dynamicMemoryUsage, ha.of_anchors hcoins hmod ?_ hn, fun heq => ?_⟩
  · rw [hput]
    exact ha.anchors.update (ty, rt) (some e)
  · rw [anchorsUsage, hput, heq]
    exact (Core.tally_insert _ ha.anchors hfree e).symm

/-- Replacing a tree moves the sum by the difference of the two, and the total not at all. -/
theorem replaceAnchor {ty : ShieldedType} {rt : Uint256} {e p : CAnchorsCacheEntry}
    (hp : m.cache.cacheAnchors ty rt = some p) (hcoins : m'.cache.cacheCoins = m.cache.cacheCoins)
    (hanchors : m'.cache.cacheAnchors = (m.cache.putAnchor ty rt e).cacheAnchors)
    (hn : m'.cachedCoinsUsage = m.cachedCoinsUsage) (hmod : m'.modifier = m.modifier)
    (ha : Account usage m a) :
    Account usage m' a ∧
      m'.anchorsUsage + p.tree.dynamicMemoryUsage =
        m.anchorsUsage + e.tree.dynamicMemoryUsage := by
  have hput := anchors_of_putAnchor hanchors
  have hold : m.anchors (ty, rt) = some p := hp
  constructor
  · apply ha.of_anchors (d := 0) hcoins hmod ?_ hn
    rw [hput]
    exact ha.anchors.update (ty, rt) (some e)
  · have htally := Core.tally_update (fun e : CAnchorsCacheEntry => e.tree.dynamicMemoryUsage)
      ha.anchors (ty, rt) (some e)
    rw [hold] at htally
    unfold anchorsUsage
    rw [hput]
    exact htally

/-- Changing the flags of an anchor leaves its tree counted. -/
theorem Moves.flagAnchor {ty : ShieldedType} {rt : Uint256} {e p : CAnchorsCacheEntry}
    (hp : m.cache.cacheAnchors ty rt = some p) (htree : e.tree = p.tree)
    (hcoins : m'.cache.cacheCoins = m.cache.cacheCoins)
    (hanchors : m'.cache.cacheAnchors = (m.cache.putAnchor ty rt e).cacheAnchors)
    (hn : m'.cachedCoinsUsage = m.cachedCoinsUsage) (hmod : m'.modifier = m.modifier) :
    Moves usage m m' := by
  intro a ha
  obtain ⟨hacc, hsum⟩ := replaceAnchor hp hcoins hanchors hn hmod ha
  rw [htree] at hsum
  exact ⟨a, hacc, fun heq => by omega⟩

/-! ## Operations that keep the account -/

/-- An operation from `m` never wraps the total around, and keeps the account. -/
def Sound (usage : CCoins → Nat) (m : UsageCache) (r : Except CacheFault UsageCache) : Prop :=
  ∀ a, Account usage m a → r ≠ .error .underflow ∧
    ∀ m', r = .ok m' → ∃ a', Account usage m' a' ∧ (a = m.anchorsUsage → a' = m'.anchorsUsage)

theorem Moves.sound (h : Moves usage m m') : Sound usage m (.ok m') := by
  intro a ha
  refine ⟨nofun, fun m'' heq => ?_⟩
  cases heq
  exact h a ha

theorem Sound.error {e : CacheFault} (h : e ≠ .underflow) : Sound usage m (.error e) :=
  fun _ _ => ⟨fun heq => h (Except.error.inj heq), nofun⟩

theorem Sound.bind {r : Except CacheFault UsageCache}
    {k : UsageCache → Except CacheFault UsageCache} (h : Sound usage m r)
    (hk : ∀ m', r = .ok m' → Sound usage m' (k m')) : Sound usage m (r >>= k) := by
  intro a ha
  obtain ⟨hr, hok⟩ := h a ha
  cases r with
  | error e => exact ⟨hr, fun m' heq => nomatch heq⟩
  | ok m₁ =>
    obtain ⟨a₁, ha₁, hto₁⟩ := hok m₁ rfl
    obtain ⟨hne, hok'⟩ := hk m₁ rfl a₁ ha₁
    refine ⟨hne, fun m' heq => ?_⟩
    obtain ⟨a', ha', hto'⟩ := hok' m' heq
    exact ⟨a', ha', fun hex => hto' (hto₁ hex)⟩

theorem sound_subUsage_bind {n : Nat} {k : UsageCache → Except CacheFault UsageCache}
    (hn : ∀ a, Account usage m a → n ≤ m'.cachedCoinsUsage)
    (hk : n ≤ m'.cachedCoinsUsage →
      Sound usage m (k { m' with cachedCoinsUsage := m'.cachedCoinsUsage - n })) :
    Sound usage m (m'.subUsage n >>= k) := by
  intro a ha
  have hle := hn a ha
  rw [subUsage, if_pos hle]
  exact hk hle a ha

variable (base : CCoinsView) (P : TreeHashes)

/-- A record that is fetched is added to the usage. -/
theorem moves_fetchCoins (txid : Uint256) (m : UsageCache) :
    Moves usage m (m.fetchCoins usage base txid) := by
  unfold fetchCoins
  split
  · exact Moves.refl
  · rename_i hnone
    split
    · exact Moves.refl
    · rename_i k hk
      intro a ha
      have hopen : ∀ o, m.modifier = some o → o.1 ≠ txid := by
        intro o ho hid
        have hheld := ha.held o ho
        rw [hid, hnone] at hheld
        cases hheld
      refine ⟨a, ha.of_coins rfl rfl ?_ ?_, id⟩
      · intro o ho
        have hheld := ha.held o ho
        simp only [CCoinsViewCache.putCoins, Function.update_of_ne (hopen o ho)]
        exact hheld
      · have hsame : UsageCache.openUsage usage
            { m with
              cache := m.cache.putCoins txid { coins := k, fresh := k.isPruned }
              cachedCoinsUsage := m.cachedCoinsUsage + usage k } = m.openUsage usage := by
          unfold openUsage
          cases ho : m.modifier with
          | none => rfl
          | some o =>
            simp [CCoinsViewCache.putCoins, hopen o ho]
        rw [hsame, hnone]
        simp [savedUsage]
        omega

theorem moves_getBestAnchor (ty : ShieldedType) (m : UsageCache) :
    Moves usage m (m.getBestAnchor base ty).2 := by
  unfold getBestAnchor
  split
  · exact Moves.frame rfl rfl rfl rfl
  · exact Moves.refl

theorem moves_getAnchorAt (ty : ShieldedType) (rt : Uint256) (m : UsageCache) :
    Moves usage m (m.getAnchorAt base ty rt).2 := by
  unfold getAnchorAt
  split
  · exact Moves.refl
  · rename_i hnone
    split
    · exact Moves.refl
    · exact Moves.insertAnchor hnone rfl rfl rfl rfl

/-- A tree that a lookup returns is the one the cache then holds. -/
theorem cacheAnchors_getAnchorAt {ty : ShieldedType} {rt : Uint256} {tree : MerkleTree}
    (h : m.getAnchorAt base ty rt = (some tree, m')) :
    ∃ p, m'.cache.cacheAnchors ty rt = some p ∧ p.tree = tree := by
  unfold getAnchorAt at h
  split at h
  · rename_i e he
    obtain ⟨hval, rfl⟩ := Prod.mk.inj h
    split at hval
    · exact ⟨e, he, Option.some.inj hval⟩
    · cases hval
  · split at h
    · cases h
    · rename_i t ht
      obtain ⟨hval, rfl⟩ := Prod.mk.inj h
      refine ⟨{ entered := true, tree := t }, ?_, Option.some.inj hval⟩
      simp [CCoinsViewCache.putAnchor]

theorem sound_popAnchor (newrt : Uint256) (ty : ShieldedType) (m : UsageCache) :
    Sound usage m (m.popAnchor base newrt ty) := by
  have hbest : Moves usage m (m.getBestAnchor base ty).2 := moves_getBestAnchor base ty m
  unfold popAnchor
  generalize m.getBestAnchor base ty = best at hbest ⊢
  obtain ⟨currentRoot, m₁⟩ := best
  have hlook : Moves usage m₁ (m₁.getAnchorAt base ty currentRoot).2 :=
    moves_getAnchorAt base ty currentRoot m₁
  dsimp only
  split
  · exact hbest.sound
  · split
    · exact Sound.error nofun
    · rename_i tree m₂ hget
      obtain ⟨p, hp, htree⟩ := cacheAnchors_getAnchorAt base hget
      rw [hget] at hlook
      have hflag : Moves usage m₂ { m₂ with
          cache := (m₂.cache.putAnchor ty currentRoot
            { entered := false, tree := tree, dirty := true }).setHashAnchor ty newrt } :=
        Moves.flagAnchor (e := { entered := false, tree := tree, dirty := true }) hp htree.symm
          rfl rfl rfl rfl
      exact ((hbest.trans hlook).trans hflag).sound

theorem sound_modifyCoins (txid : Uint256) (m : UsageCache) :
    Sound usage m (m.modifyCoins usage base txid) := by
  unfold modifyCoins
  split
  · exact Sound.error nofun
  · rename_i hmod
    apply Moves.sound
    intro a ha
    refine ⟨a, ha.of_coins rfl rfl ?_ ?_, id⟩
    · intro o ho
      cases ho
      simp [CCoinsViewCache.putCoins]
    · simp [openUsage, savedUsage, hmod, CCoinsViewCache.putCoins]
      omega

theorem sound_modify (f : CCoins → CCoins) (m : UsageCache) : Sound usage m (m.modify f) := by
  unfold modify
  split
  · exact Sound.error nofun
  · rename_i txid n hmod
    split
    · exact Sound.error nofun
    · rename_i e he
      apply Moves.sound
      intro a ha
      refine ⟨a, ha.of_coins rfl rfl ?_ ?_, id⟩
      · intro o ho
        dsimp only at ho
        rw [hmod] at ho
        cases ho
        simp [CCoinsViewCache.putCoins]
      · simp [openUsage, savedUsage, hmod, he, CCoinsViewCache.putCoins]
        omega

/-- A modifier that is closed leaves the usage of its record. -/
theorem sound_closeModifier (m : UsageCache) : Sound usage m (m.closeModifier usage) := by
  unfold closeModifier
  split
  · exact Sound.error nofun
  · rename_i txid n hmod
    split
    · exact Sound.error nofun
    · rename_i e he
      have hopen : m.openUsage usage = usage e.coins := by simp [openUsage, hmod, he]
      have hsaved : m.savedUsage = n := by simp [savedUsage, hmod]
      apply sound_subUsage_bind
      · intro a ha
        have hsum := ha.sum
        have hle := ha.usage_le he
        rw [hopen, hsaved] at hsum
        dsimp only
        omega
      · intro hn
        dsimp only at hn ⊢
        split
        · apply Moves.sound
          intro a ha
          refine ⟨a, ha.of_coins rfl rfl nofun ?_, id⟩
          rw [hopen, hsaved, he]
          simp [openUsage, savedUsage]
          omega
        · apply Moves.sound
          intro a ha
          refine ⟨a, ha.of_coins rfl rfl nofun ?_, id⟩
          rw [hopen, hsaved, he]
          simp [openUsage, savedUsage]
          omega

/-- A record that is written over replaces its usage. -/
theorem sound_batchWriteCoins (child : Uint256 × CCoinsCacheEntry) (hmod : m.modifier = none) :
    Sound usage m (m.batchWriteCoins usage child) := by
  obtain ⟨txid, e⟩ := child
  unfold batchWriteCoins
  dsimp only
  split
  · exact Moves.refl.sound
  · split
    · rename_i hnone
      split
      · exact Moves.refl.sound
      · split
        · exact Sound.error nofun
        · apply Moves.sound
          intro a ha
          refine ⟨a, ha.of_coins_idle hmod rfl rfl hmod ?_, id⟩
          rw [hnone]
          simp
    · rename_i p hp
      apply sound_subUsage_bind
      · intro a ha
        have hsum := ha.sum
        have hle := ha.usage_le hp
        simp only [openUsage, savedUsage, hmod, Option.elim_none] at hsum
        omega
      · intro hn
        dsimp only
        split
        · apply Moves.sound
          intro a ha
          refine ⟨a, ha.of_coins_idle hmod rfl rfl hmod ?_, id⟩
          rw [hp]
          simp
          omega
        · apply Moves.sound
          intro a ha
          refine ⟨a, ha.of_coins_idle hmod rfl rfl hmod ?_, id⟩
          rw [hp]
          simp
          omega

theorem moves_batchWriteAnchors (ty : ShieldedType) (child : Uint256 × CAnchorsCacheEntry)
    (m : UsageCache) : Moves usage m (m.batchWriteAnchors ty child) := by
  obtain ⟨rt, e⟩ := child
  unfold batchWriteAnchors
  dsimp only
  split
  · exact Moves.refl
  · split
    · rename_i hnone
      exact Moves.insertAnchor hnone rfl rfl rfl rfl
    · rename_i p hp
      split
      · exact Moves.flagAnchor hp (e := { p with entered := e.entered, dirty := true })
          rfl rfl rfl rfl rfl
      · exact Moves.refl

theorem moves_batchWriteNullifiers (ty : ShieldedType) (child : Uint256 × CNullifiersCacheEntry)
    (m : UsageCache) : Moves usage m (m.batchWriteNullifiers ty child) := by
  obtain ⟨nf, e⟩ := child
  unfold batchWriteNullifiers
  dsimp only
  split
  · exact Moves.refl
  · split
    · exact Moves.frame rfl rfl rfl rfl
    · split
      · exact Moves.frame rfl rfl rfl rfl
      · exact Moves.refl

/-- `BatchWriteCoins` leaves the modifier alone. -/
theorem modifier_batchWriteCoins {child : Uint256 × CCoinsCacheEntry}
    (h : m.batchWriteCoins usage child = .ok m') : m'.modifier = m.modifier := by
  obtain ⟨txid, e⟩ := child
  unfold batchWriteCoins at h
  dsimp only at h
  split at h
  · cases h
    rfl
  · split at h
    · split at h
      · cases h
        rfl
      · split at h
        · cases h
        · cases h
          rfl
    · obtain ⟨m₁, hsub, h⟩ := Core.except_bind_eq_ok.1 h
      unfold subUsage at hsub
      split at hsub
      · cases hsub
        split at h
        · cases h
          rfl
        · cases h
          rfl
      · cases hsub

theorem sound_foldlM_batchWriteCoins (l : List (Uint256 × CCoinsCacheEntry))
    (hmod : m.modifier = none) : Sound usage m (l.foldlM (batchWriteCoins usage) m) := by
  induction l generalizing m with
  | nil => exact Moves.refl.sound
  | cons child l ih =>
    rw [List.foldlM_cons]
    apply (sound_batchWriteCoins child hmod).bind
    intro m' h
    apply ih
    rw [modifier_batchWriteCoins h, hmod]

theorem moves_foldl {β : Type} {body : UsageCache → β → UsageCache}
    (hbody : ∀ child m, Moves usage m (body m child)) (l : List β) (m : UsageCache) :
    Moves usage m (l.foldl body m) := by
  induction l generalizing m with
  | nil => exact Moves.refl
  | cons child l ih => exact (hbody child m).trans (ih _)

theorem sound_batchWrite (child : CacheMaps) (m : UsageCache) :
    Sound usage m (m.batchWrite usage child) := by
  unfold batchWrite
  split
  · exact Sound.error nofun
  · rename_i hmod
    apply (sound_foldlM_batchWriteCoins child.mapCoins hmod).bind
    intro m₁ _
    apply Moves.sound
    apply (moves_foldl (moves_batchWriteAnchors .sprout) (child.mapAnchors .sprout) m₁).trans
    apply (moves_foldl (moves_batchWriteAnchors .sapling) (child.mapAnchors .sapling) _).trans
    apply (moves_foldl (moves_batchWriteNullifiers .sprout) (child.mapNullifiers .sprout) _).trans
    apply (moves_foldl (moves_batchWriteNullifiers .sapling) (child.mapNullifiers .sapling) _).trans
    exact Moves.frame rfl rfl rfl rfl

theorem sound_flush (m : UsageCache) : Sound usage m m.flush := by
  unfold flush
  split
  · exact Sound.error nofun
  · apply Moves.sound
    intro a _
    refine ⟨0, ?_, fun _ => ?_⟩
    · constructor
      · exact Core.FiniteMap.empty
      · exact Core.FiniteMap.empty
      · exact nofun
      · simp [coinsUsage, openUsage, savedUsage, CCoinsViewCache.clear]
    · exact (Core.tally_empty _).symm

/-- A push keeps the account exact just when the tree fits. -/
theorem pushAnchor_account (ty : ShieldedType) (tree : MerkleTree) (ha : Account usage m a) :
    ∃ a', Account usage (m.pushAnchor P base ty tree) a' ∧
      (a = m.anchorsUsage →
        (a' = (m.pushAnchor P base ty tree).anchorsUsage ↔
          m.Fits P base (.pushAnchor ty tree))) := by
  obtain ⟨a₁, ha₁, hto₁⟩ := moves_getBestAnchor base ty m a ha
  have hcached : (m.getBestAnchor base ty).2.cache.cacheAnchors = m.cache.cacheAnchors := by
    unfold getBestAnchor
    split <;> rfl
  dsimp only [pushAnchor, Fits]
  rw [← hcached]
  generalize m.getBestAnchor base ty = best at *
  obtain ⟨currentRoot, m₁⟩ := best
  dsimp only at *
  split
  · rename_i heq
    refine ⟨a₁, ha₁, fun hex => ?_⟩
    exact ⟨fun _ hne => absurd heq hne, fun _ => hto₁ hex⟩
  · rename_i hne
    cases hp : m₁.cache.cacheAnchors ty (P.root ty tree) with
    | none =>
      have hinsert : Moves usage m₁ { m₁ with
          cache := (m₁.cache.putAnchor ty (P.root ty tree)
            { entered := true, tree := tree, dirty := true }).setHashAnchor ty (P.root ty tree)
          cachedCoinsUsage := m₁.cachedCoinsUsage + tree.dynamicMemoryUsage } :=
        Moves.insertAnchor (e := { entered := true, tree := tree, dirty := true }) hp
          rfl rfl rfl rfl
      obtain ⟨a₂, ha₂, hto₂⟩ := hinsert a₁ ha₁
      refine ⟨a₂, ha₂, fun hex => ?_⟩
      constructor
      · intro _ _ e he
        cases he
      · intro _
        exact hto₂ (hto₁ hex)
    | some p =>
      let m₂ : UsageCache := { m₁ with
        cache := (m₁.cache.putAnchor ty (P.root ty tree)
          { entered := true, tree := tree, dirty := true }).setHashAnchor ty (P.root ty tree) }
      obtain ⟨ha₂, hsum⟩ : Account usage m₂ a₁ ∧
          m₂.anchorsUsage + p.tree.dynamicMemoryUsage =
            m₁.anchorsUsage + tree.dynamicMemoryUsage :=
        replaceAnchor (e := { entered := true, tree := tree, dirty := true }) hp
          rfl rfl rfl rfl ha₁
      refine ⟨a₁, ha₂, fun hex => ?_⟩
      have hexact := hto₁ hex
      dsimp only [m₂] at hsum ⊢
      constructor
      · intro heq _ e he
        cases he
        omega
      · intro hfits
        have husage := hfits hne p rfl
        omega

/-! ## Whole runs -/

variable {op : UsageOp}

/-- One operation: nothing wraps around, and the account stays exact just when the
operation fits. -/
theorem step_account (op : UsageOp) (ha : Account usage m a) :
    m.step usage P base op ≠ .error .underflow ∧
      ∀ m', m.step usage P base op = .ok m' → ∃ a', Account usage m' a' ∧
        (a = m.anchorsUsage → (a' = m'.anchorsUsage ↔ m.Fits P base op)) := by
  have of_sound : ∀ {r : Except CacheFault UsageCache}, m.Fits P base op → Sound usage m r →
      r ≠ .error .underflow ∧ ∀ m', r = .ok m' → ∃ a', Account usage m' a' ∧
        (a = m.anchorsUsage → (a' = m'.anchorsUsage ↔ m.Fits P base op)) := by
    intro r hfits hr
    obtain ⟨hne, hok⟩ := hr a ha
    refine ⟨hne, fun m' hm' => ?_⟩
    obtain ⟨a', ha', hto⟩ := hok m' hm'
    exact ⟨a', ha', fun hex => ⟨fun _ => hfits, fun _ => hto hex⟩⟩
  cases op with
  | fetchCoins txid => exact of_sound trivial (moves_fetchCoins base txid m).sound
  | getAnchorAt ty rt => exact of_sound trivial (moves_getAnchorAt base ty rt m).sound
  | getBestAnchor ty => exact of_sound trivial (moves_getBestAnchor base ty m).sound
  | getNullifier ty nf =>
    apply of_sound trivial
    apply Moves.sound
    unfold getNullifier
    split
    · exact Moves.refl
    · exact Moves.frame rfl rfl rfl rfl
  | getBestBlock =>
    apply of_sound trivial
    apply Moves.sound
    unfold getBestBlock
    split
    · exact Moves.frame rfl rfl rfl rfl
    · exact Moves.refl
  | setBestBlock hashBlock =>
    exact of_sound trivial (Moves.sound (Moves.frame rfl rfl rfl rfl))
  | setNullifiers tx spent =>
    exact of_sound trivial (Moves.sound (Moves.frame rfl rfl rfl rfl))
  | modifyCoins txid => exact of_sound trivial (sound_modifyCoins base txid m)
  | modify f => exact of_sound trivial (sound_modify f m)
  | closeModifier => exact of_sound trivial (sound_closeModifier m)
  | pushAnchor ty tree =>
    refine ⟨nofun, fun m' hm' => ?_⟩
    cases hm'
    exact pushAnchor_account base P ty tree ha
  | popAnchor newrt ty => exact of_sound trivial (sound_popAnchor base newrt ty m)
  | batchWrite child => exact of_sound trivial (sound_batchWrite child m)
  | flush => exact of_sound trivial (sound_flush m)

/-- An operation that fails fits. -/
theorem fits_of_error {err : CacheFault} (h : m.step usage P base op = .error err) :
    m.Fits P base op := by
  cases op with
  | pushAnchor ty tree => cases h
  | _ => trivial

/-- No run wraps the total around. -/
theorem run_ne_underflow (ops : List (CCoinsView × UsageOp)) (ha : Account usage m a) :
    m.run usage P ops ≠ .error .underflow := by
  induction ops generalizing m a with
  | nil => exact nofun
  | cons x ops ih =>
    obtain ⟨base, op⟩ := x
    obtain ⟨hne, hok⟩ := step_account base P op ha
    rw [run]
    cases hs : m.step usage P base op with
    | error err =>
      rw [hs] at hne
      exact hne
    | ok m' =>
      obtain ⟨a', ha', -⟩ := hok m' hs
      exact ih ha'

theorem run_eq_ok_iff (ops : List (CCoinsView × UsageOp)) :
    m.run usage P ops = .ok m' ↔
      Core.RunsTo (fun m x m' => m.step usage P x.1 x.2 = .ok m') m ops m' := by
  induction ops generalizing m with
  | nil =>
    rw [run, Except.ok.injEq, eq_comm]
    rfl
  | cons x ops ih =>
    obtain ⟨base, op⟩ := x
    rw [run, Core.except_bind_eq_ok]
    simp only [ih, Core.RunsTo]

/-- From an exact cache, every state is exact just when every operation fits. -/
theorem run_exact_iff (ops : List (CCoinsView × UsageOp)) (ha : Account usage m a)
    (hex : m.Exact usage) :
    (∀ pre m', pre <+: ops → m.run usage P pre = .ok m' → m'.Exact usage) ↔
      ∀ pre base op m', pre ++ [(base, op)] <+: ops → m.run usage P pre = .ok m' →
        m'.Fits P base op := by
  simp only [run_eq_ok_iff]
  have hiff := Core.good_iff_fit (l := ops) (fun m x m' => m.step usage P x.1 x.2 = .ok m')
    (fun m => ∃ a, Account usage m a) (fun m => m.Exact usage) (fun m x => m.Fits P x.1 x.2)
    (by
      rintro ⟨base, op⟩ - m m' ⟨a, ha⟩ hex hs
      obtain ⟨a', ha', hiff⟩ := (step_account base P op ha).2 m' hs
      refine ⟨⟨a', ha'⟩, ?_⟩
      rw [ha'.exact_iff]
      exact hiff (ha.exact_iff.1 hex))
    (by
      rintro pre ⟨base, op⟩ m' - - - -
      cases hs : m'.step usage P base op with
      | error err => exact Or.inr (fits_of_error base P hs)
      | ok m'' => exact Or.inl ⟨m'', rfl⟩)
    ⟨a, ha⟩ hex
  rw [hiff]
  constructor
  · intro h pre base op
    exact h pre (base, op)
  · rintro h pre ⟨base, op⟩
    exact h pre base op

theorem Account.empty_exact : ({} : UsageCache).Exact usage := by
  have hempty : Account usage {} 0 := Account.empty
  apply hempty.exact_iff.2
  exact (Core.tally_empty _).symm

/-- Whatever is done to a new cache, no update of the running total wraps around, and
the total is the sum over the cached records and trees in every state just when every
tree that is pushed onto a cached root uses as much memory as the one it replaces. -/
theorem cachedCoinsUsage_exact (usage : CCoins → Nat) (P : TreeHashes)
    (ops : List (CCoinsView × UsageOp)) :
    ({} : UsageCache).run usage P ops ≠ .error .underflow ∧
      ((∀ pre m, pre <+: ops → ({} : UsageCache).run usage P pre = .ok m → m.Exact usage) ↔
        ∀ pre base op m, pre ++ [(base, op)] <+: ops →
          ({} : UsageCache).run usage P pre = .ok m → m.Fits P base op) :=
  ⟨run_ne_underflow P ops Account.empty, run_exact_iff P ops Account.empty Account.empty_exact⟩

/-- Two leaves, one leaf, and the two leaves again with an empty leaf after them: the
first and the last tree have one root and differ in their number of subtrees. -/
def repushes : List (CCoinsView × UsageOp) :=
  [{ left := some 5, right := some 6 }, { left := some 5 },
      { left := some 1, parents := [some 11] }].map
    fun tree => (untrimmedView, UsageOp.pushAnchor .sprout tree)

/-- The third push replaces a tree of 64 bytes by one of 96 without counting them. -/
theorem repushes_inexact : ∃ pre m, pre <+: repushes ∧
    ({} : UsageCache).run (fun _ => 0) sampleHashes pre = .ok m ∧ ¬ m.Exact fun _ => 0 := by
  by_contra hnone
  have hall : ∀ pre m, pre <+: repushes →
      ({} : UsageCache).run (fun _ => 0) sampleHashes pre = .ok m → m.Exact fun _ => 0 := by
    intro pre m hpre hrun
    by_contra hex
    exact hnone ⟨pre, m, hpre, hrun, hex⟩
  have hfits := (run_exact_iff sampleHashes repushes Account.empty Account.empty_exact).1 hall
    (repushes.take 2) untrimmedView (.pushAnchor .sprout { left := some 1, parents := [some 11] })
    _ ⟨[], rfl⟩ rfl
  have husage := hfits (by decide +kernel) _ rfl
  revert husage
  decide +kernel

/-! ## The cache under the total -/

/-- The records are merged as in the cache without usage. -/
theorem cache_batchWriteCoins {txid : Uint256} {e : CCoinsCacheEntry}
    (h : m.batchWriteCoins usage (txid, e) = .ok m') :
    m'.cache = { m.cache with
      cacheCoins := Function.update m.cache.cacheCoins txid
        (CCoinsViewCache.mergeCoins (some e) (m.cache.cacheCoins txid)) } := by
  unfold batchWriteCoins at h
  dsimp only at h
  split at h
  · rename_i hclean
    cases h
    have hsame : CCoinsViewCache.mergeCoins (some e) (m.cache.cacheCoins txid) =
        m.cache.cacheCoins txid := by
      cases hp : m.cache.cacheCoins txid <;> simp_all [CCoinsViewCache.mergeCoins]
    rw [hsame, Function.update_eq_self]
  · rename_i hdirty
    rw [Bool.not_eq_true, Bool.not_eq_false'] at hdirty
    split at h
    · rename_i hnone
      rw [hnone, CCoinsViewCache.mergeCoins, hdirty, Bool.true_and]
      split at h
      · rename_i hpruned
        cases h
        rw [hpruned, ← hnone]
        simp
      · rename_i hpruned
        split at h
        · cases h
        · cases h
          simp [CCoinsViewCache.putCoins, hpruned]
    · rename_i p hp
      obtain ⟨m₁, hsub, h⟩ := Core.except_bind_eq_ok.1 h
      unfold subUsage at hsub
      split at hsub
      · cases hsub
        rw [hp, CCoinsViewCache.mergeCoins, if_pos hdirty]
        split at h
        · rename_i herased
          cases h
          rw [if_pos herased, eraseCoins]
        · rename_i hkept
          cases h
          rw [if_neg hkept, CCoinsViewCache.putCoins]
      · cases hsub

/-- So is an anchor. -/
theorem cache_batchWriteAnchors (ty : ShieldedType) (rt : Uint256) (e : CAnchorsCacheEntry)
    (m : UsageCache) :
    (m.batchWriteAnchors ty (rt, e)).cache = { m.cache with
      cacheAnchors := Function.update m.cache.cacheAnchors ty
        (Function.update (m.cache.cacheAnchors ty) rt
          (CCoinsViewCache.mergeAnchor (some e) (m.cache.cacheAnchors ty rt))) } := by
  unfold batchWriteAnchors
  dsimp only
  cases hdirty : e.dirty with
  | false =>
    have hsame : CCoinsViewCache.mergeAnchor (some e) (m.cache.cacheAnchors ty rt) =
        m.cache.cacheAnchors ty rt := by
      cases hp : m.cache.cacheAnchors ty rt <;> simp [CCoinsViewCache.mergeAnchor, hdirty]
    rw [hsame, Function.update_eq_self, Function.update_eq_self]
    rfl
  | true =>
    cases hp : m.cache.cacheAnchors ty rt with
    | none => simp [CCoinsViewCache.mergeAnchor, CCoinsViewCache.putAnchor, hdirty]
    | some p =>
      cases hne : p.entered != e.entered with
      | false =>
        simp only [CCoinsViewCache.mergeAnchor, hdirty, hne, Bool.and_false]
        simp [← hp]
      | true => simp [CCoinsViewCache.mergeAnchor, CCoinsViewCache.putAnchor, hdirty, hne]

/-- Distinct keys are merged one by one. -/
theorem cache_foldlM_batchWriteCoins {l : List (Uint256 × CCoinsCacheEntry)}
    (hl : (l.map Prod.fst).Nodup) (h : l.foldlM (batchWriteCoins usage) m = .ok m') :
    m'.cache = { m.cache with
      cacheCoins := fun txid =>
        CCoinsViewCache.mergeCoins (l.lookup txid) (m.cache.cacheCoins txid) } := by
  induction l generalizing m with
  | nil =>
    cases h
    rfl
  | cons child l ih =>
    obtain ⟨txid, e⟩ := child
    rw [List.map_cons, List.nodup_cons] at hl
    rw [List.foldlM_cons] at h
    obtain ⟨m₁, hone, hrest⟩ := Core.except_bind_eq_ok.1 h
    rw [ih hl.2 hrest, cache_batchWriteCoins hone]
    dsimp only
    congr 1
    funext id
    by_cases hid : id = txid
    · subst hid
      simp [Core.lookup_eq_none hl.1, CCoinsViewCache.mergeCoins]
    · have hne : (id == txid) = false := beq_eq_false_iff_ne.2 hid
      simp [List.lookup_cons, hne, hid]

theorem cache_foldl_batchWriteAnchors (ty : ShieldedType) {l : List (Uint256 × CAnchorsCacheEntry)}
    (hl : (l.map Prod.fst).Nodup) (m : UsageCache) :
    (l.foldl (batchWriteAnchors ty) m).cache = { m.cache with
      cacheAnchors := Function.update m.cache.cacheAnchors ty fun rt =>
        CCoinsViewCache.mergeAnchor (l.lookup rt) (m.cache.cacheAnchors ty rt) } := by
  let set (c : CCoinsViewCache) (f : Uint256 → Option CAnchorsCacheEntry) : CCoinsViewCache :=
    { c with cacheAnchors := Function.update c.cacheAnchors ty f }
  refine Core.foldl_merge (fun c => c.cacheAnchors ty) set ?_ ?_ ?_ ?_ ?_ hl m
  · exact fun c f => Function.update_self ..
  · exact fun c f g => by simp [set]
  · exact fun c => by simp [set]
  · exact fun v => by cases v <;> rfl
  · exact fun m rt e => cache_batchWriteAnchors ty rt e m

/-- A nullifier of the child is merged with that of the parent. -/
theorem cache_batchWriteNullifiers (ty : ShieldedType) (nf : Uint256) (e : CNullifiersCacheEntry)
    (m : UsageCache) :
    (m.batchWriteNullifiers ty (nf, e)).cache = { m.cache with
      cacheNullifiers := Function.update m.cache.cacheNullifiers ty
        (Function.update (m.cache.cacheNullifiers ty) nf
          (CCoinsViewCache.mergeNullifier (some e) (m.cache.cacheNullifiers ty nf))) } := by
  unfold batchWriteNullifiers
  dsimp only
  cases hdirty : e.dirty with
  | false =>
    have hsame : CCoinsViewCache.mergeNullifier (some e) (m.cache.cacheNullifiers ty nf) =
        m.cache.cacheNullifiers ty nf := by
      cases hp : m.cache.cacheNullifiers ty nf <;> simp [CCoinsViewCache.mergeNullifier, hdirty]
    rw [hsame, Function.update_eq_self, Function.update_eq_self]
    rfl
  | true =>
    cases hp : m.cache.cacheNullifiers ty nf with
    | none => simp [CCoinsViewCache.mergeNullifier, CCoinsViewCache.putNullifier, hdirty]
    | some p =>
      cases hne : p.entered != e.entered with
      | false =>
        simp only [CCoinsViewCache.mergeNullifier, hdirty, hne, Bool.and_false]
        simp [← hp]
      | true => simp [CCoinsViewCache.mergeNullifier, CCoinsViewCache.putNullifier, hdirty, hne]

theorem cache_foldl_batchWriteNullifiers (ty : ShieldedType)
    {l : List (Uint256 × CNullifiersCacheEntry)} (hl : (l.map Prod.fst).Nodup) (m : UsageCache) :
    (l.foldl (batchWriteNullifiers ty) m).cache = { m.cache with
      cacheNullifiers := Function.update m.cache.cacheNullifiers ty fun nf =>
        CCoinsViewCache.mergeNullifier (l.lookup nf) (m.cache.cacheNullifiers ty nf) } := by
  let set (c : CCoinsViewCache) (f : Uint256 → Option CNullifiersCacheEntry) : CCoinsViewCache :=
    { c with cacheNullifiers := Function.update c.cacheNullifiers ty f }
  refine Core.foldl_merge (fun c => c.cacheNullifiers ty) set ?_ ?_ ?_ ?_ ?_ hl m
  · exact fun c f => Function.update_self ..
  · exact fun c f g => by simp [set]
  · exact fun c => by simp [set]
  · exact fun v => by cases v <;> rfl
  · exact fun m nf e => cache_batchWriteNullifiers ty nf e m

/-- The maps list what a cache holds, each key once. -/
structure Lists (child : CacheMaps) (c : CCoinsViewCache) : Prop where
  coins_unique : (child.mapCoins.map Prod.fst).Nodup
  coins : ∀ txid, child.mapCoins.lookup txid = c.cacheCoins txid
  anchors_unique : ∀ ty, ((child.mapAnchors ty).map Prod.fst).Nodup
  anchors : ∀ ty rt, (child.mapAnchors ty).lookup rt = c.cacheAnchors ty rt
  nullifiers_unique : ∀ ty, ((child.mapNullifiers ty).map Prod.fst).Nodup
  nullifiers : ∀ ty nf, (child.mapNullifiers ty).lookup nf = c.cacheNullifiers ty nf
  hashBlock : child.hashBlock = c.hashBlock
  hashAnchor : child.hashAnchor = c.hashAnchor

/-- Whatever the order of iteration, the loops merge as `CCoinsViewCache.batchWrite`. -/
theorem cache_batchWrite {child : CacheMaps} {c : CCoinsViewCache} (hc : Lists child c)
    (h : m.batchWrite usage child = .ok m') : m'.cache = m.cache.batchWrite c := by
  unfold batchWrite at h
  split at h
  · cases h
  · obtain ⟨m₁, hcoins, h⟩ := Core.except_bind_eq_ok.1 h
    cases h
    dsimp only
    rw [cache_foldl_batchWriteNullifiers .sapling (hc.nullifiers_unique .sapling),
      cache_foldl_batchWriteNullifiers .sprout (hc.nullifiers_unique .sprout),
      cache_foldl_batchWriteAnchors .sapling (hc.anchors_unique .sapling),
      cache_foldl_batchWriteAnchors .sprout (hc.anchors_unique .sprout),
      cache_foldlM_batchWriteCoins hc.coins_unique hcoins]
    unfold CCoinsViewCache.batchWrite
    simp only [hc.coins, hc.nullifiers, hc.hashBlock, hc.hashAnchor, hc.anchors]
    congr 1
    · funext ty
      cases ty <;> simp
    · funext ty
      cases ty <;> simp

namespace SampleChild

/-- A record with one output. -/
def coin (nValue : Int) : CCoins where
  vout := [{ nValue := nValue, scriptPubKey := [] }]

/-- The memory of a record. -/
def memory (c : CCoins) : Nat := 48 * c.vout.length

/-- A parent with an unspent record. -/
def parent : UsageCache where
  cache := ({} : CCoinsViewCache).putCoins 1 { coins := coin 7, dirty := true }
  cachedCoinsUsage := 48

/-- The maps of a child that has spent the record, and added another one, a tree and a
nullifier. -/
def child : CacheMaps where
  mapCoins :=
    [(1, { coins := {}, dirty := true }), (2, { coins := coin 6, dirty := true, fresh := true })]
  mapAnchors ty := match ty with
    | .sprout => [(5, { entered := true, tree := { left := some 5 }, dirty := true })]
    | .sapling => []
  mapNullifiers ty := match ty with
    | .sprout => []
    | .sapling => [(9, { entered := true, dirty := true })]

/-- The child. -/
def written : CCoinsViewCache where
  cacheCoins txid := child.mapCoins.lookup txid
  cacheAnchors ty rt := (child.mapAnchors ty).lookup rt
  cacheNullifiers ty nf := (child.mapNullifiers ty).lookup nf

theorem lists_child : Lists child written where
  coins_unique := by decide
  coins _ := rfl
  anchors_unique ty := by cases ty <;> decide
  anchors _ _ := rfl
  nullifiers_unique ty := by cases ty <;> decide
  nullifiers _ _ := rfl
  hashBlock := rfl
  hashAnchor := rfl

theorem lists_reverse : Lists { child with mapCoins := child.mapCoins.reverse } written where
  coins_unique := by decide
  coins txid := by
    by_cases h1 : txid = 1
    · subst h1
      rfl
    by_cases h2 : txid = 2
    · subst h2
      rfl
    · have hleft : txid ∉ child.mapCoins.reverse.map Prod.fst := fun hmem =>
        (List.mem_pair.1 (show txid ∈ [2, 1] from hmem)).elim h2 h1
      have hright : txid ∉ child.mapCoins.map Prod.fst := fun hmem =>
        (List.mem_pair.1 (show txid ∈ [1, 2] from hmem)).elim h1 h2
      exact (Core.lookup_eq_none hleft).trans (Core.lookup_eq_none hright).symm
  anchors_unique ty := by cases ty <;> decide
  anchors _ _ := rfl
  nullifiers_unique ty := by cases ty <;> decide
  nullifiers _ _ := rfl
  hashBlock := rfl
  hashAnchor := rfl

end SampleChild

open SampleChild in
/-- Two records, a tree and a nullifier are written, in either order with the same result. -/
theorem cache_batchWrite_either : ∃ m₁ m₂, parent.batchWrite memory child = .ok m₁ ∧
    parent.batchWrite memory { child with mapCoins := child.mapCoins.reverse } = .ok m₂ ∧
      m₁.cache = parent.cache.batchWrite written ∧ m₂.cache = parent.cache.batchWrite written ∧
      (parent.cache.batchWrite written).cacheNullifiers .sapling 9 =
        some { entered := true, dirty := true } := by
  obtain ⟨m₁, h₁⟩ : ∃ m₁, parent.batchWrite memory child = .ok m₁ := ⟨_, rfl⟩
  obtain ⟨m₂, h₂⟩ : ∃ m₂, parent.batchWrite memory
      { child with mapCoins := child.mapCoins.reverse } = .ok m₂ := ⟨_, rfl⟩
  exact ⟨m₁, m₂, h₁, h₂, cache_batchWrite lists_child h₁, cache_batchWrite lists_reverse h₂, rfl⟩

end UsageCache

end IndexChain
