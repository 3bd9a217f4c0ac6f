import IndexChain.Models.Coins.Stack

/-!
# What lookups leave in the layers

The invariant of a stack of caches and its preservation by lookups. A layer is
well formed over the layers below it (`LayerWf`) when its `FRESH` flags are right,
its unmodified entries are copies of what is below, and an entry that is not fresh
has one under it in the next layer; the last fact is what the assertion inside
`BatchWrite` rests on. A lookup only adds copies (`Fills`), which no answer shows.
-/

namespace IndexChain

namespace Layers

/-- The next layer, if there is one, holds an entry for the record. -/
def Held (lower : List CCoinsViewCache) (txid : Uint256) : Prop :=
  ∀ c, lower.head? = some c → (c.cacheCoins txid).isSome = true

/-- A layer over `lower`, which answers as `base`. Modified records satisfy `K`. -/
structure LayerWf (K : CCoins → Prop) (base : CCoinsView) (lower : List CCoinsViewCache)
    (c : CCoinsViewCache) : Prop where
  /-- The invariant of the `FRESH` flag. -/
  fresh : c.CacheWf base
  /-- An entry that is not fresh was pulled through the next layer. -/
  pulled : ∀ txid e, c.cacheCoins txid = some e → e.fresh = false → Held lower txid
  /-- An unmodified entry is a copy. -/
  clean : ∀ txid e, c.cacheCoins txid = some e → e.dirty = false →
    base.getCoins txid = some e.coins
  /-- A modified entry is trimmed. -/
  modified : ∀ txid e, c.cacheCoins txid = some e → e.dirty = true →
    e.coins.cleanup = e.coins ∧ K e.coins
  /-- An unmodified nullifier is a copy. -/
  nullifier : ∀ ty nf e, c.cacheNullifiers ty nf = some e → e.dirty = false →
    base.getNullifier ty nf = e.entered

/-- Every layer is well formed over those below. -/
def Wf (K : CCoins → Prop) (v : CCoinsView) : List CCoinsViewCache → Prop
  | [] => True
  | c :: lower => LayerWf K (view v lower) lower c ∧ Wf K v lower

variable {K : CCoins → Prop} {base : CCoinsView} {lower lower' : List CCoinsViewCache}
  {c c' : CCoinsViewCache}

theorem LayerWf.empty (h : c.cacheCoins = fun _ => none)
    (hn : c.cacheNullifiers = fun _ _ => none) : LayerWf K base lower c where
  fresh := by
    constructor <;> intro txid e he <;> simp only [h] at he <;> cases he
  pulled := by
    intro txid e he
    simp only [h] at he
    cases he
  clean := by
    intro txid e he
    simp only [h] at he
    cases he
  modified := by
    intro txid e he
    simp only [h] at he
    cases he
  nullifier := by
    intro ty nf e he
    simp only [hn] at he
    cases he

/-- Only the records and the nullifiers of a layer count. -/
theorem LayerWf.congr (h : LayerWf K base lower c) (hcoins : c'.cacheCoins = c.cacheCoins)
    (hnull : c'.cacheNullifiers = c.cacheNullifiers) : LayerWf K base lower c' := by
  constructor
  · constructor
    · rw [hcoins]
      exact h.fresh.fresh
    · rw [hcoins]
      exact h.fresh.known
    · rw [hcoins]
      exact h.fresh.kept
  · rw [hcoins]
    exact h.pulled
  · rw [hcoins]
    exact h.clean
  · rw [hcoins]
    exact h.modified
  · rw [hnull]
    exact h.nullifier

/-- More entries below do no harm. -/
theorem LayerWf.mono (h : LayerWf K base lower c) (hheld : ∀ txid, Held lower txid →
    Held lower' txid) : LayerWf K base lower' c where
  fresh := h.fresh
  pulled txid e he hf := hheld txid (h.pulled txid e he hf)
  clean := h.clean
  modified := h.modified
  nullifier := h.nullifier

/-! ## Layers with more copies -/

/-- `c'` is `c` with more copies of what the layers below answer. -/
structure Fill (K : CCoins → Prop) (base : CCoinsView) (lower : List CCoinsViewCache)
    (c c' : CCoinsViewCache) : Prop where
  /-- No answer changes. -/
  view_eq : c'.view base = c.view base
  /-- No entry is lost. -/
  held : ∀ txid, (c.cacheCoins txid).isSome = true → (c'.cacheCoins txid).isSome = true
  /-- The layer stays well formed. -/
  wf : LayerWf K base lower c → LayerWf K base lower c'

/-- Every layer has more copies. -/
inductive Fills (K : CCoins → Prop) (v : CCoinsView) :
    List CCoinsViewCache → List CCoinsViewCache → Prop
  | nil : Fills K v [] []
  | cons {c c' : CCoinsViewCache} {lower lower' : List CCoinsViewCache} :
    Fills K v lower lower' → Fill K (view v lower) lower' c c' →
      Fills K v (c :: lower) (c' :: lower')

theorem Fill.refl : Fill K base lower c c where
  view_eq := rfl
  held _ h := h
  wf h := h

variable {v : CCoinsView} {ls ls' : List CCoinsViewCache}

theorem Fills.refl (ls : List CCoinsViewCache) : Fills K v ls ls := by
  induction ls with
  | nil => exact Fills.nil
  | cons c lower ih => exact Fills.cons ih Fill.refl

theorem Fills.view_eq (h : Fills K v ls ls') : view v ls' = view v ls := by
  induction h with
  | nil => rfl
  | cons _ hc ih => rw [view, view, ih, hc.view_eq]

theorem Fills.held (h : Fills K v ls ls') {txid : Uint256} (hheld : Held ls txid) :
    Held ls' txid := by
  cases h with
  | nil => exact hheld
  | cons _ hc =>
    intro d hd
    cases hd
    exact hc.held txid (hheld _ rfl)

theorem Fills.wf (h : Fills K v ls ls') (hwf : Wf K v ls) : Wf K v ls' := by
  induction h with
  | nil => exact hwf
  | cons hlower hc ih =>
    refine ⟨?_, ih hwf.2⟩
    rw [hlower.view_eq]
    exact hc.wf (hwf.1.mono fun txid => hlower.held)

/-! ## Lookups only add copies -/

/-- Copying a record from below. -/
theorem fill_putCoins {txid : Uint256} {k : CCoins} (hmiss : c.cacheCoins txid = none)
    (hk : base.getCoins txid = some k) (hheld : Held lower txid) :
    Fill K base lower c (c.putCoins txid { coins := k, fresh := k.isPruned }) := by
  have hcases : ∀ id e,
      (c.putCoins txid { coins := k, fresh := k.isPruned }).cacheCoins id = some e →
      c.cacheCoins id = some e ∨ (id = txid ∧ e = { coins := k, fresh := k.isPruned }) := by
    intro id e he
    by_cases hid : id = txid
    · subst hid
      simp only [CCoinsViewCache.putCoins, Function.update_self, Option.some.injEq] at he
      exact Or.inr ⟨rfl, he.symm⟩
    · simp only [CCoinsViewCache.putCoins, Function.update_of_ne hid] at he
      exact Or.inl he
  constructor
  · unfold CCoinsViewCache.view CCoinsViewCache.putCoins
    congr 1
    funext id
    by_cases hid : id = txid
    · subst hid
      simp only [Function.update_self, hmiss, hk]
    · simp only [Function.update_of_ne hid]
  · intro id h
    by_cases hid : id = txid
    · subst hid
      simp only [CCoinsViewCache.putCoins, Function.update_self, Option.isSome_some]
    · simpa only [CCoinsViewCache.putCoins, Function.update_of_ne hid] using h
  · intro h
    refine ⟨⟨?_, ?_, ?_⟩, ?_, ?_, ?_, h.nullifier⟩
    · intro id e he hf k' hk'
      rcases hcases id e he with hc | ⟨rfl, rfl⟩
      · exact h.fresh.fresh id e hc hf k' hk'
      · rw [hk] at hk'
        cases hk'
        exact hf
    · intro id e he hf
      rcases hcases id e he with hc | ⟨rfl, rfl⟩
      · exact h.fresh.known id e hc hf
      · rw [hk]
        rfl
    · intro id e he hf hnone
      rcases hcases id e he with hc | ⟨rfl, rfl⟩
      · exact h.fresh.kept id e hc hf hnone
      · rw [hk] at hnone
        cases hnone
    · intro id e he hf
      rcases hcases id e he with hc | ⟨rfl, rfl⟩
      · exact h.pulled id e hc hf
      · exact hheld
    · intro id e he hd
      rcases hcases id e he with hc | ⟨rfl, rfl⟩
      · exact h.clean id e hc hd
      · exact hk
    · intro id e he hd
      rcases hcases id e he with hc | ⟨rfl, rfl⟩
      · exact h.modified id e hc hd
      · cases hd

/-- A lookup of a record answers as the view does and fills the layers on its way. -/
theorem fetchCoins_spec (txid : Uint256) (ls : List CCoinsViewCache) :
    (fetchCoins v txid ls).1 = (view v ls).getCoins txid ∧
      Fills K v ls (fetchCoins v txid ls).2 ∧
      ((fetchCoins v txid ls).1.isSome = true → Held (fetchCoins v txid ls).2 txid) := by
  induction ls with
  | nil =>
    refine ⟨rfl, Fills.nil, fun _ c hc => ?_⟩
    cases hc
  | cons c lower ih =>
    obtain ⟨hans, hfills, hheld⟩ := ih
    rw [fetchCoins]
    cases he : c.cacheCoins txid with
    | some e =>
      refine ⟨by simp [view, CCoinsViewCache.view, he], Fills.refl _, fun _ d hd => ?_⟩
      cases hd
      rw [he]
      rfl
    | none =>
      have hview : (view v (c :: lower)).getCoins txid = (view v lower).getCoins txid := by
        simp only [view, CCoinsViewCache.view, he]
      rw [hview]
      cases hf : fetchCoins v txid lower with
      | mk ans lower' =>
        rw [hf] at hans hfills hheld
        dsimp only at hans hfills hheld
        cases ans with
        | none =>
          exact ⟨hans, Fills.cons hfills Fill.refl, fun h => by cases h⟩
        | some k =>
          have hfill := fill_putCoins (K := K) he hans.symm (hheld rfl)
          refine ⟨hans, Fills.cons hfills hfill, fun _ d hd => ?_⟩
          cases hd
          simp only [CCoinsViewCache.putCoins, Function.update_self, Option.isSome_some]

/-- Copying a nullifier from below. -/
theorem fill_putNullifier {ty : ShieldedType} {nf : Uint256}
    (hmiss : c.cacheNullifiers ty nf = none) :
    Fill K base lower c (c.putNullifier ty nf { entered := base.getNullifier ty nf }) where
  view_eq := by
    unfold CCoinsViewCache.view CCoinsViewCache.putNullifier
    congr 1
    funext ty' id
    by_cases hty : ty' = ty
    · subst hty
      by_cases hid : id = nf
      · subst hid
        simp only [Function.update_self, hmiss]
      · simp only [Function.update_self, Function.update_of_ne hid]
    · simp only [Function.update_of_ne hty]
  held _ h := h
  wf h := by
    refine ⟨⟨h.fresh.fresh, h.fresh.known, h.fresh.kept⟩, h.pulled, h.clean, h.modified, ?_⟩
    intro ty' id e he hd
    by_cases hty : ty' = ty
    · subst hty
      by_cases hid : id = nf
      · subst hid
        simp only [CCoinsViewCache.putNullifier, Function.update_self, Option.some.injEq] at he
        rw [← he]
      · simp only [CCoinsViewCache.putNullifier, Function.update_self,
          Function.update_of_ne hid] at he
        exact h.nullifier ty' id e he hd
    · simp only [CCoinsViewCache.putNullifier, Function.update_of_ne hty] at he
      exact h.nullifier ty' id e he hd

theorem getNullifier_spec (ty : ShieldedType) (nf : Uint256) (ls : List CCoinsViewCache) :
    (getNullifier v ty nf ls).1 = (view v ls).getNullifier ty nf ∧
      Fills K v ls (getNullifier v ty nf ls).2 := by
  induction ls with
  | nil => exact ⟨rfl, Fills.nil⟩
  | cons c lower ih =>
    obtain ⟨hans, hfills⟩ := ih
    rw [getNullifier]
    cases he : c.cacheNullifiers ty nf with
    | some e => exact ⟨by simp only [view, CCoinsViewCache.view, he], Fills.refl _⟩
    | none =>
      dsimp only
      rw [hans]
      refine ⟨by simp only [view, CCoinsViewCache.view, he], ?_⟩
      exact Fills.cons hfills (fill_putNullifier he)

/-- Copying a tree from below. -/
theorem fill_putAnchor {ty : ShieldedType} {rt : Uint256} {tree : MerkleTree}
    (hmiss : c.cacheAnchors ty rt = none) (htree : base.getAnchorAt ty rt = some tree) :
    Fill K base lower c (c.putAnchor ty rt { entered := true, tree := tree }) where
  view_eq := by
    unfold CCoinsViewCache.view CCoinsViewCache.putAnchor
    congr 1
    funext ty' id
    by_cases hty : ty' = ty
    · subst hty
      by_cases hid : id = rt
      · subst hid
        simp only [Function.update_self, hmiss, if_true, htree]
      · simp only [Function.update_self, Function.update_of_ne hid]
    · simp only [Function.update_of_ne hty]
  held _ h := h
  wf h := h.congr rfl rfl

theorem getAnchorAt_spec (ty : ShieldedType) (rt : Uint256) (ls : List CCoinsViewCache) :
    (getAnchorAt v ty rt ls).1 = (view v ls).getAnchorAt ty rt ∧
      Fills K v ls (getAnchorAt v ty rt ls).2 := by
  induction ls with
  | nil => exact ⟨rfl, Fills.nil⟩
  | cons c lower ih =>
    obtain ⟨hans, hfills⟩ := ih
    rw [getAnchorAt]
    cases he : c.cacheAnchors ty rt with
    | some e => exact ⟨by simp only [view, CCoinsViewCache.view, he], Fills.refl _⟩
    | none =>
      have hview : (view v (c :: lower)).getAnchorAt ty rt = (view v lower).getAnchorAt ty rt := by
        simp only [view, CCoinsViewCache.view, he]
      rw [hview]
      cases hf : getAnchorAt v ty rt lower with
      | mk ans lower' =>
        rw [hf] at hans hfills
        dsimp only at hans hfills
        cases ans with
        | none => exact ⟨hans, Fills.cons hfills Fill.refl⟩
        | some tree => exact ⟨hans, Fills.cons hfills (fill_putAnchor he hans.symm)⟩

/-- Copying the best block from below; a null answer leaves the cache as it was. -/
theorem fill_setBestBlock (hmiss : c.hashBlock = 0) :
    Fill K base lower c (c.setBestBlock base.getBestBlock) where
  view_eq := by
    unfold CCoinsViewCache.view CCoinsViewCache.setBestBlock
    simp only [hmiss, if_true]
    congr 1
    split
    · rfl
    · rfl
  held _ h := h
  wf h := h.congr rfl rfl

theorem getBestBlock_spec (ls : List CCoinsViewCache) :
    (getBestBlock v ls).1 = (view v ls).getBestBlock ∧ Fills K v ls (getBestBlock v ls).2 := by
  induction ls with
  | nil => exact ⟨rfl, Fills.nil⟩
  | cons c lower ih =>
    obtain ⟨hans, hfills⟩ := ih
    rw [getBestBlock]
    by_cases he : c.hashBlock = 0
    · rw [if_pos he]
      dsimp only
      rw [hans]
      refine ⟨by simp only [view, CCoinsViewCache.view, he, if_true], ?_⟩
      exact Fills.cons hfills (fill_setBestBlock he)
    · rw [if_neg he]
      exact ⟨by simp only [view, CCoinsViewCache.view, he, if_false], Fills.refl _⟩

/-- Copying the best anchor of a pool from below. -/
theorem fill_setHashAnchor {ty : ShieldedType} (hmiss : c.hashAnchor ty = 0) :
    Fill K base lower c (c.setHashAnchor ty (base.getBestAnchor ty)) where
  view_eq := by
    unfold CCoinsViewCache.view CCoinsViewCache.setHashAnchor
    congr 1
    funext ty'
    by_cases hty : ty' = ty
    · subst hty
      simp only [Function.update_self, hmiss, if_true, ite_eq_left_iff]
      intro _
      trivial
    · simp only [Function.update_of_ne hty]
  held _ h := h
  wf h := h.congr rfl rfl

theorem getBestAnchor_spec (ty : ShieldedType) (ls : List CCoinsViewCache) :
    (getBestAnchor v ty ls).1 = (view v ls).getBestAnchor ty ∧
      Fills K v ls (getBestAnchor v ty ls).2 := by
  induction ls with
  | nil => exact ⟨rfl, Fills.nil⟩
  | cons c lower ih =>
    obtain ⟨hans, hfills⟩ := ih
    rw [getBestAnchor]
    by_cases he : c.hashAnchor ty = 0
    · rw [if_pos he]
      dsimp only
      rw [hans]
      refine ⟨by simp only [view, CCoinsViewCache.view, he, if_true], ?_⟩
      exact Fills.cons hfills (fill_setHashAnchor he)
    · rw [if_neg he]
      exact ⟨by simp only [view, CCoinsViewCache.view, he, if_false], Fills.refl _⟩

end Layers

end IndexChain
