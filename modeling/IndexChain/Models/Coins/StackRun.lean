import IndexChain.Models.Coins.StackFlat

/-!
# Runs of a stack of caches

Every operation keeps the layers of a stack well formed, and all but dropping the
top layer act on its contents as on the flat map. It follows that the top layer of
any stack answers as the flat map that received the same modifications, and that
the assertion on `FRESH` entries holds at every flush.
-/

namespace IndexChain

namespace Layers

variable {K Q : CCoins → Prop} {v : CCoinsView} {ls : List CCoinsViewCache}

/-- What holds of the records at the bottom and of the modified ones holds of every
answer, since the other entries are copies. -/
theorem getCoins_of_modified (hv : ∀ txid k, v.getCoins txid = some k → Q k)
    (hQ : ∀ k, k.cleanup = k → K k → Q k) (hwf : Wf K v ls) :
    ∀ txid k, (view v ls).getCoins txid = some k → Q k := by
  induction ls with
  | nil => exact hv
  | cons c lower ih =>
    obtain ⟨hc, hlower⟩ := hwf
    intro txid k hk
    simp only [view, CCoinsViewCache.view] at hk
    cases he : c.cacheCoins txid with
    | none =>
      rw [he] at hk
      exact ih hlower txid k hk
    | some e =>
      rw [he] at hk
      cases hk
      cases hd : e.dirty with
      | false => exact ih hlower txid _ (hc.clean txid e he hd)
      | true => exact hQ _ (hc.modified txid e he hd).1 (hc.modified txid e he hd).2

end Layers

namespace Stack

variable (P : TreeHashes)

/-- The layers are well formed, and the bottom has records it can represent. -/
structure Wf (s : Stack) : Prop where
  /-- The layers. -/
  layers : Layers.Wf s.bottom.Keeps (s.bottom.answers P) (s.top :: s.lower)
  /-- The bottom. -/
  bottom : s.bottom.Kept P

/-- The contents of a stack as a flat map. -/
def flat (s : Stack) : FlatCoins where
  coins txid := ((s.view P).getCoins txid).bind CCoins.unspent
  nullifiers := (s.view P).getNullifier

/-- `s'` is `s` with more copies in its layers. -/
structure Filled (s s' : Stack) : Prop where
  /-- The bottom is the same. -/
  bottom : s'.bottom = s.bottom
  /-- The layers have more copies. -/
  fills : Layers.Fills s.bottom.Keeps (s.bottom.answers P) (s.top :: s.lower)
    (s'.top :: s'.lower)

variable {P} {s s' : Stack}

theorem Filled.view_eq (h : Filled P s s') : s'.view P = s.view P := by
  have hview := h.fills.view_eq
  simp only [Layers.view] at hview
  simp only [view, base, h.bottom, hview]

theorem Filled.flat_eq (h : Filled P s s') : s'.flat P = s.flat P := by
  unfold flat
  rw [h.view_eq]

theorem Filled.wf (h : Filled P s s') (hs : s.Wf P) : s'.Wf P := by
  constructor
  · rw [h.bottom]
    exact h.fills.wf hs.layers
  · rw [h.bottom]
    exact hs.bottom

theorem filled_withLayers {ls : List CCoinsViewCache}
    (h : Layers.Fills s.bottom.Keeps (s.bottom.answers P) (s.top :: s.lower) ls) :
    Filled P s (s.withLayers ls) := by
  cases h with
  | cons hlower hc => exact ⟨rfl, Layers.Fills.cons hlower hc⟩

/-! ## Lookups -/

variable (P s)

theorem getCoins_spec (txid : Uint256) :
    (s.getCoins P txid).1 = (s.view P).getCoins txid ∧ Filled P s (s.getCoins P txid).2 := by
  obtain ⟨hans, hfills, -⟩ := Layers.fetchCoins_spec (K := s.bottom.Keeps)
    (v := s.bottom.answers P) txid (s.top :: s.lower)
  exact ⟨hans, filled_withLayers hfills⟩

theorem getNullifier_spec (ty : ShieldedType) (nf : Uint256) :
    (s.getNullifier P ty nf).1 = (s.view P).getNullifier ty nf ∧
      Filled P s (s.getNullifier P ty nf).2 := by
  obtain ⟨hans, hfills⟩ := Layers.getNullifier_spec (K := s.bottom.Keeps)
    (v := s.bottom.answers P) ty nf (s.top :: s.lower)
  exact ⟨hans, filled_withLayers hfills⟩

theorem getAnchorAt_spec (ty : ShieldedType) (rt : Uint256) :
    (s.getAnchorAt P ty rt).1 = (s.view P).getAnchorAt ty rt ∧
      Filled P s (s.getAnchorAt P ty rt).2 := by
  obtain ⟨hans, hfills⟩ := Layers.getAnchorAt_spec (K := s.bottom.Keeps)
    (v := s.bottom.answers P) ty rt (s.top :: s.lower)
  exact ⟨hans, filled_withLayers hfills⟩

theorem getBestBlock_spec :
    (s.getBestBlock P).1 = (s.view P).getBestBlock ∧ Filled P s (s.getBestBlock P).2 := by
  obtain ⟨hans, hfills⟩ := Layers.getBestBlock_spec (K := s.bottom.Keeps)
    (v := s.bottom.answers P) (s.top :: s.lower)
  exact ⟨hans, filled_withLayers hfills⟩

theorem getBestAnchor_spec (ty : ShieldedType) :
    (s.getBestAnchor P ty).1 = (s.view P).getBestAnchor ty ∧
      Filled P s (s.getBestAnchor P ty).2 := by
  obtain ⟨hans, hfills⟩ := Layers.getBestAnchor_spec (K := s.bottom.Keeps)
    (v := s.bottom.answers P) ty (s.top :: s.lower)
  exact ⟨hans, filled_withLayers hfills⟩

variable {P s}

/-! ## Changes to the top layer -/

/-- A change of the top layer that keeps its records and nullifiers. -/
theorem Wf.withTop {c : CCoinsViewCache} (h : s.Wf P) (hcoins : c.cacheCoins = s.top.cacheCoins)
    (hnull : c.cacheNullifiers = s.top.cacheNullifiers) : Wf P { s with top := c } where
  layers := ⟨h.layers.1.congr hcoins hnull, h.layers.2⟩
  bottom := h.bottom

theorem flat_withTop {c : CCoinsViewCache} (hcoins : c.cacheCoins = s.top.cacheCoins)
    (hnull : c.cacheNullifiers = s.top.cacheNullifiers) :
    flat P { s with top := c } = s.flat P := by
  simp only [flat, view, base, CCoinsViewCache.view, hcoins, hnull]

theorem pushAnchor_cacheCoins (base : CCoinsView) (ty : ShieldedType) (tree : MerkleTree)
    (c : CCoinsViewCache) :
    (c.pushAnchor base P ty tree).cacheCoins = c.cacheCoins ∧
      (c.pushAnchor base P ty tree).cacheNullifiers = c.cacheNullifiers := by
  unfold CCoinsViewCache.pushAnchor
  dsimp only
  split
  · exact ⟨rfl, rfl⟩
  · exact ⟨rfl, rfl⟩

theorem popAnchor_cacheCoins {base : CCoinsView} {ty : ShieldedType} {newrt : Uint256}
    {c c' : CCoinsViewCache} (h : c.popAnchor base newrt ty = some c') :
    c'.cacheCoins = c.cacheCoins ∧ c'.cacheNullifiers = c.cacheNullifiers := by
  unfold CCoinsViewCache.popAnchor at h
  dsimp only at h
  split at h
  · cases h
    exact ⟨rfl, rfl⟩
  · split at h
    · cases h
    · cases h
      exact ⟨rfl, rfl⟩

theorem Filled.refl : Filled P s s where
  bottom := rfl
  fills := Layers.Fills.refl _

/-- Popping an anchor changes anchors only, after two lookups. -/
theorem popAnchor_cases {newrt : Uint256} {ty : ShieldedType}
    (h : s.popAnchor P newrt ty = some s') :
    ∃ s₁ s₂ c, Filled P s s₁ ∧ Filled P s₁ s₂ ∧ c.cacheCoins = s₂.top.cacheCoins ∧
      c.cacheNullifiers = s₂.top.cacheNullifiers ∧ s' = { s₂ with top := c } := by
  have hbest := (getBestAnchor_spec P s ty).2
  unfold popAnchor at h
  cases hq : s.getBestAnchor P ty with
  | mk root s₁ =>
    rw [hq] at h hbest
    dsimp only at h hbest
    by_cases hroot : root = newrt
    · rw [if_pos hroot] at h
      obtain ⟨c, hc, rfl⟩ := Option.map_eq_some_iff.1 h
      obtain ⟨hcoins, hnull⟩ := popAnchor_cacheCoins hc
      exact ⟨s₁, s₁, c, hbest, Filled.refl, hcoins, hnull, rfl⟩
    · rw [if_neg hroot] at h
      obtain ⟨c, hc, rfl⟩ := Option.map_eq_some_iff.1 h
      obtain ⟨hcoins, hnull⟩ := popAnchor_cacheCoins hc
      exact ⟨s₁, _, c, hbest, (getAnchorAt_spec P s₁ ty root).2, hcoins, hnull, rfl⟩

/-! ## Modifications -/

variable (P s) in
/-- Opening a record fills the lower layers. -/
theorem fills_modifyCoins (txid : Uint256) (f : CCoins → CCoins) :
    Layers.Fills s.bottom.Keeps (s.bottom.answers P) s.lower (s.modifyCoins P txid f).lower := by
  unfold Stack.modifyCoins
  dsimp only
  split
  · exact Layers.Fills.refl _
  · exact (Layers.fetchCoins_spec txid s.lower).2.1

/-- The record that is opened can be represented. -/
theorem Wf.keeps_entryFor (h : s.Wf P) (txid : Uint256) :
    s.bottom.Keeps (s.top.entryFor (s.base P) txid).coins := by
  have hempty : s.bottom.Keeps {} := by
    cases s.bottom with
    | view v => trivial
    | db d => rfl
  have hcoins := CCoinsViewCache.getCoins_getD (s.base P) s.top txid
  rw [CCoinsViewCache.coinsAt] at hcoins
  rw [← hcoins]
  cases hk : (s.top.view (s.base P)).getCoins txid with
  | none => exact hempty
  | some k => exact Layers.getCoins_of_modified h.bottom (fun k _ hk => hk) h.layers txid k hk

/-- If it is not fresh, the next layer holds it. -/
theorem Wf.held_entryFor (h : s.Wf P) {txid : Uint256} (f : CCoins → CCoins)
    (hfresh : (s.top.entryFor (s.base P) txid).fresh = false) :
    Layers.Held (s.modifyCoins P txid f).lower txid := by
  unfold CCoinsViewCache.entryFor at hfresh
  cases he : s.top.cacheCoins txid with
  | some e =>
    rw [he] at hfresh
    exact (fills_modifyCoins P s txid f).held (h.layers.1.pulled txid e he hfresh)
  | none =>
    rw [he] at hfresh
    obtain ⟨hans, -, hheld⟩ := Layers.fetchCoins_spec (K := s.bottom.Keeps)
      (v := s.bottom.answers P) txid s.lower
    have hsome : (Layers.fetchCoins (s.bottom.answers P) txid s.lower).1.isSome = true := by
      rw [hans]
      cases hb : (s.base P).getCoins txid with
      | none =>
        rw [hb] at hfresh
        cases hfresh
      | some k =>
        rw [base] at hb
        rw [hb]
        rfl
    simp only [Stack.modifyCoins, he]
    exact hheld hsome

/-- The entries after a modification: those of before and the modified one. -/
theorem modifyCoins_cases {txid id : Uint256} {f : CCoins → CCoins} {e : CCoinsCacheEntry}
    (h : (s.modifyCoins P txid f).top.cacheCoins id = some e) :
    s.top.cacheCoins id = some e ∨
      (id = txid ∧ (s.top.entryFor (s.base P) txid).modify f = some e) := by
  by_cases hid : id = txid
  · subst hid
    simp only [Stack.modifyCoins, CCoinsViewCache.modifyCoins, Function.update_self] at h
    exact Or.inr ⟨rfl, h⟩
  · simp only [Stack.modifyCoins, CCoinsViewCache.modifyCoins, Function.update_of_ne hid] at h
    exact Or.inl h

/-- Modifying a record of the top layer leaves well-formed layers. -/
theorem Wf.modifyCoins (h : s.Wf P) {txid : Uint256} {f : CCoins → CCoins}
    (hf : ∀ k, s.bottom.Keeps k → s.bottom.Keeps (f k).cleanup) :
    (s.modifyCoins P txid f).Wf P := by
  obtain ⟨htop, hlower⟩ := h.layers
  have hfills := fills_modifyCoins P s txid f
  have hbottom : (s.modifyCoins P txid f).bottom = s.bottom := rfl
  refine ⟨⟨?_, hfills.wf hlower⟩, h.bottom⟩
  rw [hbottom, hfills.view_eq]
  refine ⟨htop.fresh.modifyCoins txid f, ?_, ?_, ?_, htop.nullifier⟩
  · intro id e he hfresh
    rcases modifyCoins_cases he with hc | ⟨rfl, hmod⟩
    · exact hfills.held (htop.pulled id e hc hfresh)
    · obtain ⟨-, hfe, -⟩ := CCoinsViewCache.modify_eq_some hmod
      exact h.held_entryFor f (hfe ▸ hfresh)
  · intro id e he hd
    rcases modifyCoins_cases he with hc | ⟨rfl, hmod⟩
    · exact htop.clean id e hc hd
    · rw [CCoinsViewCache.dirty_of_modify hmod] at hd
      cases hd
  · intro id e he hd
    rcases modifyCoins_cases he with hc | ⟨rfl, hmod⟩
    · exact htop.modified id e hc hd
    · obtain ⟨hcoins, -, -⟩ := CCoinsViewCache.modify_eq_some hmod
      rw [hcoins]
      exact ⟨CCoins.cleanup_cleanup _, hf _ (h.keeps_entryFor id)⟩

/-- The flat map has the content of a record, if there is any. -/
theorem flat_coins (txid : Uint256) :
    (s.flat P).coins txid = (s.top.contents (s.base P) txid).unspent := by
  have hcoins := CCoinsViewCache.getCoins_getD (s.base P) s.top txid
  unfold CCoinsViewCache.contents
  rw [← hcoins]
  unfold flat view
  dsimp only
  cases (s.top.view (s.base P)).getCoins txid with
  | none => rfl
  | some k => rw [Option.bind_some, Option.getD_some, CCoins.unspent_live]

/-- Modifying a record of a stack modifies it in the flat map. -/
theorem flat_modifyCoins (h : s.Wf P) {txid : Uint256} {f : CCoins → CCoins}
    (hf : ∀ k, k.isPruned = true → (f k).cleanup.unspent = (f {}).cleanup.unspent) :
    (s.modifyCoins P txid f).flat P = (s.flat P).modifyCoins txid f := by
  have hbase : (s.modifyCoins P txid f).base P = s.base P :=
    (fills_modifyCoins P s txid f).view_eq
  have hcoins : ((s.modifyCoins P txid f).flat P).coins =
      ((s.flat P).modifyCoins txid f).coins := by
    funext id
    have hwf : s.top.CacheWf (s.base P) := h.layers.1.fresh
    rw [flat_coins, hbase]
    have hcontents : (s.modifyCoins P txid f).top.contents (s.base P) =
        (s.top.modifyCoins (s.base P) txid f).contents (s.base P) := rfl
    rw [hcontents, CCoinsViewCache.contents_modifyCoins hwf]
    unfold FlatCoins.modifyCoins
    by_cases hid : id = txid
    · subst hid
      simp only [Function.update_self]
      rw [flat_coins, CCoinsViewCache.contents, CCoins.unspent_live, CCoins.unspent_live]
      cases hpr : (s.top.coinsAt (s.base P) id).isPruned with
      | false =>
        have hsome : (s.top.coinsAt (s.base P) id).unspent =
            some (s.top.coinsAt (s.base P) id) := if_neg (by simp [hpr])
        rw [hsome, Option.getD_some]
      | true =>
        rw [CCoins.unspent_of_isPruned hpr, Option.getD_none]
        exact hf _ hpr
    · simp only [Function.update_of_ne hid]
      rw [flat_coins]
  have hnull : ((s.modifyCoins P txid f).flat P).nullifiers = (s.flat P).nullifiers := by
    simp only [flat, view, hbase]
    rfl
  calc (s.modifyCoins P txid f).flat P
      = ⟨((s.modifyCoins P txid f).flat P).coins, ((s.modifyCoins P txid f).flat P).nullifiers⟩ :=
        rfl
    _ = (s.flat P).modifyCoins txid f := by rw [hcoins, hnull]; rfl

/-- Marking nullifiers keeps the layers well formed. -/
theorem Wf.setNullifiers (h : s.Wf P) (tx : CTransaction) (spent : Bool) :
    Wf P { s with top := s.top.setNullifiers tx spent } where
  layers := by
    obtain ⟨htop, hlower⟩ := h.layers
    refine ⟨⟨⟨htop.fresh.fresh, htop.fresh.known, htop.fresh.kept⟩, htop.pulled, htop.clean,
      htop.modified, ?_⟩, hlower⟩
    intro ty nf e he hd
    simp only [CCoinsViewCache.setNullifiers, CCoinsViewCache.markNullifiers] at he
    split at he
    · cases he
      cases hd
    · split at he
      · cases he
        cases hd
      · exact htop.nullifier ty nf e he hd
  bottom := h.bottom

theorem flat_setNullifiers (tx : CTransaction) (spent : Bool) :
    flat P { s with top := s.top.setNullifiers tx spent } =
      (s.flat P).setNullifiers tx spent := by
  unfold flat FlatCoins.setNullifiers
  simp only [FlatCoins.mk.injEq]
  refine ⟨rfl, ?_⟩
  funext ty nf
  simp only [view, base, CCoinsViewCache.view, CCoinsViewCache.setNullifiers,
    CCoinsViewCache.markNullifiers]
  cases ty with
  | sprout =>
    by_cases hnf : nf ∈ tx.nullifiers .sprout
    · simp [hnf]
    · simp [hnf]
  | sapling =>
    by_cases hnf : nf ∈ tx.nullifiers .sapling
    · simp [hnf]
    · simp [hnf]

/-! ## Flushes -/

/-- A flush goes to the next layer or to the database. -/
theorem flush_cases (h : s.flush P = some s') :
    (∃ p lower, s.lower = p :: lower ∧
      s' = { s with top := s.top.clear, lower := p.batchWrite s.top :: lower }) ∨
    (∃ d, s.lower = [] ∧ s.bottom = .db d ∧
      s' = { s with top := s.top.clear, bottom := .db (d.batchWrite P s.top) }) := by
  unfold flush at h
  split at h
  · rename_i p lower hlower
    exact Or.inl ⟨p, lower, hlower, (Option.some.inj h).symm⟩
  · rename_i d hlower hbottom
    exact Or.inr ⟨d, hlower, hbottom, (Option.some.inj h).symm⟩
  · cases h

/-- A cleared layer shows what is below it. -/
theorem view_clear (c : CCoinsViewCache) (v : CCoinsView) :
    (c.clear.view v).getCoins = v.getCoins ∧ (c.clear.view v).getNullifier = v.getNullifier :=
  ⟨rfl, rfl⟩

theorem Wf.flush (h : s.Wf P) (hflush : s.flush P = some s') : s'.Wf P := by
  obtain ⟨htop, hlower⟩ := h.layers
  rcases flush_cases hflush with ⟨p, lower, hl, rfl⟩ | ⟨d, hl, hb, rfl⟩
  · rw [hl] at htop hlower
    refine ⟨⟨Layers.LayerWf.empty rfl rfl, ?_, hlower.2⟩, h.bottom⟩
    exact CCoinsViewCache.layerWf_batchWrite htop hlower.1
  · have hbottom := h.bottom
    simp only [hl, hb] at htop hbottom
    refine ⟨⟨Layers.LayerWf.empty rfl rfl, ?_⟩, ?_⟩
    · rw [hl]
      trivial
    · exact CCoinsViewDB.stored_batchWrite htop hbottom

/-- A flush does not change the flat map. -/
theorem flat_flush (h : s.Wf P) (hflush : s.flush P = some s') : s'.flat P = s.flat P := by
  obtain ⟨htop, hlower⟩ := h.layers
  rcases flush_cases hflush with ⟨p, lower, hl, rfl⟩ | ⟨d, hl, hb, rfl⟩
  · rw [hl] at htop hlower
    unfold flat view base
    rw [hl]
    simp only [FlatCoins.mk.injEq, view_clear, Layers.view]
    constructor
    · funext txid
      exact CCoinsViewCache.unspent_batchWrite htop hlower.1 txid
    · funext ty nf
      exact CCoinsViewCache.getNullifier_batchWrite htop ty nf
  · simp only [hl, hb] at htop
    unfold flat view base
    rw [hl, hb]
    simp only [FlatCoins.mk.injEq, view_clear, Layers.view]
    constructor
    · funext txid
      exact CCoinsViewDB.unspent_batchWrite htop txid
    · funext ty nf
      exact CCoinsViewDB.getNullifier_batchWrite htop ty nf

/-! ## Steps -/

/-- Every step keeps the layers well formed, and the kind of the bottom. -/
theorem Wf.step {op : CacheOp} (h : s.Wf P) (hkept : op.KeptBy s.bottom)
    (hstep : s.step P op = some s') : s'.Wf P ∧ s.bottom.Becomes s'.bottom := by
  have hfilled : ∀ {t : Stack}, Filled P s t → t.Wf P ∧ s.bottom.Becomes t.bottom :=
    fun ht => ⟨ht.wf h, Or.inl ht.bottom⟩
  cases op with
  | fetchCoins txid =>
    cases hstep
    exact hfilled (getCoins_spec P s txid).2
  | getNullifier ty nf =>
    cases hstep
    exact hfilled (getNullifier_spec P s ty nf).2
  | getAnchorAt ty rt =>
    cases hstep
    exact hfilled (getAnchorAt_spec P s ty rt).2
  | getBestBlock =>
    cases hstep
    exact hfilled (getBestBlock_spec P s).2
  | getBestAnchor ty =>
    cases hstep
    exact hfilled (getBestAnchor_spec P s ty).2
  | modifyCoins txid f =>
    cases hstep
    exact ⟨h.modifyCoins hkept, Or.inl rfl⟩
  | setNullifiers tx spent =>
    cases hstep
    exact ⟨h.setNullifiers tx spent, Or.inl rfl⟩
  | setBestBlock hashBlock =>
    cases hstep
    exact ⟨h.withTop rfl rfl, Or.inl rfl⟩
  | pushAnchor ty tree =>
    cases hstep
    obtain ⟨hwf, hkeeps⟩ := hfilled (getBestAnchor_spec P s ty).2
    obtain ⟨hcoins, hnull⟩ := pushAnchor_cacheCoins (P := P)
      ((s.getBestAnchor P ty).2.base P) ty tree (s.getBestAnchor P ty).2.top
    exact ⟨hwf.withTop hcoins hnull, hkeeps⟩
  | popAnchor newrt ty =>
    obtain ⟨s₁, s₂, c, hs₁, hs₂, hcoins, hnull, rfl⟩ := popAnchor_cases hstep
    exact ⟨(hs₂.wf (hs₁.wf h)).withTop hcoins hnull, Or.inl (hs₂.bottom.trans hs₁.bottom)⟩
  | flush =>
    refine ⟨h.flush hstep, ?_⟩
    rcases flush_cases hstep with ⟨p, lower, -, rfl⟩ | ⟨d, -, hb, rfl⟩
    · exact Or.inl rfl
    · exact Or.inr ⟨d, _, hb, rfl⟩
  | push =>
    cases hstep
    exact ⟨⟨⟨Layers.LayerWf.empty rfl rfl, h.layers⟩, h.bottom⟩, Or.inl rfl⟩
  | pop =>
    simp only [Stack.step] at hstep
    cases hl : s.lower with
    | nil =>
      rw [hl] at hstep
      cases hstep
    | cons p lower =>
      rw [hl] at hstep
      cases hstep
      have hlayers := h.layers
      rw [hl] at hlayers
      exact ⟨⟨hlayers.2, h.bottom⟩, Or.inl rfl⟩

/-- A step acts on the flat map, unless it drops the top layer. -/
theorem flat_step {op : CacheOp} (h : s.Wf P) (hop : op.IgnoresSpent) (hpop : op ≠ .pop)
    (hstep : s.step P op = some s') : s'.flat P = (s.flat P).step op := by
  cases op with
  | fetchCoins txid =>
    cases hstep
    exact (getCoins_spec P s txid).2.flat_eq
  | getNullifier ty nf =>
    cases hstep
    exact (getNullifier_spec P s ty nf).2.flat_eq
  | getAnchorAt ty rt =>
    cases hstep
    exact (getAnchorAt_spec P s ty rt).2.flat_eq
  | getBestBlock =>
    cases hstep
    exact (getBestBlock_spec P s).2.flat_eq
  | getBestAnchor ty =>
    cases hstep
    exact (getBestAnchor_spec P s ty).2.flat_eq
  | modifyCoins txid f =>
    cases hstep
    exact flat_modifyCoins h hop
  | setNullifiers tx spent =>
    cases hstep
    exact flat_setNullifiers tx spent
  | setBestBlock hashBlock =>
    cases hstep
    exact flat_withTop rfl rfl
  | pushAnchor ty tree =>
    cases hstep
    obtain ⟨hcoins, hnull⟩ := pushAnchor_cacheCoins (P := P)
      ((s.getBestAnchor P ty).2.base P) ty tree (s.getBestAnchor P ty).2.top
    exact (flat_withTop hcoins hnull).trans (getBestAnchor_spec P s ty).2.flat_eq
  | popAnchor newrt ty =>
    obtain ⟨s₁, s₂, c, hs₁, hs₂, hcoins, hnull, rfl⟩ := popAnchor_cases hstep
    exact (flat_withTop hcoins hnull).trans (hs₂.flat_eq.trans hs₁.flat_eq)
  | flush => exact flat_flush h hstep
  | push =>
    cases hstep
    rfl
  | pop => exact absurd rfl hpop

/-- The layer below the top one takes writes. -/
def canFlush (s : Stack) : Bool :=
  match s.lower, s.bottom with
  | [], .view _ => false
  | _, _ => true

theorem Filled.canFlush_eq (h : Filled P s s') : s'.canFlush = s.canFlush := by
  have hfills := h.fills
  have hb := h.bottom
  unfold canFlush
  rw [hb]
  cases hl : s.lower with
  | nil =>
    rw [hl] at hfills
    cases hl' : s'.lower with
    | nil => rfl
    | cons p lower =>
      rw [hl'] at hfills
      cases hfills with
      | cons hlower _ => cases hlower
  | cons q lower =>
    rw [hl] at hfills
    cases hl' : s'.lower with
    | nil =>
      rw [hl'] at hfills
      cases hfills with
      | cons hlower _ => cases hlower
    | cons p lower => rfl

/-- An operation on the top layer goes through. -/
theorem step_isSome {op : CacheOp} (htop : op.atTop = true) (hflush : op = .flush →
    s.canFlush = true) : ∃ t, s.step P op = some t ∧ t.canFlush = s.canFlush := by
  cases op with
  | fetchCoins txid => exact ⟨_, rfl, (getCoins_spec P s txid).2.canFlush_eq⟩
  | getNullifier ty nf => exact ⟨_, rfl, (getNullifier_spec P s ty nf).2.canFlush_eq⟩
  | getAnchorAt ty rt => exact ⟨_, rfl, (getAnchorAt_spec P s ty rt).2.canFlush_eq⟩
  | getBestBlock => exact ⟨_, rfl, (getBestBlock_spec P s).2.canFlush_eq⟩
  | getBestAnchor ty => exact ⟨_, rfl, (getBestAnchor_spec P s ty).2.canFlush_eq⟩
  | modifyCoins txid f =>
    refine ⟨_, rfl, ?_⟩
    have hfilled : Filled P s { s with lower := (s.modifyCoins P txid f).lower } :=
      ⟨rfl, Layers.Fills.cons (fills_modifyCoins P s txid f) Layers.Fill.refl⟩
    exact hfilled.canFlush_eq
  | setNullifiers tx spent => exact ⟨_, rfl, rfl⟩
  | setBestBlock hashBlock => exact ⟨_, rfl, rfl⟩
  | pushAnchor ty tree =>
    refine ⟨_, rfl, ?_⟩
    exact (getBestAnchor_spec P s ty).2.canFlush_eq
  | popAnchor newrt ty => cases htop
  | flush =>
    have hcan := hflush rfl
    unfold canFlush at hcan
    simp only [Stack.step, flush, canFlush]
    cases hl : s.lower with
    | cons p lower => exact ⟨_, rfl, rfl⟩
    | nil =>
      cases hb : s.bottom with
      | db d => exact ⟨_, rfl, rfl⟩
      | view v =>
        rw [hl, hb] at hcan
        cases hcan
  | push => cases htop
  | pop => cases htop

/-! ## Runs -/

/-- Every run keeps the layers well formed. -/
theorem Wf.run {ops : List CacheOp} (h : s.Wf P) (hkept : ∀ op ∈ ops, op.KeptBy s.bottom)
    (hrun : s.run P ops = some s') : s'.Wf P ∧ s.bottom.Becomes s'.bottom := by
  induction ops generalizing s with
  | nil =>
    cases hrun
    exact ⟨h, Or.inl rfl⟩
  | cons op ops ih =>
    obtain ⟨t, hstep, hrest⟩ := Option.bind_eq_some_iff.1 hrun
    obtain ⟨hwf, hkeeps⟩ := h.step (hkept op List.mem_cons_self) hstep
    obtain ⟨hwf', hkeeps'⟩ := ih hwf
      (fun o ho => (hkept o (List.mem_cons_of_mem op ho)).congr hkeeps) hrest
    exact ⟨hwf', hkeeps.trans hkeeps'⟩

/-- Operations on the top layer go through and act on the flat map. -/
theorem run_flat {ops : List CacheOp} (h : s.Wf P)
    (hops : ∀ op ∈ ops, op.atTop = true ∧ op.KeptBy s.bottom ∧ op.IgnoresSpent)
    (hflush : CacheOp.flush ∈ ops → s.canFlush = true) :
    ∃ t, s.run P ops = some t ∧ t.flat P = (s.flat P).run ops := by
  induction ops generalizing s with
  | nil => exact ⟨s, rfl, rfl⟩
  | cons op ops ih =>
    obtain ⟨htop, hkept, hop⟩ := hops op List.mem_cons_self
    obtain ⟨t, hstep, hcan⟩ := step_isSome (P := P) (s := s) htop
      (fun he => hflush (he ▸ List.mem_cons_self))
    obtain ⟨hwf, hkeeps⟩ := h.step hkept hstep
    have hpop : op ≠ .pop := by
      rintro rfl
      cases htop
    have hflat := flat_step h hop hpop hstep
    obtain ⟨u, hrun, hu⟩ := ih hwf
      (fun o ho => by
        obtain ⟨h1, h2, h3⟩ := hops o (List.mem_cons_of_mem op ho)
        exact ⟨h1, h2.congr hkeeps, h3⟩)
      (fun hf => hcan.trans (hflush (List.mem_cons_of_mem op hf)))
    refine ⟨u, ?_, ?_⟩
    · rw [Stack.run, hstep]
      exact hrun
    · rw [hu, hflat]
      rfl

/-- A record with an output slot is an unspent one, where spent ones are trimmed. -/
theorem haveCoins_eq (h : s.Wf P) (htrim : s.bottom.Trimmed P) (txid : Uint256) :
    (s.haveCoins P txid).1 = ((s.flat P).coins txid).isSome := by
  have hanswer : (s.haveCoins P txid).1 =
      ((s.view P).getCoins txid).any fun k => !k.vout.isEmpty := by
    rw [← (getCoins_spec P s txid).1]
    rfl
  rw [hanswer]
  unfold flat
  dsimp only
  cases hk : (s.view P).getCoins txid with
  | none => rfl
  | some k =>
    rw [Option.any_some, Option.bind_some]
    cases hpr : k.isPruned with
    | true =>
      have hnil : k.vout = [] := Layers.getCoins_of_modified htrim
        (fun k hclean _ hpr => CCoins.vout_eq_nil hclean hpr) h.layers txid k hk hpr
      rw [hnil, CCoins.unspent_of_isPruned hpr]
      rfl
    | false =>
      have hsome : k.unspent = some k := if_neg (by simp [hpr])
      rw [hsome]
      cases hv : k.vout with
      | nil => simp [CCoins.isPruned, hv] at hpr
      | cons o os => rfl

/-- The top layer of any stack that was built from any base answers as the flat map
that received the same modifications, up to fully spent records, and the assertion on
`FRESH` entries holds whenever it is flushed. -/
theorem top_answers_flat (b : Bottom) (hb : b.Kept P) (setup ops : List CacheOp) (s₀ : Stack)
    (hsetup : ∀ op ∈ setup, op.KeptBy b) (h₀ : Stack.run P { bottom := b } setup = some s₀)
    (hops : ∀ op ∈ ops, op.atTop = true ∧ op.KeptBy b ∧ op.IgnoresSpent)
    (hflush : CacheOp.flush ∈ ops → s₀.canFlush = true) :
    ∃ s, s₀.run P ops = some s ∧
      (∀ txid, (s.getCoins P txid).1.bind CCoins.unspent = ((s₀.flat P).run ops).coins txid) ∧
      (b.Trimmed P →
        ∀ txid, (s.haveCoins P txid).1 = (((s₀.flat P).run ops).coins txid).isSome) ∧
      (∀ ty nf, (s.getNullifier P ty nf).1 = ((s₀.flat P).run ops).nullifiers ty nf) ∧
      (∀ p lower, s.lower = p :: lower → p.FreshAsserted s.top) := by
  have hstart : Wf P { bottom := b } := ⟨⟨Layers.LayerWf.empty rfl rfl, trivial⟩, hb⟩
  obtain ⟨hwf₀, hbecomes₀⟩ := hstart.run hsetup h₀
  have hops' : ∀ op ∈ ops, op.atTop = true ∧ op.KeptBy s₀.bottom ∧ op.IgnoresSpent := by
    intro op hop
    obtain ⟨htop, hkept, hspent⟩ := hops op hop
    exact ⟨htop, hkept.congr hbecomes₀, hspent⟩
  obtain ⟨s, hrun, hflat⟩ := run_flat hwf₀ hops' hflush
  obtain ⟨hwf, hbecomes⟩ := hwf₀.run (fun op hop => (hops' op hop).2.1) hrun
  refine ⟨s, hrun, ?_, ?_, ?_, ?_⟩
  · intro txid
    rw [(getCoins_spec P s txid).1, ← hflat]
    rfl
  · intro htrim txid
    rw [← hflat]
    exact haveCoins_eq hwf ((hbecomes₀.trans hbecomes).trimmed htrim hwf.bottom) txid
  · intro ty nf
    rw [(getNullifier_spec P s ty nf).1, ← hflat]
    rfl
  · intro p lower hl
    have hlayers := hwf.layers.1
    rw [hl] at hlayers
    exact CCoinsViewCache.freshAsserted_of_wf hlayers

end Stack

/-! ## A small database -/

/-- A record with one output of height 7. -/
def sampleRecord : CCoins where
  vout := [{ nValue := 5 }]
  nHeight := 7
  nVersion := 1

/-- A database with one record. -/
def sampleDB : CCoinsViewDB where
  coins txid := if txid = 1 then some sampleRecord else none
  nullifiers _ _ := false
  anchors _ _ := none
  bestAnchor _ := none
  bestBlock := none

/-- A view with one fully spent record that is not trimmed. -/
def untrimmedView : CCoinsView where
  getCoins txid := if txid = 1 then some { vout := [CTxOut.null] } else none
  getNullifier _ _ := false
  getAnchorAt _ _ := none
  getBestAnchor _ := 0
  getBestBlock := 0

/-- Hashes for the examples. -/
def sampleHashes : TreeHashes where
  hash _ := { combine := fun a b _ => a + b, uncommitted := 1 }

theorem sampleDB_kept : (Bottom.db sampleDB).Kept sampleHashes := by
  intro txid k hk
  simp only [Bottom.answers, CCoinsViewDB.view, sampleDB] at hk
  split at hk
  · cases hk
    show sampleRecord.stored = sampleRecord
    decide
  · cases hk

namespace Stack

/-- A record replaced in a layer over a cache over the database and flushed twice. -/
theorem replaced_record_answers : ∃ s,
    Stack.run sampleHashes { lower := [{}], bottom := .db sampleDB }
      [.fetchCoins 1, .modifyCoins 1 fun _ => { sampleRecord with nHeight := 9 }, .flush,
        .modifyCoins 2 fun _ => sampleRecord, .flush] = some s ∧
      (s.getCoins sampleHashes 1).1.bind CCoins.unspent =
        some { sampleRecord with nHeight := 9 } := by
  have hkept : ∀ k, k = sampleRecord ∨ k = { sampleRecord with nHeight := 9 } →
      k.cleanup.stored = k.cleanup := by
    rintro k (rfl | rfl)
    · decide
    · decide
  obtain ⟨s, hrun, hcoins, -⟩ := top_answers_flat (P := sampleHashes) (.db sampleDB) sampleDB_kept
    [.push]
    [.fetchCoins 1, .modifyCoins 1 fun _ => { sampleRecord with nHeight := 9 }, .flush,
      .modifyCoins 2 fun _ => sampleRecord, .flush]
    { lower := [{}], bottom := .db sampleDB } (by simp [CacheOp.KeptBy]) rfl
    (by
      intro op hop
      simp only [List.mem_cons, List.not_mem_nil, or_false] at hop
      rcases hop with rfl | rfl | rfl | rfl | rfl
      · exact ⟨rfl, trivial, trivial⟩
      · exact ⟨rfl, fun _ _ => hkept _ (Or.inr rfl), fun _ _ => rfl⟩
      · exact ⟨rfl, trivial, trivial⟩
      · exact ⟨rfl, fun _ _ => hkept _ (Or.inl rfl), fun _ _ => rfl⟩
      · exact ⟨rfl, trivial, trivial⟩)
    (fun _ => rfl)
  refine ⟨s, hrun, (hcoins 1).trans ?_⟩
  decide

/-- What a flat map does not do: a fully spent record is still found, with its height,
by a later modification; one that is not trimmed counts as present; the database does
not keep a negative version; and a flush to a plain view fails. -/
theorem spent_record_keeps_height :
    (Stack.run sampleHashes { bottom := .db sampleDB }
        [.modifyCoins 1 fun k => { k with vout := [] }]).map
        (fun s => (s.getCoins sampleHashes 1).1) =
      some (some { nHeight := 7, nVersion := 1 }) ∧
    (Stack.run sampleHashes { bottom := .db sampleDB }
        [.modifyCoins 1 fun k => { k with vout := [] },
          .modifyCoins 1 fun k => { k with vout := [{ nValue := 5 }] }]).map
        (fun s => (s.getCoins sampleHashes 1).1) = some (some sampleRecord) ∧
    ((flat sampleHashes { bottom := .db sampleDB }).run
        [.modifyCoins 1 fun k => { k with vout := [] },
          .modifyCoins 1 fun k => { k with vout := [{ nValue := 5 }] }]).coins 1 =
      some { vout := [{ nValue := 5 }] } ∧
    (haveCoins sampleHashes { bottom := .view untrimmedView } 1).1 = true ∧
    (flat sampleHashes { bottom := .view untrimmedView }).coins 1 = none ∧
    (Stack.run sampleHashes { bottom := .db sampleDB }
        [.modifyCoins 1 fun k => { k with nVersion := -1 }, .flush]).map
        (fun s => (s.getCoins sampleHashes 1).1) =
      some (some { sampleRecord with nVersion := 127 }) ∧
    flush sampleHashes { bottom := .view untrimmedView } = none := by
  refine ⟨?_, ?_, ?_, ?_, ?_, ?_, rfl⟩ <;> decide +kernel

end Stack

end IndexChain
