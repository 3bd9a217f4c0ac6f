import IndexChain.Core.Traces
import IndexChain.Models.Coins.StackRun

/-!
# Anchors of a stack of caches

The anchors a stack answers with are compared with one flat set: the root of the
latest tree of each pool and the tree of each root that was pushed and not popped
since (`FlatAnchors`). The root of the empty tree is always there.

The layers part from the flat set in four ways. `BatchWriteAnchors` keeps the tree the
parent has for a root, though a child may have pushed another one of the same root;
`BatchWrite` copies a null best anchor; popping the empty root marks it as absent in the
cache, where the database always finds it; and a null root means "ask the base".
`Stack.AnchorsFit` says that an operation does none of these.
-/

namespace IndexChain

/-! ## The flat set -/

/-- The current root of each pool and the trees of the roots that are entered. -/
structure FlatAnchors where
  /-- The root of the latest tree. -/
  current : ShieldedType → Uint256
  /-- The tree of an entered root. -/
  entered : ShieldedType → Uint256 → Option MerkleTree

namespace FlatAnchors

variable (P : TreeHashes)

/-- The tree of a root; the empty root always gives the empty tree. -/
def getAnchorAt (m : FlatAnchors) (ty : ShieldedType) (rt : Uint256) : Option MerkleTree :=
  if rt = P.emptyRoot ty then some {} else m.entered ty rt

/-- Enter a tree and make its root the current one, unless it already is. -/
def pushAnchor (m : FlatAnchors) (ty : ShieldedType) (tree : MerkleTree) : FlatAnchors :=
  if m.current ty = P.root ty tree then m
  else
    { current := Function.update m.current ty (P.root ty tree)
      entered := Function.update m.entered ty
        (Function.update (m.entered ty) (P.root ty tree) (some tree)) }

/-- Remove the current root and go back to `newrt`, unless it is the current one. -/
def popAnchor (m : FlatAnchors) (newrt : Uint256) (ty : ShieldedType) : FlatAnchors :=
  if m.current ty = newrt then m
  else
    { current := Function.update m.current ty newrt
      entered := Function.update m.entered ty
        (Function.update (m.entered ty) (m.current ty) none) }

/-- Only two of the operations concern the flat set. -/
def step (m : FlatAnchors) : CacheOp → FlatAnchors
  | .pushAnchor ty tree => m.pushAnchor P ty tree
  | .popAnchor newrt ty => m.popAnchor newrt ty
  | _ => m

/-- The flat set after a list of operations. -/
def run (m : FlatAnchors) (ops : List CacheOp) : FlatAnchors :=
  ops.foldl (step P) m

/-- The root that an operation pops to is known. -/
def PopsKnown (m : FlatAnchors) : CacheOp → Prop
  | .popAnchor newrt ty => (m.getAnchorAt P ty newrt).isSome = true
  | _ => True

/-- The current roots are known. -/
def Known (m : FlatAnchors) : Prop :=
  ∀ ty, (m.getAnchorAt P ty (m.current ty)).isSome = true

/-- A view answers as the flat set. -/
structure Answered (m : FlatAnchors) (v : CCoinsView) : Prop where
  /-- The current roots. -/
  best : ∀ ty, v.getBestAnchor ty = m.current ty
  /-- The trees. -/
  tree : ∀ ty rt, v.getAnchorAt ty rt = m.getAnchorAt P ty rt

variable {P} {m : FlatAnchors} {v v' : CCoinsView} {op : CacheOp}

/-- Changing one root of one pool leaves the others. -/
theorem update_of_ne {f : ShieldedType → Uint256 → Option MerkleTree} {ty ty' : ShieldedType}
    {rt rt' : Uint256} {o : Option MerkleTree} (h : ¬ (ty' = ty ∧ rt' = rt)) :
    Function.update f ty (Function.update (f ty) rt o) ty' rt' = f ty' rt' := by
  by_cases hty : ty' = ty
  · subst hty
    have hrt : rt' ≠ rt := fun hrt => h ⟨rfl, hrt⟩
    simp [hrt]
  · simp [hty]

theorem Answered.congr (h : m.Answered P v) (hbest : v'.getBestAnchor = v.getBestAnchor)
    (htree : v'.getAnchorAt = v.getAnchorAt) : m.Answered P v' where
  best ty := by
    rw [hbest]
    exact h.best ty
  tree ty rt := by
    rw [htree]
    exact h.tree ty rt

/-- The current roots stay known when pops go to known ones. -/
theorem Known.step (h : m.Known P) (hop : m.PopsKnown P op) : (m.step P op).Known P := by
  cases op with
  | pushAnchor ty tree =>
    simp only [FlatAnchors.step, pushAnchor]
    split
    · exact h
    · intro ty'
      by_cases hty : ty' = ty
      · subst hty
        simp only [getAnchorAt, Function.update_self]
        split
        · rfl
        · rfl
      · simpa only [getAnchorAt, Function.update_of_ne hty] using h ty'
  | popAnchor newrt ty =>
    simp only [FlatAnchors.step, popAnchor]
    split
    · exact h
    · rename_i hne
      intro ty'
      by_cases hty : ty' = ty
      · subst hty
        simp only [getAnchorAt, Function.update_self, Function.update_of_ne (Ne.symm hne)]
        exact hop
      · simpa only [getAnchorAt, Function.update_of_ne hty] using h ty'
  | _ => exact h

theorem run_concat (m : FlatAnchors) (ops : List CacheOp) (op : CacheOp) :
    m.run P (ops ++ [op]) = (m.run P ops).step P op := by
  simp [run]

theorem Known.run {ops : List CacheOp} (h : m.Known P)
    (hops : ∀ pre op, pre ++ [op] <+: ops → (m.run P pre).PopsKnown P op) :
    (m.run P ops).Known P := by
  induction ops using List.reverseRecOn with
  | nil => exact h
  | append_singleton ops op ih =>
    rw [run_concat]
    apply Known.step
    · apply ih
      intro pre op' hpre
      exact hops pre op' (hpre.trans (List.prefix_append ops [op]))
    · exact hops ops op (List.prefix_refl _)

variable (P) in
/-- The anchors of a database. -/
def ofDB (d : CCoinsViewDB) : FlatAnchors where
  current := (d.view P).getBestAnchor
  entered := d.anchors

end FlatAnchors

/-! ## Copies in the layers -/

/-- What an entry answers. -/
def CAnchorsCacheEntry.answer (e : CAnchorsCacheEntry) : Option MerkleTree :=
  if e.entered then some e.tree else none

namespace CCoinsViewCache

variable {base : CCoinsView} {c c' : CCoinsViewCache} {P : TreeHashes}

/-- Unmodified anchors are copies of what is below. -/
def AnchorsCopied (base : CCoinsView) (c : CCoinsViewCache) : Prop :=
  ∀ ty rt e, c.cacheAnchors ty rt = some e → e.dirty = false →
    base.getAnchorAt ty rt = e.answer

variable (base c) in
/-- The trees after an entry is put in. -/
theorem view_putAnchor (ty : ShieldedType) (rt h : Uint256) (e : CAnchorsCacheEntry)
    (ty' : ShieldedType) (rt' : Uint256) :
    (((c.putAnchor ty rt e).setHashAnchor ty h).view base).getAnchorAt ty' rt' =
      if ty' = ty ∧ rt' = rt then e.answer
      else (c.view base).getAnchorAt ty' rt' := by
  by_cases hty : ty' = ty
  · subst hty
    by_cases hrt : rt' = rt
    · subst hrt
      simp [view, putAnchor, setHashAnchor, CAnchorsCacheEntry.answer]
    · simp [view, putAnchor, setHashAnchor, hrt]
  · simp [view, putAnchor, setHashAnchor, hty]

variable (base c) in
/-- The best anchors after a hash is set; a null one asks the base. -/
theorem view_setHashAnchor (ty : ShieldedType) (rt h : Uint256) (e : CAnchorsCacheEntry)
    (ty' : ShieldedType) :
    (((c.putAnchor ty rt e).setHashAnchor ty h).view base).getBestAnchor ty' =
      if ty' = ty then if h = 0 then base.getBestAnchor ty else h
      else (c.view base).getBestAnchor ty' := by
  by_cases hty : ty' = ty
  · subst hty
    simp [view, setHashAnchor]
  · simp [view, putAnchor, setHashAnchor, hty]

theorem AnchorsCopied.put (h : AnchorsCopied base c) {ty : ShieldedType} {rt : Uint256}
    {e : CAnchorsCacheEntry}
    (he : e.dirty = false → base.getAnchorAt ty rt = e.answer) :
    AnchorsCopied base (c.putAnchor ty rt e) := by
  intro ty' rt' e' he' hd
  by_cases hty : ty' = ty
  · subst hty
    by_cases hrt : rt' = rt
    · subst hrt
      simp only [putAnchor, Function.update_self, Option.some.injEq] at he'
      subst he'
      exact he hd
    · simp only [putAnchor, Function.update_self, Function.update_of_ne hrt] at he'
      exact h ty' rt' e' he' hd
  · simp only [putAnchor, Function.update_of_ne hty] at he'
    exact h ty' rt' e' he' hd

theorem pushAnchor_of_ne {ty : ShieldedType} {tree : MerkleTree}
    (h : (c.view base).getBestAnchor ty ≠ P.root ty tree) :
    c.pushAnchor base P ty tree =
      (c.putAnchor ty (P.root ty tree)
        { entered := true, tree := tree, dirty := true }).setHashAnchor ty (P.root ty tree) := by
  rw [pushAnchor, if_neg h]
  rfl

/-- Popping marks the tree of the best anchor as absent. -/
theorem popAnchor_of_ne {newrt : Uint256} {ty : ShieldedType}
    (h : (c.view base).getBestAnchor ty ≠ newrt) (hpop : c.popAnchor base newrt ty = some c') :
    ∃ tree, c' = (c.putAnchor ty ((c.view base).getBestAnchor ty)
      { entered := false, tree := tree, dirty := true }).setHashAnchor ty newrt := by
  rw [popAnchor, if_neg h] at hpop
  split at hpop
  · cases hpop
  · rename_i tree htree
    exact ⟨tree, (Option.some.inj hpop).symm⟩

/-! ### Writing a cache to its parent -/

variable {p : CCoinsViewCache}

/-- The anchors of the parent stay copies. -/
theorem anchorsCopied_batchWrite (h : AnchorsCopied base p) :
    AnchorsCopied base (p.batchWrite c) := by
  intro ty rt e he hd
  simp only [batchWrite] at he
  unfold mergeAnchor at he
  split at he
  · split at he
    · cases he
      cases hd
    · cases he
  · rename_i q hq
    split at he
    · cases he
      cases hd
    · cases he
      exact h ty rt _ hq hd
  · exact h ty rt e he hd

/-- The parent answers a lookup as the child did, unless it had another tree of that root. -/
theorem getAnchorAt_batchWrite_iff (hc : AnchorsCopied (p.view base) c) (ty : ShieldedType)
    (rt : Uint256) :
    ((p.batchWrite c).view base).getAnchorAt ty rt = (c.view (p.view base)).getAnchorAt ty rt ↔
      ∀ e q, c.cacheAnchors ty rt = some e → e.dirty = true → e.entered = true →
        p.cacheAnchors ty rt = some q → q.tree = e.tree := by
  cases he : c.cacheAnchors ty rt with
  | none => simp [view, batchWrite, mergeAnchor, he]
  | some e =>
    cases hd : e.dirty with
    | false =>
      have hcopy := hc ty rt e he hd
      apply iff_of_true
      · cases hq : p.cacheAnchors ty rt with
        | none =>
          simp only [view, hq] at hcopy
          simp [view, batchWrite, mergeAnchor, he, hq, hd, hcopy, CAnchorsCacheEntry.answer]
        | some q =>
          simp only [view, hq] at hcopy
          simp [view, batchWrite, mergeAnchor, he, hq, hd, hcopy, CAnchorsCacheEntry.answer]
      · intro e' q he' hd'
        cases he'
        rw [hd] at hd'
        cases hd'
    | true =>
      cases hq : p.cacheAnchors ty rt with
      | none => simp [view, batchWrite, mergeAnchor, he, hq, hd]
      | some q =>
        -- whether or not the parent's flag changes, it answers with its own tree
        have hafter : ((p.batchWrite c).view base).getAnchorAt ty rt =
            if e.entered then some q.tree else none := by
          cases hq' : q.entered <;> cases he' : e.entered <;>
            simp [view, batchWrite, mergeAnchor, he, hq, hd, hq', he']
        have hbefore : (c.view (p.view base)).getAnchorAt ty rt =
            if e.entered then some e.tree else none := by
          simp only [view, he]
        rw [hafter, hbefore]
        constructor
        · intro heq e' q' he' _ hentered hq'
          cases he'
          cases hq'
          rw [if_pos hentered, if_pos hentered] at heq
          exact Option.some.inj heq
        · intro hsame
          split
          · rename_i hentered
            rw [hsame e q rfl hd hentered rfl]
          · rfl

/-- The best anchor after a null hash is copied. -/
theorem getBestAnchor_batchWrite_iff (ty : ShieldedType) :
    (c.clear.view ((p.batchWrite c).view base)).getBestAnchor ty =
        (c.view (p.view base)).getBestAnchor ty ↔
      (c.hashAnchor ty = 0 → p.hashAnchor ty ≠ 0 → p.hashAnchor ty = base.getBestAnchor ty) := by
  dsimp only [view, clear, batchWrite]
  by_cases hc : c.hashAnchor ty = 0
  · rw [if_pos hc, if_pos hc, if_pos hc]
    by_cases hp : p.hashAnchor ty = 0
    · rw [if_pos hp]
      exact iff_of_true rfl fun _ hne => absurd hp hne
    · rw [if_neg hp]
      exact ⟨fun heq _ _ => heq.symm, fun h => (h hc hp).symm⟩
  · rw [if_neg hc, if_neg hc]
    exact iff_of_true rfl fun hnull => absurd hnull hc

end CCoinsViewCache

namespace Layers

open CCoinsViewCache (AnchorsCopied)

variable {v : CCoinsView} {ls ls' lower : List CCoinsViewCache} {c : CCoinsViewCache}

/-- Unmodified anchors of every layer are copies of what is below it. -/
def AnchorsWf (v : CCoinsView) : List CCoinsViewCache → Prop
  | [] => True
  | c :: lower => AnchorsCopied (view v lower) c ∧ AnchorsWf v lower

/-- The layers hold the same anchors. -/
def SameAnchors : List CCoinsViewCache → List CCoinsViewCache → Prop :=
  List.Forall₂ fun c c' => c'.cacheAnchors = c.cacheAnchors

theorem SameAnchors.refl (ls : List CCoinsViewCache) : SameAnchors ls ls :=
  List.forall₂_same.2 fun _ _ => rfl

/-- Copies of records and nullifiers leave the anchors well formed. -/
theorem AnchorsWf.of_fills {K : CCoins → Prop} (h : AnchorsWf v ls) (hfills : Fills K v ls ls')
    (hsame : SameAnchors ls ls') : AnchorsWf v ls' := by
  induction hfills with
  | nil => trivial
  | cons hlower hc ih =>
    obtain ⟨hcopied, hrest⟩ := h
    rw [SameAnchors, List.forall₂_cons] at hsame
    refine ⟨?_, ih hrest hsame.2⟩
    rw [hlower.view_eq, AnchorsCopied, hsame.1]
    exact hcopied

variable (v) in
theorem sameAnchors_fetchCoins (txid : Uint256) (ls : List CCoinsViewCache) :
    SameAnchors ls (fetchCoins v txid ls).2 := by
  induction ls with
  | nil => exact List.Forall₂.nil
  | cons c lower ih =>
    rw [fetchCoins]
    split
    · exact SameAnchors.refl _
    · split
      · rename_i hf
        rw [hf] at ih
        exact List.Forall₂.cons rfl ih
      · rename_i hf
        rw [hf] at ih
        exact List.Forall₂.cons rfl ih

variable (v) in
theorem sameAnchors_getNullifier (ty : ShieldedType) (nf : Uint256) (ls : List CCoinsViewCache) :
    SameAnchors ls (getNullifier v ty nf ls).2 := by
  induction ls with
  | nil => exact List.Forall₂.nil
  | cons c lower ih =>
    rw [getNullifier]
    split
    · exact SameAnchors.refl _
    · exact List.Forall₂.cons rfl ih

variable (v) in
theorem sameAnchors_getBestBlock (ls : List CCoinsViewCache) :
    SameAnchors ls (getBestBlock v ls).2 := by
  induction ls with
  | nil => exact List.Forall₂.nil
  | cons c lower ih =>
    rw [getBestBlock]
    split
    · exact List.Forall₂.cons rfl ih
    · exact SameAnchors.refl _

variable (v) in
theorem sameAnchors_getBestAnchor (ty : ShieldedType) (ls : List CCoinsViewCache) :
    SameAnchors ls (getBestAnchor v ty ls).2 := by
  induction ls with
  | nil => exact List.Forall₂.nil
  | cons c lower ih =>
    rw [getBestAnchor]
    split
    · exact List.Forall₂.cons rfl ih
    · exact SameAnchors.refl _

/-- A lookup of a tree adds copies. -/
theorem AnchorsWf.getAnchorAt (h : AnchorsWf v ls) (ty : ShieldedType) (rt : Uint256) :
    AnchorsWf v (getAnchorAt v ty rt ls).2 := by
  induction ls with
  | nil => trivial
  | cons c lower ih =>
    obtain ⟨hcopied, hlower⟩ := h
    obtain ⟨hans, hfills⟩ := getAnchorAt_spec (K := fun _ => True) (v := v) ty rt lower
    have hview := hfills.view_eq
    have hrest := ih hlower
    rw [Layers.getAnchorAt]
    split
    · exact ⟨hcopied, hlower⟩
    · split
      · rename_i hf
        rw [hf] at hview hrest
        exact ⟨hview ▸ hcopied, hrest⟩
      · rename_i tree lower' hf
        rw [hf] at hans hview hrest
        refine ⟨?_, hrest⟩
        rw [hview]
        apply hcopied.put
        intro _
        exact hans.symm

end Layers

namespace Stack

variable (P : TreeHashes)

/-- Unmodified anchors of every layer are copies. -/
def AnchorsWf (s : Stack) : Prop :=
  Layers.AnchorsWf (s.bottom.answers P) (s.top :: s.lower)

/-- When an operation acts on the anchors as on the flat set. -/
def AnchorsFit (s : Stack) : CacheOp → Prop
  | .pushAnchor ty tree =>
    (s.view P).getBestAnchor ty ≠ P.root ty tree →
      (P.root ty tree = P.emptyRoot ty → tree = {}) ∧
        (P.root ty tree = 0 → (s.base P).getBestAnchor ty = 0)
  | .popAnchor newrt ty =>
    (s.view P).getBestAnchor ty ≠ newrt →
      (s.view P).getBestAnchor ty ≠ P.emptyRoot ty ∧
        (newrt = 0 → (s.base P).getBestAnchor ty = 0)
  | .flush =>
    match s.lower with
    | [] => True
    | p :: lower =>
      (∀ ty, s.top.hashAnchor ty = 0 → p.hashAnchor ty ≠ 0 →
        p.hashAnchor ty = (Layers.view (s.bottom.answers P) lower).getBestAnchor ty) ∧
      ∀ ty rt e q, s.top.cacheAnchors ty rt = some e → e.dirty = true → e.entered = true →
        p.cacheAnchors ty rt = some q → q.tree = e.tree
  | _ => True

variable {P} {s s' : Stack} {m : FlatAnchors}

theorem Filled.answered (h : Filled P s s') (hans : m.Answered P (s.view P)) :
    m.Answered P (s'.view P) := by
  rw [h.view_eq]
  exact hans

theorem anchorsWf_withLayers {ls : List CCoinsViewCache} (hwf : s.AnchorsWf P)
    (h : Layers.AnchorsWf (s.bottom.answers P) ls) : (s.withLayers ls).AnchorsWf P := by
  cases ls with
  | nil => exact hwf
  | cons c lower => exact h

theorem AnchorsWf.getBestAnchor (h : s.AnchorsWf P) (ty : ShieldedType) :
    (s.getBestAnchor P ty).2.AnchorsWf P := by
  apply anchorsWf_withLayers h
  exact h.of_fills (Layers.getBestAnchor_spec (K := fun _ => True) ty _).2
    (Layers.sameAnchors_getBestAnchor _ ty _)

theorem AnchorsWf.getAnchorAt (h : s.AnchorsWf P) (ty : ShieldedType) (rt : Uint256) :
    (s.getAnchorAt P ty rt).2.AnchorsWf P :=
  anchorsWf_withLayers h (Layers.AnchorsWf.getAnchorAt h ty rt)

theorem Filled.base_eq (h : Filled P s s') : s'.base P = s.base P := by
  unfold base
  rw [h.bottom]
  cases h.fills with
  | cons hlower _ => exact hlower.view_eq

/-! ## Pushes and pops -/

/-- Answers after an entry is put in the top layer and its pool's hash is set. -/
theorem answered_put_iff {ty : ShieldedType} {rt h : Uint256} {e : CAnchorsCacheEntry}
    {m' : FlatAnchors} (hans : m.Answered P (s.view P)) (hcurrent : m'.current ty = h)
    (hentered : m'.getAnchorAt P ty rt = if rt = P.emptyRoot ty then some {} else e.answer)
    (hcurrent' : ∀ ty', ty' ≠ ty → m'.current ty' = m.current ty')
    (hentered' : ∀ ty' rt', ¬ (ty' = ty ∧ rt' = rt) →
      m'.getAnchorAt P ty' rt' = m.getAnchorAt P ty' rt') :
    m'.Answered P (view P { s with top := (s.top.putAnchor ty rt e).setHashAnchor ty h }) ↔
      (rt = P.emptyRoot ty → e.answer = some {}) ∧ (h = 0 → (s.base P).getBestAnchor ty = 0) := by
  have htree := fun ty' rt' =>
    CCoinsViewCache.view_putAnchor (s.base P) s.top ty rt h e ty' rt'
  have hbest := fun ty' =>
    CCoinsViewCache.view_setHashAnchor (s.base P) s.top ty rt h e ty'
  constructor
  · intro hans'
    constructor
    · intro hempty
      have hrt := (htree ty rt).symm.trans (hans'.tree ty rt)
      rw [if_pos ⟨rfl, rfl⟩, hentered, if_pos hempty] at hrt
      exact hrt
    · rintro rfl
      have hnull := (hbest ty).symm.trans (hans'.best ty)
      rw [if_pos rfl, if_pos rfl, hcurrent] at hnull
      exact hnull
  · rintro ⟨hempty, hnull⟩
    constructor
    · intro ty'
      apply (hbest ty').trans
      by_cases hty : ty' = ty
      · subst hty
        rw [if_pos rfl, hcurrent]
        split
        · rename_i hzero
          rw [hnull hzero, hzero]
        · rfl
      · rw [if_neg hty, hcurrent' ty' hty]
        exact hans.best ty'
    · intro ty' rt'
      apply (htree ty' rt').trans
      by_cases hkey : ty' = ty ∧ rt' = rt
      · obtain ⟨rfl, rfl⟩ := hkey
        rw [if_pos ⟨rfl, rfl⟩, hentered]
        split
        · rename_i hrt
          exact hempty hrt
        · rfl
      · rw [if_neg hkey, hentered' ty' rt' hkey]
        exact hans.tree ty' rt'

/-- A push, after the lookup of the best anchor. -/
theorem pushAnchor_anchors (hwf : s.AnchorsWf P) (hans : m.Answered P (s.view P))
    (ty : ShieldedType) (tree : MerkleTree) :
    (s.pushAnchor P ty tree).AnchorsWf P ∧ (s.pushAnchor P ty tree).bottom = s.bottom ∧
      ((m.pushAnchor P ty tree).Answered P ((s.pushAnchor P ty tree).view P) ↔
        s.AnchorsFit P (.pushAnchor ty tree)) := by
  have hfill := (getBestAnchor_spec P s ty).2
  have hwf₁ := hwf.getBestAnchor ty
  have hans₁ := hfill.answered hans
  unfold AnchorsFit Stack.pushAnchor
  rw [← hfill.base_eq, ← hfill.view_eq]
  generalize (s.getBestAnchor P ty).2 = s₁ at *
  dsimp only
  by_cases hroot : (s₁.view P).getBestAnchor ty = P.root ty tree
  · have hcurrent : m.current ty = P.root ty tree := (hans₁.best ty).symm.trans hroot
    have hsame : s₁.top.pushAnchor (s₁.base P) P ty tree = s₁.top := by
      rw [CCoinsViewCache.pushAnchor]
      exact if_pos hroot
    rw [hsame, FlatAnchors.pushAnchor, if_pos hcurrent]
    exact ⟨hwf₁, hfill.bottom, fun _ hne => absurd hroot hne, fun _ => hans₁⟩
  · have hcurrent : m.current ty ≠ P.root ty tree := by
      rw [← hans₁.best ty]
      exact hroot
    rw [CCoinsViewCache.pushAnchor_of_ne hroot, FlatAnchors.pushAnchor, if_neg hcurrent]
    refine ⟨⟨hwf₁.1.put nofun, hwf₁.2⟩, hfill.bottom, ?_⟩
    rw [answered_put_iff hans₁ (by simp) (by simp [FlatAnchors.getAnchorAt,
      CAnchorsCacheEntry.answer]) (fun ty' hty => by simp [hty]) ?_]
    · simp [CAnchorsCacheEntry.answer, hroot]
    · intro ty' rt' hkey
      simp only [FlatAnchors.getAnchorAt, FlatAnchors.update_of_ne hkey]

/-- A pop, after the lookups of the best anchor and of its tree. -/
theorem popAnchor_anchors (hwf : s.AnchorsWf P) (hans : m.Answered P (s.view P))
    {newrt : Uint256} {ty : ShieldedType} (h : s.popAnchor P newrt ty = some s') :
    s'.AnchorsWf P ∧ s'.bottom = s.bottom ∧
      ((m.popAnchor newrt ty).Answered P (s'.view P) ↔ s.AnchorsFit P (.popAnchor newrt ty)) := by
  obtain ⟨hroot, hfill⟩ := getBestAnchor_spec P s ty
  have hwf₁ := hwf.getBestAnchor ty
  have hcurrent : (s.view P).getBestAnchor ty = m.current ty := hans.best ty
  have hans₁ := hfill.answered hans
  unfold Stack.popAnchor at h
  unfold AnchorsFit
  rw [← hfill.base_eq, ← hfill.view_eq]
  rw [← hfill.view_eq] at hroot hcurrent
  generalize s.getBestAnchor P ty = best at *
  obtain ⟨currentRoot, s₁⟩ := best
  dsimp only at *
  rw [← hroot] at hcurrent ⊢
  by_cases hne : currentRoot = newrt
  · rw [if_pos hne, CCoinsViewCache.popAnchor] at h
    obtain ⟨c, hc, rfl⟩ := Option.map_eq_some_iff.1 h
    have hbest : (s₁.top.view (s₁.base P)).getBestAnchor ty = newrt := hroot.symm.trans hne
    rw [if_pos hbest] at hc
    cases hc
    rw [FlatAnchors.popAnchor, if_pos (hcurrent.symm.trans hne)]
    exact ⟨hwf₁, hfill.bottom, fun _ hne' => absurd hne hne', fun _ => hans₁⟩
  · rw [if_neg hne] at h
    obtain ⟨c, hc, rfl⟩ := Option.map_eq_some_iff.1 h
    have hfill₂ := (getAnchorAt_spec P s₁ ty currentRoot).2
    have hwf₂ := hwf₁.getAnchorAt ty currentRoot
    have hans₂ := hfill₂.answered hans₁
    rw [← hfill₂.view_eq] at hroot
    rw [← hfill₂.base_eq]
    generalize (s₁.getAnchorAt P ty currentRoot).2 = s₂ at *
    have hbest : (s₂.top.view (s₂.base P)).getBestAnchor ty = currentRoot := hroot.symm
    obtain ⟨tree, rfl⟩ := CCoinsViewCache.popAnchor_of_ne (hbest.trans_ne hne) hc
    rw [hbest, FlatAnchors.popAnchor, if_neg (hcurrent ▸ hne), ← hcurrent]
    refine ⟨⟨hwf₂.1.put nofun, hwf₂.2⟩, hfill₂.bottom.trans hfill.bottom, ?_⟩
    rw [answered_put_iff hans₂ (by simp) (by simp [FlatAnchors.getAnchorAt,
      CAnchorsCacheEntry.answer]) (fun ty' hty => by simp [hty]) ?_]
    · simp [CAnchorsCacheEntry.answer, hne]
    · intro ty' rt' hkey
      simp only [FlatAnchors.getAnchorAt, FlatAnchors.update_of_ne hkey]

/-! ## Flushes -/

/-- The database answers as the cache did, if that finds the empty tree. -/
theorem getAnchorAt_batchWriteDB {d : CCoinsViewDB} {c : CCoinsViewCache}
    (hc : CCoinsViewCache.AnchorsCopied (d.view P) c) (ty : ShieldedType) (rt : Uint256)
    (hempty : (c.view (d.view P)).getAnchorAt ty (P.emptyRoot ty) = some {}) :
    ((d.batchWrite P c).view P).getAnchorAt ty rt = (c.view (d.view P)).getAnchorAt ty rt := by
  by_cases hrt : rt = P.emptyRoot ty
  · rw [hrt, hempty]
    simp [CCoinsViewDB.view]
  · cases he : c.cacheAnchors ty rt with
    | none => simp [CCoinsViewDB.view, CCoinsViewDB.batchWrite, CCoinsViewCache.view, he]
    | some e =>
      cases hd : e.dirty with
      | false =>
        have hcopy := hc ty rt e he hd
        simp only [CCoinsViewDB.view, if_neg hrt] at hcopy
        simp [CCoinsViewDB.view, CCoinsViewDB.batchWrite, CCoinsViewCache.view, he, hd, hrt, hcopy,
          CAnchorsCacheEntry.answer]
      | true =>
        simp [CCoinsViewDB.view, CCoinsViewDB.batchWrite, CCoinsViewCache.view, he, hd, hrt]

theorem getBestAnchor_batchWriteDB {d : CCoinsViewDB} {c : CCoinsViewCache} (ty : ShieldedType) :
    (c.clear.view ((d.batchWrite P c).view P)).getBestAnchor ty =
      (c.view (d.view P)).getBestAnchor ty := by
  dsimp only [CCoinsViewCache.view, CCoinsViewCache.clear, CCoinsViewDB.view,
    CCoinsViewDB.batchWrite]
  split
  · rfl
  · rfl

/-- A flush keeps the answers where the trees fit. -/
theorem flush_anchors (hwf : s.AnchorsWf P) (hdb : ∃ d, s.bottom = .db d)
    (hans : m.Answered P (s.view P)) (h : s.flush P = some s') :
    s'.AnchorsWf P ∧ (∃ d, s'.bottom = .db d) ∧
      (m.Answered P (s'.view P) ↔ s.AnchorsFit P .flush) := by
  have hcleared : ∀ {base : CCoinsView}, CCoinsViewCache.AnchorsCopied base s.top.clear := by
    intro base ty rt e he
    cases he
  rcases flush_cases h with ⟨p, lower, hl, rfl⟩ | ⟨d, hl, hb, rfl⟩
  · obtain ⟨htop, hlower⟩ := hwf
    rw [hl] at htop hlower
    refine ⟨⟨hcleared, CCoinsViewCache.anchorsCopied_batchWrite hlower.1, hlower.2⟩, hdb, ?_⟩
    simp only [AnchorsFit, hl]
    unfold Stack.view base at hans
    rw [hl] at hans
    constructor
    · intro hans'
      constructor
      · intro ty
        apply (CCoinsViewCache.getBestAnchor_batchWrite_iff ty).1
        exact (hans'.best ty).trans (hans.best ty).symm
      · intro ty rt
        apply (CCoinsViewCache.getAnchorAt_batchWrite_iff htop ty rt).1
        exact (hans'.tree ty rt).trans (hans.tree ty rt).symm
    · rintro ⟨hbest, htree⟩
      constructor
      · intro ty
        exact ((CCoinsViewCache.getBestAnchor_batchWrite_iff ty).2 (hbest ty)).trans (hans.best ty)
      · intro ty rt
        exact ((CCoinsViewCache.getAnchorAt_batchWrite_iff htop ty rt).2 (htree ty rt)).trans
          (hans.tree ty rt)
  · simp only [AnchorsFit, hl, iff_true]
    obtain ⟨htop, -⟩ := hwf
    rw [hl, hb] at htop
    unfold Stack.view base at hans ⊢
    rw [hl, hb] at hans
    have hempty : ∀ ty, (s.top.view (d.view P)).getAnchorAt ty (P.emptyRoot ty) = some {} := by
      intro ty
      apply (hans.tree ty _).trans
      simp [FlatAnchors.getAnchorAt]
    refine ⟨⟨hcleared, trivial⟩, ⟨_, rfl⟩, ?_⟩
    constructor
    · intro ty
      exact (getBestAnchor_batchWriteDB ty).trans (hans.best ty)
    · intro ty rt
      exact (getAnchorAt_batchWriteDB htop ty rt (hempty ty)).trans (hans.tree ty rt)

/-! ## Steps -/

theorem modifyCoins_anchors (hwf : s.AnchorsWf P) (txid : Uint256) (f : CCoins → CCoins) :
    (s.modifyCoins P txid f).AnchorsWf P ∧
      ((s.modifyCoins P txid f).view P).getBestAnchor = (s.view P).getBestAnchor ∧
      ((s.modifyCoins P txid f).view P).getAnchorAt = (s.view P).getAnchorAt := by
  have hview := (fills_modifyCoins P s txid f).view_eq
  have hbase : (s.modifyCoins P txid f).base P = s.base P := hview
  refine ⟨⟨?_, ?_⟩, ?_, ?_⟩
  · have hcopied := hwf.1
    rw [← hview] at hcopied
    exact hcopied
  · unfold Stack.modifyCoins
    dsimp only
    split
    · exact hwf.2
    · exact hwf.2.of_fills (Layers.fetchCoins_spec (K := fun _ => True) txid _).2.1
        (Layers.sameAnchors_fetchCoins _ txid _)
  · unfold view
    rw [hbase]
    rfl
  · unfold view
    rw [hbase]
    rfl

/-- A step keeps copies copies, and acts on the answers as on the flat set just when it fits. -/
theorem step_anchors {op : CacheOp} (hwf : s.AnchorsWf P) (hdb : ∃ d, s.bottom = .db d)
    (hans : m.Answered P (s.view P)) (hpop : op ≠ .pop) (hstep : s.step P op = some s') :
    s'.AnchorsWf P ∧ (∃ d, s'.bottom = .db d) ∧
      ((m.step P op).Answered P (s'.view P) ↔ s.AnchorsFit P op) := by
  have hlookup : ∀ {t : Stack}, Filled P s t → t.AnchorsWf P → t.AnchorsWf P ∧
      (∃ d, t.bottom = .db d) ∧ (m.Answered P (t.view P) ↔ True) := by
    intro t hfill ht
    exact ⟨ht, hfill.bottom ▸ hdb, iff_true_intro (hfill.answered hans)⟩
  cases op with
  | fetchCoins txid =>
    cases hstep
    apply hlookup (getCoins_spec P s txid).2
    exact anchorsWf_withLayers hwf (hwf.of_fills
      (Layers.fetchCoins_spec (K := fun _ => True) txid _).2.1
      (Layers.sameAnchors_fetchCoins _ txid _))
  | getNullifier ty nf =>
    cases hstep
    apply hlookup (getNullifier_spec P s ty nf).2
    exact anchorsWf_withLayers hwf (hwf.of_fills
      (Layers.getNullifier_spec (K := fun _ => True) ty nf _).2
      (Layers.sameAnchors_getNullifier _ ty nf _))
  | getAnchorAt ty rt =>
    cases hstep
    exact hlookup (getAnchorAt_spec P s ty rt).2 (hwf.getAnchorAt ty rt)
  | getBestBlock =>
    cases hstep
    apply hlookup (getBestBlock_spec P s).2
    exact anchorsWf_withLayers hwf (hwf.of_fills
      (Layers.getBestBlock_spec (K := fun _ => True) _).2 (Layers.sameAnchors_getBestBlock _ _))
  | getBestAnchor ty =>
    cases hstep
    exact hlookup (getBestAnchor_spec P s ty).2 (hwf.getBestAnchor ty)
  | modifyCoins txid f =>
    cases hstep
    obtain ⟨hwf', hbest, htree⟩ := modifyCoins_anchors hwf txid f
    exact ⟨hwf', hdb, iff_true_intro (hans.congr hbest htree)⟩
  | setNullifiers tx spent =>
    cases hstep
    exact ⟨hwf, hdb, iff_true_intro (hans.congr rfl rfl)⟩
  | setBestBlock hashBlock =>
    cases hstep
    exact ⟨hwf, hdb, iff_true_intro (hans.congr rfl rfl)⟩
  | pushAnchor ty tree =>
    cases hstep
    obtain ⟨hwf', hbottom, hiff⟩ := pushAnchor_anchors hwf hans ty tree
    exact ⟨hwf', hbottom ▸ hdb, hiff⟩
  | popAnchor newrt ty =>
    obtain ⟨hwf', hbottom, hiff⟩ := popAnchor_anchors hwf hans hstep
    exact ⟨hwf', hbottom ▸ hdb, hiff⟩
  | flush => exact flush_anchors hwf hdb hans hstep
  | push =>
    cases hstep
    refine ⟨⟨?_, hwf⟩, hdb, iff_true_intro (hans.congr rfl rfl)⟩
    intro ty rt e he
    cases he
  | pop => exact absurd rfl hpop

theorem canFlush_of_db (hdb : ∃ d, s.bottom = .db d) : s.canFlush = true := by
  obtain ⟨d, hd⟩ := hdb
  unfold canFlush
  rw [hd]
  cases s.lower with
  | nil => rfl
  | cons p lower => rfl

/-- The assertion of a pop holds when the current roots are known. -/
theorem popAnchor_succeeds (hans : m.Answered P (s.view P)) (hknown : m.Known P)
    (newrt : Uint256) (ty : ShieldedType) : ∃ s', s.popAnchor P newrt ty = some s' := by
  obtain ⟨hroot, hfill⟩ := getBestAnchor_spec P s ty
  have hans₁ := hfill.answered hans
  unfold Stack.popAnchor
  generalize s.getBestAnchor P ty = best at *
  obtain ⟨currentRoot, s₁⟩ := best
  dsimp only at *
  rw [hans.best ty] at hroot
  subst hroot
  by_cases hne : m.current ty = newrt
  · rw [if_pos hne, CCoinsViewCache.popAnchor]
    have hbest : (s₁.top.view (s₁.base P)).getBestAnchor ty = newrt :=
      (hans₁.best ty).trans hne
    rw [if_pos hbest]
    exact ⟨_, rfl⟩
  · rw [if_neg hne]
    have hans₂ := (getAnchorAt_spec P s₁ ty (m.current ty)).2.answered hans₁
    generalize (s₁.getAnchorAt P ty (m.current ty)).2 = s₂ at *
    have hbest : (s₂.top.view (s₂.base P)).getBestAnchor ty = m.current ty := hans₂.best ty
    obtain ⟨tree, htree⟩ := Option.isSome_iff_exists.1 (hknown ty)
    have hfound : (s₂.top.view (s₂.base P)).getAnchorAt ty (m.current ty) = some tree :=
      (hans₂.tree ty _).trans htree
    rw [CCoinsViewCache.popAnchor, hbest, if_neg hne, hfound]
    exact ⟨_, rfl⟩

theorem step_succeeds {op : CacheOp} (hdb : ∃ d, s.bottom = .db d)
    (hans : m.Answered P (s.view P)) (hknown : m.Known P) (hpop : op ≠ .pop) :
    ∃ s', s.step P op = some s' := by
  by_cases htop : op.atTop = true
  · obtain ⟨s', hs', -⟩ := step_isSome (P := P) htop fun _ => canFlush_of_db hdb
    exact ⟨s', hs'⟩
  · cases op with
    | popAnchor newrt ty => exact popAnchor_succeeds hans hknown newrt ty
    | push => exact ⟨_, rfl⟩
    | pop => exact absurd rfl hpop
    | _ => exact absurd rfl htop

/-! ## Whole runs -/

theorem run_concat (s : Stack) (ops : List CacheOp) (op : CacheOp) :
    s.run P (ops ++ [op]) = (s.run P ops).bind fun s => s.step P op := by
  induction ops generalizing s with
  | nil => cases h : s.step P op <;> simp [run, h]
  | cons op' ops ih =>
    rw [List.cons_append, run, run, Option.bind_assoc]
    congr 1
    funext s₁
    exact ih s₁

theorem runsTo_iff (m' : FlatAnchors) (ops : List CacheOp) :
    Core.RunsTo (fun (x : Stack × FlatAnchors) op y =>
        x.1.step P op = some y.1 ∧ y.2 = x.2.step P op) (s, m) ops (s', m') ↔
      s.run P ops = some s' ∧ m' = m.run P ops := by
  induction ops generalizing s m with
  | nil =>
    rw [Core.RunsTo, run, FlatAnchors.run, Prod.mk.injEq, Option.some.injEq, List.foldl_nil,
      eq_comm (a := s)]
  | cons op ops ih =>
    rw [Core.RunsTo, run, Option.bind_eq_some_iff]
    constructor
    · rintro ⟨⟨s₁, m₁⟩, ⟨hs, rfl⟩, hrun⟩
      obtain ⟨hrun', hm⟩ := ih.1 hrun
      exact ⟨⟨s₁, hs, hrun'⟩, hm⟩
    · rintro ⟨⟨s₁, hs, hrun⟩, hm⟩
      exact ⟨(s₁, m.step P op), ⟨hs, rfl⟩, ih.2 ⟨hrun, hm⟩⟩

/-- A stack that answers as the flat set. -/
theorem answered_iff_lookups :
    m.Answered P (s.view P) ↔
      ∀ ty, (s.getBestAnchor P ty).1 = m.current ty ∧
        ∀ rt, (s.getAnchorAt P ty rt).1 = m.getAnchorAt P ty rt := by
  simp only [(getBestAnchor_spec P s _).1, (getAnchorAt_spec P s _ _).1]
  constructor
  · intro h ty
    exact ⟨h.best ty, h.tree ty⟩
  · intro h
    exact ⟨fun ty => (h ty).1, fun ty => (h ty).2⟩

theorem answered_ofDB (d : CCoinsViewDB) :
    (FlatAnchors.ofDB P d).Answered P (view P { bottom := .db d }) where
  best _ := rfl
  tree _ _ := rfl

/-- No operation fails as long as the states answer as the flat set. -/
theorem run_exists {d : CCoinsViewDB} {ops : List CacheOp}
    (hempty : CCoinsViewCache.AnchorsCopied (d.view P) {}) (hpop : CacheOp.pop ∉ ops)
    (hknown : ∀ pre, pre <+: ops → (m.run P pre).Known P)
    (hans : ∀ pre s, pre <+: ops → Stack.run P { bottom := .db d } pre = some s →
      (m.run P pre).Answered P (s.view P)) (pre : List CacheOp) (hpre : pre <+: ops) :
    ∃ s, Stack.run P { bottom := .db d } pre = some s ∧ s.AnchorsWf P ∧
      ∃ d', s.bottom = .db d' := by
  induction pre using List.reverseRecOn with
  | nil => exact ⟨_, rfl, ⟨hempty, trivial⟩, d, rfl⟩
  | append_singleton pre op ih =>
    have hpre' : pre <+: ops := (List.prefix_append pre [op]).trans hpre
    obtain ⟨s, hs, hwf, hdb⟩ := ih hpre'
    have hnepop : op ≠ .pop := by
      rintro rfl
      exact hpop (hpre.subset (by simp))
    obtain ⟨s', hs'⟩ := step_succeeds hdb (hans pre s hpre' hs) (hknown pre hpre') hnepop
    obtain ⟨hwf', hdb', -⟩ := step_anchors hwf hdb (hans pre s hpre' hs) hnepop hs'
    refine ⟨s', ?_, hwf', hdb'⟩
    rw [run_concat, hs]
    exact hs'

/-- The layers over a database answer as the flat set after every operation just when
every operation fits. -/
theorem top_answers_flatAnchors (P : TreeHashes) (d : CCoinsViewDB) (ops : List CacheOp)
    (hpop : CacheOp.pop ∉ ops) (hbest : (FlatAnchors.ofDB P d).Known P)
    (hknown : ∀ pre op, pre ++ [op] <+: ops →
      ((FlatAnchors.ofDB P d).run P pre).PopsKnown P op) :
    (∀ pre, pre <+: ops → ∃ s, Stack.run P { bottom := .db d } pre = some s ∧
        ∀ ty, (s.getBestAnchor P ty).1 = ((FlatAnchors.ofDB P d).run P pre).current ty ∧
          ∀ rt, (s.getAnchorAt P ty rt).1 =
            ((FlatAnchors.ofDB P d).run P pre).getAnchorAt P ty rt) ↔
      ∀ pre op s, pre ++ [op] <+: ops → Stack.run P { bottom := .db d } pre = some s →
        s.AnchorsFit P op := by
  have hknown' : ∀ pre, pre <+: ops → ((FlatAnchors.ofDB P d).run P pre).Known P := by
    intro pre hpre
    apply hbest.run
    intro q op hq
    exact hknown q op (hq.trans hpre)
  have hne : ∀ pre op, pre ++ [op] <+: ops → op ≠ .pop := by
    rintro pre op hpre rfl
    exact hpop (hpre.subset (by simp))
  have hempty : CCoinsViewCache.AnchorsCopied (d.view P) {} := by
    intro ty rt e he
    cases he
  have hiff := Core.good_iff_fit (l := ops)
    (fun (x : Stack × FlatAnchors) op y => x.1.step P op = some y.1 ∧ y.2 = x.2.step P op)
    (fun x => x.1.AnchorsWf P ∧ ∃ d, x.1.bottom = .db d)
    (fun x => x.2.Answered P (x.1.view P)) (fun x op => x.1.AnchorsFit P op)
    (s := ({ bottom := .db d }, FlatAnchors.ofDB P d))
    (by
      rintro op hop ⟨s, m⟩ ⟨s', m'⟩ ⟨hwf, hdb⟩ hans ⟨hs, rfl⟩
      have hnepop : op ≠ .pop := by
        rintro rfl
        exact hpop hop
      obtain ⟨hwf', hdb', hstep⟩ := step_anchors hwf hdb hans hnepop hs
      exact ⟨⟨hwf', hdb'⟩, hstep⟩)
    (by
      rintro pre op ⟨s, m⟩ hpre hrun ⟨-, hdb⟩ hans
      obtain ⟨-, rfl⟩ := (runsTo_iff _ pre).1 hrun
      obtain ⟨s', hs'⟩ := step_succeeds hdb hans
        (hknown' pre ((List.prefix_append pre [op]).trans hpre)) (hne pre op hpre)
      exact Or.inl ⟨(s', _), hs', rfl⟩)
    ⟨⟨hempty, trivial⟩, d, rfl⟩ (answered_ofDB d)
  constructor
  · intro hall pre op s hpre hrun
    apply hiff.1 _ pre op (s, (FlatAnchors.ofDB P d).run P pre) hpre
    · exact (runsTo_iff _ pre).2 ⟨hrun, rfl⟩
    · rintro q ⟨s', m'⟩ hq hrun'
      obtain ⟨hs', rfl⟩ := (runsTo_iff m' q).1 hrun'
      obtain ⟨s'', hs'', hans⟩ := hall q hq
      rw [hs'] at hs''
      cases hs''
      exact answered_iff_lookups.2 hans
  · intro hfit
    have hgood := hiff.2 (by
      rintro pre op ⟨s, m⟩ hpre hrun
      exact hfit pre op s hpre ((runsTo_iff m pre).1 hrun).1)
    have hans : ∀ pre s, pre <+: ops → Stack.run P { bottom := .db d } pre = some s →
        ((FlatAnchors.ofDB P d).run P pre).Answered P (s.view P) := by
      intro pre s hpre hrun
      exact hgood pre (s, _) hpre ((runsTo_iff _ pre).2 ⟨hrun, rfl⟩)
    intro pre hpre
    obtain ⟨s, hs, -⟩ := run_exists hempty hpop hknown' hans pre hpre
    exact ⟨s, hs, answered_iff_lookups.1 (hans pre s hpre hs)⟩

/-- A tree of one leaf pushed through two layers, flushed and popped again. -/
def pushedAndPopped : List CacheOp :=
  [.push, .pushAnchor .sprout { left := some 5 }, .flush,
    .popAnchor (sampleHashes.emptyRoot .sprout) .sprout]

/-- The anchors of a tree that fits, through a flush and a pop. -/
theorem pushedAndPopped_answers : ∃ s,
    Stack.run sampleHashes { bottom := .db sampleDB } pushedAndPopped = some s ∧
      ∀ ty, (s.getBestAnchor sampleHashes ty).1 =
          ((FlatAnchors.ofDB sampleHashes sampleDB).run sampleHashes pushedAndPopped).current ty ∧
        ∀ rt, (s.getAnchorAt sampleHashes ty rt).1 =
          ((FlatAnchors.ofDB sampleHashes sampleDB).run sampleHashes
            pushedAndPopped).getAnchorAt sampleHashes ty rt := by
  refine (top_answers_flatAnchors sampleHashes sampleDB pushedAndPopped ?_ ?_ ?_).2 ?_ _
    (List.prefix_refl _)
  · simp [pushedAndPopped]
  · intro ty
    cases ty <;> decide +kernel
  · intro pre op hpre
    rcases pre with _ | ⟨_, _ | ⟨_, _ | ⟨_, _ | ⟨_, pre⟩⟩⟩⟩ <;>
      simp [pushedAndPopped, List.cons_prefix_cons] at hpre
    · subst hpre
      trivial
    · obtain ⟨rfl, rfl⟩ := hpre
      trivial
    · obtain ⟨rfl, rfl, rfl⟩ := hpre
      trivial
    · obtain ⟨rfl, rfl, rfl, rfl⟩ := hpre
      simp [FlatAnchors.PopsKnown, FlatAnchors.getAnchorAt]
  · intro pre op s hpre hrun
    have hnull : sampleHashes.emptyRoot .sprout ≠ 0 := by decide +kernel
    rcases pre with _ | ⟨_, _ | ⟨_, _ | ⟨_, _ | ⟨_, pre⟩⟩⟩⟩ <;>
      simp [pushedAndPopped, List.cons_prefix_cons] at hpre
    · subst hpre
      trivial
    · obtain ⟨rfl, rfl⟩ := hpre
      exact fun _ => ⟨fun h => absurd h (by decide +kernel), fun h => absurd h (by decide +kernel)⟩
    · obtain ⟨rfl, rfl, rfl⟩ := hpre
      cases hrun
      constructor
      · intro ty
        cases ty with
        | sprout => exact fun h => absurd h (by decide +kernel)
        | sapling => exact fun _ h => absurd rfl h
      · intro ty rt e q _ _ _ hq
        cases hq
    · obtain ⟨rfl, rfl, rfl, rfl⟩ := hpre
      exact fun hne => ⟨hne, fun h => absurd h hnull⟩

/-- A parent whose latest Sapling anchor is not flushed yet loses it to a child that only
pushes a Sprout one: the child hands on a null Sapling anchor. -/
theorem flush_loses_best_anchor : ∃ s,
    Stack.run sampleHashes { bottom := .db sampleDB }
        [.pushAnchor .sapling { left := some 5 }, .push, .pushAnchor .sprout { left := some 5 },
          .flush] = some s ∧
      (s.getBestAnchor sampleHashes .sapling).1 ≠
        ((FlatAnchors.ofDB sampleHashes sampleDB).run sampleHashes
          [.pushAnchor .sapling { left := some 5 }, .push,
            .pushAnchor .sprout { left := some 5 }, .flush]).current .sapling := by
  refine ⟨_, rfl, ?_⟩
  decide +kernel

end Stack

end IndexChain
