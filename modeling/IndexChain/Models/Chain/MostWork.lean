import IndexChain.Core.Upward
import IndexChain.Models.Chain.CandidateRun

/-!
# The chain with the most work

`FindMostWorkChain` of `main.cpp`: it takes the best candidate whose blocks up to the
active chain are neither failed nor without data, and discards the better ones it meets.
A failed assertion gives `none`. `ids` lists the blocks of `mapBlockIndex`; the candidates
are looked for among them. `pindexBestInvalid`, which only warnings read, is left out.
-/

namespace IndexChain.Chain

open BlockStatus

theorem CBlockIndex.hasData_orStatus {e : CBlockIndex} {flag : BlockStatus}
    (h : flag &&& haveData = 0#32) : (e.orStatus flag).hasData = e.hasData := by
  simp only [hasData, orStatus]
  rw [BitVec.and_or_distrib_right, h, BitVec.or_zero]

namespace ChainState

variable (env : TipEnv) (s : ChainState)

/-- The predecessor of a block. -/
def pprev (hash : Uint256) : Option Uint256 :=
  (s.tree.find hash).bind CBlockIndex.pprev

/-- The block is in the active chain. -/
def isActive (hash : Uint256) : Bool :=
  s.chainActive.contains s.tree hash

/-- `fFailedChain`. -/
def failedChain (hash : Uint256) : Bool :=
  (s.tree.find hash).elim false CBlockIndex.failed

/-- `fMissingData`. -/
def missingData (hash : Uint256) : Bool :=
  (s.tree.find hash).elim false fun e => !e.hasData

/-- A chain with the block in it is not usable. -/
def unusable (hash : Uint256) : Bool :=
  s.failedChain hash || s.missingData hash

/-- The better one of two blocks, if there are two. -/
def better (hash : Uint256) : Option Uint256 → Option Uint256
  | none => some hash
  | some best => if s.workLess env best hash then some hash else some best

/-- The last element of `setBlockIndexCandidates`. -/
def greatestCandidate (ids : List Uint256) : Option Uint256 :=
  (ids.filter s.setBlockIndexCandidates).foldr (s.better env) none

/-- The block and its ancestors. -/
def pathUp (hash : Uint256) : List Uint256 :=
  Upward.way s.pprev ((s.heightOf hash).toNat + 1) hash

/-- The walk from the candidate to the active chain, up to a block that is not usable. -/
def scanPath : List Uint256 → Option (Option Uint256)
  | [] => some none
  | pindexTest :: rest =>
    if s.isActive pindexTest then some none
    else if s.nChainTx pindexTest = 0 ∧ s.heightOf pindexTest ≠ 0 then none
    else if s.unusable pindexTest then some (some pindexTest)
    else scanPath rest

/-- Put a block back into `mapBlocksUnlinked`. -/
def putUnlinked (pindexFailed : Uint256) : ChainState :=
  (s.pprev pindexFailed).elim s fun pprev =>
    { s with mapBlocksUnlinked := s.mapBlocksUnlinked ++ [(pprev, pindexFailed)] }

/-- Remove the chain from the candidate down to the block that is not usable. -/
def removeChain (pindexTest : Uint256) (fFailedChain : Bool) :
    List Uint256 → ChainState → ChainState
  | [], s => s
  | pindexFailed :: rest, s =>
    if pindexFailed = pindexTest then s.eraseCandidate pindexTest
    else
      let s := if fFailedChain then s.modify pindexFailed fun e => e.orStatus failedChild
        else s.putUnlinked pindexFailed
      removeChain pindexTest fFailedChain rest (s.eraseCandidate pindexFailed)

/-- The loop of `FindMostWorkChain`, a bounded number of times. -/
def mostWorkLoop (ids : List Uint256) : Nat → ChainState → Option (Option Uint256 × ChainState)
  | 0, _ => none
  | fuel + 1, s => match s.greatestCandidate env ids with
    | none => some (none, s)
    | some pindexNew => match s.scanPath (s.pathUp pindexNew) with
      | none => none
      | some none => some (some pindexNew, s)
      | some (some pindexTest) => mostWorkLoop ids fuel
          (s.removeChain pindexTest (s.failedChain pindexTest) (s.pathUp pindexNew))

/-- `FindMostWorkChain`; each time around takes a candidate out. -/
def findMostWorkChain (ids : List Uint256) : Option (Option Uint256 × ChainState) :=
  s.mostWorkLoop env ids ((ids.filter s.setBlockIndexCandidates).length + 1)

/-! ## What it is for -/

/-- A block on the way from another one to the active chain. -/
abbrev OnPath : Uint256 → Uint256 → Prop :=
  Upward.OnWay s.pprev s.isActive

/-- The first block on that way that is not usable. -/
abbrev FirstUnusable : Uint256 → Uint256 → Prop :=
  Upward.FirstBad s.pprev s.isActive s.unusable

/-- The chain can be switched to. -/
def Clean (hash : Uint256) : Prop :=
  ∀ x, s.OnPath hash x → s.unusable x = false

/-- A tree with heights, and candidates as the walk asserts them to be. -/
structure Searchable (ids : List Uint256) : Prop where
  /-- The candidates are listed. -/
  listed : ∀ hash, s.setBlockIndexCandidates hash = true → hash ∈ ids
  /-- Heights are not negative. -/
  height : ∀ hash p n, s.tree.link hash = some (p, n) → 0 ≤ n
  /-- A predecessor is in the tree, one lower. -/
  parent : ∀ hash p n, s.tree.link hash = some (some p, n) → ∃ q, s.tree.link p = some (q, n - 1)
  /-- On the way to the active chain all blocks are linked, but for one without predecessor. -/
  linked : ∀ hash, s.setBlockIndexCandidates hash = true → ∀ x, s.OnPath hash x →
    s.nChainTx x ≠ 0 ∨ s.heightOf x = 0

/-- The result is the best of the candidates that can be switched to, and those discarded
cannot be. -/
structure Finds (r : Option Uint256) (s' : ChainState) : Prop where
  /-- The result can be switched to, and no better candidate can be. -/
  best : ∀ pindex, r = some pindex → s.setBlockIndexCandidates pindex = true ∧ s.Clean pindex ∧
    ∀ hash, s.setBlockIndexCandidates hash = true → s.Clean hash → hash ≠ pindex →
      s.workLess env hash pindex = true
  /-- Null only if there is none. -/
  null : r = none → ∀ hash, s.setBlockIndexCandidates hash = true → ¬ s.Clean hash
  /-- No block becomes a candidate. -/
  kept : ∀ hash, s'.setBlockIndexCandidates hash = true → s.setBlockIndexCandidates hash = true
  /-- A block on the way of a discarded candidate is not usable. -/
  discarded : ∀ hash, s.setBlockIndexCandidates hash = true →
    s'.setBlockIndexCandidates hash = false → ∃ x, s.OnPath hash x ∧ s.unusable x = true
  /-- If the first of these lacks data and is another block, the candidate waits again,
  under its predecessor. -/
  waits : ∀ hash x, s.setBlockIndexCandidates hash = true →
    s'.setBlockIndexCandidates hash = false → s.FirstUnusable hash x →
    s.failedChain x = false → hash ≠ x →
    ∃ p, s.pprev hash = some p ∧ (p, hash) ∈ s'.mapBlocksUnlinked
  /-- Only such blocks wait anew, under their predecessor. -/
  waitsOnly : ∀ p hash, (p, hash) ∈ s'.mapBlocksUnlinked →
    (p, hash) ∈ s.mapBlocksUnlinked ∨ s.pprev hash = some p ∧
      ∃ x, s.FirstUnusable hash x ∧ s.failedChain x = false ∧ hash ≠ x

variable {env : TipEnv} {s s₀ s' : ChainState} {hash x p c : Uint256} {ids : List Uint256}

/-! ## The walk -/

theorem pprev_eq_link (s : ChainState) (hash : Uint256) :
    s.pprev hash = (s.tree.link hash).bind Prod.fst := by
  simp only [pprev, BlockTree.link]
  cases s.tree.find hash <;> rfl

theorem heightOf_eq_link (s : ChainState) (hash : Uint256) :
    s.heightOf hash = (s.tree.link hash).elim 0 Prod.snd := by
  simp only [heightOf, BlockTree.link]
  cases s.tree.find hash <;> rfl

theorem isActive_eq_link (s : ChainState) (hash : Uint256) : s.isActive hash =
    (s.tree.link hash).elim false fun place => s.chainActive.atHeight place.2 == some hash := by
  simp only [isActive, CChain.contains, BlockTree.link]
  cases s.tree.find hash <;> rfl

/-- The predecessor of a block is lower. -/
theorem Searchable.heightOf_pprev (h : s.Searchable ids) (hp : s.pprev hash = some p) :
    (s.heightOf p).toNat < (s.heightOf hash).toNat := by
  rw [pprev_eq_link] at hp
  obtain ⟨⟨_, n⟩, hlink, rfl⟩ := Option.bind_eq_some_iff.1 hp
  obtain ⟨q, hq⟩ := h.parent hash p n hlink
  have hnonneg := h.height p q (n - 1) hq
  simp only [heightOf_eq_link, hlink, hq, Option.elim_some]
  omega

/-- The walk sees whether there is a block that is not usable, and finds the first one. -/
theorem scanPath_way {fuel : Nat}
    (hup : ∀ hash p, s.pprev hash = some p → (s.heightOf p).toNat < (s.heightOf hash).toNat)
    (hfuel : (s.heightOf hash).toNat < fuel)
    (hlinked : ∀ x, s.OnPath hash x → s.nChainTx x ≠ 0 ∨ s.heightOf x = 0) :
    (s.scanPath (Upward.way s.pprev fuel hash) = some none ∧ ∀ x, ¬ s.FirstUnusable hash x) ∨
      ∃ x, s.scanPath (Upward.way s.pprev fuel hash) = some (some x) ∧
        s.FirstUnusable hash x := by
  induction fuel generalizing hash with
  | zero => omega
  | succ fuel ih =>
    rw [Upward.way, scanPath]
    cases hactive : s.isActive hash with
    | true =>
      refine Or.inl ⟨if_pos rfl, fun x hx => ?_⟩
      rw [hx.goes] at hactive
      cases hactive
    | false =>
      have hassert : ¬ (s.nChainTx hash = 0 ∧ s.heightOf hash ≠ 0) := by
        have hself := hlinked hash (.here hactive)
        tauto
      rw [if_neg Bool.false_ne_true, if_neg hassert]
      cases hbad : s.unusable hash with
      | true => exact Or.inr ⟨hash, if_pos rfl, .here hactive hbad⟩
      | false =>
        rw [if_neg Bool.false_ne_true]
        simp only [FirstUnusable, Upward.firstBad_of_good hactive hbad]
        cases hp : s.pprev hash with
        | none =>
          refine Or.inl ⟨rfl, ?_⟩
          rintro x ⟨p, hsome, -⟩
          cases hsome
        | some p =>
          have hlower := hup hash p hp
          have hrest : ∀ x, s.OnPath p x → s.nChainTx x ≠ 0 ∨ s.heightOf x = 0 :=
            fun x hx => hlinked x (.above hactive hp hx)
          simp only [Option.elim_some, Option.some.injEq, exists_eq_left']
          exact @ih p (by omega) hrest

/-- A chain can be switched to when there is no first block that is not usable. -/
theorem clean_iff : s.Clean hash ↔ ∀ x, ¬ s.FirstUnusable hash x := by
  constructor
  · intro hclean x hx
    have husable := hclean x hx.onWay
    rw [hx.isBad] at husable
    cases husable
  · intro hnone x hx
    by_contra hbad
    obtain ⟨y, hy⟩ := hx.exists_firstBad (Bool.eq_true_of_not_eq_false hbad)
    exact hnone y hy

/-! ## The greatest candidate -/

theorem better_ne_none (best : Option Uint256) : s.better env hash best ≠ none := by
  cases best with
  | none => exact Option.some_ne_none hash
  | some best =>
    rw [better]
    split <;> exact Option.some_ne_none _

/-- Every block of a list is worse than the best one, but for that one. -/
theorem foldr_better {l : List Uint256} {best : Uint256}
    (h : l.foldr (s.better env) none = some best) :
    best ∈ l ∧ ∀ hash ∈ l, hash ≠ best → s.workLess env hash best = true := by
  induction l generalizing best with
  | nil => cases h
  | cons a l ih =>
    rw [List.foldr_cons] at h
    cases hrest : l.foldr (s.better env) none with
    | none =>
      have hnil : l = [] := by
        cases l with
        | nil => rfl
        | cons b l => exact absurd hrest (better_ne_none _)
      rw [hrest] at h
      cases h
      subst hnil
      exact ⟨List.mem_cons_self, fun hash hmem hne => absurd (List.mem_singleton.1 hmem) hne⟩
    | some c =>
      obtain ⟨hc, hworse⟩ := ih hrest
      rw [hrest, better] at h
      split at h
      · rename_i hless
        cases h
        refine ⟨List.mem_cons_self, fun hash hmem hne => ?_⟩
        rcases List.mem_cons.1 hmem with rfl | hmem
        · exact absurd rfl hne
        · by_cases heq : hash = c
          · exact heq ▸ hless
          · apply workLess_of_ne hne
            exact not_workLess_trans (workLess_asymm hless) (workLess_asymm (hworse hash hmem heq))
      · rename_i hnot
        cases h
        refine ⟨List.mem_cons_of_mem _ hc, fun hash hmem hne => ?_⟩
        rcases List.mem_cons.1 hmem with rfl | hmem
        · exact workLess_of_ne hne (Bool.eq_false_of_not_eq_true hnot)
        · exact hworse hash hmem hne

/-- `rbegin` of the candidates. -/
theorem greatestCandidate_eq_some (hlisted : ∀ hash, s.setBlockIndexCandidates hash = true →
      hash ∈ ids) (h : s.greatestCandidate env ids = some x) :
    s.setBlockIndexCandidates x = true ∧ ∀ hash, s.setBlockIndexCandidates hash = true →
      hash ≠ x → s.workLess env hash x = true := by
  obtain ⟨hmem, hworse⟩ := foldr_better h
  refine ⟨(List.mem_filter.1 hmem).2, fun hash hcand hne => ?_⟩
  exact hworse hash (List.mem_filter.2 ⟨hlisted hash hcand, hcand⟩) hne

theorem greatestCandidate_eq_none (hlisted : ∀ hash, s.setBlockIndexCandidates hash = true →
      hash ∈ ids) (h : s.greatestCandidate env ids = none) (hash : Uint256) :
    s.setBlockIndexCandidates hash = false := by
  by_contra hcand
  rw [Bool.not_eq_false] at hcand
  have hmem : hash ∈ ids.filter s.setBlockIndexCandidates :=
    List.mem_filter.2 ⟨hlisted hash hcand, hcand⟩
  rw [greatestCandidate] at h
  obtain ⟨a, l, hl⟩ := List.exists_cons_of_ne_nil (List.ne_nil_of_mem hmem)
  rw [hl] at h
  exact better_ne_none _ h

/-! ## Discarding -/

@[simp] theorem eraseCandidate_self (s : ChainState) (c : Uint256) :
    (s.eraseCandidate c).setBlockIndexCandidates c = false :=
  Function.update_self ..

theorem eraseCandidate_of_ne (s : ChainState) (hne : hash ≠ c) :
    (s.eraseCandidate c).setBlockIndexCandidates hash = s.setBlockIndexCandidates hash :=
  Function.update_of_ne hne ..

theorem kept_eraseCandidate (h : (s.eraseCandidate c).setBlockIndexCandidates hash = true) :
    s.setBlockIndexCandidates hash = true := by
  by_cases hid : hash = c
  · rw [hid, eraseCandidate_self] at h
    cases h
  · rwa [eraseCandidate_of_ne s hid] at h

/-- What the search has done to a state so far: it has discarded candidates with a block on
their way that is not usable. -/
structure Searched (s₀ s : ChainState) : Prop where
  /-- The places are the same. -/
  link : s.tree.link = s₀.tree.link
  /-- So is the active chain. -/
  chainActive : s.chainActive = s₀.chainActive
  /-- The same blocks are linked. -/
  nChainTx : s.nChainTx = s₀.nChainTx
  /-- The order is the same. -/
  nSequenceId : s.nSequenceId = s₀.nSequenceId
  /-- The work is the same. -/
  chainWork : s.chainWork = s₀.chainWork
  /-- The same blocks lack data. -/
  missing : ∀ hash, s.missingData hash = s₀.missingData hash
  /-- Failed blocks stay failed. -/
  failed : ∀ hash, s₀.failedChain hash = true → s.failedChain hash = true
  /-- New ones have a failed block as their first one that is not usable. -/
  marked : ∀ hash, s.failedChain hash = true → s₀.failedChain hash = true ∨
    ∃ x, s₀.FirstUnusable hash x ∧ s₀.failedChain x = true
  /-- No block becomes a candidate. -/
  kept : ∀ hash, s.setBlockIndexCandidates hash = true → s₀.setBlockIndexCandidates hash = true
  /-- A discarded candidate has a block that is not usable, and waits if that one may come. -/
  discarded : ∀ hash, s₀.setBlockIndexCandidates hash = true →
    s.setBlockIndexCandidates hash = false → ∃ x, s₀.FirstUnusable hash x ∧
      (s₀.failedChain x = false → hash ≠ x →
        ∃ p, s₀.pprev hash = some p ∧ (p, hash) ∈ s.mapBlocksUnlinked)
  /-- Waiting blocks wait on. -/
  waiting : ∀ p hash, (p, hash) ∈ s₀.mapBlocksUnlinked → (p, hash) ∈ s.mapBlocksUnlinked
  /-- Only such blocks wait anew, under their predecessor. -/
  waitsOnly : ∀ p hash, (p, hash) ∈ s.mapBlocksUnlinked →
    (p, hash) ∈ s₀.mapBlocksUnlinked ∨ s₀.pprev hash = some p ∧
      ∃ x, s₀.FirstUnusable hash x ∧ s₀.failedChain x = false ∧ hash ≠ x

namespace Searched

theorem refl (s : ChainState) : Searched s s where
  link := rfl
  chainActive := rfl
  nChainTx := rfl
  nSequenceId := rfl
  chainWork := rfl
  missing := fun _ => rfl
  failed := fun _ h => h
  marked := fun _ h => Or.inl h
  kept := fun _ h => h
  discarded := by
    intro hash hcand hnot
    rw [hcand] at hnot
    cases hnot
  waiting := fun _ _ h => h
  waitsOnly := fun _ _ h => Or.inl h

theorem pprev (h : Searched s₀ s) : s.pprev = s₀.pprev := by
  funext hash
  rw [pprev_eq_link, pprev_eq_link, h.link]

theorem heightOf (h : Searched s₀ s) : s.heightOf = s₀.heightOf := by
  funext hash
  rw [heightOf_eq_link, heightOf_eq_link, h.link]

theorem isActive (h : Searched s₀ s) : s.isActive = s₀.isActive := by
  funext hash
  rw [isActive_eq_link, isActive_eq_link, h.link, h.chainActive]

theorem onPath (h : Searched s₀ s) : s.OnPath = s₀.OnPath := by
  rw [OnPath, OnPath, h.pprev, h.isActive]

theorem workLess (h : Searched s₀ s) (pa pb : Uint256) :
    s.workLess env pa pb = s₀.workLess env pa pb :=
  workLess_congr (fun id _ => congrFun h.chainWork id) (fun id _ => congrFun h.nSequenceId id)

theorem unusable (h : Searched s₀ s) (hbad : s₀.unusable hash = true) :
    s.unusable hash = true := by
  rw [ChainState.unusable, Bool.or_eq_true] at hbad ⊢
  rw [h.missing]
  exact hbad.imp_left (h.failed hash)

/-- A block that was the first one not usable still has one before it or is it. -/
theorem firstUnusable (h : Searched s₀ s) (hx : s₀.FirstUnusable hash x) :
    ∃ y, s.FirstUnusable hash y := by
  have hway : s.OnPath hash x := by
    rw [h.onPath]
    exact hx.onWay
  exact hway.exists_firstBad (h.unusable hx.isBad)

/-- The first block that is not usable now tells whether the first one was failed before,
and if not is still the first one. -/
theorem firstUnusable_before (h : Searched s₀ s) (hx : s.FirstUnusable hash x) :
    ∃ y, s₀.FirstUnusable hash y ∧ s.failedChain x = s₀.failedChain y ∧
      (s.failedChain x = false → y = x) := by
  induction hx with
  | @here a hactive hbad =>
    rw [h.isActive] at hactive
    cases hfailed : s.failedChain a with
    | true =>
      rcases h.marked a hfailed with hold | ⟨y, hy, hold⟩
      · have hself : s₀.unusable a = true := by rw [ChainState.unusable, hold, Bool.true_or]
        exact ⟨a, .here hactive hself, hold.symm, nofun⟩
      · exact ⟨y, hy, hold.symm, nofun⟩
    | false =>
      rw [ChainState.unusable, hfailed, Bool.false_or, h.missing] at hbad
      have hself : s₀.unusable a = true := by rw [ChainState.unusable, hbad, Bool.or_true]
      have hold : s₀.failedChain a = false := by
        by_contra hnot
        rw [h.failed a (Bool.eq_true_of_not_eq_false hnot)] at hfailed
        cases hfailed
      exact ⟨a, .here hactive hself, hold.symm, fun _ => rfl⟩
  | @above a p x hactive hgood hp _ ih =>
    rw [h.isActive] at hactive
    rw [h.pprev] at hp
    have hold : s₀.unusable a = false := by
      by_contra hnot
      rw [h.unusable (Bool.eq_true_of_not_eq_false hnot)] at hgood
      cases hgood
    obtain ⟨y, hy, hsame⟩ := ih
    exact ⟨y, .above hactive hold hp hy, hsame⟩

/-- A candidate with a block on its way that is not usable goes. -/
theorem erase (h : Searched s₀ s) (hx : s₀.FirstUnusable c x)
    (hwaits : s₀.failedChain x = false → c ≠ x →
      ∃ p, s₀.pprev c = some p ∧ (p, c) ∈ s.mapBlocksUnlinked) :
    Searched s₀ (s.eraseCandidate c) where
  link := h.link
  chainActive := h.chainActive
  nChainTx := h.nChainTx
  nSequenceId := h.nSequenceId
  chainWork := h.chainWork
  missing := h.missing
  failed := h.failed
  marked := h.marked
  kept := fun hash hcand => h.kept hash (kept_eraseCandidate hcand)
  discarded := by
    intro hash hcand hnot
    by_cases hid : hash = c
    · subst hid
      exact ⟨x, hx, hwaits⟩
    · rw [eraseCandidate_of_ne s hid] at hnot
      exact h.discarded hash hcand hnot
  waiting := h.waiting
  waitsOnly := h.waitsOnly

/-- A block below a failed one is marked. -/
theorem mark (h : Searched s₀ s) (hx : s₀.FirstUnusable c x) (hfailed : s₀.failedChain x = true) :
    Searched s₀ (s.modify c fun e => e.orStatus failedChild) where
  link := (BlockTree.link_modify fun _ => CBlockIndex.link_orStatus).trans h.link
  chainActive := h.chainActive
  nChainTx := h.nChainTx
  nSequenceId := h.nSequenceId
  chainWork := h.chainWork
  missing := by
    intro hash
    rw [← h.missing]
    simp only [missingData, modify, BlockTree.find_modify]
    split
    · cases s.tree.find hash with
      | none => rfl
      | some e => simp [CBlockIndex.hasData_orStatus (by decide : failedChild &&& haveData = 0#32)]
    · rfl
  failed := by
    intro hash hold
    have hnow := h.failed hash hold
    simp only [failedChain, modify, BlockTree.find_modify] at hnow ⊢
    split
    · cases hfind : s.tree.find hash with
      | none =>
        rw [hfind] at hnow
        cases hnow
      | some e => exact CBlockIndex.failed_of_orStatus (by decide)
    · exact hnow
  marked := by
    intro hash hnow
    by_cases hid : hash = c
    · subst hid
      exact Or.inr ⟨x, hx, hfailed⟩
    · simp only [failedChain, modify, BlockTree.find_modify, if_neg hid] at hnow
      exact h.marked hash hnow
  kept := h.kept
  discarded := h.discarded
  waiting := h.waiting
  waitsOnly := h.waitsOnly

/-- A block below one without data waits for its predecessor. -/
theorem put (h : Searched s₀ s) (hx : s₀.FirstUnusable c x) (hfailed : s₀.failedChain x = false)
    (hne : c ≠ x) : Searched s₀ (s.putUnlinked c) ∧
      ∃ p, s₀.pprev c = some p ∧ (p, c) ∈ (s.putUnlinked c).mapBlocksUnlinked := by
  obtain ⟨p, hp, -⟩ := hx.next hne
  have hput : s.putUnlinked c =
      { s with mapBlocksUnlinked := s.mapBlocksUnlinked ++ [(p, c)] } := by
    rw [putUnlinked, h.pprev, hp]
    rfl
  rw [hput]
  refine ⟨?_, p, hp, List.mem_append_right _ List.mem_cons_self⟩
  exact
    { link := h.link
      chainActive := h.chainActive
      nChainTx := h.nChainTx
      nSequenceId := h.nSequenceId
      chainWork := h.chainWork
      missing := h.missing
      failed := h.failed
      marked := h.marked
      kept := h.kept
      discarded := by
        intro hash hcand hnot
        obtain ⟨y, hy, hwaits⟩ := h.discarded hash hcand hnot
        refine ⟨y, hy, fun hnofail hself => ?_⟩
        obtain ⟨q, hq, hmem⟩ := hwaits hnofail hself
        exact ⟨q, hq, List.mem_append_left _ hmem⟩
      waiting := fun q hash hmem => List.mem_append_left _ (h.waiting q hash hmem)
      waitsOnly := by
        intro q hash hmem
        rcases List.mem_append.1 hmem with hold | hnew
        · exact h.waitsOnly q hash hold
        · cases List.mem_singleton.1 hnew
          exact Or.inr ⟨hp, x, hx, hfailed, hne⟩ }

/-- What a search has done after another one. -/
theorem trans (h : Searched s₀ s) (h' : Searched s s') : Searched s₀ s' where
  link := h'.link.trans h.link
  chainActive := h'.chainActive.trans h.chainActive
  nChainTx := h'.nChainTx.trans h.nChainTx
  nSequenceId := h'.nSequenceId.trans h.nSequenceId
  chainWork := h'.chainWork.trans h.chainWork
  missing := fun hash => (h'.missing hash).trans (h.missing hash)
  failed := fun hash hold => h'.failed hash (h.failed hash hold)
  marked := by
    intro hash hnow
    rcases h'.marked hash hnow with hmid | ⟨x, hx, hfailed⟩
    · exact h.marked hash hmid
    · obtain ⟨y, hy, hsame, -⟩ := h.firstUnusable_before hx
      exact Or.inr ⟨y, hy, hsame.symm.trans hfailed⟩
  kept := fun hash hcand => h.kept hash (h'.kept hash hcand)
  discarded := by
    intro hash hcand hnot
    cases hmid : s.setBlockIndexCandidates hash with
    | true =>
      obtain ⟨x, hx, hwaits⟩ := h'.discarded hash hmid hnot
      obtain ⟨y, hy, hsame, hback⟩ := h.firstUnusable_before hx
      refine ⟨y, hy, fun hnofail hne => ?_⟩
      have hnofail' : s.failedChain x = false := hsame.trans hnofail
      rw [← h.pprev]
      exact hwaits hnofail' (hback hnofail' ▸ hne)
    | false =>
      obtain ⟨x, hx, hwaits⟩ := h.discarded hash hcand hmid
      refine ⟨x, hx, fun hnofail hne => ?_⟩
      obtain ⟨p, hp, hmem⟩ := hwaits hnofail hne
      exact ⟨p, hp, h'.waiting p hash hmem⟩
  waiting := fun p hash hmem => h'.waiting p hash (h.waiting p hash hmem)
  waitsOnly := by
    intro p hash hmem
    rcases h'.waitsOnly p hash hmem with hmid | ⟨hp, x, hx, hnofail, hne⟩
    · exact h.waitsOnly p hash hmid
    · obtain ⟨y, hy, hsame, hback⟩ := h.firstUnusable_before hx
      rw [h.pprev] at hp
      have heq : y = x := hback hnofail
      exact Or.inr ⟨hp, y, hy, hsame.symm.trans hnofail, heq ▸ hne⟩

/-- The chain down to the first block that is not usable is removed. -/
theorem removeChain {l : List Uint256} (h : Searched s₀ s) (hx : s₀.FirstUnusable x x)
    (hbefore : ∀ c ∈ l.takeWhile (· ≠ x), c ≠ x ∧ s₀.FirstUnusable c x) :
    Searched s₀ (removeChain x (s₀.failedChain x) l s) := by
  induction l generalizing s with
  | nil => exact h
  | cons c l ih =>
    rw [ChainState.removeChain]
    by_cases hcx : c = x
    · rw [if_pos hcx]
      exact h.erase hx fun _ hne => absurd rfl hne
    · have hmem : ∀ a ∈ c :: l.takeWhile (· ≠ x), a ≠ x ∧ s₀.FirstUnusable a x := by
        rwa [List.takeWhile_cons, if_pos (decide_eq_true hcx)] at hbefore
      obtain ⟨hne, hc⟩ := hmem c List.mem_cons_self
      have hrest := fun a ha => hmem a (List.mem_cons_of_mem _ ha)
      rw [if_neg hcx]
      cases hfailed : s₀.failedChain x with
      | true =>
        rw [hfailed] at ih
        have hmark := (h.mark hc hfailed).erase hc fun hnofail _ => by
          rw [hfailed] at hnofail
          cases hnofail
        exact ih hmark hrest
      | false =>
        rw [hfailed] at ih
        obtain ⟨hput, hwaits⟩ := h.put hc hfailed hne
        exact ih (hput.erase hc fun _ _ => hwaits) hrest

end Searched

/-- Removing a chain makes no block a candidate. -/
theorem kept_removeChain {b : Bool} {l : List Uint256}
    (h : (removeChain x b l s).setBlockIndexCandidates hash = true) :
    s.setBlockIndexCandidates hash = true := by
  induction l generalizing s with
  | nil => exact h
  | cons c l ih =>
    rw [removeChain] at h
    split at h
    · rename_i hcx
      exact kept_eraseCandidate (hcx ▸ h)
    · have hcand := kept_eraseCandidate (ih h)
      split at hcand
      · exact hcand
      · rw [putUnlinked] at hcand
        cases hp : s.pprev c with
        | none => rwa [hp] at hcand
        | some p => rwa [hp] at hcand

/-- The candidate at which the walk starts is removed. -/
theorem removeChain_head {b : Bool} {l : List Uint256} :
    (removeChain x b (c :: l) s).setBlockIndexCandidates c = false := by
  rw [removeChain]
  split
  · rename_i hcx
    rw [hcx, eraseCandidate_self]
  · by_contra hcand
    have hback := kept_removeChain (Bool.eq_true_of_not_eq_false hcand)
    rw [eraseCandidate_self] at hback
    cases hback

/-! ## The search -/

/-- A stronger test that fails somewhere lets fewer through. -/
theorem length_filter_lt {α : Type} {p q : α → Bool} {l : List α} {a : α}
    (hpq : ∀ b, q b = true → p b = true) (hmem : a ∈ l) (hp : p a = true) (hq : q a = false) :
    (l.filter q).length < (l.filter p).length := by
  have hagain : l.filter q = (l.filter p).filter q := by
    rw [List.filter_filter]
    apply List.filter_congr
    intro b _
    cases hb : q b with
    | true => rw [hpq b hb, Bool.and_self]
    | false => rw [Bool.false_and]
  rw [hagain, List.length_filter_lt_length_iff_exists]
  exact ⟨a, List.mem_filter.2 ⟨hmem, hp⟩, by rw [hq]; exact Bool.false_ne_true⟩

/-- One time around the loop: nothing is left, the greatest candidate can be switched to, or
it is taken out. -/
theorem mostWorkLoop_step (env : TipEnv) (hs : s₀.Searchable ids) (h : Searched s₀ s) (fuel : Nat) :
    (s.mostWorkLoop env ids (fuel + 1) = some (none, s) ∧
        ∀ hash, s.setBlockIndexCandidates hash = false) ∨
      (∃ pindex, s.mostWorkLoop env ids (fuel + 1) = some (some pindex, s) ∧
        s.setBlockIndexCandidates pindex = true ∧ (∀ x, ¬ s.FirstUnusable pindex x) ∧
        ∀ hash, s.setBlockIndexCandidates hash = true → hash ≠ pindex →
          s.workLess env hash pindex = true) ∨
      ∃ s', s.mostWorkLoop env ids (fuel + 1) = s'.mostWorkLoop env ids fuel ∧ Searched s₀ s' ∧
        (ids.filter s'.setBlockIndexCandidates).length <
          (ids.filter s.setBlockIndexCandidates).length := by
  have hlisted : ∀ hash, s.setBlockIndexCandidates hash = true → hash ∈ ids :=
    fun hash hcand => hs.listed hash (h.kept hash hcand)
  rw [mostWorkLoop]
  cases hbest : s.greatestCandidate env ids with
  | none => exact Or.inl ⟨rfl, greatestCandidate_eq_none hlisted hbest⟩
  | some pindexNew =>
    obtain ⟨hcand, hworse⟩ := greatestCandidate_eq_some hlisted hbest
    have hup : ∀ hash p, s.pprev hash = some p →
        (s.heightOf p).toNat < (s.heightOf hash).toNat := by
      intro hash p hp
      rw [h.pprev] at hp
      rw [h.heightOf]
      exact hs.heightOf_pprev hp
    have hlinked : ∀ x, s.OnPath pindexNew x → s.nChainTx x ≠ 0 ∨ s.heightOf x = 0 := by
      rw [h.onPath, h.nChainTx, h.heightOf]
      exact hs.linked pindexNew (h.kept pindexNew hcand)
    obtain ⟨hscan, hnone⟩ | ⟨x, hscan, hx⟩ := scanPath_way hup (Nat.lt_succ_self _) hlinked
    · refine Or.inr (Or.inl ⟨pindexNew, ?_, hcand, hnone, hworse⟩)
      simp only [pathUp, hscan]
    · refine Or.inr (Or.inr ⟨s.removeChain x (s.failedChain x) (s.pathUp pindexNew), ?_, ?_, ?_⟩)
      · simp only [pathUp, hscan]
      · exact h.trans ((Searched.refl s).removeChain hx.self fun c hc => hx.of_mem_takeWhile hc)
      · have hgone : (s.removeChain x (s.failedChain x)
            (s.pathUp pindexNew)).setBlockIndexCandidates pindexNew = false := removeChain_head
        exact length_filter_lt (fun _ => kept_removeChain) (hlisted pindexNew hcand) hcand hgone

/-- The loop ends, in a state that the search has led to. -/
theorem mostWorkLoop_ends (env : TipEnv) (hs : s₀.Searchable ids) (h : Searched s₀ s)
    {fuel : Nat} (hfuel : (ids.filter s.setBlockIndexCandidates).length < fuel) :
    ∃ r s', s.mostWorkLoop env ids fuel = some (r, s') ∧ Searched s₀ s' ∧
      (r = none → ∀ hash, s'.setBlockIndexCandidates hash = false) ∧
      ∀ pindex, r = some pindex → s'.setBlockIndexCandidates pindex = true ∧
        (∀ x, ¬ s'.FirstUnusable pindex x) ∧
        ∀ hash, s'.setBlockIndexCandidates hash = true → hash ≠ pindex →
          s'.workLess env hash pindex = true := by
  induction fuel generalizing s with
  | zero => omega
  | succ fuel ih =>
    obtain ⟨hstep, hnone⟩ | ⟨pindex, hstep, hbest⟩ | ⟨s', hstep, h', hless⟩ :=
      mostWorkLoop_step env hs h fuel
    · exact ⟨none, s, hstep, h, fun _ => hnone, nofun⟩
    · refine ⟨some pindex, s, hstep, h, nofun, fun pindex' hsome => ?_⟩
      cases hsome
      exact hbest
    · rw [hstep]
      exact ih h' (by omega)

/-- A candidate that can be switched to is not discarded. -/
theorem Searched.mem_of_clean (h : Searched s₀ s) (hcand : s₀.setBlockIndexCandidates hash = true)
    (hclean : s₀.Clean hash) : s.setBlockIndexCandidates hash = true := by
  by_contra hnot
  obtain ⟨x, hx, -⟩ := h.discarded hash hcand (Bool.eq_false_of_not_eq_true hnot)
  exact clean_iff.1 hclean x hx

/-- `FindMostWorkChain` ends, with the best candidate that can be switched to; a block on the
way of each candidate that it discards is not usable, and those below a block whose data
may come wait for it. -/
theorem findMostWorkChain_greatest (env : TipEnv) (s : ChainState) (ids : List Uint256)
    (hs : s.Searchable ids) :
    ∃ r s', s.findMostWorkChain env ids = some (r, s') ∧ s.Finds env r s' := by
  obtain ⟨r, s', hrun, h, hnull, hbest⟩ :=
    mostWorkLoop_ends env hs (Searched.refl s) (Nat.lt_succ_self _)
  refine ⟨r, s', hrun, ?_⟩
  exact
    { best := by
        intro pindex hr
        obtain ⟨hcand, hnone, hworse⟩ := hbest pindex hr
        refine ⟨h.kept pindex hcand, clean_iff.2 fun x hx => ?_, fun hash hmem hclean hne => ?_⟩
        · obtain ⟨y, hy⟩ := h.firstUnusable hx
          exact hnone y hy
        · rw [← h.workLess]
          exact hworse hash (h.mem_of_clean hmem hclean) hne
      null := by
        intro hr hash hcand hclean
        have hmem := h.mem_of_clean hcand hclean
        rw [hnull hr hash] at hmem
        cases hmem
      kept := h.kept
      discarded := by
        intro hash hcand hnot
        obtain ⟨x, hx, -⟩ := h.discarded hash hcand hnot
        exact ⟨x, hx.onWay, hx.isBad⟩
      waits := by
        intro hash x hcand hnot hx hnofail hne
        obtain ⟨y, hy, hwaits⟩ := h.discarded hash hcand hnot
        cases hx.unique hy
        exact hwaits hnofail hne
      waitsOnly := h.waitsOnly }

end ChainState

/-! ## A block without data -/

namespace LostBlock

open TwoBlocks (fixed)

/-- Blocks 2 and 4 are above block 1, and block 3 above block 2, whose file is gone. -/
def blocks : List (Uint256 × CBlockIndex) :=
  [(1, { nStatus := validScripts ||| haveData, nTx := 1 }),
    (2, { pprev := some 1, nHeight := 1, nStatus := validTransactions, nTx := 1 }),
    (3, { pprev := some 2, nHeight := 2, nStatus := validTransactions ||| haveData, nTx := 1 }),
    (4, { pprev := some 1, nHeight := 1, nStatus := validTransactions ||| haveData, nTx := 1 })]

/-- Block 1 is the tip. -/
def state : ChainState where
  tree := { mapBlockIndex := fun hash => (blocks.lookup hash).map some }
  chainActive := [some 1]
  nChainTx := fun _ => 1
  chainWork := fun hash => if hash = 4 then 2 else hash.toNat
  setBlockIndexCandidates := fun hash => hash == 2 || hash == 3 || hash == 4

theorem mem_of_link {hash : Uint256} {place : Option Uint256 × Int}
    (h : state.tree.link hash = some place) : ∃ e, (hash, e) ∈ blocks ∧ e.link = place := by
  obtain ⟨e, he, rfl⟩ := Option.map_eq_some_iff.1 h
  simp only [state, BlockTree.find, Option.join_eq_some_iff, Option.map_eq_some_iff] at he
  obtain ⟨e', he', heq⟩ := he
  cases heq
  obtain ⟨l₁, l₂, hl, -⟩ := List.lookup_eq_some_iff.1 he'
  refine ⟨e, ?_, rfl⟩
  rw [hl]
  exact List.mem_append_right _ List.mem_cons_self

theorem searchable : state.Searchable [1, 2, 3, 4] where
  listed := by
    intro hash hcand
    simp only [state, Bool.or_eq_true, beq_iff_eq] at hcand
    simp only [List.mem_cons]
    tauto
  height := by
    intro hash p n hlink
    obtain ⟨e, hmem, heq⟩ := mem_of_link hlink
    have hall : ∀ row ∈ blocks, 0 ≤ row.2.nHeight := by decide
    have hheight : e.nHeight = n := congrArg Prod.snd heq
    exact hheight ▸ hall _ hmem
  parent := by
    intro hash p n hlink
    obtain ⟨e, hmem, heq⟩ := mem_of_link hlink
    have hall : ∀ row ∈ blocks, (row.2.pprev.all fun p =>
        (state.tree.link p).map Prod.snd == some (row.2.nHeight - 1)) = true := by decide
    have hprev : e.pprev = some p := congrArg Prod.fst heq
    have hheight : e.nHeight = n := congrArg Prod.snd heq
    have hlower := hall _ hmem
    rw [hprev, Option.all_some, beq_iff_eq] at hlower
    obtain ⟨⟨q, m⟩, hq, rfl⟩ := Option.map_eq_some_iff.1 hlower
    exact ⟨q, hheight ▸ hq⟩
  linked := fun _ _ _ _ => Or.inl Nat.one_ne_zero

/-- Block 4 is found; blocks 2 and 3 go, and block 3 waits for block 2. -/
theorem findMostWorkChain_greatest_lost : ∃ r s',
    state.findMostWorkChain fixed [1, 2, 3, 4] = some (r, s') ∧ state.Finds fixed r s' :=
  ChainState.findMostWorkChain_greatest fixed state [1, 2, 3, 4] searchable

/-- The block that lacks its data does not wait, and a candidate that is not linked fails the
assertion. -/
theorem findMostWorkChain_lost :
    (¬ ∀ (env : TipEnv) (s : ChainState) (ids : List Uint256), s.Searchable ids →
      ∃ r s', s.findMostWorkChain env ids = some (r, s') ∧
        ∀ hash, s.setBlockIndexCandidates hash = true →
          s'.setBlockIndexCandidates hash = false → s.missingData hash = true →
          ∃ p, s.pprev hash = some p ∧ (p, hash) ∈ s'.mapBlocksUnlinked) ∧
    { state with nChainTx := fun _ => 0 }.findMostWorkChain fixed [1, 2, 3, 4] = none := by
  constructor
  · intro h
    obtain ⟨r, s', hrun, hwaits⟩ := h fixed state [1, 2, 3, 4] searchable
    have hall : (state.findMostWorkChain fixed [1, 2, 3, 4]).all (fun out =>
        !out.2.setBlockIndexCandidates 2 && out.2.mapBlocksUnlinked == [(2, 3)]) = true := by
      decide +kernel
    rw [hrun, Option.all_some, Bool.and_eq_true, Bool.not_eq_true', beq_iff_eq] at hall
    obtain ⟨hgone, hunlinked⟩ := hall
    obtain ⟨p, hp, hmem⟩ := hwaits 2 (by decide) hgone (by decide)
    rw [hunlinked] at hmem
    cases List.mem_singleton.1 hmem
  · rfl

end LostBlock

end IndexChain.Chain
