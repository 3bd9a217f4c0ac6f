import IndexChain.Models.Chain.Accept

/-!
# Script validity in the block index

A status level of at least `BLOCK_VALID_SCRIPTS` should mean that `ConnectBlock` has
succeeded for the block. The contextual flag breaks this: its value 6 lies in the
bits of the level, so setting it raises any level above `BLOCK_VALID_SCRIPTS`. The
level is right along every run in which the flag is only set on blocks that are or
get connected (`Meets`).
-/

namespace IndexChain.Chain

open BlockStatus

namespace BlockTree

variable {env : ChainEnv} {t : BlockTree} {hash id : Uint256} {e e' : CBlockIndex}
  {f : CBlockIndex → CBlockIndex}

variable (env) in
/-- Every other block than the genesis block whose level claims valid scripts has
been connected. -/
def Honest (t : BlockTree) : Prop :=
  ∀ hash e, t.find hash = some e → hash ≠ env.hashGenesisBlock → e.ClaimsScripts →
    t.connected hash = true

theorem find_set (t : BlockTree) (hash : Uint256) (e : CBlockIndex) (id : Uint256) :
    (t.set hash e).find id = if id = hash then some e else t.find id := by
  unfold find set
  by_cases hid : id = hash
  · subst hid
    simp only [Function.update_self, if_true, Option.join_some]
  · simp only [Function.update_of_ne hid, hid, if_false]

@[simp] theorem connected_set : (t.set hash e).connected = t.connected := rfl

@[simp] theorem connected_modify : (t.modify hash f).connected = t.connected := by
  unfold modify
  split
  · rfl
  · rfl

/-- An entry after a change is old, or the changed one. -/
theorem find_modify_cases (h : (t.modify hash f).find id = some e') :
    t.find id = some e' ∨ ∃ e, id = hash ∧ t.find hash = some e ∧ e' = f e := by
  unfold modify at h
  split at h
  · rename_i e he
    rw [find_set] at h
    split at h
    · rename_i hid
      cases h
      exact Or.inr ⟨e, hid, he, rfl⟩
    · exact Or.inl h
  · exact Or.inl h

/-- Nothing is connected, and no block newly claims that its scripts are valid. -/
structure Claimless (t t' : BlockTree) : Prop where
  /-- No block is connected. -/
  connected : t'.connected = t.connected
  /-- Every claim was made before. -/
  claims : ∀ id e', t'.find id = some e' → e'.ClaimsScripts →
    ∃ e, t.find id = some e ∧ e.ClaimsScripts

theorem Claimless.refl (t : BlockTree) : Claimless t t where
  connected := rfl
  claims _ e he hclaim := ⟨e, he, hclaim⟩

theorem Claimless.trans {t t' t'' : BlockTree} (h : Claimless t t') (h' : Claimless t' t'') :
    Claimless t t'' where
  connected := h'.connected.trans h.connected
  claims id e'' he hclaim := by
    obtain ⟨e', he', hclaim'⟩ := h'.claims id e'' he hclaim
    exact h.claims id e' he' hclaim'

theorem Claimless.honest {t t' : BlockTree} (h : Claimless t t') (ht : Honest env t) :
    Honest env t' := by
  intro id e' he hgen hclaim
  obtain ⟨e, hfind, hold⟩ := h.claims id e' he hclaim
  rw [h.connected]
  exact ht id e hfind hgen hold

/-- A change of a block that may claim that its scripts are valid. -/
theorem Honest.modify (h : Honest env t)
    (hmay : hash = env.hashGenesisBlock ∨ t.connected hash = true) :
    Honest env (t.modify hash f) := by
  intro id e' he hgen hclaim
  rw [connected_modify]
  rcases find_modify_cases he with hold | ⟨e, rfl, -, -⟩
  · exact h id e' hold hgen hclaim
  · rcases hmay with hg | hc
    · exact absurd hg hgen
    · exact hc

theorem claimless_modify (hf : ∀ e, (f e).ClaimsScripts → e.ClaimsScripts) :
    Claimless t (t.modify hash f) where
  connected := connected_modify
  claims id e' he hclaim := by
    rcases find_modify_cases he with hold | ⟨e, rfl, hfind, rfl⟩
    · exact ⟨e', hold, hclaim⟩
    · exact ⟨e, hfind, hf e hclaim⟩

theorem claimless_orStatus {flag : BlockStatus} (hflag : Apart flag) :
    Claimless t (t.modify hash fun e => e.orStatus flag) :=
  claimless_modify fun _ => (CBlockIndex.claimsScripts_orStatus hflag).1

theorem claimless_clearStatus {flag : BlockStatus} (hflag : Apart flag) :
    Claimless t (t.modify hash fun e => e.clearStatus flag) :=
  claimless_modify fun _ => (CBlockIndex.claimsScripts_clearStatus hflag).1

theorem claimless_received (nTx : Nat) (nFile : Int) :
    Claimless t (t.modify hash fun e => e.receivedBlockTransactions nTx nFile) :=
  claimless_modify fun e => (CBlockIndex.claimsScripts_received e nTx nFile).1

/-! ## Accepting headers and blocks -/

/-- A new entry is only tree-valid. -/
theorem claimless_addToBlockIndex (a : HeaderArgs) : Claimless t (t.addToBlockIndex a).1 := by
  have hnew : ∀ e : CBlockIndex, e.nStatus = 0 → ¬ (e.raiseValidity validTree).ClaimsScripts := by
    intro e he hclaim
    rw [CBlockIndex.claimsScripts_raiseValidity (by decide) (by decide), CBlockIndex.ClaimsScripts,
      he] at hclaim
    exact absurd hclaim (by decide)
  unfold addToBlockIndex
  split
  · exact Claimless.refl t
  · exact Claimless.refl t
  · refine ⟨rfl, fun id e' he hclaim => ?_⟩
    dsimp only at he
    rw [find_set] at he
    split at he
    · cases he
      refine absurd hclaim (hnew _ ?_)
      split
      · rfl
      · rfl
    · exact ⟨e', he, hclaim⟩

variable (env) in
/-- A header claims nothing of the scripts. -/
theorem claimless_acceptBlockHeader (a : HeaderArgs) :
    Claimless t (t.acceptBlockHeader env a).1 := by
  unfold acceptBlockHeader
  split
  · -- a known block
    rename_i entry _
    have hmask : Apart failedMask := by decide
    have hadded : Claimless t (t.addToBlockIndex a).1 := claimless_addToBlockIndex a
    cases entry with
    | none =>
      dsimp only
      split
      · split
        · split
          · exact hadded.trans (claimless_clearStatus hmask)
          · exact hadded
        · exact hadded
      · exact hadded
    | some e =>
      dsimp only
      split
      · split
        · split
          · exact claimless_clearStatus hmask
          · exact Claimless.refl t
        · exact Claimless.refl t
      · exact Claimless.refl t
  · dsimp only
    split
    · exact Claimless.refl t
    · split
      · exact Claimless.refl t
      · split
        · exact Claimless.refl t
        · exact claimless_addToBlockIndex a

/-- The checks of a block claim nothing. -/
theorem claimless_acceptChecks (a : AcceptArgs) : Claimless t (t.acceptChecks env a).1 := by
  have hheader := claimless_acceptBlockHeader env (t := t) a.toHeaderArgs
  unfold acceptChecks
  generalize t.acceptBlockHeader env a.toHeaderArgs = r at hheader
  dsimp only
  split
  · exact hheader
  · split
    · exact hheader
    · split
      · exact hheader
      · split
        · exact hheader
        · split
          · exact hheader
          · split
            · split
              · exact hheader
              · split
                · exact hheader.trans (claimless_orStatus (by decide))
                · exact hheader
            · exact hheader

/-- What `AcceptBlock` does: it returns early, or it marks a block when the contextual
checks have passed, and writes it to disk. -/
theorem acceptBlock_cases (a : AcceptArgs) :
    (∃ ret, (t.acceptChecks env a).2 = .inr ret ∧
      (t.acceptBlock env a).1 = (t.acceptChecks env a).1) ∨
    ∃ hash futureblock marked, (t.acceptChecks env a).2 = .inl (hash, futureblock) ∧
      marked = (if a.contextualCheckBlock then
        (t.acceptChecks env a).1.modify hash fun e => e.orStatus validContext
        else (t.acceptChecks env a).1) ∧
      ((t.acceptBlock env a).1 = marked ∨ (t.acceptBlock env a).1 =
        marked.modify hash fun e => e.receivedBlockTransactions a.nTx a.nFile) := by
  unfold acceptBlock
  cases hchecks : t.acceptChecks env a with
  | mk u r =>
    cases r with
    | inr ret => exact Or.inl ⟨ret, rfl, rfl⟩
    | inl p =>
      refine Or.inr ⟨p.1, p.2, _, rfl, rfl, ?_⟩
      dsimp only
      by_cases hpos : a.findBlockPos = true
      · simp [hpos]
      · simp [hpos]

end BlockTree

/-! ## Connecting blocks -/

/-- Once the contextual checks have passed nothing fails, and the indexes are written
when everything before was. -/
def ConnectArgs.Clean (a : ConnectArgs) : Prop :=
  a.stopAt = false → a.checkBlock = true →
    (a.fCheckPOW = true → a.contextualCheckBlock = true →
      a.notaryPay = true ∧ a.findBlockPos = true ∧ a.prevIsBest = true ∧ a.checks = true ∧
        (a.fJustCheck = true ∨ a.writeUndo = true ∧ a.writeIndexes = true)) ∧
    (a.notaryPay = true → a.prevIsBest = true → a.checks = true → a.fJustCheck = false →
      a.writeIndexes = true)

namespace CBlockIndex

variable {env : ChainEnv} {a : ConnectArgs} {e e' : CBlockIndex}

/-- The contextual checks leave the entry or mark it. -/
theorem contextChecked_cases (h : e.contextChecked a = some e') :
    e' = e ∨ (a.fCheckPOW = true ∧ a.contextualCheckBlock = true ∧
      e' = e.orStatus validContext) := by
  unfold contextChecked at h
  split at h
  · rename_i hcond
    rw [Bool.and_eq_true] at hcond
    split at h
    · rename_i hcontext
      cases h
      exact Or.inr ⟨hcond.1, hcontext, rfl⟩
    · split at h
      · cases h
      · cases h
        exact Or.inl rfl
  · cases h
    exact Or.inl rfl

/-- What every change that `ConnectBlock` makes to the entry of its block keeps. -/
structure ConnectKeeps (a : ConnectArgs) (P : CBlockIndex → Prop) : Prop where
  /-- The contextual checks have passed. -/
  context : ∀ e, P e → P (e.orStatus validContext)
  /-- The block is moved out of the temporary file. -/
  moved : ∀ e, P e → P ((e.clearStatus inTmpfile).receivedBlockTransactions a.nTx a.nFile)
  /-- The undo data is written. -/
  undo : ∀ e, P e → P (e.orStatus haveUndo)
  /-- The block activates an upgrade. -/
  upgrade : ∀ e, P e → P (e.orStatus activatesUpgrade)
  /-- The scripts are valid. -/
  scripts : ∀ e, P e → P (e.raiseValidity validScripts)

variable {P : CBlockIndex → Prop}

theorem ConnectKeeps.contextChecked (h : ConnectKeeps a P) (he : P e)
    (hcontext : e.contextChecked a = some e') : P e' := by
  obtain rfl | ⟨-, -, rfl⟩ := contextChecked_cases hcontext
  · exact he
  · exact h.context e he

theorem ConnectKeeps.movedFromTmpfile (h : ConnectKeeps a P) (he : P e)
    (hmoved : e.movedFromTmpfile a = some e') : P e' := by
  unfold CBlockIndex.movedFromTmpfile at hmoved
  split at hmoved
  · split at hmoved
    · cases hmoved
      exact h.moved e he
    · cases hmoved
  · cases hmoved
    exact he

theorem ConnectKeeps.recordConnected (h : ConnectKeeps a P) (he : P e) :
    P (e.recordConnected a).1 := by
  unfold CBlockIndex.recordConnected
  split
  · split
    · exact he
    · apply h.scripts
      split
      · apply h.upgrade
        split
        · exact h.undo e he
        · exact he
      · split
        · exact h.undo e he
        · exact he
  · exact he

theorem ConnectKeeps.connectChecked (h : ConnectKeeps a P) (he : P e) :
    P (e.connectChecked env a).1 := by
  unfold CBlockIndex.connectChecked
  split
  · exact he
  · split
    · exact he
    · rename_i e' hmoved
      have he' : P e' := h.movedFromTmpfile he hmoved
      split
      · exact he'
      · split
        · exact he'
        · split
          · exact he'
          · split
            · exact he'
            · exact h.recordConnected he'

/-- `ConnectBlock` keeps what its changes keep. -/
theorem ConnectKeeps.connectBlock (h : ConnectKeeps a P) (he : P e) :
    P (e.connectBlock env a).1 := by
  unfold CBlockIndex.connectBlock
  split
  · exact he
  · split
    · exact he
    · rename_i e' hcontext
      exact h.connectChecked (h.contextChecked he hcontext)

/-- Moving a block claims nothing. -/
theorem claimsScripts_moved (h : e.movedFromTmpfile a = some e') :
    e'.ClaimsScripts ↔ e.ClaimsScripts := by
  unfold movedFromTmpfile at h
  split at h
  · split at h
    · cases h
      rw [claimsScripts_received, claimsScripts_clearStatus (by decide)]
    · cases h
  · cases h
    rfl

theorem movedFromTmpfile_isSome (h : a.findBlockPos = true) :
    ∃ e', e.movedFromTmpfile a = some e' := by
  unfold movedFromTmpfile
  rw [h]
  split
  · exact ⟨_, rfl⟩
  · exact ⟨e, rfl⟩

/-- Recording the validity fails without a claim, or reports whether the indexes are
written. -/
theorem recordConnected_cases (e : CBlockIndex) (a : ConnectArgs) :
    (a.writeUndo = false ∧ e.recordConnected a = (e, false)) ∨
      (e.recordConnected a).2 = a.writeIndexes := by
  unfold recordConnected
  split
  · split
    · rename_i hundo
      rw [Bool.and_eq_true, Bool.not_eq_true'] at hundo
      exact Or.inl ⟨hundo.2, rfl⟩
    · exact Or.inr rfl
  · exact Or.inr rfl

/-- After the contextual checks, a new claim comes with success if the indexes are
written when everything before was. -/
theorem claimsScripts_connectChecked (hgen : a.hash ≠ env.hashGenesisBlock)
    (hindexes : a.notaryPay = true → a.prevIsBest = true → a.checks = true →
      a.fJustCheck = false → a.writeIndexes = true)
    (hclaim : (e.connectChecked env a).1.ClaimsScripts) :
    e.ClaimsScripts ∨ (e.connectChecked env a).2 = true := by
  unfold connectChecked at hclaim ⊢
  by_cases hpay : a.notaryPay = true
  · simp only [hpay, Bool.not_true, Bool.false_eq_true, if_false] at hclaim ⊢
    cases hm : e.movedFromTmpfile a with
    | none =>
      rw [hm] at hclaim
      exact Or.inl hclaim
    | some e₂ =>
      rw [hm] at hclaim
      rw [← claimsScripts_moved hm]
      by_cases hbest : a.prevIsBest = true
      · by_cases hchecks : a.checks = true
        · simp only [hbest, hgen, hchecks, Bool.not_true, Bool.false_eq_true,
            if_false] at hclaim ⊢
          by_cases hjust : a.fJustCheck = true
          · rw [if_pos hjust]
            exact Or.inr rfl
          · rw [if_neg hjust] at hclaim ⊢
            rcases recordConnected_cases e₂ a with ⟨-, hrec⟩ | hrec
            · rw [hrec] at hclaim
              exact Or.inl hclaim
            · rw [hrec]
              rw [Bool.not_eq_true] at hjust
              exact Or.inr (hindexes hpay hbest hchecks hjust)
        · simp only [hbest, hgen, hchecks, Bool.not_true, Bool.not_false, Bool.false_eq_true,
            if_false, if_true] at hclaim
          exact Or.inl hclaim
      · simp only [hbest, Bool.not_false, if_true] at hclaim
        exact Or.inl hclaim
  · simp only [hpay, Bool.not_false, if_true] at hclaim
    exact Or.inl hclaim

/-- After the contextual checks, a call all of whose checks pass succeeds. -/
theorem connectChecked_ok (hpay : a.notaryPay = true) (hpos : a.findBlockPos = true)
    (hbest : a.prevIsBest = true) (hchecks : a.checks = true)
    (hrest : a.fJustCheck = true ∨ a.writeUndo = true ∧ a.writeIndexes = true) :
    (e.connectChecked env a).2 = true := by
  obtain ⟨e₂, hm⟩ := movedFromTmpfile_isSome (e := e) hpos
  unfold connectChecked
  rw [hm]
  simp only [hpay, hbest, hchecks, Bool.not_true, Bool.false_eq_true, if_false]
  split
  · rfl
  · split
    · rfl
    · rename_i hjust
      rcases hrest with hj | ⟨hundo, hidx⟩
      · exact absurd hj hjust
      · rcases recordConnected_cases e₂ a with ⟨hno, -⟩ | hrec
        · rw [hundo] at hno
          cases hno
        · rw [hrec]
          exact hidx

/-- On a clean call, a new claim of valid scripts comes with success. -/
theorem claimsScripts_connectBlock (hclean : a.Clean) (hgen : a.hash ≠ env.hashGenesisBlock)
    (hclaim : (e.connectBlock env a).1.ClaimsScripts) :
    e.ClaimsScripts ∨ (e.connectBlock env a).2 = true := by
  unfold connectBlock at hclaim ⊢
  by_cases hstart : (a.stopAt || !a.checkBlock) = true
  · rw [if_pos hstart] at hclaim
    exact Or.inl hclaim
  rw [if_neg hstart] at hclaim ⊢
  rw [Bool.not_eq_true, Bool.or_eq_false_iff, Bool.not_eq_false'] at hstart
  obtain ⟨hcontext, hindexes⟩ := hclean hstart.1 hstart.2
  cases hc : e.contextChecked a with
  | none =>
    rw [hc] at hclaim
    exact Or.inl hclaim
  | some e₁ =>
    rw [hc] at hclaim
    rcases contextChecked_cases hc with rfl | ⟨hpow, hpass, -⟩
    · -- the flag is not set: a failure leaves the level as it was
      exact claimsScripts_connectChecked hgen hindexes hclaim
    · -- the flag is set: nothing fails afterwards
      obtain ⟨hpay, hpos, hbest, hchecks, hrest⟩ := hcontext hpow hpass
      exact Or.inr (connectChecked_ok hpay hpos hbest hchecks hrest)

end CBlockIndex

/-! ## Steps and runs -/

namespace BlockTree

variable {env : ChainEnv} {t : BlockTree} {hash : Uint256}

variable (env) in
/-- The contextual flag of an unconnected block is not set, unless the call that sets
it connects the block. -/
def Meets (t : BlockTree) : ChainStep → Prop
  | .acceptBlock a => ∀ hash futureblock, (t.acceptChecks env a).2 = .inl (hash, futureblock) →
      a.contextualCheckBlock = true → hash = env.hashGenesisBlock ∨ t.connected hash = true
  | .connectBlock a =>
      a.hash = env.hashGenesisBlock ∨ t.connected a.hash = true ∨ a.Clean
  | _ => True

variable (env) in
/-- Every step of a run meets the condition in the state it starts from. -/
def MeetsAll (t : BlockTree) : List ChainStep → Prop
  | [] => True
  | s :: steps => Meets env t s ∧ MeetsAll (t.step env s) steps

theorem Honest.acceptBlock {a : AcceptArgs} (h : Honest env t)
    (hmeets : Meets env t (.acceptBlock a)) : Honest env (t.acceptBlock env a).1 := by
  have hclaimless : Claimless t (t.acceptChecks env a).1 := claimless_acceptChecks a
  have hchecks := hclaimless.honest h
  obtain ⟨ret, -, hafter⟩ | ⟨id, future, marked, hstored, hm, hafter⟩ :
      (∃ ret, (t.acceptChecks env a).2 = .inr ret ∧
        (t.acceptBlock env a).1 = (t.acceptChecks env a).1) ∨ _ := acceptBlock_cases a
  · rw [hafter]
    exact hchecks
  · have hmarked : Honest env marked := by
      rw [hm]
      split
      · rename_i hcontext
        apply hchecks.modify
        rw [hclaimless.connected]
        exact hmeets id future hstored hcontext
      · exact hchecks
    rcases hafter with hafter | hafter
    · rw [hafter]
      exact hmarked
    · rw [hafter]
      exact (claimless_received a.nTx a.nFile).honest hmarked

/-- `ConnectBlock` keeps the marks honest. -/
theorem Honest.connectBlock {a : ConnectArgs} (h : Honest env t)
    (hmeets : Meets env t (.connectBlock a)) : Honest env (t.connectBlock env a).1 := by
  unfold BlockTree.connectBlock
  cases hfind : t.find a.hash with
  | none => exact h
  | some e =>
    dsimp only
    intro id e' he hgen hclaim
    have hset : (t.set a.hash (e.connectBlock env a).1).find id = some e' := he
    rw [find_set] at hset
    split at hset
    · rename_i hid
      subst hid
      cases hset
      simp only [connected_set, Function.update_self, Bool.or_eq_true]
      rcases hmeets with hg | hconnected | hclean
      · exact absurd hg hgen
      · exact Or.inl hconnected
      · rcases CBlockIndex.claimsScripts_connectBlock hclean hgen hclaim with hold | hok
        · exact Or.inl (h _ e hfind hgen hold)
        · exact Or.inr hok
    · rename_i hid
      simp only [connected_set, Function.update_of_ne hid]
      exact h id e' hset hgen hclaim

theorem claimless_invalidateBlock (tips : List Uint256) :
    Claimless t (t.invalidateBlock hash tips) := by
  have hfold : ∀ (tips : List Uint256) (u : BlockTree),
      Claimless u (tips.foldl (fun u tip => u.modify tip fun e => e.orStatus failedChild) u) := by
    intro tips
    induction tips with
    | nil => exact fun u => Claimless.refl u
    | cons tip tips ih => exact fun u => (claimless_orStatus (by decide)).trans (ih _)
  exact (claimless_orStatus (by decide)).trans (hfold tips _)

/-- The loops of `ReconsiderBlock` for a block clear the marks of an entry. -/
def reconsidered (t : BlockTree) (hash id : Uint256) (e : CBlockIndex) : Bool :=
  (t.find hash).elim false fun pindex =>
    (!e.isValid validTransactions && t.getAncestor id pindex.nHeight == some hash) ||
      (decide (id ∈ t.ancestry (pindex.nHeight.toNat + 1) hash) && e.failed)

theorem find_reconsiderBlock (id : Uint256) : (t.reconsiderBlock hash).find id =
    (t.find id).map fun e =>
      if t.reconsidered hash id e then e.clearStatus failedMask else e := by
  unfold reconsiderBlock reconsidered
  cases hfind : t.find hash with
  | none => simp
  | some pindex =>
    simp only [find, Option.elim_some]
    cases hid : t.mapBlockIndex id with
    | none => rfl
    | some entry =>
      cases entry with
      | none => rfl
      | some e => rfl

theorem claimless_reconsiderBlock : Claimless t (t.reconsiderBlock hash) where
  connected := by
    unfold reconsiderBlock
    split <;> rfl
  claims := by
    intro id e' he hclaim
    rw [find_reconsiderBlock] at he
    obtain ⟨e, hfind, heq⟩ := Option.map_eq_some_iff.1 he
    refine ⟨e, hfind, ?_⟩
    rw [← heq] at hclaim
    split at hclaim
    · exact (CBlockIndex.claimsScripts_clearStatus (by decide)).1 hclaim
    · exact hclaim

theorem Honest.step {s : ChainStep} (h : Honest env t) (hmeets : Meets env t s) :
    Honest env (t.step env s) := by
  cases s with
  | acceptBlockHeader a => exact (claimless_acceptBlockHeader env a).honest h
  | acceptBlock a => exact h.acceptBlock hmeets
  | receivedBlockTransactions hash nTx nFile => exact (claimless_received nTx nFile).honest h
  | connectBlock a => exact h.connectBlock hmeets
  | invalidBlockFound hash corruptionPossible =>
    simp only [BlockTree.step, invalidBlockFound]
    split
    · exact h
    · exact (claimless_orStatus (by decide)).honest h
  | invalidateBlock hash tips => exact (claimless_invalidateBlock tips).honest h
  | reconsiderBlock hash => exact claimless_reconsiderBlock.honest h

theorem Honest.run {steps : List ChainStep} (h : Honest env t)
    (hmeets : MeetsAll env t steps) : Honest env (t.run env steps) := by
  induction steps generalizing t with
  | nil => exact h
  | cons s steps ih => exact ih (h.step hmeets.1) hmeets.2

/-- In every run whose steps meet the condition, from any tree whose levels are right,
a block other than the genesis block whose index entry is valid for scripts has been
connected, and so has one whose level bits alone say so. -/
theorem scripts_valid_connected (env : ChainEnv) (t : BlockTree) (steps : List ChainStep)
    (ht : Honest env t) (hsteps : MeetsAll env t steps) (hash : Uint256) (e : CBlockIndex)
    (hfind : (t.run env steps).find hash = some e) (hgen : hash ≠ env.hashGenesisBlock) :
    (e.isValid validScripts = true → (t.run env steps).connected hash = true) ∧
      (validScripts ≤ level e.nStatus → (t.run env steps).connected hash = true) := by
  have hclaims := ht.run hsteps hash e hfind hgen
  exact ⟨fun hvalid => hclaims (CBlockIndex.claimsScripts_of_isValid hvalid), hclaims⟩

/-- A chain with genesis block 1. -/
def sampleChain : ChainEnv where
  hashGenesisBlock := 1
  assetchainsCC := true

/-- A block that passes all its checks. -/
def sampleBlock : AcceptArgs where
  hash := 2
  hashPrevBlock := 1
  nTime := 200

/-- Accept the genesis block's header and then a block over it. -/
def acceptedRun (a : AcceptArgs) : List ChainStep :=
  [.acceptBlockHeader { hash := 1, hashPrevBlock := 0, nTime := 100 }, .acceptBlock a]

/-- A block whose contextual checks fail near an upgrade is stored without the flag and
connected when they pass. -/
def connectedRun : List ChainStep :=
  acceptedRun { sampleBlock with contextualCheckBlock := false, saplingFuture := true } ++
    [.connectBlock { hash := 2 }]

/-- A block that is received and connected. -/
theorem connectedRun_valid : ∃ e, (run sampleChain {} connectedRun).find 2 = some e ∧
    e.isValid validScripts = true ∧ (run sampleChain {} connectedRun).connected 2 = true := by
  obtain ⟨e, hfind, hvalid⟩ : ∃ e, (run sampleChain {} connectedRun).find 2 = some e ∧
      e.isValid validScripts = true := ⟨_, rfl, by decide⟩
  have hmeets : MeetsAll sampleChain {} connectedRun := by
    refine ⟨trivial, ?_, Or.inr (Or.inr ?_), trivial⟩
    · intro hash futureblock _ hcontext
      cases hcontext
    · intro _ _
      decide
  have hempty : Honest sampleChain {} := by
    intro hash e he
    cases he
  exact ⟨e, hfind, hvalid, (scripts_valid_connected sampleChain {} connectedRun hempty hmeets 2 e
    hfind (by decide)).1 hvalid⟩

/-- A block that is only accepted to disk, with all its checks passing, is valid for
scripts. -/
theorem accepted_block_claims_scripts :
    ((run sampleChain {} (acceptedRun sampleBlock)).find 2).map
        (fun e => e.isValid validScripts) = some true ∧
      (run sampleChain {} (acceptedRun sampleBlock)).connected 2 = false := by
  constructor
  · decide +kernel
  · decide +kernel

end BlockTree

end IndexChain.Chain
