import IndexChain.Core.Keyed
import IndexChain.Models.Net.NextBlocks

/-!
# Blocks in flight

The steps that change what is known about the nodes, in any order: nodes come and go, announce
blocks and deliver them, and are asked for others. The map of the blocks in flight and the lists
of the nodes stay in agreement, so that no iterator is followed that points to nothing. The
number of blocks in flight with validated headers is not corrected when a node goes.
-/

namespace IndexChain.Net

open IndexChain.Core Chain

/-! ## Steps -/

namespace DownloadState

variable (s : DownloadState)

/-- `SendMessages` starts to synchronize headers. `fRecent` is whether the best header is of the
last day. -/
def startSync (nodeid : NodeId) (fClient fOneShot fImporting fReindex fRecent : Bool) :
    Option DownloadState := do
  let state ← s.mapNodeState nodeid
  let fFetch := state.fPreferredDownload || (s.nPreferredDownload == 0 && !fClient && !fOneShot)
  if !state.fSyncStarted && !fClient && !fImporting && !fReindex &&
      ((s.nSyncStarted == 0 && fFetch) || fRecent) then
    return { s.setNode nodeid { state with fSyncStarted := true } with
      nSyncStarted := s.nSyncStarted + 1 }
  else return s

/-- An `inv` message for a block. `fWanted` is whether it is not there and none is imported,
`fRecent` whether the tip is recent. -/
def announce (nPowTargetSpacing nNow : Int) (nodeid : NodeId) (hash : Uint256)
    (fWanted fRecent : Bool) : Option DownloadState := do
  let state ← s.mapNodeState nodeid
  let s := s.setNode nodeid { state with hashLastUnknownBlock := hash }
  if fWanted ∧ s.mapBlocksInFlight hash = none ∧ fRecent ∧ state.nBlocksInFlight < 16 then
    s.markBlockAsInFlight nPowTargetSpacing nNow nodeid hash none
  else return s

/-- The tests of `SendMessages` for a node that is slow: whether it is disconnected. -/
def checkTimeouts (nPowTargetSpacing nNow : Int) (nodeid : NodeId) :
    Option (Bool × DownloadState) := do
  let state ← s.mapNodeState nodeid
  if state.nStallingSince ≠ 0 ∧ state.nStallingSince < nNow - 1000000 * 2 then return (true, s)
  else match state.vBlocksInFlight with
    | [] => return (false, s)
    | (it, queuedBlock) :: rest =>
      let nTimeoutIfRequestedNow := getBlockTimeout nPowTargetSpacing nNow
        (s.nQueuedValidatedHeaders - state.nBlocksInFlightValidHeaders)
      let queuedBlock := { queuedBlock with
        nTimeDisconnect := min queuedBlock.nTimeDisconnect nTimeoutIfRequestedNow }
      return (decide (queuedBlock.nTimeDisconnect < nNow),
        s.setNode nodeid { state with vBlocksInFlight := (it, queuedBlock) :: rest })

/-- Blocks are marked one after the other. -/
def requestBlocks (nPowTargetSpacing nNow : Int) (nodeid : NodeId) (vToDownload : List Uint256) :
    Option DownloadState :=
  vToDownload.foldlM
    (fun s pindex => s.markBlockAsInFlight nPowTargetSpacing nNow nodeid pindex (some pindex)) s

/-- The stalling of another node is noted. -/
def noteStaller (nNow : Int) (nodeid staller : NodeId) : Option DownloadState := do
  let state ← s.mapNodeState nodeid
  if state.nBlocksInFlight = 0 ∧ staller ≠ -1 then do
    let other ← s.mapNodeState staller
    if other.nStallingSince = 0 then return s.setNode staller { other with nStallingSince := nNow }
    else return s
  else return s

/-- `SendMessages` asks a node for blocks. -/
def getData (v : BlockView) (nPowTargetSpacing nNow : Int) (nodeid : NodeId) :
    Option DownloadState := do
  let state ← s.mapNodeState nodeid
  if state.nBlocksInFlight < 16 then do
    let (vToDownload, staller, state) ←
      v.findNextBlocksToDownload s nodeid (16 - state.nBlocksInFlight).toNat state
    let s ← (s.setNode nodeid state).requestBlocks nPowTargetSpacing nNow nodeid vToDownload
    s.noteStaller nNow nodeid staller
  else return s

end DownloadState

/-- What happens to the nodes. -/
inductive DownloadStep where
  | initializeNode (nodeid : NodeId)
  | finalizeNode (nodeid : NodeId)
  | version (nodeid : NodeId) (fInbound fWhitelisted fOneShot fClient : Bool)
  | startSync (nodeid : NodeId) (fClient fOneShot fImporting fReindex fRecent : Bool)
  | block (hash : Uint256)
  | inv (nPowTargetSpacing nNow : Int) (nodeid : NodeId) (hash : Uint256)
    (fWanted fRecent : Bool)
  | timeouts (nPowTargetSpacing nNow : Int) (nodeid : NodeId)
  | getData (v : BlockView) (nPowTargetSpacing nNow : Int) (nodeid : NodeId)

namespace DownloadState

/-- One step. -/
def step (s : DownloadState) : DownloadStep → Option DownloadState
  | .initializeNode nodeid => some (s.initializeNode nodeid)
  | .finalizeNode nodeid => s.finalizeNode nodeid
  | .version nodeid fInbound fWhitelisted fOneShot fClient =>
    s.updatePreferredDownload nodeid fInbound fWhitelisted fOneShot fClient
  | .startSync nodeid fClient fOneShot fImporting fReindex fRecent =>
    s.startSync nodeid fClient fOneShot fImporting fReindex fRecent
  | .block hash => s.markBlockAsReceived hash |>.map Prod.snd
  | .inv nPowTargetSpacing nNow nodeid hash fWanted fRecent =>
    s.announce nPowTargetSpacing nNow nodeid hash fWanted fRecent
  | .timeouts nPowTargetSpacing nNow nodeid =>
    s.checkTimeouts nPowTargetSpacing nNow nodeid |>.map Prod.snd
  | .getData v nPowTargetSpacing nNow nodeid => s.getData v nPowTargetSpacing nNow nodeid

/-- The blocks in flight from a node with validated headers. -/
def validHeaders (state : CNodeState) : Nat :=
  state.vBlocksInFlight.countP fun entry => entry.2.fValidatedHeaders

/-- The blocks with validated headers that are in flight from a node that goes. -/
def lostBy (s : DownloadState) : DownloadStep → Nat
  | .finalizeNode nodeid => (s.mapNodeState nodeid).elim 0 validHeaders
  | _ => 0

/-- The states that are reached, with the blocks with validated headers that were in flight from
nodes that have gone. -/
inductive Reached : DownloadState → Nat → Prop where
  | start : Reached {} 0
  | step {s s' : DownloadState} {lost : Nat} {x : DownloadStep} (h : Reached s lost)
      (hstep : s.step x = some s') : Reached s' (lost + s.lostBy x)

/-- The map and the lists agree, and the counters are right. -/
structure Consistent (s : DownloadState) (lost : Nat) : Prop where
  /-- There are finitely many nodes. -/
  finite : FiniteMap s.mapNodeState
  /-- A block in a list is in the map, with the node and the iterator. -/
  listed : ∀ nodeid state it q, s.mapNodeState nodeid = some state →
    (it, q) ∈ state.vBlocksInFlight → s.mapBlocksInFlight q.hash = some (nodeid, it)
  /-- The iterators in the map point to elements of the list of their node. -/
  found : ∀ hash nodeid it, s.mapBlocksInFlight hash = some (nodeid, it) →
    it < s.nIterators ∧ ∃ state q, s.mapNodeState nodeid = some state ∧
      (it, q) ∈ state.vBlocksInFlight ∧ q.hash = hash
  /-- No iterator points to two elements. -/
  nodup : ∀ nodeid state, s.mapNodeState nodeid = some state →
    (state.vBlocksInFlight.map Prod.fst).Nodup
  /-- The counters of a node, and `MAX_BLOCKS_IN_TRANSIT_PER_PEER`. -/
  counted : ∀ nodeid state, s.mapNodeState nodeid = some state →
    state.nBlocksInFlight = state.vBlocksInFlight.length ∧
      state.nBlocksInFlightValidHeaders = validHeaders state ∧
      state.vBlocksInFlight.length ≤ 16
  /-- `nQueuedValidatedHeaders`. -/
  queued : s.nQueuedValidatedHeaders = tally validHeaders s.mapNodeState + lost
  /-- `nPreferredDownload`. -/
  preferred : s.nPreferredDownload = tally (fun state => flag state.fPreferredDownload)
    s.mapNodeState
  /-- `nSyncStarted`. -/
  sync : s.nSyncStarted = tally (fun state => flag state.fSyncStarted) s.mapNodeState

variable {s s' : DownloadState} {lost : Nat} {nodeid : NodeId} {state old : CNodeState}
  {hash : Uint256}

/-! ## One node -/

/-- What the map and the counters depend on. -/
def entryKey (entry : Nat × QueuedBlock) : Nat × Uint256 × Bool :=
  (entry.1, entry.2.hash, entry.2.fValidatedHeaders)

theorem validHeaders_eq (state : CNodeState) :
    validHeaders state = (state.vBlocksInFlight.map entryKey).countP fun k => k.2.2 := by
  rw [List.countP_map]
  rfl

theorem keys_eq (state : CNodeState) :
    state.vBlocksInFlight.map Prod.fst = (state.vBlocksInFlight.map entryKey).map Prod.fst := by
  rw [List.map_map]
  rfl

/-- What a map holds after a change. -/
theorem update_cases {m : NodeId → Option CNodeState} {o : Option CNodeState} {nodeid' : NodeId}
    (h : Function.update m nodeid o nodeid' = some state) :
    nodeid' = nodeid ∧ o = some state ∨ nodeid' ≠ nodeid ∧ m nodeid' = some state := by
  obtain rfl | hne := eq_or_ne nodeid' nodeid
  · rw [Function.update_self] at h
    exact .inl ⟨rfl, h⟩
  · rw [Function.update_of_ne hne] at h
    exact .inr ⟨hne, h⟩

/-- What holds of every node holds after the state of one has changed. -/
theorem forall_update {P : CNodeState → Prop} {m : NodeId → Option CNodeState}
    {o : Option CNodeState} (h : ∀ nodeid state, m nodeid = some state → P state)
    (ho : ∀ state, o = some state → P state) (nodeid' : NodeId) (state : CNodeState)
    (hstate : Function.update m nodeid o nodeid' = some state) : P state := by
  obtain ⟨-, heq⟩ | ⟨-, hold⟩ := update_cases hstate
  · exact ho state heq
  · exact h nodeid' state hold

/-- The state of a node changes, and its list only in the times. -/
theorem Consistent.change (h : s.Consistent lost) (hold : s.mapNodeState nodeid = some old)
    (hkeys : state.vBlocksInFlight.map entryKey = old.vBlocksInFlight.map entryKey)
    (hcount : state.nBlocksInFlight = old.nBlocksInFlight)
    (hvalid : state.nBlocksInFlightValidHeaders = old.nBlocksInFlightValidHeaders)
    {nPreferredDownload nSyncStarted : Int}
    (hpreferred : nPreferredDownload + flag old.fPreferredDownload =
      s.nPreferredDownload + flag state.fPreferredDownload)
    (hsync : nSyncStarted + flag old.fSyncStarted = s.nSyncStarted + flag state.fSyncStarted) :
    Consistent { s.setNode nodeid state with
      nPreferredDownload := nPreferredDownload, nSyncStarted := nSyncStarted } lost := by
  have hmem : ∀ {a b : CNodeState} {it : Nat} {q : QueuedBlock},
      a.vBlocksInFlight.map entryKey = b.vBlocksInFlight.map entryKey →
        (it, q) ∈ a.vBlocksInFlight → ∃ q', (it, q') ∈ b.vBlocksInFlight ∧ q'.hash = q.hash := by
    intro a b it q heq hq
    have hkey : entryKey (it, q) ∈ b.vBlocksInFlight.map entryKey :=
      heq ▸ List.mem_map_of_mem hq
    obtain ⟨⟨it', q'⟩, hq', heq'⟩ := List.mem_map.1 hkey
    obtain ⟨rfl, heq'⟩ := Prod.mk.inj heq'
    exact ⟨q', hq', (Prod.mk.inj heq').1⟩
  have hvalidHeaders : validHeaders state = validHeaders old := by
    rw [validHeaders_eq, validHeaders_eq, hkeys]
  have hlength : state.vBlocksInFlight.length = old.vBlocksInFlight.length := by
    have hlen := congrArg List.length hkeys
    rwa [List.length_map, List.length_map] at hlen
  have htally : ∀ size : CNodeState → ℕ, tally size (s.setNode nodeid state).mapNodeState +
      size old = tally size s.mapNodeState + size state := by
    intro size
    have hupdate := tally_update size h.finite nodeid (some state)
    rwa [hold] at hupdate
  refine ⟨h.finite.update nodeid _, ?_, ?_, ?_, ?_, ?_, ?_, ?_⟩
  · intro nodeid' state' it q hstate' hq
    change Function.update s.mapNodeState nodeid (some state) nodeid' = some state' at hstate'
    obtain ⟨rfl, heq⟩ | ⟨hne, hstate'⟩ := update_cases hstate'
    · cases heq
      obtain ⟨q', hq', hhash⟩ := hmem hkeys hq
      rw [← hhash]
      exact h.listed nodeid' old it q' hold hq'
    · exact h.listed nodeid' state' it q hstate' hq
  · intro hash nodeid' it hmap
    obtain ⟨hlt, state', q, hstate', hq, hhash⟩ := h.found hash nodeid' it hmap
    refine ⟨hlt, ?_⟩
    obtain rfl | hne := eq_or_ne nodeid' nodeid
    · obtain rfl := Option.some.inj (hold.symm.trans hstate')
      obtain ⟨q', hq', hhash'⟩ := hmem hkeys.symm hq
      exact ⟨state, q', Function.update_self _ _ _, hq', hhash'.trans hhash⟩
    · exact ⟨state', q, (Function.update_of_ne hne _ _).trans hstate', hq, hhash⟩
  · refine forall_update h.nodup fun _ heq => ?_
    cases heq
    rw [keys_eq, hkeys, ← keys_eq]
    exact h.nodup nodeid old hold
  · refine forall_update h.counted fun _ heq => ?_
    cases heq
    rw [hcount, hvalid, hlength, hvalidHeaders]
    exact h.counted nodeid old hold
  · have hall := htally validHeaders
    rw [hvalidHeaders] at hall
    have hqueued := h.queued
    simp only [setNode] at hall ⊢
    omega
  · have hall := htally fun state => flag state.fPreferredDownload
    have hwas := h.preferred
    simp only [setNode] at hall ⊢
    omega
  · have hall := htally fun state => flag state.fSyncStarted
    have hwas := h.sync
    simp only [setNode] at hall ⊢
    omega

/-- A new node has no blocks in flight. -/
theorem Consistent.initializeNode (h : s.Consistent lost) (nodeid : NodeId) :
    (s.initializeNode nodeid).Consistent lost := by
  unfold DownloadState.initializeNode
  cases hnode : s.mapNodeState nodeid with
  | some state => exact h
  | none =>
    have htally : ∀ size : CNodeState → ℕ, size {} = 0 →
        tally size (s.setNode nodeid {}).mapNodeState = tally size s.mapNodeState := by
      intro size hsize
      exact (tally_insert size h.finite hnode {}).trans (by rw [hsize, Nat.add_zero])
    refine ⟨h.finite.update nodeid _, ?_, ?_, ?_, ?_, ?_, ?_, ?_⟩
    · intro nodeid' state it q hstate hq
      obtain ⟨-, heq⟩ | ⟨-, hstate⟩ := update_cases hstate
      · cases heq
        cases hq
      · exact h.listed nodeid' state it q hstate hq
    · intro hash nodeid' it hmap
      obtain ⟨hlt, state, q, hstate, hq⟩ := h.found hash nodeid' it hmap
      have hne : nodeid' ≠ nodeid := by
        rintro rfl
        rw [hnode] at hstate
        cases hstate
      exact ⟨hlt, state, q, (Function.update_of_ne hne _ _).trans hstate, hq⟩
    · refine forall_update h.nodup fun _ heq => ?_
      cases heq
      exact List.nodup_nil
    · refine forall_update h.counted fun _ heq => ?_
      cases heq
      exact ⟨rfl, rfl, Nat.zero_le 16⟩
    · rw [htally validHeaders rfl]
      exact h.queued
    · rw [htally (fun state => flag state.fPreferredDownload) rfl]
      exact h.preferred
    · rw [htally (fun state => flag state.fSyncStarted) rfl]
      exact h.sync

theorem eraseHashes_eq (hashes : List Uint256) (hash : Uint256) :
    s.eraseHashes hashes hash = if hash ∈ hashes then none else s.mapBlocksInFlight hash := by
  unfold eraseHashes
  generalize s.mapBlocksInFlight = m
  induction hashes generalizing m with
  | nil => rfl
  | cons head hashes ih =>
    rw [List.foldl_cons, ih]
    by_cases hmem : hash ∈ hashes
    · rw [if_pos hmem, if_pos (List.mem_cons_of_mem _ hmem)]
    · rw [if_neg hmem]
      by_cases heq : hash = head
      · rw [heq, Function.update_self, if_pos List.mem_cons_self]
      · rw [Function.update_of_ne heq, if_neg (by simp [heq, hmem])]

/-- A node takes its blocks out of the map, and leaves `nQueuedValidatedHeaders` as it is. -/
theorem Consistent.finalizeNode (h : s.Consistent lost) (hstep : s.finalizeNode nodeid = some s') :
    s'.Consistent (lost + (s.mapNodeState nodeid).elim 0 validHeaders) := by
  obtain ⟨state, hnode, hstep⟩ := Option.bind_eq_some_iff.1 hstep
  cases hstep
  rw [hnode, Option.elim_some]
  -- the hashes that are erased are those of the blocks of this node
  have herased : ∀ hash nodeid' it, s.mapBlocksInFlight hash = some (nodeid', it) →
      (hash ∈ state.vBlocksInFlight.map (fun entry => entry.2.hash) ↔ nodeid' = nodeid) := by
    intro hash nodeid' it hmap
    constructor
    · intro hmem
      obtain ⟨⟨it', q⟩, hq, rfl⟩ := List.mem_map.1 hmem
      have hlisted := h.listed nodeid state it' q hnode hq
      exact (Prod.mk.inj (Option.some.inj (hmap.symm.trans hlisted))).1
    · rintro rfl
      obtain ⟨-, state', q, hstate', hq, rfl⟩ := h.found hash nodeid' it hmap
      obtain rfl := Option.some.inj (hnode.symm.trans hstate')
      exact List.mem_map_of_mem (f := fun entry => entry.2.hash) hq
  have htally : ∀ size : CNodeState → ℕ,
      tally size (Function.update s.mapNodeState nodeid none) + size state =
        tally size s.mapNodeState := by
    intro size
    have hupdate := tally_update size h.finite nodeid none
    rwa [hnode] at hupdate
  have hgone : ∀ {nodeid' : NodeId} {state' : CNodeState},
      Function.update s.mapNodeState nodeid none nodeid' = some state' →
        nodeid' ≠ nodeid ∧ s.mapNodeState nodeid' = some state' := by
    intro nodeid' state' hstate'
    obtain ⟨-, heq⟩ | hrest := update_cases hstate'
    · cases heq
    · exact hrest
  refine ⟨h.finite.update nodeid none, ?_, ?_, ?_, ?_, ?_, ?_, ?_⟩
  · intro nodeid' state' it q hstate' hq
    obtain ⟨hne, hstate'⟩ := hgone hstate'
    have hlisted := h.listed nodeid' state' it q hstate' hq
    exact (eraseHashes_eq _ _).trans
      ((if_neg fun hmem => hne ((herased _ _ _ hlisted).1 hmem)).trans hlisted)
  · intro hash nodeid' it hmap
    have hmap := (eraseHashes_eq _ _).symm.trans hmap
    split_ifs at hmap with hmem
    have hne : nodeid' ≠ nodeid := fun heq => hmem ((herased _ _ _ hmap).2 heq)
    obtain ⟨hlt, state', q, hstate', hq⟩ := h.found hash nodeid' it hmap
    exact ⟨hlt, state', q, (Function.update_of_ne hne _ _).trans hstate', hq⟩
  · exact forall_update h.nodup nofun
  · exact forall_update h.counted nofun
  · have hall := htally validHeaders
    have hqueued := h.queued
    push_cast
    omega
  · have hall := htally fun state => flag state.fPreferredDownload
    have hwas := h.preferred
    dsimp only
    omega
  · have hall := htally fun state => flag state.fSyncStarted
    have hwas := h.sync
    dsimp only
    omega

/-! ## One block -/

theorem Consistent.eq_of_it (h : s.Consistent lost) (hnode : s.mapNodeState nodeid = some state)
    {it : Nat} {q q' : QueuedBlock} (hq : (it, q) ∈ state.vBlocksInFlight)
    (hq' : (it, q') ∈ state.vBlocksInFlight) : q = q' :=
  (Prod.mk.inj (List.inj_on_of_nodup_map (h.nodup nodeid state hnode) hq hq' rfl)).2

theorem lookup_of_mem {l : List (Nat × QueuedBlock)} (hnodup : (l.map Prod.fst).Nodup) {it : Nat}
    {q : QueuedBlock} (hq : (it, q) ∈ l) : l.lookup it = some q := by
  induction l with
  | nil => cases hq
  | cons entry l ih =>
    obtain ⟨it', q'⟩ := entry
    rw [List.map_cons, List.nodup_cons] at hnodup
    obtain heq | hmem := List.mem_cons.1 hq
    · cases heq
      exact List.lookup_cons_self
    · have hne : it ≠ it' := by
        rintro rfl
        exact hnodup.1 (List.mem_map.2 ⟨(it, q), hmem, rfl⟩)
      rw [List.lookup_cons, beq_eq_false_iff_ne.2 hne]
      exact ih hnodup.2 hmem

/-- What a block that arrives changes: it is in flight from no node, and no node has more blocks
in flight than before. -/
theorem Consistent.markBlockAsReceived (h : s.Consistent lost) (hash : Uint256) :
    ∃ b s', s.markBlockAsReceived hash = some (b, s') ∧ s'.Consistent lost ∧
      s'.mapBlocksInFlight hash = none ∧ ∀ nodeid state, s.mapNodeState nodeid = some state →
        ∃ state', s'.mapNodeState nodeid = some state' ∧
          state'.vBlocksInFlight.length ≤ state.vBlocksInFlight.length := by
  unfold DownloadState.markBlockAsReceived
  cases hmap : s.mapBlocksInFlight hash with
  | none => exact ⟨false, s, rfl, h, hmap, fun _ state hstate => ⟨state, hstate, Nat.le_refl _⟩⟩
  | some place =>
    obtain ⟨nodeid, it⟩ := place
    obtain ⟨-, state, q, hnode, hq, rfl⟩ := h.found hash nodeid it hmap
    have hnodup := h.nodup nodeid state hnode
    obtain ⟨hcount, hvalid, hmost⟩ := h.counted nodeid state hnode
    -- one element leaves the list
    have hperm : state.vBlocksInFlight.Perm
        ((it, q) :: state.vBlocksInFlight.filter fun entry => !(entry.1 == it)) :=
      Keyed.perm_erase (s := ⟨state.vBlocksInFlight, hnodup⟩) hq
    have hvalidHeaders : validHeaders state =
        validHeaders (state.takeOut it q) + flag q.fValidatedHeaders := by
      rw [validHeaders, hperm.countP_eq, List.countP_cons]
      rfl
    have hlength : state.vBlocksInFlight.length =
        (state.takeOut it q).vBlocksInFlight.length + 1 := hperm.length_eq
    have htally : ∀ size : CNodeState → ℕ,
        tally size (Function.update s.mapNodeState nodeid (some (state.takeOut it q))) +
          size state = tally size s.mapNodeState + size (state.takeOut it q) := by
      intro size
      have hupdate := tally_update size h.finite nodeid (some (state.takeOut it q))
      rwa [hnode] at hupdate
    simp only [hnode, Option.bind_eq_bind, Option.bind_some, lookup_of_mem hnodup hq]
    refine ⟨true, _, rfl, ⟨h.finite.update nodeid _, ?_, ?_, ?_, ?_, ?_, ?_, ?_⟩,
      Function.update_self _ _ _, ?_⟩
    · intro nodeid' state' it' q' hstate' hq'
      have hother : s.mapBlocksInFlight q'.hash = some (nodeid', it') ∧ q'.hash ≠ q.hash := by
        obtain ⟨rfl, heq⟩ | ⟨hne, hstate'⟩ := update_cases hstate'
        · cases heq
          obtain ⟨hq', hit⟩ := List.mem_filter.1 hq'
          have hlisted := h.listed nodeid' state it' q' hnode hq'
          refine ⟨hlisted, fun heq => ?_⟩
          rw [heq, hmap] at hlisted
          cases hlisted
          rw [beq_self_eq_true] at hit
          cases hit
        · have hlisted := h.listed nodeid' state' it' q' hstate' hq'
          refine ⟨hlisted, fun heq => ?_⟩
          rw [heq, hmap] at hlisted
          exact hne (Prod.mk.inj (Option.some.inj hlisted)).1.symm
      exact (Function.update_of_ne hother.2 _ _).trans hother.1
    · intro hash' nodeid' it' hmap'
      have hne : hash' ≠ q.hash := by
        rintro rfl
        cases (Function.update_self _ _ _).symm.trans hmap'
      have hmap' := (Function.update_of_ne hne _ _).symm.trans hmap'
      obtain ⟨hlt, state', q', hstate', hq', rfl⟩ := h.found hash' nodeid' it' hmap'
      refine ⟨hlt, ?_⟩
      obtain rfl | hnodeid := eq_or_ne nodeid' nodeid
      · obtain rfl := Option.some.inj (hnode.symm.trans hstate')
        refine ⟨_, q', Function.update_self _ _ _, List.mem_filter.2 ⟨hq', ?_⟩, rfl⟩
        rw [Bool.not_eq_true', beq_eq_false_iff_ne]
        rintro rfl
        exact hne (congrArg QueuedBlock.hash (h.eq_of_it hnode hq' hq))
      · exact ⟨state', q', (Function.update_of_ne hnodeid _ _).trans hstate', hq', rfl⟩
    · refine forall_update h.nodup fun _ heq => ?_
      cases heq
      exact hnodup.sublist (List.filter_sublist.map Prod.fst)
    · refine forall_update h.counted fun _ heq => ?_
      cases heq
      have hcount' : (state.takeOut it q).nBlocksInFlight = state.nBlocksInFlight - 1 := rfl
      have hvalid' : (state.takeOut it q).nBlocksInFlightValidHeaders =
          state.nBlocksInFlightValidHeaders - flag q.fValidatedHeaders := rfl
      omega
    · have hall := htally validHeaders
      have hqueued := h.queued
      show s.nQueuedValidatedHeaders - flag q.fValidatedHeaders =
        tally validHeaders (Function.update s.mapNodeState nodeid _) + lost
      omega
    · exact h.preferred.trans (congrArg _ (Nat.add_right_cancel
        (htally fun state => flag state.fPreferredDownload)).symm)
    · exact h.sync.trans (congrArg _ (Nat.add_right_cancel
        (htally fun state => flag state.fSyncStarted)).symm)
    · intro nodeid' state' hstate'
      obtain rfl | hne := eq_or_ne nodeid' nodeid
      · obtain rfl := Option.some.inj (hnode.symm.trans hstate')
        exact ⟨_, Function.update_self _ _ _, List.length_filter_le _ _⟩
      · exact ⟨state', (Function.update_of_ne hne _ _).trans hstate', Nat.le_refl _⟩

/-- A node that has room gets a block under a new iterator. -/
theorem Consistent.queueBlock (h : s.Consistent lost) (hnode : s.mapNodeState nodeid = some state)
    {newentry : QueuedBlock} (hmap : s.mapBlocksInFlight newentry.hash = none)
    (hroom : state.vBlocksInFlight.length < 16) :
    (s.queueBlock nodeid state newentry).Consistent lost := by
  obtain ⟨hcount, hvalid, -⟩ := h.counted nodeid state hnode
  have hnodup := h.nodup nodeid state hnode
  have hvalidHeaders : validHeaders (state.putIn s.nIterators newentry) =
      validHeaders state + flag newentry.fValidatedHeaders :=
    List.countP_append.trans (congrArg _ List.countP_singleton)
  have hlength : (state.putIn s.nIterators newentry).vBlocksInFlight.length =
      state.vBlocksInFlight.length + 1 := List.length_append
  have htally : ∀ size : CNodeState → ℕ, tally size (Function.update s.mapNodeState nodeid
      (some (state.putIn s.nIterators newentry))) + size state =
        tally size s.mapNodeState + size (state.putIn s.nIterators newentry) := by
    intro size
    have hupdate := tally_update size h.finite nodeid (some (state.putIn s.nIterators newentry))
    rwa [hnode] at hupdate
  -- the new iterator is none of those that were given out
  have hfresh : s.nIterators ∉ state.vBlocksInFlight.map Prod.fst := by
    intro hmem
    obtain ⟨⟨it, q⟩, hq, heq⟩ := List.mem_map.1 hmem
    obtain ⟨hlt, -⟩ := h.found q.hash nodeid it (h.listed nodeid state it q hnode hq)
    exact absurd heq (Nat.ne_of_lt hlt)
  refine ⟨h.finite.update nodeid _, ?_, ?_, ?_, ?_, ?_, ?_, ?_⟩
  · intro nodeid' state' it q hstate' hq
    have hlisted : ∀ {st : CNodeState}, s.mapNodeState nodeid' = some st →
        (it, q) ∈ st.vBlocksInFlight →
          (s.queueBlock nodeid state newentry).mapBlocksInFlight q.hash = some (nodeid', it) := by
      intro st hst hq
      have hlisted := h.listed nodeid' st it q hst hq
      have hne : q.hash ≠ newentry.hash := by
        intro heq
        rw [heq, hmap] at hlisted
        cases hlisted
      exact (Function.update_of_ne hne _ _).trans hlisted
    obtain ⟨rfl, heq⟩ | ⟨-, hstate'⟩ := update_cases hstate'
    · cases heq
      obtain hq | hq := List.mem_append.1 hq
      · exact hlisted hnode hq
      · cases List.mem_singleton.1 hq
        exact Function.update_self _ _ _
    · exact hlisted hstate' hq
  · intro hash nodeid' it hmap'
    obtain rfl | hne := eq_or_ne hash newentry.hash
    · cases (Function.update_self _ _ _).symm.trans hmap'
      exact ⟨Nat.lt_succ_self _, _, newentry, Function.update_self _ _ _,
        List.mem_append_right _ (List.mem_singleton.2 rfl), rfl⟩
    · have hmap' := (Function.update_of_ne hne _ _).symm.trans hmap'
      obtain ⟨hlt, state', q, hstate', hq, hhash⟩ := h.found hash nodeid' it hmap'
      refine ⟨Nat.lt_succ_of_lt hlt, ?_⟩
      obtain rfl | hnodeid := eq_or_ne nodeid' nodeid
      · obtain rfl := Option.some.inj (hnode.symm.trans hstate')
        exact ⟨_, q, Function.update_self _ _ _, List.mem_append_left _ hq, hhash⟩
      · exact ⟨state', q, (Function.update_of_ne hnodeid _ _).trans hstate', hq, hhash⟩
  · refine forall_update h.nodup fun _ heq => ?_
    cases heq
    rw [CNodeState.putIn, List.map_append, List.nodup_append]
    refine ⟨hnodup, List.nodup_singleton _, fun it hit it' hit' => ?_⟩
    rw [List.mem_singleton.1 hit']
    exact ne_of_mem_of_not_mem hit hfresh
  · refine forall_update h.counted fun _ heq => ?_
    cases heq
    have hcount' : (state.putIn s.nIterators newentry).nBlocksInFlight =
        state.nBlocksInFlight + 1 := rfl
    have hvalid' : (state.putIn s.nIterators newentry).nBlocksInFlightValidHeaders =
        state.nBlocksInFlightValidHeaders + flag newentry.fValidatedHeaders := rfl
    omega
  · have hall := htally validHeaders
    have hqueued := h.queued
    show s.nQueuedValidatedHeaders + flag newentry.fValidatedHeaders =
      tally validHeaders (Function.update s.mapNodeState nodeid _) + lost
    omega
  · exact h.preferred.trans (congrArg _ (Nat.add_right_cancel
      (htally fun state => flag state.fPreferredDownload)).symm)
  · exact h.sync.trans (congrArg _ (Nat.add_right_cancel
      (htally fun state => flag state.fSyncStarted)).symm)

/-- A block is marked for a node that has room for it. -/
theorem Consistent.markBlockAsInFlight (h : s.Consistent lost)
    (hnode : s.mapNodeState nodeid = some state) (hroom : state.vBlocksInFlight.length < 16)
    (nPowTargetSpacing nNow : Int) (hash : Uint256) (pindex : Option Uint256) :
    ∃ s', s.markBlockAsInFlight nPowTargetSpacing nNow nodeid hash pindex = some s' ∧
      s'.Consistent lost ∧ (∀ nodeid, (s.mapNodeState nodeid).isSome = true →
        (s'.mapNodeState nodeid).isSome = true) ∧
      ∃ state', s'.mapNodeState nodeid = some state' ∧
        state'.vBlocksInFlight.length ≤ state.vBlocksInFlight.length + 1 := by
  obtain ⟨b, t, hreceived, ht, hnone, hkeeps⟩ := h.markBlockAsReceived hash
  obtain ⟨old, hold, hle⟩ := hkeeps nodeid state hnode
  unfold DownloadState.markBlockAsInFlight
  simp only [hnode, hreceived, hold, Option.bind_eq_bind, Option.bind_some]
  refine ⟨_, rfl, ht.queueBlock hold hnone (hle.trans_lt hroom), fun other hother => ?_, _,
    Function.update_self _ _ _, ?_⟩
  · obtain ⟨st, hst⟩ := Option.isSome_iff_exists.1 hother
    obtain ⟨st', hst', -⟩ := hkeeps other st hst
    obtain rfl | hne := eq_or_ne other nodeid
    · exact Option.isSome_of_mem (Function.update_self _ _ _)
    · exact Option.isSome_of_mem ((Function.update_of_ne hne _ _).trans hst')
  · exact (List.length_append.trans_le (Nat.add_le_add_right hle 1))

/-- Blocks are marked for a node that has room for all of them. -/
theorem Consistent.requestBlocks (nPowTargetSpacing nNow : Int) (vToDownload : List Uint256)
    (h : s.Consistent lost) (hnode : s.mapNodeState nodeid = some state)
    (hroom : state.vBlocksInFlight.length + vToDownload.length ≤ 16) :
    ∃ s', s.requestBlocks nPowTargetSpacing nNow nodeid vToDownload = some s' ∧
      s'.Consistent lost ∧ ∀ nodeid, (s.mapNodeState nodeid).isSome = true →
        (s'.mapNodeState nodeid).isSome = true := by
  induction vToDownload generalizing s state with
  | nil => exact ⟨s, rfl, h, fun _ hsome => hsome⟩
  | cons pindex vToDownload ih =>
    rw [List.length_cons] at hroom
    obtain ⟨t, hmark, ht, hkept, state', hnode', hle⟩ :=
      h.markBlockAsInFlight hnode (by omega) nPowTargetSpacing nNow pindex (some pindex)
    obtain ⟨s', hrest, hs', hkept'⟩ := ih ht hnode' (by omega)
    refine ⟨s', ?_, hs', fun other hsome => hkept' other (hkept other hsome)⟩
    exact foldlM_cons_eq_some.2 ⟨t, hmark, hrest⟩

/-! ## The search -/

/-- A block is in flight from a node. -/
def InFlightFrom (s : DownloadState) (nodeid : NodeId) : Prop :=
  ∃ hash it, s.mapBlocksInFlight hash = some (nodeid, it)

/-- What holds in the loops of `findNextBlocksToDownload`. -/
structure Fetching (s : DownloadState) (count : Nat) (f : BlockView.Fetch) : Prop where
  /-- No more blocks are found than asked for. -/
  most : f.vBlocks.length ≤ count
  /-- The search ends with the last of them. -/
  room : f.returned = false → f.vBlocks.length < count
  /-- `waitingfor` is a node that a block is in flight from. -/
  waits : f.waitingfor = -1 ∨ s.InFlightFrom f.waitingfor
  /-- `nodeStaller` is a node that a block is in flight from. -/
  stalls : f.nodeStaller = -1 ∨ s.InFlightFrom f.nodeStaller

variable {v : BlockView} {count : Nat} {nWindowEnd : Int} {f f' : BlockView.Fetch}

/-- One block of the loop. -/
theorem Fetching.fetchOne {pindex : Uint256} (hf : Fetching s count f)
    (h : v.fetchOne s nodeid count nWindowEnd f pindex = some f') : Fetching s count f' := by
  unfold BlockView.fetchOne at h
  by_cases hreturned : f.returned = true
  · rw [if_pos hreturned] at h
    cases h
    exact hf
  · rw [if_neg hreturned] at h
    have hroom := hf.room (Bool.eq_false_iff.2 hreturned)
    obtain ⟨e, -, rfl⟩ := Option.map_eq_some_iff.1 h
    by_cases hvalid : e.isValid BlockStatus.validTree = true
    · rw [if_neg (not_not_intro hvalid)]
      by_cases hhave : e.nStatus &&& BlockStatus.haveData ≠ 0 ∨
          v.chainActive.contains v.tree pindex = true
      · rw [if_pos hhave]
        split_ifs
        · exact ⟨hf.most, fun _ => hroom, hf.waits, hf.stalls⟩
        · exact hf
      · rw [if_neg hhave]
        cases hmap : s.mapBlocksInFlight pindex with
        | none =>
          by_cases hend : nWindowEnd < e.nHeight
          · rw [if_pos hend]
            refine ⟨hf.most, nofun, hf.waits, ?_⟩
            show (if _ then f.waitingfor else f.nodeStaller) = -1 ∨
              s.InFlightFrom (if _ then f.waitingfor else f.nodeStaller)
            split_ifs
            · exact hf.waits
            · exact hf.stalls
          · rw [if_neg hend]
            refine ⟨List.length_append.trans_le hroom, fun hmore => ?_, hf.waits, hf.stalls⟩
            exact List.length_append.trans_lt
              (lt_of_le_of_ne hroom (of_decide_eq_false hmore))
        | some place =>
          dsimp only
          split_ifs
          · exact ⟨hf.most, fun _ => hroom, .inr ⟨pindex, place.2, hmap⟩, hf.stalls⟩
          · exact hf
    · rw [if_pos hvalid]
      exact ⟨hf.most, nofun, hf.waits, hf.stalls⟩

/-- The loops keep it. -/
theorem Fetching.fetchLoop {best : Uint256} {nMaxHeight : Int} {fuel : Nat} {pindexWalk : Uint256}
    (hf : Fetching s count f)
    (h : v.fetchLoop s nodeid count nWindowEnd best nMaxHeight fuel pindexWalk f = some f') :
    Fetching s count f' := by
  induction fuel generalizing pindexWalk f with
  | zero =>
    cases h
    exact hf
  | succ fuel ih =>
    unfold BlockView.fetchLoop at h
    dsimp only at h
    split_ifs at h
    · cases h
      exact hf
    · obtain ⟨pindexWalk, -, h⟩ := Option.bind_eq_some_iff.1 h
      obtain ⟨vToFetch, -, h⟩ := Option.bind_eq_some_iff.1 h
      obtain ⟨f₁, hfold, h⟩ := Option.bind_eq_some_iff.1 h
      exact ih (foldlM_keeps (fun f pindex f' hone hf => hf.fetchOne hone) hfold hf) h

/-- Nothing changes of the state of a node that is counted. -/
structure SameQueue (state old : CNodeState) : Prop where
  /-- `vBlocksInFlight`, but for the times. -/
  keys : state.vBlocksInFlight.map entryKey = old.vBlocksInFlight.map entryKey
  /-- `nBlocksInFlight`. -/
  nBlocksInFlight : state.nBlocksInFlight = old.nBlocksInFlight
  /-- `nBlocksInFlightValidHeaders`. -/
  nBlocksInFlightValidHeaders :
    state.nBlocksInFlightValidHeaders = old.nBlocksInFlightValidHeaders
  /-- `fPreferredDownload`. -/
  fPreferredDownload : state.fPreferredDownload = old.fPreferredDownload
  /-- `fSyncStarted`. -/
  fSyncStarted : state.fSyncStarted = old.fSyncStarted

theorem sameQueue_processBlockAvailability (v : BlockView) (state : CNodeState) :
    SameQueue (v.processBlockAvailability state) state := by
  unfold BlockView.processBlockAvailability
  dsimp only
  split_ifs <;> exact ⟨rfl, rfl, rfl, rfl, rfl⟩

/-- The blocks that are found are no more than asked for, and the staller is a node. -/
theorem findNextBlocksToDownload_spec {vToDownload : List Uint256} {staller : NodeId}
    {state' : CNodeState}
    (h : v.findNextBlocksToDownload s nodeid count state = some (vToDownload, staller, state')) :
    vToDownload.length ≤ count ∧ (staller = -1 ∨ s.InFlightFrom staller) ∧
      SameQueue state' state := by
  have hsame := sameQueue_processBlockAvailability v state
  unfold BlockView.findNextBlocksToDownload at h
  split_ifs at h with hcount
  · cases h
    exact ⟨Nat.zero_le _, .inl rfl, rfl, rfl, rfl, rfl, rfl⟩
  · cases hbest : (v.processBlockAvailability state).pindexBestKnownBlock with
    | none =>
      simp only [hbest, Option.some.injEq, Prod.mk.injEq] at h
      obtain ⟨rfl, rfl, rfl⟩ := h
      exact ⟨Nat.zero_le _, .inl rfl, hsame⟩
    | some best =>
      simp only [hbest] at h
      obtain ⟨tip, -, h⟩ := Option.bind_eq_some_iff.1 h
      split_ifs at h
      · cases h
        exact ⟨Nat.zero_le _, .inl rfl, hsame⟩
      · obtain ⟨common, -, h⟩ := Option.bind_eq_some_iff.1 h
        split_ifs at h
        · cases h
          exact ⟨Nat.zero_le _, .inl rfl, ⟨hsame.1, hsame.2, hsame.3, hsame.4, hsame.5⟩⟩
        · obtain ⟨pindexWalk, -, h⟩ := Option.bind_eq_some_iff.1 h
          obtain ⟨f, hloop, h⟩ := Option.bind_eq_some_iff.1 h
          cases h
          have hstart : Fetching s count ⟨[], pindexWalk, -1, -1, false⟩ :=
            ⟨Nat.zero_le _, fun _ => Nat.pos_of_ne_zero hcount, .inl rfl, .inl rfl⟩
          have hf := hstart.fetchLoop hloop
          exact ⟨hf.most, hf.stalls, ⟨hsame.1, hsame.2, hsame.3, hsame.4, hsame.5⟩⟩

/-! ## Every step -/

/-- The state of a node changes, and nothing of what is counted. -/
theorem Consistent.setNode (h : s.Consistent lost) (hold : s.mapNodeState nodeid = some old)
    (hsame : SameQueue state old) : (s.setNode nodeid state).Consistent lost :=
  h.change hold hsame.keys hsame.nBlocksInFlight
    hsame.nBlocksInFlightValidHeaders (by rw [hsame.fPreferredDownload])
    (by rw [hsame.fSyncStarted])

theorem Consistent.announce (h : s.Consistent lost) (hnode : s.mapNodeState nodeid = some state)
    (nPowTargetSpacing nNow : Int) (hash : Uint256) (fWanted fRecent : Bool) :
    ∃ s', s.announce nPowTargetSpacing nNow nodeid hash fWanted fRecent = some s' ∧
      s'.Consistent lost := by
  have ht : (s.setNode nodeid { state with hashLastUnknownBlock := hash }).Consistent lost :=
    h.setNode hnode ⟨rfl, rfl, rfl, rfl, rfl⟩
  obtain ⟨hcount, -, -⟩ := h.counted nodeid state hnode
  unfold DownloadState.announce
  rw [hnode, Option.bind_eq_bind, Option.bind_some]
  dsimp only
  split_ifs with hask
  · obtain ⟨s', hmark, hs', -⟩ := ht.markBlockAsInFlight (Function.update_self _ _ _)
      (by dsimp only; omega) nPowTargetSpacing nNow hash none
    exact ⟨s', hmark, hs'⟩
  · exact ⟨_, rfl, ht⟩

theorem Consistent.checkTimeouts (h : s.Consistent lost)
    (hnode : s.mapNodeState nodeid = some state) (nPowTargetSpacing nNow : Int) :
    ∃ b s', s.checkTimeouts nPowTargetSpacing nNow nodeid = some (b, s') ∧
      s'.Consistent lost := by
  unfold DownloadState.checkTimeouts
  rw [hnode, Option.bind_eq_bind, Option.bind_some]
  split_ifs
  · exact ⟨_, _, rfl, h⟩
  · cases hqueue : state.vBlocksInFlight with
    | nil => exact ⟨_, _, rfl, h⟩
    | cons front rest =>
      refine ⟨_, _, rfl, h.setNode hnode ⟨?_, rfl, rfl, rfl, rfl⟩⟩
      rw [hqueue]
      rfl

theorem InFlightFrom.isSome (h : s.Consistent lost) (hin : s.InFlightFrom nodeid) :
    (s.mapNodeState nodeid).isSome = true := by
  obtain ⟨hash, it, hmap⟩ := hin
  obtain ⟨-, state, q, hnode, -⟩ := h.found hash nodeid it hmap
  exact Option.isSome_of_mem hnode

theorem Consistent.noteStaller (h : s.Consistent lost) (hnode : s.mapNodeState nodeid = some state)
    (nNow : Int) {staller : NodeId}
    (hstaller : staller = -1 ∨ (s.mapNodeState staller).isSome = true) :
    ∃ s', s.noteStaller nNow nodeid staller = some s' ∧ s'.Consistent lost := by
  unfold DownloadState.noteStaller
  rw [hnode, Option.bind_eq_bind, Option.bind_some]
  split_ifs with hidle
  · obtain ⟨other, hother⟩ := Option.isSome_iff_exists.1 (hstaller.resolve_left hidle.2)
    rw [hother, Option.bind_some]
    split_ifs
    · exact ⟨_, rfl, h.setNode hother ⟨rfl, rfl, rfl, rfl, rfl⟩⟩
    · exact ⟨s, rfl, h⟩
  · exact ⟨s, rfl, h⟩

/-- When the search for blocks has a result, they are requested. -/
theorem Consistent.getData (h : s.Consistent lost) (hnode : s.mapNodeState nodeid = some state)
    (nPowTargetSpacing nNow : Int)
    (hfind : state.nBlocksInFlight < 16 → (v.findNextBlocksToDownload s nodeid
      (16 - state.nBlocksInFlight).toNat state).isSome = true) :
    ∃ s', s.getData v nPowTargetSpacing nNow nodeid = some s' ∧ s'.Consistent lost := by
  unfold DownloadState.getData
  rw [hnode, Option.bind_eq_bind, Option.bind_some]
  split_ifs with hless
  · obtain ⟨⟨vToDownload, staller, state'⟩, hfound⟩ := Option.isSome_iff_exists.1 (hfind hless)
    obtain ⟨hmost, hstaller, hsame⟩ := findNextBlocksToDownload_spec hfound
    obtain ⟨hcount, -, -⟩ := h.counted nodeid state hnode
    have hlength : state'.vBlocksInFlight.length = state.vBlocksInFlight.length := by
      have hlen := congrArg List.length hsame.keys
      rwa [List.length_map, List.length_map] at hlen
    obtain ⟨t, hrequest, ht, hkept⟩ := (h.setNode hnode hsame).requestBlocks nPowTargetSpacing nNow
      vToDownload (Function.update_self _ _ _) (by omega)
    -- the nodes that were there are there after the requests
    have hthere : ∀ {other : NodeId}, (s.mapNodeState other).isSome = true →
        (t.mapNodeState other).isSome = true := by
      intro other hsome
      refine hkept other ?_
      obtain rfl | hne := eq_or_ne other nodeid
      · exact Option.isSome_of_mem (Function.update_self _ _ _)
      · exact (congrArg Option.isSome (Function.update_of_ne hne _ _)).trans hsome
    obtain ⟨state'', hnode'⟩ := Option.isSome_iff_exists.1 (hthere (Option.isSome_of_mem hnode))
    obtain ⟨s', hnote, hs'⟩ := ht.noteStaller hnode' nNow
      (hstaller.imp_right fun hin => hthere (hin.isSome h))
    refine ⟨s', ?_, hs'⟩
    rw [hfound, Option.bind_eq_bind, Option.bind_some]
    exact Option.bind_eq_some_iff.2 ⟨t, hrequest, hnote⟩
  · exact ⟨s, rfl, h⟩

theorem Consistent.updatePreferredDownload (h : s.Consistent lost)
    (hnode : s.mapNodeState nodeid = some state)
    (fInbound fWhitelisted fOneShot fClient : Bool) :
    ∃ s', s.updatePreferredDownload nodeid fInbound fWhitelisted fOneShot fClient = some s' ∧
      s'.Consistent lost := by
  unfold DownloadState.updatePreferredDownload
  rw [hnode, Option.bind_eq_bind, Option.bind_some]
  refine ⟨_, rfl, h.change hnode ?_ ?_ ?_ ?_ ?_⟩ <;> try rfl
  dsimp only
  omega

theorem Consistent.startSync (h : s.Consistent lost) (hnode : s.mapNodeState nodeid = some state)
    (fClient fOneShot fImporting fReindex fRecent : Bool) :
    ∃ s', s.startSync nodeid fClient fOneShot fImporting fReindex fRecent = some s' ∧
      s'.Consistent lost := by
  unfold DownloadState.startSync
  rw [hnode, Option.bind_eq_bind, Option.bind_some]
  dsimp only
  split_ifs with hask
  · have hnot : state.fSyncStarted = false := by
      simp only [Bool.and_eq_true, Bool.not_eq_true'] at hask
      exact hask.1.1.1.1
    refine ⟨_, rfl, h.change hnode ?_ ?_ ?_ ?_ ?_⟩ <;> try rfl
    rw [hnot]
    exact Int.add_zero _
  · exact ⟨s, rfl, h⟩

/-- The node that a step is about is there, and a search for blocks has a result. -/
def Live (s : DownloadState) : DownloadStep → Prop
  | .initializeNode _ => True
  | .block _ => True
  | .finalizeNode nodeid => (s.mapNodeState nodeid).isSome = true
  | .version nodeid _ _ _ _ => (s.mapNodeState nodeid).isSome = true
  | .startSync nodeid _ _ _ _ _ => (s.mapNodeState nodeid).isSome = true
  | .inv _ _ nodeid _ _ _ => (s.mapNodeState nodeid).isSome = true
  | .timeouts _ _ nodeid => (s.mapNodeState nodeid).isSome = true
  | .getData v _ _ nodeid => ∃ state, s.mapNodeState nodeid = some state ∧
    (state.nBlocksInFlight < 16 → (v.findNextBlocksToDownload s nodeid
      (16 - state.nBlocksInFlight).toNat state).isSome = true)

/-- A step can be taken when the node is there, and it keeps the agreement. -/
theorem Consistent.step (h : s.Consistent lost) {x : DownloadStep} (hlive : s.Live x) :
    ∃ s', s.step x = some s' ∧ s'.Consistent (lost + s.lostBy x) := by
  cases x with
  | initializeNode nodeid => exact ⟨_, rfl, h.initializeNode nodeid⟩
  | finalizeNode nodeid =>
    obtain ⟨state, hnode⟩ := Option.isSome_iff_exists.1 hlive
    have hstep : ∃ s', s.finalizeNode nodeid = some s' := by
      unfold DownloadState.finalizeNode
      rw [hnode]
      exact ⟨_, rfl⟩
    obtain ⟨s', hstep⟩ := hstep
    exact ⟨s', hstep, h.finalizeNode hstep⟩
  | version nodeid fInbound fWhitelisted fOneShot fClient =>
    obtain ⟨state, hnode⟩ := Option.isSome_iff_exists.1 hlive
    exact h.updatePreferredDownload hnode fInbound fWhitelisted fOneShot fClient
  | startSync nodeid fClient fOneShot fImporting fReindex fRecent =>
    obtain ⟨state, hnode⟩ := Option.isSome_iff_exists.1 hlive
    exact h.startSync hnode fClient fOneShot fImporting fReindex fRecent
  | block hash =>
    obtain ⟨b, s', hstep, hs', -⟩ := h.markBlockAsReceived hash
    exact ⟨s', Option.map_eq_some_iff.2 ⟨_, hstep, rfl⟩, hs'⟩
  | inv nPowTargetSpacing nNow nodeid hash fWanted fRecent =>
    obtain ⟨state, hnode⟩ := Option.isSome_iff_exists.1 hlive
    exact h.announce hnode nPowTargetSpacing nNow hash fWanted fRecent
  | timeouts nPowTargetSpacing nNow nodeid =>
    obtain ⟨state, hnode⟩ := Option.isSome_iff_exists.1 hlive
    obtain ⟨b, s', hstep, hs'⟩ := h.checkTimeouts hnode nPowTargetSpacing nNow
    exact ⟨s', Option.map_eq_some_iff.2 ⟨_, hstep, rfl⟩, hs'⟩
  | getData v nPowTargetSpacing nNow nodeid =>
    obtain ⟨state, hnode, hfind⟩ := hlive
    exact h.getData hnode nPowTargetSpacing nNow hfind

/-- Only what is there takes a step. -/
theorem live_of_step {x : DownloadStep} (hstep : s.step x = some s') : s.Live x := by
  have hnode : ∀ {α : Type} {nodeid : NodeId} {f : CNodeState → Option α} {a : α},
      (s.mapNodeState nodeid >>= f) = some a → (s.mapNodeState nodeid).isSome = true := by
    intro α nodeid f a h
    obtain ⟨state, hstate, -⟩ := Option.bind_eq_some_iff.1 h
    exact Option.isSome_of_mem hstate
  cases x with
  | initializeNode nodeid => trivial
  | finalizeNode nodeid => exact hnode hstep
  | version nodeid fInbound fWhitelisted fOneShot fClient => exact hnode hstep
  | startSync nodeid fClient fOneShot fImporting fReindex fRecent => exact hnode hstep
  | block hash => trivial
  | inv nPowTargetSpacing nNow nodeid hash fWanted fRecent => exact hnode hstep
  | timeouts nPowTargetSpacing nNow nodeid =>
    obtain ⟨r, hr, -⟩ := Option.map_eq_some_iff.1 hstep
    exact hnode hr
  | getData v nPowTargetSpacing nNow nodeid =>
    obtain ⟨state, hstate, hrest⟩ := Option.bind_eq_some_iff.1 hstep
    refine ⟨state, hstate, fun hless => ?_⟩
    rw [if_pos hless] at hrest
    obtain ⟨found, hfound, -⟩ := Option.bind_eq_some_iff.1 hrest
    exact Option.isSome_of_mem hfound

/-! ## Every run -/

theorem consistent_start : Consistent {} 0 where
  finite := FiniteMap.empty
  listed := by
    intro nodeid state it q hstate
    cases hstate
  found := by
    intro hash nodeid it hmap
    cases hmap
  nodup := by
    intro nodeid state hstate
    cases hstate
  counted := by
    intro nodeid state hstate
    cases hstate
  queued := by rw [tally_empty]; rfl
  preferred := by rw [tally_empty]; rfl
  sync := by rw [tally_empty]; rfl

theorem Reached.consistent (h : Reached s lost) : s.Consistent lost := by
  induction h with
  | start => exact consistent_start
  | step h hstep ih =>
    obtain ⟨s', hstep', hs'⟩ := ih.step (live_of_step hstep)
    cases hstep.symm.trans hstep'
    exact hs'

/-- However nodes come and go and blocks are announced, asked for and delivered: a block is in
flight exactly when it is in the list of one node, at the place that its iterator points to, no
node has more than 16 of them, and a step for a node that is there finds no null pointer. -/
theorem reached_inFlight (h : Reached s lost) :
    (∀ hash nodeid it, s.mapBlocksInFlight hash = some (nodeid, it) ↔
      ∃ state q, s.mapNodeState nodeid = some state ∧ (it, q) ∈ state.vBlocksInFlight ∧
        q.hash = hash) ∧
      (∀ nodeid state, s.mapNodeState nodeid = some state →
        (state.vBlocksInFlight.map fun entry => entry.2.hash).Nodup ∧
          state.nBlocksInFlight = state.vBlocksInFlight.length ∧
          state.nBlocksInFlightValidHeaders = validHeaders state ∧ state.nBlocksInFlight ≤ 16) ∧
      ∀ x, s.Live x ↔ ∃ s', s.step x = some s' := by
  have hs := h.consistent
  refine ⟨fun hash nodeid it => ⟨fun hmap => (hs.found hash nodeid it hmap).2, ?_⟩,
    fun nodeid state hnode => ?_, fun x => ⟨fun hlive => ?_, fun ⟨s', hstep⟩ =>
      live_of_step hstep⟩⟩
  · rintro ⟨state, q, hnode, hq, rfl⟩
    exact hs.listed nodeid state it q hnode hq
  · obtain ⟨hcount, hvalid, hmost⟩ := hs.counted nodeid state hnode
    refine ⟨?_, hcount, hvalid, by omega⟩
    -- two elements with the same hash have the same iterator
    have hnodup := List.Nodup.of_map _ (hs.nodup nodeid state hnode)
    refine List.Nodup.map_on (fun entry hentry entry' hentry' heq => ?_) hnodup
    have hplace := hs.listed nodeid state entry.1 entry.2 hnode hentry
    have hplace' := hs.listed nodeid state entry'.1 entry'.2 hnode hentry'
    rw [heq, hplace'] at hplace
    exact List.inj_on_of_nodup_map (hs.nodup nodeid state hnode) hentry hentry'
      (Prod.mk.inj (Option.some.inj hplace)).2.symm
  · obtain ⟨s', hstep, -⟩ := hs.step hlive
    exact ⟨s', hstep⟩

/-- A node is asked for the block above the root. -/
def askedOne : DownloadState :=
  (({} : DownloadState).step (.initializeNode 7) >>= (step · (.inv 60 0 7 2 false false)) >>=
    (step · (.getData BlockView.twoBlocks 60 0 7))).getD {}

theorem reached_askedOne : Reached askedOne 0 :=
  ((Reached.start.step (x := .initializeNode 7) rfl).step (x := .inv 60 0 7 2 false false)
    rfl).step (x := .getData BlockView.twoBlocks 60 0 7) (by rfl)

/-- The block is in flight from the node. -/
theorem reached_inFlight_one :
    (∀ hash nodeid it, askedOne.mapBlocksInFlight hash = some (nodeid, it) ↔
      ∃ state q, askedOne.mapNodeState nodeid = some state ∧ (it, q) ∈ state.vBlocksInFlight ∧
        q.hash = hash) ∧
      (∀ nodeid state, askedOne.mapNodeState nodeid = some state →
        (state.vBlocksInFlight.map fun entry => entry.2.hash).Nodup ∧
          state.nBlocksInFlight = state.vBlocksInFlight.length ∧
          state.nBlocksInFlightValidHeaders = validHeaders state ∧ state.nBlocksInFlight ≤ 16) ∧
      ∀ x, askedOne.Live x ↔ ∃ s', askedOne.step x = some s' :=
  reached_inFlight reached_askedOne

/-- The counters after any steps. The number of blocks with validated headers in flight stays too
large by those that were in flight from nodes that have gone, and so is the time that a node gets
for a block that is asked for. -/
theorem reached_counters (h : Reached s lost) :
    s.nPreferredDownload = tally (fun state => flag state.fPreferredDownload) s.mapNodeState ∧
      s.nSyncStarted = tally (fun state => flag state.fSyncStarted) s.mapNodeState ∧
      s.nQueuedValidatedHeaders = tally validHeaders s.mapNodeState + lost ∧
      ∀ nPowTargetSpacing nNow nodeid hash pindex s',
        s.markBlockAsInFlight nPowTargetSpacing nNow nodeid hash pindex = some s' →
          s.mapBlocksInFlight hash = none → ∃ state it q, s'.mapNodeState nodeid = some state ∧
            (it, q) ∈ state.vBlocksInFlight ∧ q.hash = hash ∧
            q.nTimeDisconnect = nNow + 500000 * nPowTargetSpacing *
              (4 + (tally validHeaders s.mapNodeState + lost)) := by
  have hs := h.consistent
  refine ⟨hs.preferred, hs.sync, hs.queued, ?_⟩
  intro nPowTargetSpacing nNow nodeid hash pindex s' hmark hnone
  obtain ⟨old, hnode, hmark⟩ := Option.bind_eq_some_iff.1 hmark
  unfold DownloadState.markBlockAsReceived at hmark
  simp only [hnone, hnode, Option.bind_eq_bind, Option.bind_some] at hmark
  cases hmark
  refine ⟨_, s.nIterators, _, Function.update_self _ _ _,
    List.mem_append_right _ (List.mem_singleton.2 rfl), rfl, ?_⟩
  rw [← hs.queued]
  rfl

/-- The node goes, and the block stays counted. -/
def goneOne : DownloadState :=
  (askedOne.finalizeNode 7).getD {}

theorem reached_goneOne : Reached goneOne 1 :=
  reached_askedOne.step (x := .finalizeNode 7) rfl

/-- No block is in flight, and one is counted. -/
theorem reached_counters_gone :
    goneOne.nPreferredDownload =
      tally (fun state => flag state.fPreferredDownload) goneOne.mapNodeState ∧
    goneOne.nSyncStarted = tally (fun state => flag state.fSyncStarted) goneOne.mapNodeState ∧
    goneOne.nQueuedValidatedHeaders = tally validHeaders goneOne.mapNodeState + (1 : Nat) ∧
    ∀ nPowTargetSpacing nNow nodeid hash pindex s',
      goneOne.markBlockAsInFlight nPowTargetSpacing nNow nodeid hash pindex = some s' →
        goneOne.mapBlocksInFlight hash = none → ∃ state it q,
          s'.mapNodeState nodeid = some state ∧ (it, q) ∈ state.vBlocksInFlight ∧
            q.hash = hash ∧ q.nTimeDisconnect = nNow + 500000 * nPowTargetSpacing *
              (4 + (tally validHeaders goneOne.mapNodeState + (1 : Nat))) :=
  reached_counters reached_goneOne

end DownloadState

end IndexChain.Net
