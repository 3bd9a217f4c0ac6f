import IndexChain.Models.Notary.State

/-!
# The checkpoint below a height

`komodo_notarizeddata` of `komodo_notary.h` looks for the last checkpoint below a height.
It starts at the index that an earlier search has left, and scans all checkpoints when no
later one is at the height or above. Where the checkpoints come in the order of their
heights it does not matter where the search starts. Checkpoints are never taken back, so
after a reorganisation they are not in that order.
-/

namespace IndexChain.Notary

variable {W : Type}

/-- The notarisation state with the index of the last search. -/
structure NotaryIndex (W : Type) extends KomodoState W where
  /-- `last_NPOINTSi`. -/
  lastNPOINTSi : Nat := 0

/-- What a search returns. -/
structure NotarizedData where
  /-- `notarized_height`. -/
  notarizedHeight : Int := 0
  /-- `*notarized_hashp`. -/
  notarizedHash : Uint256 := 0
  /-- `*notarized_desttxidp`. -/
  notarizedDesttxid : Uint256 := 0
  deriving DecidableEq, Repr

/-- What is returned for a checkpoint, or for none. -/
def NotarizedCheckpoint.data (np : Option NotarizedCheckpoint) : NotarizedData :=
  np.elim {} fun np =>
    { notarizedHeight := np.notarizedHeight
      notarizedHash := np.notarizedHash
      notarizedDesttxid := np.notarizedDesttxid }

namespace NotaryIndex

/-- The loop over the checkpoints from index `i` on: whether one at the height or above
stops it, the checkpoint before, and the index it leaves. -/
def scan (nHeight : Int) : Nat → List NotarizedCheckpoint → Option NotarizedCheckpoint → Nat →
    Bool × Option NotarizedCheckpoint × Nat
  | _, [], np, lastNPOINTSi => (false, np, lastNPOINTSi)
  | i, p :: rest, np, lastNPOINTSi =>
    if nHeight ≤ p.nHeight then (true, np, lastNPOINTSi) else scan nHeight (i + 1) rest (some p) i

/-- The search from the index that is remembered. -/
def scanLast (s : NotaryIndex W) (nHeight : Int) : Bool × Option NotarizedCheckpoint × Nat :=
  if s.lastNPOINTSi < s.npoints.length ∧ 0 < s.lastNPOINTSi then
    match s.npoints[s.lastNPOINTSi - 1]? with
    | some np =>
      if np.nHeight < nHeight then
        scan nHeight s.lastNPOINTSi (s.npoints.drop s.lastNPOINTSi) (some np) s.lastNPOINTSi
      else (false, none, s.lastNPOINTSi)
    | none => (false, none, s.lastNPOINTSi)
  else (false, none, s.lastNPOINTSi)

/-- `komodo_notarizeddata`. -/
def notarizeddata (s : NotaryIndex W) (nHeight : Int) : NotarizedData × NotaryIndex W :=
  match s.scanLast nHeight with
  | (true, np, lastNPOINTSi) =>
    (NotarizedCheckpoint.data np, { s with lastNPOINTSi := lastNPOINTSi })
  | (false, _, lastNPOINTSi) => match scan nHeight 0 s.npoints none lastNPOINTSi with
    | (_, np, lastNPOINTSi) =>
      (NotarizedCheckpoint.data np, { s with lastNPOINTSi := lastNPOINTSi })

/-- `komodo_notarized_update`, which leaves the index. -/
def notarizedUpdate (s : NotaryIndex W) (np : NotarizedCheckpoint) : NotaryIndex W :=
  { s with toKomodoState := KomodoEnv.notarizedUpdate np s.toKomodoState }

/-- The last checkpoint of a list below a height. -/
def lastBelow (points : List NotarizedCheckpoint) (nHeight : Int) : Option NotarizedCheckpoint :=
  (points.filter fun p => p.nHeight < nHeight).getLast?

/-- A checkpoint comes, or one is looked for. -/
inductive Op where
  | notarizedUpdate (np : NotarizedCheckpoint)
  | notarizeddata (nHeight : Int)
  deriving DecidableEq, Repr

/-- One operation. -/
def step (s : NotaryIndex W) : Op → NotaryIndex W
  | .notarizedUpdate np => s.notarizedUpdate np
  | .notarizeddata nHeight => (s.notarizeddata nHeight).2

/-- A list of operations. -/
def run (s : NotaryIndex W) (ops : List Op) : NotaryIndex W :=
  ops.foldl step s

/-- A checkpoint that is not rejected is not below the last one. -/
def StepOk (s : NotaryIndex W) : Op → Prop
  | .notarizedUpdate np => np.notarizedHeight < np.nHeight →
    ∀ p, s.npoints.getLast? = some p → p.nHeight ≤ np.nHeight
  | .notarizeddata _ => True

/-- Every operation of a run meets the condition. -/
def RunOk (s : NotaryIndex W) : List Op → Prop
  | [] => True
  | op :: ops => s.StepOk op ∧ RunOk (s.step op) ops

/-! ## The search -/

/-- Checkpoints in the order of their heights. -/
abbrev Ordered (points : List NotarizedCheckpoint) : Prop :=
  points.Pairwise fun p q => p.nHeight ≤ q.nHeight

variable {s : NotaryIndex W} {points rest : List NotarizedCheckpoint} {nHeight : Int}
  {np : Option NotarizedCheckpoint} {i last : Nat}

/-- No later checkpoint is below the one that stops the loop. -/
theorem Ordered.filter_eq_nil {p : NotarizedCheckpoint} (h : Ordered (p :: rest))
    (hp : nHeight ≤ p.nHeight) : (p :: rest).filter (fun p => p.nHeight < nHeight) = [] := by
  rw [List.filter_eq_nil_iff]
  intro q hq
  have hle : p.nHeight ≤ q.nHeight := by
    rcases List.mem_cons.1 hq with rfl | hmem
    · exact le_rfl
    · exact (List.pairwise_cons.1 h).1 q hmem
  simp only [decide_eq_true_eq]
  omega

/-- The loop finds the last checkpoint below the height, and otherwise leaves the one it
started with. -/
theorem scan_eq (h : Ordered rest) :
    (scan nHeight i rest np last).2.1 = (lastBelow rest nHeight).or np := by
  induction rest generalizing i np last with
  | nil => rfl
  | cons p rest ih =>
    rw [scan]
    split
    · rename_i hp
      rw [lastBelow, h.filter_eq_nil hp]
      rfl
    · rename_i hp
      have hbelow : p.nHeight < nHeight := by omega
      have hcons : (p :: rest).filter (fun p => p.nHeight < nHeight) =
          p :: rest.filter fun p => p.nHeight < nHeight :=
        List.filter_cons_of_pos (decide_eq_true hbelow)
      rw [ih (List.pairwise_cons.1 h).2, lastBelow, lastBelow, hcons, List.getLast?_cons]
      cases (rest.filter fun p => p.nHeight < nHeight).getLast? with
      | none => rfl
      | some q => rfl

/-- Below a checkpoint that is below the height all are. -/
theorem lastBelow_eq_or (h : Ordered points) {p : NotarizedCheckpoint} (hpos : 0 < i)
    (hp : points[i - 1]? = some p) (hbelow : p.nHeight < nHeight) :
    lastBelow points nHeight = (lastBelow (points.drop i) nHeight).or (some p) := by
  have htake : (points.take i).getLast? = some p := by
    rw [List.getLast?_take, if_neg (by omega), hp, Option.some_or]
  obtain ⟨before, hbefore⟩ := List.getLast?_eq_some_iff.1 htake
  have hordered : Ordered (points.take i) := List.Pairwise.sublist (List.take_sublist i points) h
  rw [hbefore] at hordered
  have hall : (points.take i).filter (fun p => p.nHeight < nHeight) = points.take i := by
    rw [List.filter_eq_self]
    intro q hq
    have hle : q.nHeight ≤ p.nHeight := by
      rw [hbefore] at hq
      rcases List.mem_append.1 hq with hold | hself
      · exact (List.pairwise_append.1 hordered).2.2 q hold p List.mem_cons_self
      · rw [List.mem_singleton.1 hself]
    exact decide_eq_true (by omega)
  rw [lastBelow, lastBelow, ← htake, ← List.getLast?_append]
  conv_lhs => rw [← List.take_append_drop i points, List.filter_append, hall]

/-- The search from the remembered index starts with the last checkpoint before it. -/
theorem scanLast_eq (h : Ordered s.npoints) (hflag : (s.scanLast nHeight).1 = true) :
    (s.scanLast nHeight).2.1 = lastBelow s.npoints nHeight := by
  unfold scanLast at hflag ⊢
  by_cases hlast : s.lastNPOINTSi < s.npoints.length ∧ 0 < s.lastNPOINTSi
  · rw [if_pos hlast] at hflag ⊢
    split at hflag
    · rename_i p hp
      by_cases hbelow : p.nHeight < nHeight
      · rw [if_pos hbelow, scan_eq (List.Pairwise.sublist (List.drop_sublist _ _) h),
          lastBelow_eq_or h hlast.2 hp hbelow]
      · rw [if_neg hbelow] at hflag
        cases hflag
    · cases hflag
  · rw [if_neg hlast] at hflag
    cases hflag

/-- Wherever the search starts, it finds the last checkpoint below the height. -/
theorem notarizeddata_eq (h : Ordered s.npoints) :
    (s.notarizeddata nHeight).1 = NotarizedCheckpoint.data (lastBelow s.npoints nHeight) := by
  have hlast : (s.scanLast nHeight).1 = true →
      (s.scanLast nHeight).2.1 = lastBelow s.npoints nHeight := scanLast_eq h
  unfold notarizeddata
  split
  · rename_i hscan
    rw [hscan] at hlast
    exact congrArg NotarizedCheckpoint.data (hlast rfl)
  · rename_i hscan
    have hall : (scan nHeight 0 s.npoints none (s.scanLast nHeight).2.2).2.1 =
        (lastBelow s.npoints nHeight).or none := scan_eq h
    rw [hscan, Option.or_none] at hall
    exact congrArg NotarizedCheckpoint.data hall

/-! ## Runs -/

theorem npoints_notarizeddata : (s.notarizeddata nHeight).2.npoints = s.npoints := by
  unfold notarizeddata
  split <;> rfl

/-- Each operation keeps the checkpoints in order. -/
theorem Ordered.step {op : Op} (h : Ordered s.npoints) (hok : s.StepOk op) :
    Ordered (s.step op).npoints := by
  cases op with
  | notarizeddata nHeight => exact npoints_notarizeddata.symm ▸ h
  | notarizedUpdate np =>
    unfold NotaryIndex.step notarizedUpdate KomodoEnv.notarizedUpdate
    dsimp only
    split
    · exact h
    · rename_i haccept
      refine List.pairwise_append.2 ⟨h, List.pairwise_singleton _ _, ?_⟩
      intro p hp q hq
      rw [List.mem_singleton.1 hq]
      cases hlast : s.npoints.getLast? with
      | none =>
        rw [List.getLast?_eq_none_iff.1 hlast] at hp
        cases hp
      | some l =>
        have hle := hok (by omega) l hlast
        obtain ⟨before, hbefore⟩ := List.getLast?_eq_some_iff.1 hlast
        rw [hbefore] at hp h
        rcases List.mem_append.1 hp with hold | hself
        · have hprev := (List.pairwise_append.1 h).2.2 p hold l List.mem_cons_self
          omega
        · rw [List.mem_singleton.1 hself]
          exact hle

theorem Ordered.run {ops : List Op} (h : Ordered s.npoints) (hok : s.RunOk ops) :
    Ordered (s.run ops).npoints := by
  induction ops generalizing s with
  | nil => exact h
  | cons op ops ih => exact ih (h.step hok.1) hok.2

/-- Along a run whose checkpoints come in the order of their heights, every search finds the
last checkpoint below its height. -/
theorem notarizeddata_run (world : W) (ops : List Op)
    (hok : RunOk { world := world } ops) (nHeight : Int) :
    let s := run { world := world } ops
    (s.notarizeddata nHeight).1 = NotarizedCheckpoint.data (lastBelow s.npoints nHeight) := by
  have hstart : Ordered ({ world := world } : NotaryIndex W).npoints := List.Pairwise.nil
  exact notarizeddata_eq (hstart.run hok)

/-- A checkpoint of a block in a block at a height. -/
def sample (nHeight notarizedHeight : Int) (notarizedDesttxid : Uint256) : NotarizedCheckpoint where
  nHeight := nHeight
  notarizedHeight := notarizedHeight
  notarizedHash := BitVec.ofInt 256 notarizedHeight
  notarizedDesttxid := notarizedDesttxid
  MoM := 0
  MoMdepth := 0

/-- Two checkpoints, and a search above both. -/
def ordered : List Op :=
  [.notarizedUpdate (sample 10 5 1), .notarizedUpdate (sample 20 6 2), .notarizeddata 25]

theorem runOk_ordered : RunOk (W := Unit) { world := () } ordered := by
  refine ⟨?_, ?_, trivial, trivial⟩
  · intro _ p hp
    cases hp
  · intro _ p hp
    cases hp
    decide

/-- The index is left at the second one, and a search between them finds the first. -/
theorem ordered_finds :
    let s := run (W := Unit) { world := () } ordered
    s.lastNPOINTSi = 1 ∧
      (s.notarizeddata 15).1 = NotarizedCheckpoint.data (lastBelow s.npoints 15) :=
  ⟨by decide, notarizeddata_run () ordered runOk_ordered 15⟩

/-- The checkpoints of two blocks that are disconnected, and of those that replace them. -/
def reorganised : List Op :=
  [.notarizedUpdate (sample 10 5 1), .notarizedUpdate (sample 20 6 2),
    .notarizedUpdate (sample 10 7 3), .notarizedUpdate (sample 20 8 4)]

/-- The first search finds the checkpoint of a disconnected block, the same search after
another one the last below its height. -/
theorem reorganised_differs :
    let s := run (W := Unit) { world := () } reorganised
    let s' := s.step (.notarizeddata 25)
    lastBelow s.npoints 15 = some (sample 10 7 3) ∧ lastBelow s'.npoints 15 = some (sample 10 7 3) ∧
      (s.notarizeddata 15).1 = NotarizedCheckpoint.data (some (sample 10 5 1)) ∧
      (s'.notarizeddata 15).1 = NotarizedCheckpoint.data (some (sample 10 7 3)) ∧
      (s.notarizeddata 15).1 ≠ NotarizedCheckpoint.data (lastBelow s.npoints 15) := by
  decide

end NotaryIndex

end IndexChain.Notary
