import IndexChain.Models.Zcash.IncrementalWitness

/-!
# What a witness knows

The witness of the last of `n` leaves holds the roots of the subtrees to the right of
the way up from that leaf, as far as they are filled (`Filled`), and its cursor holds
the leaves of the next one (`Witnesses`). With them, the root of the frozen tree is the
root of the tree over all leaves so far, and its path opens that root at the leaf.
-/

namespace IndexChain

variable {H : Type} {h : TreeHash H} {codec : HashCodec H} {L M : Nat → H} {depth d q e u n N : Nat}

namespace IncrementalMerkleTree

/-! ## Filled subtrees -/

variable (h L) in
/-- `F` has the roots of the subtrees to the right of the way up from node `q` of level
`d` to node `u` of level `e`, which is a left child. -/
inductive Filled : Nat → Nat → List H → Nat → Nat → Prop
  | odd {d q : Nat} {F : List H} {e u : Nat} (hq : q % 2 = 1) :
    Filled (d + 1) (q / 2) F e u → Filled d q F e u
  | next {d q : Nat} {F : List H} {e u : Nat} (hq : q % 2 = 0) :
    Filled (d + 1) (q / 2) F e u → Filled d q (nodeAt h L d (q + 1) :: F) e u
  | here {d q : Nat} (hq : q % 2 = 0) : Filled d q [] d q

variable {F : List H}

/-- Before any subtree is filled, the way goes up to the first left child. -/
theorem Filled.start (h : TreeHash H) (L : Nat → H) (d q : Nat) :
    ∃ e u, Filled h L d q [] e u ∧ (u + 1) * 2 ^ e = (q + 1) * 2 ^ d := by
  induction q using Nat.strong_induction_on generalizing d with
  | h q ih =>
    by_cases hq : q % 2 = 1
    · obtain ⟨e, u, hfilled, heq⟩ := ih (q / 2) (by omega) (d + 1)
      refine ⟨e, u, Filled.odd hq hfilled, heq.trans ?_⟩
      have hhalf : (q / 2 + 1) * 2 = q + 1 := by omega
      rw [Nat.pow_succ', ← Nat.mul_assoc, hhalf]
    · exact ⟨d, q, Filled.here (by omega), rfl⟩

theorem Filled.even (hf : Filled h L d q F e u) : u % 2 = 0 := by
  induction hf with
  | odd _ _ ih => exact ih
  | next _ _ ih => exact ih
  | here hq => exact hq

/-- The nodes on the way end further and further to the right. -/
theorem Filled.le (hf : Filled h L d q F e u) : (q + 1) * 2 ^ d ≤ (u + 1) * 2 ^ e := by
  have hup : ∀ d q : Nat, (q + 1) * 2 ^ d ≤ (q / 2 + 1) * 2 ^ (d + 1) := by
    intro d q
    calc (q + 1) * 2 ^ d ≤ (q / 2 + 1) * 2 * 2 ^ d := Nat.mul_le_mul_right _ (by omega)
      _ = (q / 2 + 1) * 2 ^ (d + 1) := by rw [Nat.pow_succ', Nat.mul_assoc]
  induction hf with
  | odd _ _ ih => exact (hup _ _).trans ih
  | next _ _ ih => exact (hup _ _).trans ih
  | here _ => exact Nat.le_refl _

/-- Each filled subtree is on a level of its own. -/
theorem Filled.length_le (hf : Filled h L d q F e u) : d + F.length ≤ e := by
  induction hf with
  | odd _ _ ih => omega
  | next _ _ ih =>
    rw [List.length_cons]
    omega
  | here _ => exact Nat.le_refl _

/-- The subtree at the end of the way is filled next. -/
theorem Filled.snoc {e' u' : Nat} (hf : Filled h L d q F e u)
    (hrest : Filled h L (e + 1) (u / 2) [] e' u') :
    Filled h L d q (F ++ [nodeAt h L e (u + 1)]) e' u' := by
  induction hf with
  | odd hq _ ih => exact Filled.odd hq (ih hrest)
  | next hq _ ih => exact Filled.next hq (ih hrest)
  | here hq => exact Filled.next hq hrest

/-- The level at which the way ends is computed from the parents and the number of
subtrees filled. -/
theorem Filled.nextDepthFrom_eq {ps : List (Option H)} (hf : Filled h L d q F e u)
    (hc : Counter h L d q ps) : nextDepthFrom d ps F.length = e := by
  induction hf generalizing ps with
  | odd hq _ ih =>
    cases hc with
    | nil => omega
    | one _ hrest => exact ih hrest
    | zero heven _ _ => omega
  | next hq _ ih =>
    cases hc with
    | nil =>
      have hstep := ih (Counter.nil _)
      rw [nextDepthFrom] at hstep ⊢
      rw [List.length_cons]
      omega
    | one hodd _ => omega
    | zero _ _ hrest => exact ih hrest
  | here hq =>
    cases hc with
    | nil => rfl
    | one hodd _ => omega
    | zero _ _ _ => rfl

/-- The next subtree has the depth of the first hole after the filled ones. -/
theorem Filled.nextDepth_eq {t : IncrementalMerkleTree H} (hf : Filled h L 0 (n - 1) F e u)
    (ht : Represents h L t n) (hpos : 0 < n) : t.nextDepth F.length = e := by
  cases ht with
  | empty => omega
  | left hc =>
    rename_i q ps
    have hsub : 2 * q + 1 - 1 = 2 * q := rfl
    have hhalf : 2 * q / 2 = q := by omega
    rw [hsub] at hf
    cases hf with
    | odd hq _ => omega
    | next _ hrest =>
      rw [hhalf] at hrest
      exact hrest.nextDepthFrom_eq hc
    | here _ => rfl
  | pair hc =>
    rename_i q ps
    have hsub : 2 * q + 2 - 1 = 2 * q + 1 := rfl
    have hhalf : (2 * q + 1) / 2 = q := by omega
    rw [hsub] at hf
    cases hf with
    | odd _ hrest =>
      rw [hhalf] at hrest
      exact hrest.nextDepthFrom_eq hc
    | next hq _ => omega
    | here hq => omega

/-- The filled subtrees, with those of the rest of the way, are the ones to the right. -/
theorem Filled.uncles {P : List H} (hf : Filled h L d q F e u)
    (hLM : ∀ j, j < (u + 1) * 2 ^ e → L j = M j) (hrest : Uncles h M e u P) :
    Uncles h M d q (F ++ P) := by
  induction hf with
  | odd hq _ ih => exact Uncles.odd hq (ih hLM hrest)
  | next hq hf ih =>
    rename_i d q F e u
    have hnode : nodeAt h L d (q + 1) = nodeAt h M d (q + 1) := by
      apply Core.node_congr
      intro j _ hj
      apply hLM
      calc j < (q + 1 + 1) * 2 ^ d := hj
        _ = (q / 2 + 1) * 2 * 2 ^ d := by
          congr 1
          omega
        _ = (q / 2 + 1) * 2 ^ (d + 1) := by rw [Nat.pow_succ', Nat.mul_assoc]
        _ ≤ (u + 1) * 2 ^ e := hf.le
    rw [hnode]
    exact Uncles.next hq (ih hLM hrest)
  | here _ => exact hrest

/-! ## Paths -/

theorem pathAbove_eq {P : List H} (hu : Uncles h M d 0 P) :
    pathAbove h n d P = Core.opening h.combine M d 0 n := by
  induction n generalizing d P with
  | zero => rfl
  | succ n ih =>
    obtain ⟨hnext, hrest⟩ := hu.fillerNext rfl
    rw [pathAbove]
    dsimp only
    rw [hnext, ih hrest]
    rfl

/-- The parents and the given hashes open the root at node `q`. -/
theorem pathFrom_eq {ps : List (Option H)} {P : List H} (hc : Counter h M d q ps)
    (hu : Uncles h M d q P) (hD : d + ps.length ≤ depth) :
    pathFrom h depth d ps P = Core.opening h.combine M d q (depth - d) := by
  induction hc generalizing P with
  | nil d => exact pathAbove_eq hu
  | one hq hrest ih =>
    rename_i d q ps
    rw [List.length_cons] at hD
    have hsub : depth - d = depth - (d + 1) + 1 := by omega
    rw [pathFrom, ih (hu.up hq) (by omega), hsub, Core.opening, decide_eq_true hq, Core.sibling,
      if_pos hq]
  | zero hq hpos hcounter ih =>
    rename_i d q ps
    rw [List.length_cons] at hD
    have hsub : depth - d = depth - (d + 1) + 1 := by omega
    have hodd : ¬ q % 2 = 1 := by omega
    obtain ⟨hnext, hrest⟩ := hu.fillerNext hq
    rw [pathFrom]
    dsimp only
    rw [hnext, ih hrest (by omega), hsub, Core.opening, decide_eq_false hodd, Core.sibling,
      if_neg hodd]

/-- The path of the steps from a leaf up. -/
def openingPath (h : TreeHash H) (M : Nat → H) (depth i : Nat) : MerklePath H where
  authenticationPath := ((Core.opening h.combine M 0 i depth).map Prod.snd).reverse
  index := ((Core.opening h.combine M 0 i depth).map Prod.fst).reverse

/-- The path of the last leaf opens the root of the tree over all leaves. -/
theorem Represents.path_eq {t : IncrementalMerkleTree H} (ht : Represents h L t n) (hpos : 0 < n)
    (hLM : ∀ j, j < n → L j = M j) {P : List H} (hu : Uncles h M 0 (n - 1) P)
    (hdepth : 1 ≤ depth) (hn : n ≤ 2 ^ depth) :
    t.path h depth P = some (openingPath h M depth (n - 1)) := by
  have hlen := ht.length_parents hdepth hn
  obtain ⟨k, rfl⟩ : ∃ k, depth = k + 1 := ⟨depth - 1, by omega⟩
  cases ht with
  | empty => omega
  | left hc =>
    rename_i q ps
    have hsub : 2 * q + 1 - 1 = 2 * q := rfl
    have hhalf : 2 * q / 2 = q := by omega
    have hodd : ¬ 2 * q % 2 = 1 := by omega
    rw [hsub] at hu ⊢
    obtain ⟨hnext, hrest⟩ := hu.fillerNext (by omega)
    rw [hhalf] at hrest
    have hcM : Counter h M 1 q ps := hc.congr fun j hj => hLM j (by omega)
    have habove := pathFrom_eq hcM hrest hlen
    rw [openingPath, Core.opening, hhalf, decide_eq_false hodd, Core.sibling, if_neg hodd]
    unfold path
    dsimp only
    rw [hnext, habove]
    rfl
  | pair hc =>
    rename_i q ps
    have hsub : 2 * q + 2 - 1 = 2 * q + 1 := rfl
    have hhalf : (2 * q + 1) / 2 = q := by omega
    have hodd : (2 * q + 1) % 2 = 1 := by omega
    rw [hsub] at hu ⊢
    have hrest := hu.up hodd
    rw [hhalf] at hrest
    have hcM : Counter h M 1 q ps := hc.congr fun j hj => hLM j (by omega)
    have habove := pathFrom_eq hcM hrest hlen
    rw [openingPath, Core.opening, hhalf, decide_eq_true hodd, Core.sibling, if_pos hodd]
    unfold path
    dsimp only
    rw [hLM (2 * q) (by omega), habove]
    rfl

/-- The path opens the root at the position of the leaf. -/
theorem openingPath_position {i : Nat} (hi : i < 2 ^ depth) :
    (openingPath h M depth i).position = i := by
  rw [MerklePath.position, openingPath, List.reverse_reverse]
  exact Core.bitsValue_opening hi

theorem openingPath_rootFrom {i : Nat} (hi : i < 2 ^ depth) :
    (openingPath h M depth i).rootFrom h (M i) = nodeAt h M depth 0 := by
  have hzip : ∀ steps : List (Bool × H), (steps.map Prod.fst).zip (steps.map Prod.snd) = steps := by
    intro steps
    rw [List.zip_map', List.map_id'']
    exact fun p => rfl
  rw [MerklePath.rootFrom, openingPath, List.reverse_reverse, List.reverse_reverse, hzip]
  have hclimb : Core.climb h.combine 0 (nodeAt h M 0 i) (Core.opening h.combine M 0 i depth) =
      nodeAt h M (0 + depth) 0 := Core.climb_opening hi
  rwa [Nat.zero_add] at hclimb

end IncrementalMerkleTree

namespace IncrementalWitness

open IncrementalMerkleTree

/-! ## The cursor -/

variable (h L) in
/-- The cursor holds the leaves from those of node `u` of level `e` on, up to `N`; there
is none when there are no such leaves. -/
inductive Pending (cursorDepth e u N : Nat) : Option (IncrementalMerkleTree H) → Prop
  | idle (hN : N = (u + 1) * 2 ^ e) : Pending cursorDepth e u N none
  | filling {c : IncrementalMerkleTree H} {k : Nat}
    (hc : Represents h (fun j => L ((u + 1) * 2 ^ e + j)) c k) (hpos : 0 < k) (hlt : k < 2 ^ e)
    (hN : N = (u + 1) * 2 ^ e + k) (hdepth : cursorDepth = e) :
    Pending cursorDepth e u N (some c)

variable (h L) in
/-- The witness of leaf `n - 1` when `N` leaves have been appended. -/
structure Witnesses (n N : Nat) (w : IncrementalWitness H) : Prop where
  represents : Represents h L w.tree n
  pos : 0 < n
  filled : ∃ e u, Filled h L 0 (n - 1) w.filled e u ∧ Pending h L w.cursorDepth e u N w.cursor

variable {w v : IncrementalWitness H}

/-- A new witness knows the leaves of its tree. -/
theorem Witnesses.start {t : IncrementalMerkleTree H} (ht : Represents h L t n) (hpos : 0 < n) :
    Witnesses h L n n { tree := t } := by
  obtain ⟨e, u, hfilled, heq⟩ := Filled.start h L 0 (n - 1)
  refine ⟨ht, hpos, e, u, hfilled, Pending.idle ?_⟩
  rw [heq]
  omega

/-- The subtree of the cursor ends where the next node of its level begins. -/
theorem subtree_end (u e : Nat) : (u + 1) * 2 ^ e + 2 ^ e = (u + 1 + 1) * 2 ^ e := by
  rw [Nat.add_mul (u + 1) 1, Nat.one_mul]

theorem parent_end (hu : u % 2 = 0) : (u / 2 + 1) * 2 ^ (e + 1) = (u + 1 + 1) * 2 ^ e := by
  have hhalf : (u / 2 + 1) * 2 = u + 1 + 1 := by omega
  rw [Nat.pow_succ', ← Nat.mul_assoc, hhalf]

theorem Pending.le {cursorDepth : Nat} {cursor : Option (IncrementalMerkleTree H)}
    (hp : Pending h L cursorDepth e u N cursor) : (u + 1) * 2 ^ e ≤ N := by
  cases hp with
  | idle hN => omega
  | filling _ _ _ hN _ => omega

theorem Pending.atLevel {cursorDepth : Nat} {cursor : Option (IncrementalMerkleTree H)}
    (hp : Pending h L cursorDepth e u N cursor) : Pending h L e e u N cursor := by
  cases hp with
  | idle hN => exact Pending.idle hN
  | filling hc hpos hlt hN _ => exact Pending.filling hc hpos hlt hN rfl

theorem Witnesses.le (hw : Witnesses h L n N w) : n ≤ N := by
  obtain ⟨-, hpos, e, u, hfilled, hpending⟩ := hw
  have hle := hfilled.le.trans hpending.le
  rw [Nat.pow_zero, Nat.mul_one] at hle
  omega

/-- What the filled subtrees and the cursor say is to the right of the leaf. -/
theorem Witnesses.uncles (hw : Witnesses h L n N w) :
    Uncles h (cut h L N) 0 (n - 1) (w.partialPath h) := by
  obtain ⟨-, -, e, u, hfilled, hpending⟩ := hw
  unfold partialPath
  cases hcursor : w.cursor with
  | none =>
    rw [hcursor] at hpending
    cases hpending with
    | idle hN =>
      have huncles := hfilled.uncles (M := cut h L N) (P := [])
        (fun j hj => (if_pos (by omega)).symm)
        (Uncles.done fun j hj => if_neg (by omega))
      rwa [List.append_nil] at huncles
  | some c =>
    rw [hcursor] at hpending
    cases hpending with
    | filling hc hpos hlt hN hdepth =>
      rename_i k
      have he : 1 ≤ e := by
        by_contra hzero
        obtain rfl : e = 0 := by omega
        omega
      have hshift : cut h (fun j => L ((u + 1) * 2 ^ e + j)) k =
          fun j => cut h L N ((u + 1) * 2 ^ e + j) := by
        funext j
        unfold cut
        by_cases hj : j < k
        · rw [if_pos hj, if_pos (by omega)]
        · rw [if_neg hj, if_neg (by omega)]
      have hroot : c.root h w.cursorDepth = nodeAt h (cut h L N) e (u + 1) := by
        rw [hdepth, hc.root_eq he (Nat.le_of_lt hlt), hshift]
        exact Core.node_shift e (u + 1) 0
      have hend := subtree_end u e
      have hparent := parent_end (e := e) hfilled.even
      dsimp only
      rw [hroot]
      apply hfilled.uncles
      · intro j hj
        exact (if_pos (by omega)).symm
      · exact Uncles.next hfilled.even (Uncles.done fun j hj => if_neg (by omega))

/-- The root of the witness is that of the tree over all leaves so far. -/
theorem Witnesses.root_eq (hw : Witnesses h L n N w) (hdepth : 1 ≤ depth) (hN : N ≤ 2 ^ depth) :
    w.root h depth = nodeAt h (cut h L N) depth 0 := by
  have hle := hw.le
  exact hw.represents.rootWith_eq hw.pos (fun j hj => (if_pos (by omega)).symm) hw.uncles hdepth
    (by omega)

/-- The path of the witness opens that root. -/
theorem Witnesses.path_eq (hw : Witnesses h L n N w) (hdepth : 1 ≤ depth) (hN : N ≤ 2 ^ depth) :
    w.path h depth = some (openingPath h (cut h L N) depth (n - 1)) := by
  have hle := hw.le
  exact hw.represents.path_eq hw.pos (fun j hj => (if_pos (by omega)).symm) hw.uncles hdepth
    (by omega)

/-! ## Steps -/

/-- The next subtree of the way is filled with the leaves up to `N + 1`. -/
theorem Witnesses.fill {hash : H} {cursorDepth : Nat} (hw : Witnesses h L n N w)
    (hfilled : Filled h L 0 (n - 1) w.filled e u) (hhash : hash = nodeAt h L e (u + 1))
    (hN : N + 1 = (u + 1 + 1) * 2 ^ e) :
    Witnesses h L n (N + 1)
      { w with filled := w.filled ++ [hash], cursor := none, cursorDepth := cursorDepth } := by
  obtain ⟨e', u', hrest, hend⟩ := Filled.start h L (e + 1) (u / 2)
  refine ⟨hw.represents, hw.pos, e', u', ?_, Pending.idle ?_⟩
  · dsimp only
    rw [hhash]
    exact hfilled.snoc hrest
  · rw [hend, parent_end hfilled.even, hN]

/-- Appending a leaf. -/
theorem Witnesses.append (hw : Witnesses h L n N w) (hdepth : 1 ≤ depth) (hN : N < 2 ^ depth) :
    ∃ w', w.append h depth (L N) = some w' ∧ Witnesses h L n (N + 1) w' := by
  obtain ⟨e, u, hfilled, hpending⟩ := hw.filled
  have hend := subtree_end u e
  have hpow : 2 ^ e ≤ (u + 1) * 2 ^ e := Nat.le_mul_of_pos_left _ (Nat.succ_pos u)
  unfold IncrementalWitness.append
  cases hcursor : w.cursor with
  | some c =>
    rw [hcursor] at hpending
    cases hpending with
    | filling hc hpos hlt hNk hcd =>
      rename_i k
      obtain ⟨c', happend, hc'⟩ := hc.append hdepth (by omega)
      have he : 1 ≤ e := by
        by_contra hzero
        obtain rfl : e = 0 := by omega
        omega
      have hleaf : L N = L ((u + 1) * 2 ^ e + k) := by rw [hNk]
      dsimp only
      rw [hleaf, happend, Option.map_some, hcd]
      by_cases hfull : k + 1 = 2 ^ e
      · rw [if_pos ((hc'.isComplete_iff he).2 hfull)]
        refine ⟨_, rfl, ?_⟩
        have hroot : c'.root h e = nodeAt h L e (u + 1) := by
          rw [hc'.root_eq he (Nat.le_of_eq hfull)]
          refine (Core.node_congr fun j _ hj => ?_).trans (Core.node_shift e (u + 1) 0)
          rw [cut, if_pos (by omega)]
        exact hw.fill hfilled hroot (by omega)
      · have hnot : ¬ c'.isComplete e = true := by
          rwa [hc'.isComplete_iff he]
        rw [if_neg hnot]
        refine ⟨_, rfl, hw.represents, hw.pos, e, u, hfilled, ?_⟩
        exact Pending.filling hc' (Nat.succ_pos k) (by omega) (by omega) rfl
  | none =>
    rw [hcursor] at hpending
    cases hpending with
    | idle hNe =>
      have hlevel := hfilled.nextDepth_eq hw.represents hw.pos
      have hpow : 2 ^ e < 2 ^ depth := by omega
      have helt : e < depth := (Nat.pow_lt_pow_iff_right (by decide)).1 hpow
      dsimp only
      rw [hlevel, if_neg (Nat.not_le.2 helt)]
      by_cases hzero : e = 0
      · obtain rfl := hzero
        rw [if_pos rfl]
        refine ⟨_, rfl, ?_⟩
        have hleaf : L N = nodeAt h L 0 (u + 1) := by
          rw [hNe, Nat.pow_zero, Nat.mul_one]
          rfl
        exact hw.fill hfilled hleaf (by omega)
      · have hcapacity : 0 < 2 ^ depth := by omega
        have hone : 2 ^ 1 ≤ 2 ^ e := Nat.pow_le_pow_right (by decide) (by omega)
        have hempty : Represents h (fun j => L ((u + 1) * 2 ^ e + j)) {} 0 := Represents.empty
        obtain ⟨c, happend, hc⟩ := hempty.append hdepth hcapacity
        rw [Nat.add_zero, ← hNe] at happend
        rw [if_neg hzero, happend, Option.map_some]
        refine ⟨_, rfl, hw.represents, hw.pos, e, u, hfilled, ?_⟩
        exact Pending.filling hc Nat.one_pos (by omega) (by omega) rfl

/-- Two witnesses differ at most in the depth of a cursor that is not there. -/
structure Agrees (w v : IncrementalWitness H) : Prop where
  tree : w.tree = v.tree
  filled : w.filled = v.filled
  cursor : w.cursor = v.cursor
  cursorDepth : w.cursor ≠ none → w.cursorDepth = v.cursorDepth

theorem Agrees.refl (w : IncrementalWitness H) : Agrees w w :=
  ⟨rfl, rfl, rfl, fun _ => rfl⟩

theorem Agrees.trans {w v u : IncrementalWitness H} (h : Agrees w v) (h' : Agrees v u) :
    Agrees w u where
  tree := h.tree.trans h'.tree
  filled := h.filled.trans h'.filled
  cursor := h.cursor.trans h'.cursor
  cursorDepth hsome := by
    rw [h.cursorDepth hsome]
    rw [h.cursor] at hsome
    exact h'.cursorDepth hsome

/-- The depth of a cursor that is not there is never read. -/
theorem Agrees.cases (ha : Agrees w v) :
    w = v ∨ (v.cursor = none ∧ w = { v with cursorDepth := w.cursorDepth }) := by
  obtain ⟨tree, filled, cursor, cursorDepth⟩ := w
  obtain ⟨rfl, rfl, rfl, hdepth⟩ := ha
  by_cases hcursor : v.cursor = none
  · exact Or.inr ⟨hcursor, rfl⟩
  · obtain rfl : cursorDepth = v.cursorDepth := hdepth hcursor
    exact Or.inl rfl

theorem Agrees.partialPath (ha : Agrees w v) : w.partialPath h = v.partialPath h := by
  rcases ha.cases with rfl | ⟨hcursor, heq⟩
  · rfl
  · rw [heq]
    unfold IncrementalWitness.partialPath
    dsimp only
    rw [hcursor]

theorem Agrees.root (ha : Agrees w v) : w.root h depth = v.root h depth := by
  rw [IncrementalWitness.root, IncrementalWitness.root, ha.tree, ha.partialPath]

theorem Agrees.path (ha : Agrees w v) : w.path h depth = v.path h depth := by
  rw [IncrementalWitness.path, IncrementalWitness.path, ha.tree, ha.partialPath]

theorem Agrees.append (ha : Agrees w v) (obj : H) :
    w.append h depth obj = v.append h depth obj := by
  rcases ha.cases with rfl | ⟨hcursor, heq⟩
  · rfl
  · rw [heq]
    unfold IncrementalWitness.append
    dsimp only
    rw [hcursor]

/-- A witness that is read back agrees with the one written. -/
theorem Witnesses.reload (hw : Witnesses h L n N w) (hdepth : 1 ≤ depth)
    (hmax : depth ≤ 0x02000000) (hN : N ≤ 2 ^ depth) :
    ∃ w', w.reload codec depth = some w' ∧ Witnesses h L n N w' ∧ Agrees w' w := by
  have hle := hw.le
  obtain ⟨ht, hpos, e, u, hfilled, hpending⟩ := hw
  have hlevel := hfilled.nextDepth_eq ht hpos
  have hpow : 2 ^ e ≤ 2 ^ depth :=
    (Nat.le_mul_of_pos_left _ (Nat.succ_pos u)).trans (hpending.le.trans hN)
  have hlen : w.filled.length ≤ 0x02000000 := by
    have helt : e ≤ depth := (Nat.pow_le_pow_iff_right (by decide)).1 hpow
    have hlow := hfilled.length_le
    omega
  have hcursor : ∀ c ∈ w.cursor, c.wfcheck depth = true := by
    intro c hc
    rw [Option.mem_def.1 hc] at hpending
    cases hpending with
    | filling hrep _ hlt _ _ => exact hrep.wfcheck hdepth (by omega)
  refine ⟨_, reload_eq codec depth (ht.wfcheck hdepth (by omega)) hcursor hlen hmax, ?_, ?_⟩
  · refine ⟨ht, hpos, e, u, hfilled, ?_⟩
    dsimp only
    rw [hlevel]
    exact hpending.atLevel
  · refine ⟨rfl, rfl, rfl, fun hsome => ?_⟩
    dsimp only at hsome ⊢
    rw [hlevel]
    cases hc : w.cursor with
    | none => exact absurd hc hsome
    | some c =>
      rw [hc] at hpending
      cases hpending with
      | filling _ _ _ _ hcd => exact hcd.symm

/-! ## Runs -/

/-- A run of appends and reloads, and the run of its appends alone. -/
theorem Witnesses.run {ops : List (WitnessOp H)} (hw : Witnesses h L n N w) (ha : Agrees w v)
    (hdepth : 1 ≤ depth) (hmax : depth ≤ 0x02000000)
    (hL : ∀ i y, (appended ops)[i]? = some y → L (N + i) = y)
    (hN : N + (appended ops).length ≤ 2 ^ depth) :
    ∃ w' v', w.run h codec depth ops = some w' ∧
      v.run h codec depth ((appended ops).map WitnessOp.append) = some v' ∧
      Witnesses h L n (N + (appended ops).length) w' ∧ Agrees w' v' := by
  induction ops generalizing w v N with
  | nil => exact ⟨w, v, rfl, rfl, hw, ha⟩
  | cons op ops ih =>
    cases op with
    | append obj =>
      rw [appended, List.length_cons] at hN
      obtain ⟨w₁, happend, hw₁⟩ := hw.append hdepth (by omega)
      rw [← Nat.add_zero N, hL 0 obj rfl] at happend
      have hshift : ∀ i y, (appended ops)[i]? = some y → L (N + 1 + i) = y := by
        intro i y hy
        have hsucc : N + 1 + i = N + (i + 1) := by omega
        rw [hsucc]
        exact hL (i + 1) y hy
      obtain ⟨w', v', hrun, hrun', hw', ha'⟩ := ih hw₁ (Agrees.refl w₁) hshift (by omega)
      refine ⟨w', v', ?_, ?_, ?_, ha'⟩
      · rw [IncrementalWitness.run, IncrementalWitness.step, happend]
        exact hrun
      · rw [appended, List.map_cons, IncrementalWitness.run, IncrementalWitness.step,
          ← ha.append, happend]
        exact hrun'
      · have hlen : N + 1 + (appended ops).length = N + (appended (.append obj :: ops)).length := by
          rw [appended, List.length_cons]
          omega
        rwa [hlen] at hw'
    | reload =>
      obtain ⟨w₁, hreload, hw₁, ha₁⟩ : ∃ w', w.reload codec depth = some w' ∧
        Witnesses h L n N w' ∧ Agrees w' w := hw.reload hdepth hmax (by omega)
      obtain ⟨w', v', hrun, hrun', hw', ha'⟩ := ih hw₁ (ha₁.trans ha) hL hN
      refine ⟨w', v', ?_, hrun', hw', ha'⟩
      rw [IncrementalWitness.run, IncrementalWitness.step, hreload]
      exact hrun

/-- The witness of `x`, taken from the tree over `xs` and `x` and then appended with
leaves, has the root of the tree over all of them, and its path opens that root at `x`.
Reading the witness back in between changes nothing that is asked of it later. -/
theorem run_authenticates (h : TreeHash H) (codec : HashCodec H) (hdepth : 1 ≤ depth)
    (hmax : depth ≤ 0x02000000) (xs : List H) (x : H) (ops : List (WitnessOp H))
    (hlen : xs.length + 1 + (appended ops).length ≤ 2 ^ depth) :
    ∃ t t' w v p, appendAll h depth {} (xs ++ [x]) = some t ∧
      appendAll h depth {} (xs ++ [x] ++ appended ops) = some t' ∧
      run h codec depth { tree := t } ops = some w ∧
      run h codec depth { tree := t } ((appended ops).map WitnessOp.append) = some v ∧
      w.root h depth = t'.root h depth ∧ w.path h depth = some p ∧
      p.authenticationPath.length = depth ∧ p.index.length = depth ∧
      p.position = xs.length ∧ p.rootFrom h x = w.root h depth ∧
      v.root h depth = w.root h depth ∧ v.path h depth = w.path h depth ∧
      ∀ obj, v.append h depth obj = w.append h depth obj := by
  have hxs : (xs ++ [x]).length = xs.length + 1 := by simp
  have hall : (xs ++ [x] ++ appended ops).length = xs.length + 1 + (appended ops).length := by
    rw [List.length_append, hxs]
  let L := padded h (xs ++ [x] ++ appended ops)
  have hempty : Represents h L {} 0 := Represents.empty
  have htail : ∀ i y, (appended ops)[i]? = some y → L (xs.length + 1 + i) = y :=
    hxs ▸ padded_right (xs ++ [x]) (appended ops)
  obtain ⟨t, happend, ht⟩ := hempty.appendAll hdepth (padded_left _ (appended ops)) (by omega)
  obtain ⟨t', happend', ht'⟩ := appendAll_represents h hdepth (hall.trans_le hlen)
  rw [Nat.zero_add, hxs] at ht
  have hstart := Witnesses.start ht (Nat.succ_pos _)
  obtain ⟨w, v, hrun, hrun', hw, ha⟩ : ∃ w' v', _ :=
    hstart.run (Agrees.refl _) hdepth hmax htail hlen
  rw [← hall] at hw hlen
  have hcut : cut h L (xs ++ [x] ++ appended ops).length = L := cut_padded _
  have hroot := hw.root_eq hdepth hlen
  have hpath := hw.path_eq hdepth hlen
  have hi : xs.length < 2 ^ depth := by omega
  have hx : L xs.length = x := by
    apply padded_eq
    rw [List.append_assoc, List.getElem?_append_right (Nat.le_refl _), Nat.sub_self]
    rfl
  rw [hcut] at hroot hpath
  refine ⟨t, t', w, v, openingPath h L depth xs.length, happend, happend', hrun, hrun', ?_, hpath,
    ?_, ?_, openingPath_position hi, ?_, ha.root.symm, ha.path.symm,
    fun obj => (ha.append obj).symm⟩
  · rw [hroot, ht'.root_eq hdepth hlen, hcut]
  · rw [openingPath, List.length_reverse, List.length_map, Core.length_opening]
  · rw [openingPath, List.length_reverse, List.length_map, Core.length_opening]
  · have hfrom := openingPath_rootFrom (h := h) (M := L) hi
    rw [hx] at hfrom
    rw [hfrom, hroot]

/-- A hash of 256-bit numbers that tells its arguments and the level apart. -/
def sampleHash256 : TreeHash Uint256 where
  combine a b d := 100 * a + 10 * b + BitVec.ofNat 256 d
  uncommitted := 0

/-- A witness that is read back with a cursor, and again when a subtree is filled. -/
theorem run_authenticates_sample :
    ∃ w p, run sampleHash256 uint256Codec 3 { tree := { left := some 5, right := some 7 } }
        [.append 1, .reload, .append 2, .reload, .append 3] = some w ∧
      w.path sampleHash256 3 = some p ∧ p.position = 1 ∧
      p.rootFrom sampleHash256 7 = w.root sampleHash256 3 := by
  obtain ⟨t, t', w, v, p, happend, -, hrun, -, -, hpath, -, -, hposition, hfrom, -⟩ :=
    run_authenticates sampleHash256 uint256Codec (show 1 ≤ 3 by decide) (by decide) [5] 7
      [.append 1, .reload, .append 2, .reload, .append 3] (by decide)
  obtain rfl : { left := some 5, right := some 7 } = t := Option.some.inj happend
  exact ⟨w, p, hrun, hpath, hposition, hfrom⟩

end IncrementalWitness

end IndexChain
