import IndexChain.Models.Zcash.WitnessRun
import Mathlib.Tactic.IntervalCases

/-!
# The size of an incremental Merkle tree

`size` adds up the leaves that the parents stand for. The power of two of a parent is
shifted in an `int`: the parent at index 30 stands for 2^31 leaves, and `1 << 31` is
negative there. A tree of more than 2^31 leaves has that parent.
-/

namespace IndexChain

namespace IncrementalMerkleTree

variable {H : Type}

/-- `1 << n` of an `int`, added to a `size_t`. -/
def shiftedOne (n : Nat) : BitVec 64 :=
  (1#32 <<< n).signExtend 64

/-- The loop of `size` over the parents from index `i` on. -/
def sizeLoop : Nat → BitVec 64 → List (Option H) → BitVec 64
  | _, ret, [] => ret
  | i, ret, p :: ps => sizeLoop (i + 1) (if p.isSome then ret + shiftedOne (i + 1) else ret) ps

/-- `size`. -/
def size (t : IncrementalMerkleTree H) : BitVec 64 :=
  let ret := if t.left.isSome then 0#64 + 1 else 0
  let ret := if t.right.isSome then ret + 1 else ret
  sizeLoop 0 ret t.parents

theorem shiftedOne_of_lt {n : Nat} (h : n < 31) : shiftedOne n = BitVec.ofNat 64 (2 ^ n) := by
  interval_cases n <;> decide

theorem shiftedOne_top : shiftedOne 31 = BitVec.ofNat 64 (2 ^ 31) - BitVec.ofNat 64 (2 ^ 32) := by
  decide

variable {h : TreeHash H} {L : Nat → H} {t : IncrementalMerkleTree H} {d q n : Nat}
  {ps : List (Option H)}

/-- What is missing from the sum when the parents end at index `i`. -/
def missing (i : Nat) (ps : List (Option H)) : BitVec 64 :=
  if ps ≠ [] ∧ i + ps.length = 31 then BitVec.ofNat 64 (2 ^ 32) else 0

theorem missing_cons (p : Option H) {i : Nat} (hlt : i + 1 < 31) :
    missing i (p :: ps) = missing (i + 1) ps := by
  unfold missing
  cases ps with
  | nil =>
    rw [List.length_singleton, if_neg (by omega), if_neg (by simp)]
  | cons q ps =>
    simp only [ne_eq, reduceCtorEq, not_false_eq_true, true_and, List.length_cons]
    congr 1
    apply propext
    omega

/-- Parents that count `q` subtrees add up to their leaves, but for the top one. -/
theorem Counter.sizeLoop_eq (hc : Counter h L d q ps) {i : Nat} (hlen : i + ps.length ≤ 31)
    (ret : BitVec 64) :
    sizeLoop i ret ps = ret + BitVec.ofNat 64 (q * 2 ^ (i + 1)) - missing i ps := by
  induction hc generalizing i ret with
  | nil d => simp [sizeLoop, missing]
  | one hq hrest ih =>
    rename_i d q ps
    rw [List.length_cons] at hlen
    have hdouble : q * 2 ^ (i + 1) = 2 ^ (i + 1) + q / 2 * 2 ^ (i + 1 + 1) := by
      have hodd : q = 2 * (q / 2) + 1 := by omega
      rw [Nat.pow_succ 2 (i + 1)]
      generalize 2 ^ (i + 1) = m
      calc q * m = (2 * (q / 2) + 1) * m := by rw [← hodd]
        _ = m + q / 2 * (m * 2) := by ring
    rw [sizeLoop, Option.isSome_some, if_pos rfl, ih (by omega), hdouble, BitVec.ofNat_add]
    by_cases htop : i + 1 < 31
    · rw [shiftedOne_of_lt htop, missing_cons _ htop, ← BitVec.add_assoc]
    · -- the top parent of a tree of depth 32
      have hi : i = 30 := by omega
      have hnil : ps = [] := List.length_eq_zero_iff.1 (by omega)
      have htop : missing 30 [some (nodeAt h L d (q - 1))] = BitVec.ofNat 64 (2 ^ 32) :=
        if_pos ⟨List.cons_ne_nil _ _, rfl⟩
      have hrest : missing (30 + 1) ([] : List (Option H)) = 0 := if_neg fun hne => hne.1 rfl
      rw [hi, hnil, htop, hrest, shiftedOne_top]
      generalize BitVec.ofNat 64 (q / 2 * 2 ^ (30 + 1 + 1)) = above
      grind
  | zero hq hpos hrest ih =>
    rename_i d q ps
    rw [List.length_cons] at hlen
    have hdouble : q * 2 ^ (i + 1) = q / 2 * 2 ^ (i + 1 + 1) := by
      have heven : q = 2 * (q / 2) := by omega
      rw [Nat.pow_succ 2 (i + 1)]
      generalize 2 ^ (i + 1) = m
      calc q * m = 2 * (q / 2) * m := by rw [← heven]
        _ = q / 2 * (m * 2) := by ring
    have hbelow : i + 1 < 31 := by
      have hlow := hrest.bounds.1
      have hne : ps.length ≠ 0 := by
        intro hzero
        rw [hzero] at hlow
        omega
      omega
    rw [sizeLoop, Option.isSome_none, if_neg Bool.false_ne_true, ih (by omega), hdouble,
      missing_cons _ hbelow]

/-- The top parent is there from 2^30 pairs on. -/
theorem Counter.top_iff (hc : Counter h L d q ps) (hlen : ps.length ≤ 31) :
    ps ≠ [] ∧ 0 + ps.length = 31 ↔ 2 ^ 30 ≤ q := by
  obtain ⟨hhigh, hlow⟩ := hc.bounds
  constructor
  · rintro ⟨-, htop⟩
    rw [Nat.zero_add] at htop
    rw [htop] at hlow
    omega
  · intro hq
    have htop : ¬ ps.length < 31 := by
      intro hlt
      have hpow : 2 ^ ps.length ≤ 2 ^ 30 := Nat.pow_le_pow_right (by decide) (by omega)
      omega
    refine ⟨?_, by omega⟩
    rintro rfl
    exact htop (Nat.zero_lt_succ _)

/-- The size of a tree of `n` leaves. -/
theorem Represents.size_eq (ht : Represents h L t n) (hn : n ≤ 2 ^ 32) :
    t.size = BitVec.ofNat 64 n - missing 0 t.parents := by
  have hlen := ht.length_parents (show 1 ≤ 32 by decide) hn
  cases ht with
  | empty => simp [size, sizeLoop, missing]
  | left hc =>
    rename_i q ps
    dsimp only at hlen
    have hsize : 2 * q + 1 = 1 + q * 2 ^ (0 + 1) := by omega
    rw [hsize, BitVec.ofNat_add, ← hc.sizeLoop_eq (by omega)]
    rfl
  | pair hc =>
    rename_i q ps
    dsimp only at hlen
    have hsize : 2 * q + 2 = 2 + q * 2 ^ (0 + 1) := by omega
    rw [hsize, BitVec.ofNat_add, ← hc.sizeLoop_eq (by omega)]
    rfl

/-- Above 2^31 leaves, 2^32 are missing. -/
theorem Represents.missing_eq (ht : Represents h L t n) (hn : n ≤ 2 ^ 32) :
    missing 0 t.parents = if 2 ^ 31 < n then BitVec.ofNat 64 (2 ^ 32) else 0 := by
  have hlen := ht.length_parents (show 1 ≤ 32 by decide) hn
  apply if_congr _ rfl rfl
  cases ht with
  | empty => simp
  | left hc =>
    dsimp only at hlen ⊢
    rw [hc.top_iff (by omega)]
    omega
  | pair hc =>
    dsimp only at hlen ⊢
    rw [hc.top_iff (by omega)]
    omega

/-- The size is right up to 2^31 leaves. -/
theorem Represents.size_iff (ht : Represents h L t n) (hn : n ≤ 2 ^ 32) :
    t.size.toNat = n ↔ n ≤ 2 ^ 31 := by
  rw [ht.size_eq hn, ht.missing_eq hn, BitVec.toNat_sub]
  split
  · rw [BitVec.toNat_ofNat, BitVec.toNat_ofNat]
    omega
  · have hzero : (0 : BitVec 64).toNat = 0 := rfl
    rw [BitVec.toNat_ofNat, hzero]
    omega

end IncrementalMerkleTree

namespace IncrementalWitness

open IncrementalMerkleTree

variable {H : Type}

/-- `position`. -/
def position (w : IncrementalWitness H) : BitVec 64 :=
  w.tree.size - 1

/-- The position is one below the size, which does not wrap for a witnessed leaf. -/
theorem position_iff {h : TreeHash H} {L : Nat → H} {w : IncrementalWitness H} {n : Nat}
    (ht : Represents h L w.tree (n + 1)) (hn : n + 1 ≤ 2 ^ 32) :
    w.position.toNat = n ↔ n + 1 ≤ 2 ^ 31 := by
  have hone : (1 : BitVec 64).toNat = 1 := rfl
  have hsize := ht.size_iff hn
  rw [← hsize, position, BitVec.toNat_sub, hone]
  have hlt := w.tree.size.isLt
  omega

/-- In trees up to depth 32, over any leaves and along any life of a witness: the size is
the number of leaves, and the position the number of leaves before the witnessed one, exactly
for trees of at most 2^31 leaves. -/
theorem size_position_iff (h : TreeHash H) (codec : HashCodec H) {depth : Nat}
    (hdepth : 1 ≤ depth) (hmax : depth ≤ 32) :
    (∀ xs : List H, xs.length ≤ 2 ^ depth → ∃ t, appendAll h depth {} xs = some t ∧
      (t.size.toNat = xs.length ↔ xs.length ≤ 2 ^ 31)) ∧
    ∀ (xs : List H) (x : H) (ops : List (WitnessOp H)),
      xs.length + 1 + (appended ops).length ≤ 2 ^ depth →
      ∃ t w, appendAll h depth {} (xs ++ [x]) = some t ∧
        run h codec depth { tree := t } ops = some w ∧
        (w.position.toNat = xs.length ↔ xs.length + 1 ≤ 2 ^ 31) := by
  have hpow : 2 ^ depth ≤ 2 ^ 32 := Nat.pow_le_pow_right (by decide) hmax
  constructor
  · intro xs hxs
    obtain ⟨t, happend, ht⟩ := appendAll_represents h hdepth hxs
    exact ⟨t, happend, ht.size_iff (by omega)⟩
  · intro xs x ops hlen
    have hxs : (xs ++ [x]).length = xs.length + 1 := by simp
    let L := padded h (xs ++ [x] ++ appended ops)
    have htail : ∀ i y, (appended ops)[i]? = some y → L (xs.length + 1 + i) = y :=
      hxs ▸ padded_right (xs ++ [x]) (appended ops)
    obtain ⟨t, happend, ht⟩ := (Represents.empty (h := h)).appendAll hdepth
      (padded_left (xs ++ [x]) (appended ops)) (by omega)
    rw [Nat.zero_add, hxs] at ht
    obtain ⟨w, v, hrun, -, hw, -⟩ : ∃ w v, run h codec depth { tree := t } ops = some w ∧ _ :=
      (Witnesses.start ht (Nat.succ_pos _)).run (Agrees.refl _) hdepth (by omega) htail hlen
    exact ⟨t, w, happend, hrun, position_iff hw.represents (by omega)⟩

/-- Three leaves, and a fourth one that is witnessed while a fifth comes. -/
theorem size_position_small :
    (∃ t, appendAll sampleHash256 32 {} [1, 2, 3] = some t ∧
      (t.size.toNat = 3 ↔ 3 ≤ 2 ^ 31)) ∧
    ∃ t w, appendAll sampleHash256 32 {} ([1, 2, 3] ++ [4]) = some t ∧
      run sampleHash256 uint256Codec 32 { tree := t } [.append 5, .reload] = some w ∧
      (w.position.toNat = 3 ↔ 3 + 1 ≤ 2 ^ 31) := by
  have hall := size_position_iff sampleHash256 uint256Codec (show 1 ≤ 32 by decide) (by decide)
  exact ⟨hall.1 [1, 2, 3] (by decide), hall.2 [1, 2, 3] 4 [.append 5, .reload] (by decide)⟩

/-- One leaf more than 2^31 in a tree of depth 32. -/
theorem size_of_large : ∃ t : IncrementalMerkleTree Nat,
    appendAll sampleHash 32 {} (List.replicate (2 ^ 31 + 1) 0) = some t ∧
      t.size.toNat = 2 ^ 64 - 2 ^ 31 + 1 ∧
        (position { tree := t }).toNat = 2 ^ 64 - 2 ^ 31 := by
  have hlen : (List.replicate (2 ^ 31 + 1) 0).length = 2 ^ 31 + 1 := List.length_replicate
  have hfits : (List.replicate (2 ^ 31 + 1) 0).length ≤ 2 ^ 32 := by omega
  obtain ⟨t, happend, ht⟩ := appendAll_represents sampleHash (show 1 ≤ 32 by decide) hfits
  rw [hlen] at ht
  have hsize : t.size = BitVec.ofNat 64 (2 ^ 31 + 1) - BitVec.ofNat 64 (2 ^ 32) := by
    rw [ht.size_eq (by decide), ht.missing_eq (by decide), if_pos (by decide)]
  refine ⟨t, happend, ?_, ?_⟩
  · rw [hsize]
    decide
  · rw [position, hsize]
    decide

end IncrementalWitness

end IndexChain
