import IndexChain.Models.Chain.Consistent
import IndexChain.Models.Stake.KomodoStake
import Mathlib.Order.Defs.Unbundled

/-!
# The order of the candidates for the tip

`CChainPower` of `chain.h` and `chain.cpp`, `GetBlockProof`, and the comparator of
`setBlockIndexCandidates` with its two branches. A comparison of powers divides the work
of each block, sixteen bits up, by the larger of the two. The larger one comes to
`0x10000`, the other one to less, so that no precision is missing as long as the shift
stays inside 256 bits.
-/

namespace IndexChain.Chain

/-! ## Powers -/

/-- `CChainPower`; numbers are of the type `arith_uint256`. -/
@[ext] structure CChainPower where
  /-- The sum of the work. -/
  chainWork : BitVec 256 := 0
  /-- The sum of the stake. -/
  chainStake : BitVec 256 := 0
  /-- The height of the block. -/
  nHeight : Int := 0
  deriving DecidableEq, Repr

namespace CChainPower

/-- The larger of two numbers, and 1 if both are zero: what their division is by. -/
def divisor (a b : BitVec 256) : BitVec 256 :=
  if a > b then a else if b ≠ 0 then b else 1

/-- What the comparisons compute of the first power. -/
def lhs (p1 p2 : CChainPower) : BitVec 256 :=
  (p1.chainWork <<< 16) / divisor p1.chainWork p2.chainWork +
    (p1.chainStake <<< 16) / divisor p1.chainStake p2.chainStake

/-- What the comparisons compute of the second power. -/
def rhs (p1 p2 : CChainPower) : BitVec 256 :=
  (p2.chainWork <<< 16) / divisor p1.chainWork p2.chainWork +
    (p2.chainStake <<< 16) / divisor p1.chainStake p2.chainStake

/-- `operator==`. -/
def eq (p1 p2 : CChainPower) : Bool :=
  lhs p1 p2 == rhs p1 p2

/-- `operator<`. -/
def lt (p1 p2 : CChainPower) : Bool :=
  decide (lhs p1 p2 < rhs p1 p2)

/-- `operator<=`. -/
def le (p1 p2 : CChainPower) : Bool :=
  decide (lhs p1 p2 ≤ rhs p1 p2)

/-- `operator>`. -/
def gt (p1 p2 : CChainPower) : Bool :=
  !p1.le p2

end CChainPower

/-- `*pfNegative || *pfOverflow` after `SetCompact`. -/
def compactFails (nCompact : UInt32) : Bool :=
  let nSize := (nCompact >>> 24).toNat
  let nWord := nCompact &&& 0x007fffff
  let nWord := if nSize ≤ 3 then nWord >>> (8 * (3 - nSize)).toUInt32 else nWord
  (nWord != 0 && nCompact &&& 0x00800000 != 0) ||
    (nWord != 0 && (decide (nSize > 34) || (decide (nWord > 0xff) && decide (nSize > 33)) ||
      (decide (nWord > 0xffff) && decide (nSize > 32))))

/-- `GetBlockProof` of a block with these bits. -/
def getBlockProof (nBits : UInt32) : CChainPower :=
  let bnWorkTarget := Stake.setCompact nBits
  if compactFails nBits || bnWorkTarget == 0 then {}
  else { chainWork := ~~~bnWorkTarget / (bnWorkTarget + 1) + 1 }

/-- A block adds work alone. -/
theorem chainStake_getBlockProof (nBits : UInt32) : (getBlockProof nBits).chainStake = 0 := by
  unfold getBlockProof
  dsimp only
  split <;> rfl

/-! ## Work alone -/

namespace CChainPower

variable {p1 p2 : CChainPower}

/-- There is no stake, and the work can be shifted by sixteen bits. -/
structure WorkOnly (p : CChainPower) : Prop where
  /-- No stake. -/
  chainStake : p.chainStake = 0
  /-- Room for the shift. -/
  chainWork : p.chainWork.toNat < 2 ^ 240

/-- No stake gives no share. -/
theorem stake_share (d : BitVec 256) : (0#256 <<< 16) / d = 0#256 := by
  rw [BitVec.zero_shiftLeft, BitVec.zero_udiv]

theorem toNat_divisor (a b : BitVec 256) :
    (divisor a b).toNat = max (max a.toNat b.toNat) 1 := by
  unfold divisor
  split
  · rename_i hlt
    rw [gt_iff_lt, BitVec.lt_def] at hlt
    omega
  · rename_i hle
    rw [gt_iff_lt, BitVec.lt_def] at hle
    split
    · rename_i hne
      have hpos : b.toNat ≠ 0 := fun h => hne (BitVec.eq_of_toNat_eq h)
      omega
    · rename_i heq
      have hzero : b = 0 := not_not.1 heq
      subst hzero
      simp only [BitVec.ofNat_eq_ofNat, BitVec.toNat_ofNat, Nat.zero_mod] at hle ⊢
      omega

/-- The share of some work in the divisor. -/
theorem toNat_share {w d : BitVec 256} (h : w.toNat < 2 ^ 240) :
    ((w <<< 16) / d).toNat = w.toNat * 2 ^ 16 / d.toNat := by
  have hroom : w.toNat * 2 ^ 16 < 2 ^ 256 := by omega
  rw [BitVec.toNat_udiv, BitVec.toNat_shiftLeft, Nat.shiftLeft_eq, Nat.mod_eq_of_lt hroom]

theorem toNat_lhs (h1 : p1.WorkOnly) (h2 : p2.WorkOnly) : (lhs p1 p2).toNat =
    p1.chainWork.toNat * 2 ^ 16 / max (max p1.chainWork.toNat p2.chainWork.toNat) 1 := by
  unfold lhs
  rw [h1.chainStake, h2.chainStake, BitVec.ofNat_eq_ofNat, stake_share, BitVec.add_zero,
    toNat_share h1.chainWork, toNat_divisor]

theorem toNat_rhs (h1 : p1.WorkOnly) (h2 : p2.WorkOnly) : (rhs p1 p2).toNat =
    p2.chainWork.toNat * 2 ^ 16 / max (max p1.chainWork.toNat p2.chainWork.toNat) 1 := by
  unfold rhs
  rw [h1.chainStake, h2.chainStake, BitVec.ofNat_eq_ofNat, stake_share, BitVec.add_zero,
    toNat_share h2.chainWork, toNat_divisor]

/-- The smaller one of two numbers has a share below that of the larger one. -/
theorem share_lt {a b : Nat} (h : a < b) :
    a * 2 ^ 16 / max (max a b) 1 < b * 2 ^ 16 / max (max a b) 1 := by
  have hmax : max (max a b) 1 = b := by omega
  rw [hmax, Nat.mul_div_cancel_left _ (Nat.zero_lt_of_lt h)]
  apply Nat.div_lt_of_lt_mul
  exact Nat.mul_lt_mul_of_pos_right h (by decide)

/-- Shares are in the order of the numbers. -/
theorem share_lt_iff (a b : Nat) :
    a * 2 ^ 16 / max (max a b) 1 < b * 2 ^ 16 / max (max a b) 1 ↔ a < b := by
  constructor
  · intro hshare
    by_contra hle
    obtain heq | hgt := Nat.eq_or_lt_of_not_lt hle
    · rw [heq] at hshare
      exact lt_irrefl _ hshare
    · have hrev := share_lt hgt
      rw [max_comm b a] at hrev
      exact lt_asymm hshare hrev
  · exact share_lt

theorem lt_iff (h1 : p1.WorkOnly) (h2 : p2.WorkOnly) :
    p1.lt p2 = true ↔ p1.chainWork < p2.chainWork := by
  rw [lt, decide_eq_true_iff, BitVec.lt_def, BitVec.lt_def, toNat_lhs h1 h2, toNat_rhs h1 h2,
    share_lt_iff]

/-- The sides of a comparison change places with the powers. -/
theorem lhs_swap (h1 : p1.WorkOnly) (h2 : p2.WorkOnly) : lhs p1 p2 = rhs p2 p1 := by
  apply BitVec.eq_of_toNat_eq
  rw [toNat_lhs h1 h2, toNat_rhs h2 h1, max_comm p1.chainWork.toNat]

theorem le_iff (h1 : p1.WorkOnly) (h2 : p2.WorkOnly) :
    p1.le p2 = true ↔ p1.chainWork ≤ p2.chainWork := by
  have hrev := lt_iff h2 h1
  rw [lt, decide_eq_true_iff] at hrev
  rw [le, decide_eq_true_iff, lhs_swap h1 h2, ← lhs_swap h2 h1, ← BitVec.not_lt, hrev,
    BitVec.not_lt]

theorem eq_iff (h1 : p1.WorkOnly) (h2 : p2.WorkOnly) :
    p1.eq p2 = true ↔ p1.chainWork = p2.chainWork := by
  have hlt := lt_iff h1 h2
  have hle := le_iff h1 h2
  rw [lt, decide_eq_true_iff] at hlt
  rw [le, decide_eq_true_iff] at hle
  rw [eq, beq_iff_eq, ← BitVec.toNat_inj, ← BitVec.toNat_inj]
  rw [BitVec.lt_def, BitVec.lt_def] at hlt
  rw [BitVec.le_def, BitVec.le_def] at hle
  omega

end CChainPower

/-! ## The comparator -/

/-- What the comparator reads of an entry. -/
structure IndexOrder where
  /-- `chainPower`. -/
  chainPower : CChainPower
  /-- `nSequenceId`. -/
  nSequenceId : BitVec 32
  deriving DecidableEq, Repr

/-- What the powers of two entries decide; chains with `ASSETCHAINS_LWMAPOS` compare the
whole powers, the others only the work. -/
def comparePower (lwmapos : Bool) (p q : CChainPower) : Option Bool :=
  if lwmapos then
    if p.gt q then some false else if p.lt q then some true else none
  else
    if p.chainWork > q.chainWork then some false
    else if p.chainWork < q.chainWork then some true else none

/-- `CBlockIndexWorkComparator` on two pointers, with the entries at them. -/
def blockIndexWorkComparator (lwmapos : Bool) (mem : Nat → IndexOrder) (pa pb : Nat) : Bool :=
  match comparePower lwmapos (mem pa).chainPower (mem pb).chainPower with
  | some less => less
  | none =>
    if (mem pa).nSequenceId < (mem pb).nSequenceId then false
    else if (mem pa).nSequenceId > (mem pb).nSequenceId then true
    else if pa < pb then false
    else decide (pa > pb)

variable {mem : Nat → IndexOrder} {lwmapos : Bool} {p q : CChainPower} {pa pb pc : Nat}

theorem comparePower_eq (hp : p.WorkOnly) (hq : q.WorkOnly) : comparePower lwmapos p q =
    if p.chainWork > q.chainWork then some false
    else if p.chainWork < q.chainWork then some true else none := by
  cases lwmapos with
  | false => rfl
  | true =>
    have hgt : p.gt q = true ↔ p.chainWork > q.chainWork := by
      rw [CChainPower.gt, Bool.not_eq_true', ← Bool.not_eq_true, CChainPower.le_iff hp hq,
        BitVec.not_le, gt_iff_lt]
    simp only [comparePower, if_true, hgt, CChainPower.lt_iff hp hq]

/-- Less work, or the same and linked later, or the same and at the larger address. -/
theorem blockIndexWorkComparator_iff (ha : (mem pa).chainPower.WorkOnly)
    (hb : (mem pb).chainPower.WorkOnly) : blockIndexWorkComparator lwmapos mem pa pb = true ↔
    (mem pa).chainPower.chainWork.toNat < (mem pb).chainPower.chainWork.toNat ∨
      (mem pa).chainPower.chainWork.toNat = (mem pb).chainPower.chainWork.toNat ∧
        ((mem pb).nSequenceId.toNat < (mem pa).nSequenceId.toNat ∨
          (mem pa).nSequenceId.toNat = (mem pb).nSequenceId.toNat ∧ pb < pa) := by
  rw [blockIndexWorkComparator, comparePower_eq ha hb]
  simp only [BitVec.lt_def, gt_iff_lt]
  split_ifs <;> simp <;> omega

/-- The order of the model of the active chain is that of the comparator. -/
theorem workLess_eq_comparator {env : TipEnv} {s : ChainState} {a b : Uint256}
    (hwork : ∀ id, id = a ∨ id = b → (mem (env.addr id)).chainPower.WorkOnly ∧
      (mem (env.addr id)).chainPower.chainWork.toNat = s.chainWork id ∧
      (mem (env.addr id)).nSequenceId = s.nSequenceId id) :
    s.workLess env a b = blockIndexWorkComparator lwmapos mem (env.addr a) (env.addr b) := by
  obtain ⟨hpa, hwa, hsa⟩ := hwork a (Or.inl rfl)
  obtain ⟨hpb, hwb, hsb⟩ := hwork b (Or.inr rfl)
  rw [Bool.eq_iff_iff, ChainState.workLess_iff, blockIndexWorkComparator_iff hpa hpb, hwa, hwb,
    hsa, hsb]

variable (lwmapos mem) in
/-- The comparator is a strict total order on entries without stake. -/
theorem comparator_isStrictTotalOrder :
    IsStrictTotalOrder { ptr // (mem ptr).chainPower.WorkOnly } fun pa pb =>
      blockIndexWorkComparator lwmapos mem pa pb = true where
  trichotomous := by
    intro a b hab hba
    rw [blockIndexWorkComparator_iff a.2 b.2] at hab
    rw [blockIndexWorkComparator_iff b.2 a.2] at hba
    apply Subtype.ext
    omega
  irrefl := by
    intro a
    rw [blockIndexWorkComparator_iff a.2 a.2]
    omega
  trans := by
    intro a b c hab hbc
    rw [blockIndexWorkComparator_iff a.2 b.2] at hab
    rw [blockIndexWorkComparator_iff b.2 c.2] at hbc
    rw [blockIndexWorkComparator_iff a.2 c.2]
    omega

/-- On powers without stake and with work below `2 ^ 240` the comparisons are those of the
work; the comparator then is a strict total order of the entries, whichever branch it
takes. -/
theorem chainPower_order :
    (∀ p1 p2 : CChainPower, p1.WorkOnly → p2.WorkOnly →
      (p1.lt p2 = true ↔ p1.chainWork < p2.chainWork) ∧
      (p1.le p2 = true ↔ p1.chainWork ≤ p2.chainWork) ∧
      (p1.eq p2 = true ↔ p1.chainWork = p2.chainWork)) ∧
    ∀ mem : Nat → IndexOrder,
      (∀ lwmapos, IsStrictTotalOrder { ptr // (mem ptr).chainPower.WorkOnly } fun pa pb =>
        blockIndexWorkComparator lwmapos mem pa pb = true) ∧
      ∀ pa pb, (mem pa).chainPower.WorkOnly → (mem pb).chainPower.WorkOnly →
        blockIndexWorkComparator true mem pa pb = blockIndexWorkComparator false mem pa pb := by
  refine ⟨?_, fun mem => ⟨?_, ?_⟩⟩
  · intro p1 p2 h1 h2
    exact ⟨CChainPower.lt_iff h1 h2, CChainPower.le_iff h1 h2, CChainPower.eq_iff h1 h2⟩
  · exact fun lwmapos => comparator_isStrictTotalOrder mem lwmapos
  · intro pa pb ha hb
    rw [Bool.eq_iff_iff, blockIndexWorkComparator_iff ha hb, blockIndexWorkComparator_iff ha hb]

/-- Two powers next to each other, and two entries with the same power. -/
theorem chainPower_order_next :
    ((({ chainWork := 6 } : CChainPower).lt { chainWork := 7 } = true ↔ (6 : BitVec 256) < 7) ∧
      (({ chainWork := 6 } : CChainPower).le { chainWork := 7 } = true ↔ (6 : BitVec 256) ≤ 7) ∧
      (({ chainWork := 6 } : CChainPower).eq { chainWork := 7 } = true ↔ (6 : BitVec 256) = 7)) ∧
    blockIndexWorkComparator true (fun _ => ⟨{ chainWork := 6 }, 0⟩) 8 9 =
      blockIndexWorkComparator false (fun _ => ⟨{ chainWork := 6 }, 0⟩) 8 9 :=
  ⟨chainPower_order.1 _ _ ⟨rfl, by decide⟩ ⟨rfl, by decide⟩,
    (chainPower_order.2 _).2 _ _ ⟨rfl, by decide⟩ ⟨rfl, by decide⟩⟩

end IndexChain.Chain
