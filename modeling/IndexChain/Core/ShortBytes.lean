import IndexChain.Core.Canonical

/-!
# The shortest bytes of a number

Little-endian bytes without a zero at the end: they determine the number, and the number
determines them.
-/

namespace IndexChain.Core

/-- The bytes of a number up to the last one that is not zero, `n` at most. -/
def shortBytes : Nat → Nat → List UInt8
  | 0, _ => []
  | n + 1, x => if x = 0 then [] else UInt8.ofNat x :: shortBytes n (x / 256)

/-- The bytes are the shortest ones of their number. -/
def Short (bs : List UInt8) : Prop := bs.getLast? ≠ some 0

theorem leNat_concat (bs : List UInt8) (b : UInt8) :
    leNat (bs ++ [b]) = leNat bs + b.toNat * 256 ^ bs.length := by
  induction bs with
  | nil => simp [leNat]
  | cons a bs ih =>
    simp only [List.cons_append, leNat, ih, List.length_cons, Nat.pow_succ']
    rw [Nat.mul_add, Nat.add_assoc, Nat.mul_left_comm 256]

theorem shortBytes_zero (n : Nat) : shortBytes n 0 = [] := by
  cases n with
  | zero => rfl
  | succ n => rfl

theorem shortBytes_pos {n x : Nat} (h : 0 < x) :
    shortBytes (n + 1) x = UInt8.ofNat x :: shortBytes n (x / 256) :=
  if_neg (Nat.ne_of_gt h)

theorem leNat_shortBytes {n x : Nat} (h : x < 256 ^ n) : leNat (shortBytes n x) = x := by
  induction n generalizing x with
  | zero =>
    rw [Nat.pow_zero] at h
    exact (Nat.lt_one_iff.1 h).symm
  | succ n ih =>
    obtain rfl | hpos := Nat.eq_zero_or_pos x
    · rw [shortBytes_zero]
      rfl
    · have hdiv : x / 256 < 256 ^ n := by
        rw [Nat.pow_succ'] at h
        exact Nat.div_lt_of_lt_mul h
      rw [shortBytes_pos hpos, leNat, ih hdiv, UInt8.toNat_ofNat']
      omega

theorem length_shortBytes (n x : Nat) : (shortBytes n x).length ≤ n := by
  induction n generalizing x with
  | zero => exact Nat.le_refl 0
  | succ n ih =>
    obtain rfl | hpos := Nat.eq_zero_or_pos x
    · rw [shortBytes_zero]
      exact Nat.zero_le _
    · rw [shortBytes_pos hpos, List.length_cons]
      exact Nat.succ_le_succ (ih _)

theorem length_shortBytes_le {n k x : Nat} (h : x < 256 ^ k) : (shortBytes n x).length ≤ k := by
  induction n generalizing k x with
  | zero => exact Nat.zero_le k
  | succ n ih =>
    obtain rfl | hpos := Nat.eq_zero_or_pos x
    · rw [shortBytes_zero]
      exact Nat.zero_le k
    · cases k with
      | zero =>
        rw [Nat.pow_zero] at h
        exact absurd h (Nat.not_lt.2 hpos)
      | succ k =>
        rw [shortBytes_pos hpos, List.length_cons]
        rw [Nat.pow_succ'] at h
        exact Nat.succ_le_succ (ih (Nat.div_lt_of_lt_mul h))

/-- Every byte written is needed. -/
theorem short_shortBytes {n x : Nat} (h : x < 256 ^ n) : Short (shortBytes n x) := by
  induction n generalizing x with
  | zero => simp [Short, shortBytes]
  | succ n ih =>
    obtain rfl | hpos := Nat.eq_zero_or_pos x
    · simp [Short, shortBytes]
    · have hdiv : x / 256 < 256 ^ n := by
        rw [Nat.pow_succ'] at h
        exact Nat.div_lt_of_lt_mul h
      rw [Short, shortBytes_pos hpos, List.getLast?_cons]
      cases hlast : (shortBytes n (x / 256)).getLast? with
      | none =>
        -- the number is below 256, and it is not zero
        have hnil := List.getLast?_eq_none_iff.1 hlast
        have hzero : x / 256 = 0 := by
          rw [← leNat_shortBytes hdiv, hnil]
          rfl
        intro heq
        have hbyte := congrArg UInt8.toNat (Option.some.inj heq)
        simp only [Option.getD_none, UInt8.toNat_ofNat', UInt8.toNat_zero] at hbyte
        omega
      | some b =>
        have hb := ih hdiv
        rw [Short, hlast] at hb
        exact hb

/-- Short bytes do not stand for zero unless there are none. -/
theorem leNat_pos {bs : List UInt8} (h : Short bs) (hne : bs ≠ []) : 0 < leNat bs := by
  obtain ⟨init, last, rfl⟩ := (List.eq_nil_or_concat' bs).resolve_left hne
  rw [leNat_concat]
  have hlast : last ≠ 0 := by
    intro heq
    exact h (by simp [heq])
  have hpos : 0 < last.toNat := by
    refine Nat.pos_of_ne_zero fun hzero => hlast ?_
    exact UInt8.toNat_inj.1 hzero
  exact Nat.add_pos_right _ (Nat.mul_pos hpos (Nat.pow_pos (by decide)))

/-- The number of short bytes determines them. -/
theorem shortBytes_leNat {n : Nat} {bs : List UInt8} (h : Short bs) (hn : bs.length ≤ n) :
    shortBytes n (leNat bs) = bs := by
  induction bs generalizing n with
  | nil => exact shortBytes_zero n
  | cons b bs ih =>
    cases n with
    | zero => cases hn
    | succ n =>
      have hrest : Short bs := by
        intro hlast
        apply h
        rw [List.getLast?_cons, hlast]
        rfl
      have hpos := leNat_pos h (List.cons_ne_nil b bs)
      rw [shortBytes_pos hpos]
      have hhead : UInt8.ofNat (leNat (b :: bs)) = b := by
        apply UInt8.toNat_inj.1
        rw [UInt8.toNat_ofNat', leNat]
        have := b.toNat_lt
        omega
      have htail : leNat (b :: bs) / 256 = leNat bs := by
        rw [leNat]
        have := b.toNat_lt
        omega
      rw [hhead, htail, ih hrest (Nat.le_of_succ_le_succ hn)]

end IndexChain.Core
