import Mathlib.Data.BitVec
import Mathlib.Logic.Function.Iterate

/-!
# Feeding words into a linear register

A register of bits is changed by a map that is linear in exclusive or, and then a word is added to
it, again and again. The difference of two runs is the run of the differences, so what has been fed
in before is a summand of the end, and a row of words that makes no difference to the end makes
none to any register on the way.
-/

namespace IndexChain.Core

variable {w : Nat}

/-- A map that is linear in exclusive or. -/
def XorLinear (f : BitVec w → BitVec w) : Prop :=
  ∀ a b, f (a ^^^ b) = f a ^^^ f b

/-- Words are fed into a register, the first of them first. -/
def feed (f : BitVec w → BitVec w) (s : BitVec w) (l : List (BitVec w)) : BitVec w :=
  l.foldl (fun s v => f s ^^^ v) s

variable {f : BitVec w → BitVec w} {s a b : BitVec w} {l l' : List (BitVec w)}

@[simp] theorem feed_nil : feed f s [] = s :=
  rfl

@[simp] theorem feed_cons (v : BitVec w) : feed f s (v :: l) = feed f (f s ^^^ v) l :=
  rfl

theorem feed_append : feed f s (l ++ l') = feed f (feed f s l) l' :=
  List.foldl_append

theorem XorLinear.zero (hf : XorLinear f) : f 0#w = 0#w := by
  have h := hf 0#w 0#w
  rwa [BitVec.xor_self, BitVec.xor_self] at h

/-- The difference of two runs. -/
theorem XorLinear.feed_xor (hf : XorLinear f) (hlength : l.length = l'.length) :
    feed f (a ^^^ b) (List.zipWith (· ^^^ ·) l l') = feed f a l ^^^ feed f b l' := by
  induction l generalizing a b l' with
  | nil =>
    cases List.eq_nil_of_length_eq_zero hlength.symm
    rfl
  | cons v l ih =>
    cases l' with
    | nil => cases hlength
    | cons v' l' =>
      have hstep : f (a ^^^ b) ^^^ (v ^^^ v') = f a ^^^ v ^^^ (f b ^^^ v') := by
        rw [hf]
        ac_rfl
      rw [List.zipWith_cons_cons, feed_cons, feed_cons, feed_cons, hstep]
      exact ih (Nat.succ.inj hlength)

theorem zipWith_zero (l : List (BitVec w)) :
    List.zipWith (· ^^^ ·) (List.replicate l.length 0#w) l = l := by
  induction l with
  | nil => rfl
  | cons v l ih =>
    rw [List.length_cons, List.replicate_succ, List.zipWith_cons_cons, ih, BitVec.zero_xor]

theorem zipWith_self (l : List (BitVec w)) :
    List.zipWith (· ^^^ ·) l l = List.replicate l.length 0#w := by
  induction l with
  | nil => rfl
  | cons v l ih =>
    rw [List.zipWith_cons_cons, ih, BitVec.xor_self, List.length_cons, List.replicate_succ]

/-- What is fed in later is added to the run without it. -/
theorem XorLinear.feed_eq (hf : XorLinear f) :
    feed f s l = feed f s (List.replicate l.length 0#w) ^^^ feed f 0#w l := by
  have hlength : (List.replicate l.length 0#w).length = l.length := List.length_replicate
  have hxor := hf.feed_xor (a := s) (b := 0#w) hlength
  rwa [BitVec.xor_zero, zipWith_zero] at hxor

theorem feed_replicate_zero (n : Nat) : feed f s (List.replicate n 0#w) = f^[n] s := by
  induction n generalizing s with
  | zero => rfl
  | succ n ih =>
    rw [List.replicate_succ, feed_cons, BitVec.xor_zero, ih, Function.iterate_succ_apply]

theorem XorLinear.feed_zero (hf : XorLinear f) (n : Nat) :
    feed f 0#w (List.replicate n 0#w) = 0#w := by
  rw [feed_replicate_zero]
  exact Function.iterate_fixed hf.zero n

/-- A register that is led to zero was zero, when no other is mapped to zero. -/
theorem eq_zero_of_iterate {P : BitVec w → Prop} (hkeep : ∀ s, P s → P (f s))
    (hzero : ∀ s, P s → f s = 0#w → s = 0#w) {n : Nat} (hs : P s) (h : f^[n] s = 0#w) :
    s = 0#w := by
  induction n generalizing s with
  | zero => exact h
  | succ n ih => exact hzero s hs (ih (hkeep s hs) h)

end IndexChain.Core
