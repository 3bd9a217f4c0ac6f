import Mathlib.Data.List.TakeWhile
import Mathlib.Tactic.Ring

/-!
# Decimal numerals

Strings of decimal digits and their values, most significant digit first. Core
writes a number without leading zeros; here are the value of a concatenation and
numerals padded to a width.
-/

namespace IndexChain.Core

/-- A string of decimal digits. -/
def Digits (s : List Char) : Prop := ∀ c ∈ s, c.isDigit = true

namespace Digits

variable {c : Char} {s t : List Char}

@[simp] theorem nil : Digits [] := fun _ hc => absurd hc List.not_mem_nil

theorem append_iff : Digits (s ++ t) ↔ Digits s ∧ Digits t := List.forall_mem_append

theorem cons_iff : Digits (c :: s) ↔ c.isDigit = true ∧ Digits s := List.forall_mem_cons

theorem takeWhile (s : List Char) : Digits (s.takeWhile Char.isDigit) :=
  fun _ hc => List.mem_takeWhile_imp hc

theorem take (h : Digits s) (n : Nat) : Digits (s.take n) :=
  fun c hc => h c (List.mem_of_mem_take hc)

theorem toDigits (n : Nat) : Digits (Nat.toDigits 10 n) :=
  fun _ hc => Nat.isDigit_of_mem_toDigits (by decide) (by decide) hc

theorem takeWhile_eq (h : Digits s) : s.takeWhile Char.isDigit = s := List.takeWhile_eq_self_iff.2 h

end Digits

/-- The value of a digit. -/
def digitValue (c : Char) : Nat := c.toNat - '0'.toNat

theorem digitValue_le {c : Char} (h : c.isDigit = true) : digitValue c ≤ 9 := by
  have hrange : c.val.toNat ≤ 57 := by
    rw [Char.isDigit, Bool.and_eq_true, decide_eq_true_iff, decide_eq_true_iff] at h
    exact UInt32.le_iff_toNat_le.1 h.2
  exact Nat.sub_le_of_le_add hrange

/-- The value of a string of digits. -/
def numeral (s : List Char) : Nat := Nat.ofDigitChars 10 s 0

section Numeral

variable {s t : List Char}

@[simp] theorem numeral_nil : numeral [] = 0 := rfl

theorem numeral_append (s t : List Char) :
    numeral (s ++ t) = numeral s * 10 ^ t.length + numeral t := by
  rw [numeral, Nat.ofDigitChars_append, Nat.ofDigitChars_eq_ofDigitChars_zero, Nat.mul_comm]
  rfl

theorem numeral_cons (c : Char) (s : List Char) :
    numeral (c :: s) = digitValue c * 10 ^ s.length + numeral s := by
  rw [← List.singleton_append, numeral_append]
  simp [numeral, Nat.ofDigitChars_cons, digitValue]

@[simp] theorem numeral_toDigits (n : Nat) : numeral (Nat.toDigits 10 n) = n :=
  Nat.ofDigitChars_ten_toDigits

theorem numeral_zeros (n : Nat) : numeral (List.replicate n '0') = 0 := by
  rw [numeral, Nat.ofDigitChars_replicate_zero, Nat.mul_zero]

/-- Zeros at the end scale the value. -/
theorem numeral_append_zeros (s : List Char) (n : Nat) :
    numeral (s ++ List.replicate n '0') = numeral s * 10 ^ n := by
  rw [numeral_append, numeral_zeros, List.length_replicate, Nat.add_zero]

theorem numeral_lt (h : Digits s) : numeral s < 10 ^ s.length := by
  induction s with
  | nil => exact Nat.one_pos
  | cons c s ih =>
    obtain ⟨hc, hs⟩ := Digits.cons_iff.1 h
    have hdigit : digitValue c * 10 ^ s.length ≤ 9 * 10 ^ s.length :=
      Nat.mul_le_mul_right _ (digitValue_le hc)
    have hrest := ih hs
    rw [numeral_cons, List.length_cons, Nat.pow_succ]
    omega

end Numeral

/-- A number padded with zeros to a width, `%0*d`. -/
def padded (width n : Nat) : List Char :=
  List.replicate (width - (Nat.toDigits 10 n).length) '0' ++ Nat.toDigits 10 n

namespace padded

variable (width n : Nat)

@[simp] theorem numeral : numeral (padded width n) = n := by
  rw [padded, numeral_append, numeral_zeros, numeral_toDigits, Nat.zero_mul, Nat.zero_add]

theorem digits : Digits (padded width n) := by
  rw [padded, Digits.append_iff]
  refine ⟨fun c hc => ?_, Digits.toDigits n⟩
  rw [List.eq_of_mem_replicate hc]
  rfl

variable {width n}

theorem length (hwidth : 0 < width) (hn : n < 10 ^ width) : (padded width n).length = width := by
  have hlen := (Nat.length_toDigits_le_iff (by decide) hwidth).2 hn
  rw [padded, List.length_append, List.length_replicate]
  omega

end padded

end IndexChain.Core
