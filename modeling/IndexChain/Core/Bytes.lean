import Mathlib.Data.BitVec
import Mathlib.Data.List.Basic

/-!
# Reading bytes

Little-endian numbers and a reader that consumes the front of a byte string. A
reader fails when the string is too short, as a stream does at its end.
-/

namespace IndexChain.Core

/-- The number with the given little-endian bytes. -/
def leNat : List UInt8 → Nat
  | [] => 0
  | b :: bs => b.toNat + 256 * leNat bs

/-- The `n` little-endian bytes of a number. -/
def leBytes : Nat → Nat → List UInt8
  | 0, _ => []
  | n + 1, x => UInt8.ofNat x :: leBytes n (x / 256)

/-- The value that a 64-bit signed register holds. -/
def toInt64 (x : Int) : Int := x.bmod (2 ^ 64)

/-- The value that a 64-bit unsigned register holds. -/
def toUint64 (x : Int) : Int := x % 2 ^ 64

/-- The value that a 32-bit signed register holds. -/
def toInt32 (x : Int) : Int := x.bmod (2 ^ 32)

@[simp] theorem leBytes_length (n x : Nat) : (leBytes n x).length = n := by
  induction n generalizing x with
  | zero => rfl
  | succ n ih => simp [leBytes, ih]

/-- The bytes of a number determine it. -/
theorem leNat_leBytes {n x : Nat} (h : x < 256 ^ n) : leNat (leBytes n x) = x := by
  induction n generalizing x with
  | zero =>
    rw [Nat.pow_zero] at h
    exact (Nat.lt_one_iff.1 h).symm
  | succ n ih =>
    have hdiv : x / 256 < 256 ^ n := by
      rw [Nat.pow_succ'] at h
      exact Nat.div_lt_of_lt_mul h
    simp only [leBytes, leNat, ih hdiv, UInt8.toNat_ofNat']
    omega

/-- A function that reads a value from the front of a byte string. -/
def Reader (α : Type) := List UInt8 → Option (α × List UInt8)

namespace Reader

/-- Read nothing. -/
def pure {α : Type} (a : α) : Reader α := fun bs => some (a, bs)

/-- Read one value after another. -/
def bind {α β : Type} (r : Reader α) (k : α → Reader β) : Reader β := fun bs =>
  match r bs with
  | none => none
  | some (a, rest) => k a rest

instance : Monad Reader where
  pure := pure
  bind := bind

/-- Fail. -/
def fail {α : Type} : Reader α := fun _ => none

/-- Read `n` bytes. -/
def bytes (n : Nat) : Reader (List UInt8) := fun bs =>
  if bs.length < n then none else some (bs.take n, bs.drop n)

/-- Read one byte. -/
def byte : Reader UInt8
  | [] => none
  | b :: bs => some (b, bs)

/-- Read an unsigned number of `n` bytes. -/
def nat (n : Nat) : Reader Nat := do
  let bs ← bytes n
  return leNat bs

/-- Read a signed number of `n` bytes. -/
def int (n : Nat) : Reader Int := do
  let x ← nat n
  return (x : Int).bmod (256 ^ n)

/-- Read `n` values. -/
def repeated {α : Type} (r : Reader α) : Nat → Reader (List α)
  | 0 => return []
  | n + 1 => do
    let a ← r
    let as ← repeated r n
    return a :: as

/-- Whether everything is consumed. -/
def eof : Reader Bool := fun bs => some (bs.isEmpty, bs)

/-- Read a size as `ReadCompactSize` does: in the shortest form, and at most 32 MiB. -/
def compactSize : Reader Nat := do
  let chSize ← byte
  let n ← if chSize < 253 then pure chSize.toNat
    else if chSize = 253 then nat 2
    else if chSize = 254 then nat 4
    else nat 8
  if (chSize = 253 ∧ n < 253) ∨ (chSize = 254 ∧ n < 0x10000) ∨
      (chSize = 255 ∧ n < 0x100000000) ∨ 0x02000000 < n then fail else return n

/-- Read a byte vector or a string: its size and its bytes. -/
def vector : Reader (List UInt8) := do
  let n ← compactSize
  bytes n

/-- Read a value from a byte string and require that nothing is left. -/
def unmarshal {α : Type} (r : Reader α) (bs : List UInt8) : Option α :=
  match r bs with
  | some (a, []) => some a
  | _ => none

/-! ## What a reader has read -/

theorem bind_eq_some {α β : Type} {r : Reader α} {k : α → Reader β} {bs : List UInt8}
    {y : β × List UInt8} :
    (r >>= k) bs = some y ↔ ∃ a rest, r bs = some (a, rest) ∧ k a rest = some y := by
  change bind r k bs = some y ↔ _
  unfold bind
  cases r bs with
  | none => simp
  | some x =>
    obtain ⟨a, rest⟩ := x
    simp

theorem pure_eq_some {α : Type} {a : α} {bs : List UInt8} {y : α × List UInt8} :
    (Pure.pure a : Reader α) bs = some y ↔ (a, bs) = y := by
  change some (a, bs) = some y ↔ _
  rw [Option.some.injEq]

/-- A reader goes on after what it has read. -/
theorem bind_of_eq {α β : Type} {r : Reader α} {bs rest : List UInt8} {a : α}
    (h : r bs = some (a, rest)) (k : α → Reader β) : (r >>= k) bs = k a rest := by
  change bind r k bs = _
  unfold bind
  rw [h]

theorem byte_cons (b : UInt8) (bs : List UInt8) : byte (b :: bs) = some (b, bs) := rfl

theorem bytes_append {bs rest : List UInt8} {n : Nat} (h : bs.length = n) :
    bytes n (bs ++ rest) = some (bs, rest) := by
  unfold bytes
  rw [if_neg (by simp [h]), List.take_left' h, List.drop_left' h]

/-- Reading the bytes of a number gives the number. -/
theorem nat_append {n x : Nat} (h : x < 256 ^ n) (rest : List UInt8) :
    nat n (leBytes n x ++ rest) = some (x, rest) := by
  unfold nat
  rw [bind_of_eq (bytes_append (leBytes_length n x)), leNat_leBytes h]
  rfl

/-- A signed number fits its bytes. -/
theorem int_range {n : Nat} {bs rest : List UInt8} {x : Int} (h : int n bs = some (x, rest)) :
    -((256 ^ n : Nat) : Int) ≤ 2 * x ∧ 2 * x ≤ ((256 ^ n : Nat) : Int) := by
  unfold int at h
  obtain ⟨v, rest', -, h⟩ := bind_eq_some.1 h
  obtain rfl : (v : Int).bmod (256 ^ n) = x := congrArg Prod.fst (pure_eq_some.1 h)
  have hpos : 0 < 256 ^ n := Nat.pow_pos (by decide)
  have hlow := @Int.le_bmod v (256 ^ n) hpos
  have hhigh := @Int.bmod_lt v (256 ^ n) hpos
  omega

theorem exists_of_unmarshal {α : Type} {r : Reader α} {bs : List UInt8} {a : α}
    (h : unmarshal r bs = some a) : r bs = some (a, []) := by
  unfold unmarshal at h
  split at h
  · rename_i b hr
    rw [hr, Option.some.inj h]
  · cases h

end Reader

end IndexChain.Core
