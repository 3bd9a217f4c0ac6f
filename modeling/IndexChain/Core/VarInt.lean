import IndexChain.Core.Serialize

/-!
# Numbers of variable length

A number is written in base 128 with the most significant digit first. Every digit but the
last has its high bit set and counts from one, so that a number has one form only. What is
sent to a stream is a list of chunks, since a stream that only measures counts the digits of
a number without writing them.
-/

namespace IndexChain.Core

/-- The digits of a number, the last one first; a register that holds a negative number
gives one digit. -/
def varIntDigits (flag : Nat) (n : Int) : List UInt8 :=
  let digit := UInt8.ofNat ((n % 128).toNat + flag)
  if n ≤ 127 then [digit] else digit :: varIntDigits 128 (n / 128 - 1)
termination_by n.toNat
decreasing_by omega

/-- The bytes of a number. -/
def writeVarInt (n : Int) : List UInt8 :=
  (varIntDigits 0 n).reverse

/-- The number of bytes of a number. -/
def sizeOfVarInt (n : Int) : Nat :=
  if n ≤ 127 then 1 else sizeOfVarInt (n / 128 - 1) + 1
termination_by n.toNat
decreasing_by omega

theorem length_varIntDigits (flag : Nat) (n : Int) :
    (varIntDigits flag n).length = sizeOfVarInt n := by
  fun_induction varIntDigits flag n with
  | case1 flag n digit hsmall =>
    unfold sizeOfVarInt
    rw [if_pos hsmall]
    rfl
  | case2 flag n digit hbig ih =>
    unfold sizeOfVarInt
    rw [if_neg hbig, List.length_cons, ih]

/-- A number of one digit. -/
theorem writeVarInt_digit {n : Nat} (h : n < 128) : writeVarInt n = [UInt8.ofNat n] := by
  have hmod : ((n : Int) % 128).toNat = n := by omega
  unfold writeVarInt varIntDigits
  dsimp only
  rw [hmod, if_pos (by omega)]
  rfl

/-- The size is counted as it is written. -/
theorem length_writeVarInt (n : Int) : (writeVarInt n).length = sizeOfVarInt n := by
  unfold writeVarInt
  rw [List.length_reverse, length_varIntDigits]

/-- A number below a power of 128 has at most as many digits as the exponent says. -/
theorem sizeOfVarInt_le {n k : Nat} (h : n < 128 ^ (k + 1)) : sizeOfVarInt n ≤ k + 1 := by
  induction k generalizing n with
  | zero =>
    unfold sizeOfVarInt
    rw [if_pos (by omega)]
  | succ k ih =>
    unfold sizeOfVarInt
    split
    · omega
    · rename_i hbig
      have hhigh : (n : Int) / 128 - 1 = ((n / 128 - 1 : Nat) : Int) := by omega
      have hdiv : n / 128 < 128 ^ (k + 1) := by
        rw [Nat.pow_succ'] at h
        exact Nat.div_lt_of_lt_mul h
      have hrest := ih (Nat.lt_of_le_of_lt (Nat.sub_le (n / 128) 1) hdiv)
      rw [hhigh]
      omega

namespace Reader

/-- Read the digits of a number into a register of `w` bits. -/
def varIntFrom (w : Nat) : Nat → Reader Nat
  | _, [] => none
  | n, c :: rest =>
    let n := (n * 128 + c.toNat % 128) % 2 ^ w
    if 128 ≤ c.toNat then varIntFrom w ((n + 1) % 2 ^ w) rest else some (n, rest)

/-- Read a number into an unsigned register of `w` bits. -/
def varInt (w : Nat) : Reader Nat :=
  varIntFrom w 0

/-- Read a number into a signed register of `w` bits. -/
def varIntSigned (w : Nat) : Reader Int := do
  let n ← varInt w
  return (n : Int).bmod (2 ^ w)

variable {w : Nat}

theorem varIntFrom_cons (w n : Nat) (c : UInt8) (rest : List UInt8) :
    varIntFrom w n (c :: rest) =
      if 128 ≤ c.toNat then
        varIntFrom w (((n * 128 + c.toNat % 128) % 2 ^ w + 1) % 2 ^ w) rest
      else some ((n * 128 + c.toNat % 128) % 2 ^ w, rest) := rfl

/-- A digit that is followed by others. -/
theorem varIntFrom_more {n d : Nat} (hd : d < 128) (hn : n * 128 + d + 1 < 2 ^ w)
    (rest : List UInt8) :
    varIntFrom w n (UInt8.ofNat (d + 128) :: rest) = varIntFrom w (n * 128 + d + 1) rest := by
  have hbyte : (UInt8.ofNat (d + 128)).toNat = d + 128 := UInt8.toNat_ofNat_of_lt' (by
    change d + 128 < 256
    omega)
  have hdigit : (n * 128 + (d + 128) % 128) % 2 ^ w = n * 128 + d := by
    rw [Nat.add_mod_right, Nat.mod_eq_of_lt hd, Nat.mod_eq_of_lt (Nat.lt_of_succ_lt hn)]
  rw [varIntFrom, hbyte, if_pos (Nat.le_add_left 128 d), hdigit, Nat.mod_eq_of_lt hn]

/-- The last digit. -/
theorem varIntFrom_last {n d : Nat} (hd : d < 128) (hn : n * 128 + d < 2 ^ w)
    (rest : List UInt8) :
    varIntFrom w n (UInt8.ofNat d :: rest) = some (n * 128 + d, rest) := by
  have hbyte : (UInt8.ofNat d).toNat = d := UInt8.toNat_ofNat_of_lt' (by
    change d < 256
    omega)
  rw [varIntFrom, hbyte, if_neg (Nat.not_le.2 hd), Nat.mod_eq_of_lt hd, Nat.mod_eq_of_lt hn]

/-- The digits before the last leave the number they stand for, counted from one. -/
theorem varIntFrom_digits {n : Nat} (h : n + 1 < 2 ^ w) (rest : List UInt8) :
    varInt w ((varIntDigits 128 n).reverse ++ rest) = varIntFrom w (n + 1) rest := by
  induction n using Nat.strongRecOn generalizing rest with
  | ind n ih =>
    unfold varIntDigits
    dsimp only
    have hmod : ((n : Int) % 128).toNat = n % 128 := by omega
    have hlt : n % 128 < 128 := Nat.mod_lt n (by decide)
    rw [hmod]
    split
    · rename_i hsmall
      have hn : 0 * 128 + n % 128 + 1 = n + 1 := by omega
      have hmore := varIntFrom_more hlt (by rw [hn]; exact h) rest
      rw [hn] at hmore
      exact hmore
    · rename_i hbig
      have hhigh : (n : Int) / 128 - 1 = ((n / 128 - 1 : Nat) : Int) := by omega
      have hn : (n / 128 - 1 + 1) * 128 + n % 128 + 1 = n + 1 := by omega
      have hmore := varIntFrom_more hlt (by rw [hn]; exact h) rest
      rw [hn] at hmore
      rw [hhigh, List.reverse_cons, List.append_assoc, ih (n / 128 - 1) (by omega) (by omega)]
      exact hmore

/-- A number that fits the register is read back. -/
theorem Reads.varInt {n : Nat} (h : n < 2 ^ w) :
    Reads (Reader.varInt w) (writeVarInt n) n := by
  intro rest
  unfold writeVarInt varIntDigits
  dsimp only
  have hmod : ((n : Int) % 128).toNat = n % 128 := by omega
  have hlt : n % 128 < 128 := Nat.mod_lt n (by decide)
  rw [hmod, Nat.add_zero]
  split
  · rename_i hsmall
    have hn : 0 * 128 + n % 128 = n := by omega
    have hlast := varIntFrom_last hlt (by rw [hn]; exact h) rest
    rw [hn] at hlast
    exact hlast
  · rename_i hbig
    have hhigh : (n : Int) / 128 - 1 = ((n / 128 - 1 : Nat) : Int) := by omega
    have hn : (n / 128 - 1 + 1) * 128 + n % 128 = n := by omega
    have hlast := varIntFrom_last hlt (by rw [hn]; exact h) rest
    rw [hn] at hlast
    rw [hhigh, List.reverse_cons, List.append_assoc, varIntFrom_digits (by omega)]
    exact hlast

/-- A number that is not negative is read back from a signed register. -/
theorem Reads.varIntSigned {n : Int} (h0 : 0 ≤ n) (h : n < 2 ^ w) :
    Reads (Reader.varIntSigned (w + 1)) (writeVarInt n) n := by
  obtain ⟨m, rfl⟩ := Int.eq_ofNat_of_zero_le h0
  have hm : m < 2 ^ w := by exact_mod_cast h
  have hpow : 2 ^ (w + 1) = 2 * 2 ^ w := Nat.pow_succ'
  refine Reads.bind_pure (Reads.varInt (by omega : m < 2 ^ (w + 1))) ?_
  have hsigned : (m : Int).bmod (2 ^ (w + 1)) = m := by
    rw [hpow]
    exact Int.bmod_eq_of_le (by omega) (by omega)
  rw [hsigned]
  exact Reads.pure _

end Reader

/-! ## What is sent to a stream -/

/-- One call of a stream. -/
inductive Chunk where
  /-- Bytes. -/
  | raw (bytes : List UInt8)
  /-- A number of variable length. -/
  | varInt (n : Int)
  deriving DecidableEq, Repr

/-- The bytes that a stream writes for a call. -/
def Chunk.write : Chunk → List UInt8
  | raw bytes => bytes
  | varInt n => writeVarInt n

/-- What a stream that only measures counts for a call. -/
def Chunk.size : Chunk → Nat
  | raw bytes => bytes.length
  | varInt n => sizeOfVarInt n

/-- The bytes that are written. -/
def writeChunks (chunks : List Chunk) : List UInt8 :=
  chunks.flatMap Chunk.write

/-- The size that is counted. -/
def sizeOfChunks (chunks : List Chunk) : Nat :=
  (chunks.map Chunk.size).sum

theorem Chunk.length_write (chunk : Chunk) : chunk.write.length = chunk.size := by
  cases chunk with
  | raw bytes => rfl
  | varInt n => exact length_writeVarInt n

@[simp] theorem writeChunks_nil : writeChunks [] = [] := rfl

@[simp] theorem writeChunks_cons (chunk : Chunk) (chunks : List Chunk) :
    writeChunks (chunk :: chunks) = chunk.write ++ writeChunks chunks := rfl

@[simp] theorem writeChunks_append (chunks chunks' : List Chunk) :
    writeChunks (chunks ++ chunks') = writeChunks chunks ++ writeChunks chunks' :=
  List.flatMap_append

/-- What is counted is what is written. -/
theorem length_writeChunks (chunks : List Chunk) :
    (writeChunks chunks).length = sizeOfChunks chunks := by
  induction chunks with
  | nil => rfl
  | cons chunk chunks ih =>
    rw [writeChunks_cons, List.length_append, chunk.length_write, ih]
    rfl

end IndexChain.Core
