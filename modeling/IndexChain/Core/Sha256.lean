import Mathlib.Data.List.Basic

/-!
# SHA-256

The hash function as it is computed word by word: the padded message in blocks of
64 bytes, the message schedule and the rounds of the compression function.
-/

namespace IndexChain.Core

namespace Sha256

/-- Rotate a word to the right. -/
def ror (x : UInt32) (n : UInt32) : UInt32 := (x >>> n) ||| (x <<< (32 - n))

/-- The choice function. -/
def ch (x y z : UInt32) : UInt32 := z ^^^ (x &&& (y ^^^ z))

/-- The majority function. -/
def maj (x y z : UInt32) : UInt32 := ((x ||| y) &&& z) ||| (x &&& y)

def bigSigma0 (x : UInt32) : UInt32 := ror x 2 ^^^ ror x 13 ^^^ ror x 22

def bigSigma1 (x : UInt32) : UInt32 := ror x 6 ^^^ ror x 11 ^^^ ror x 25

def gamma0 (x : UInt32) : UInt32 := ror x 7 ^^^ ror x 18 ^^^ (x >>> 3)

def gamma1 (x : UInt32) : UInt32 := ror x 17 ^^^ ror x 19 ^^^ (x >>> 10)

/-- The round constants. -/
def roundConstants : List UInt32 :=
  [0x428a2f98, 0x71374491, 0xb5c0fbcf, 0xe9b5dba5, 0x3956c25b, 0x59f111f1, 0x923f82a4, 0xab1c5ed5,
   0xd807aa98, 0x12835b01, 0x243185be, 0x550c7dc3, 0x72be5d74, 0x80deb1fe, 0x9bdc06a7, 0xc19bf174,
   0xe49b69c1, 0xefbe4786, 0x0fc19dc6, 0x240ca1cc, 0x2de92c6f, 0x4a7484aa, 0x5cb0a9dc, 0x76f988da,
   0x983e5152, 0xa831c66d, 0xb00327c8, 0xbf597fc7, 0xc6e00bf3, 0xd5a79147, 0x06ca6351, 0x14292967,
   0x27b70a85, 0x2e1b2138, 0x4d2c6dfc, 0x53380d13, 0x650a7354, 0x766a0abb, 0x81c2c92e, 0x92722c85,
   0xa2bfe8a1, 0xa81a664b, 0xc24b8b70, 0xc76c51a3, 0xd192e819, 0xd6990624, 0xf40e3585, 0x106aa070,
   0x19a4c116, 0x1e376c08, 0x2748774c, 0x34b0bcb5, 0x391c0cb3, 0x4ed8aa4a, 0x5b9cca4f, 0x682e6ff3,
   0x748f82ee, 0x78a5636f, 0x84c87814, 0x8cc70208, 0x90befffa, 0xa4506ceb, 0xbef9a3f7, 0xc67178f2]

/-- The chaining state. -/
structure State where
  a : UInt32
  b : UInt32
  c : UInt32
  d : UInt32
  e : UInt32
  f : UInt32
  g : UInt32
  h : UInt32

/-- The state before the first block. -/
def init : State where
  a := 0x6a09e667
  b := 0xbb67ae85
  c := 0x3c6ef372
  d := 0xa54ff53a
  e := 0x510e527f
  f := 0x9b05688c
  g := 0x1f83d9ab
  h := 0x5be0cd19

/-- One round with a constant and a word of the schedule. -/
def round (s : State) (k w : UInt32) : State :=
  let t0 := s.h + bigSigma1 s.e + ch s.e s.f s.g + k + w
  let t1 := bigSigma0 s.a + maj s.a s.b s.c
  { a := t0 + t1, b := s.a, c := s.b, d := s.c, e := s.d + t0, f := s.e, g := s.f, h := s.g }

/-- Extend the schedule by `n` words. The words are kept newest first. -/
def extend : Nat → List UInt32 → List UInt32
  | 0, ws => ws
  | n + 1, ws => extend n
      ((gamma1 (ws.getD 1 0) + ws.getD 6 0 + gamma0 (ws.getD 14 0) + ws.getD 15 0) :: ws)

/-- The big-endian words of a byte string. -/
def words : List UInt8 → List UInt32
  | b0 :: b1 :: b2 :: b3 :: rest =>
    ((b0.toUInt32 <<< 24) ||| (b1.toUInt32 <<< 16) ||| (b2.toUInt32 <<< 8) ||| b3.toUInt32) ::
      words rest
  | _ => []

/-- Compress one block. -/
def compress (s : State) (block : List UInt8) : State :=
  let schedule := (extend 48 (words block).reverse).reverse
  let r := (roundConstants.zip schedule).foldl (fun s kw => round s kw.1 kw.2) s
  { a := s.a + r.a, b := s.b + r.b, c := s.c + r.c, d := s.d + r.d, e := s.e + r.e, f := s.f + r.f
    g := s.g + r.g, h := s.h + r.h }

/-- The big-endian bytes of a number. -/
def beBytes : Nat → Nat → List UInt8
  | 0, _ => []
  | n + 1, x => beBytes n (x / 256) ++ [UInt8.ofNat x]

/-- A message with its padding and length. -/
def pad (msg : List UInt8) : List UInt8 :=
  msg ++ 0x80 :: (List.replicate ((119 - msg.length % 64) % 64) 0 ++ beBytes 8 (8 * msg.length))

/-- Compress a message block by block. -/
def compressAll : Nat → State → List UInt8 → State
  | 0, s, _ => s
  | n + 1, s, msg => compressAll n (compress s (msg.take 64)) (msg.drop 64)

end Sha256

open Sha256 in
/-- The hash of a message. -/
def sha256 (msg : List UInt8) : List UInt8 :=
  let padded := pad msg
  let s := compressAll (padded.length / 64) init padded
  [s.a, s.b, s.c, s.d, s.e, s.f, s.g, s.h].flatMap fun w => beBytes 4 w.toNat

/-- The hash of `abc`. -/
example : sha256 [0x61, 0x62, 0x63] =
    [0xba, 0x78, 0x16, 0xbf, 0x8f, 0x01, 0xcf, 0xea, 0x41, 0x41, 0x40, 0xde, 0x5d, 0xae, 0x22,
      0x23, 0xb0, 0x03, 0x61, 0xa3, 0x96, 0x17, 0x7a, 0x9c, 0xb4, 0x10, 0xff, 0x61, 0xf2, 0x00,
      0x15, 0xad] :=
  by decide +kernel

end IndexChain.Core
