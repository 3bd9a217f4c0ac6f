import IndexChain.Core.Bytes
import IndexChain.Core.Checked
import IndexChain.Models.Primitives.Transaction

/-!
# The data of an oracle

`oracle_parse_data_format` of `cc/oracles.cpp` checks data against a format, one letter for
each field; `oracle_format` reads one field. Both read a byte string at an offset that they
advance by hand.
-/

namespace IndexChain

open IndexChain.Core

/-- What the compiled code does not survive in a defined state. -/
inductive OracleFailure where
  /-- A byte is read that the data do not have. -/
  | outOfBounds
  /-- An `int` is increased beyond its range. -/
  | intOverflow
  deriving DecidableEq, Repr

/-- What a letter of a format stands for. -/
inductive OracleField where
  /-- A printable string after its length in one or two bytes. -/
  | text (width : Nat)
  /-- Data after their length in one or two bytes. -/
  | bytes (width : Nat)
  /-- A number. -/
  | number (len : Nat) (signed : Bool)
  /-- A `uint256`. -/
  | hash
  deriving DecidableEq, Repr

namespace OracleField

/-- The field of a letter. -/
def ofLetter (fmt : UInt8) : Option OracleField :=
  if fmt = 0x73 then some (text 1)            -- s
  else if fmt = 0x53 then some (text 2)       -- S
  else if fmt = 0x64 then some (bytes 1)      -- d
  else if fmt = 0x44 then some (bytes 2)      -- D
  else if fmt = 0x63 then some (number 1 true)    -- c
  else if fmt = 0x43 then some (number 1 false)   -- C
  else if fmt = 0x74 then some (number 2 true)    -- t
  else if fmt = 0x54 then some (number 2 false)   -- T
  else if fmt = 0x69 then some (number 4 true)    -- i
  else if fmt = 0x49 then some (number 4 false)   -- I
  else if fmt = 0x6c then some (number 8 true)    -- l
  else if fmt = 0x4c then some (number 8 false)   -- L
  else if fmt = 0x68 then some hash           -- h
  else none

/-- The bytes of a field's length. -/
def width : OracleField → Nat
  | text width => width
  | bytes width => width
  | number _ _ => 0
  | hash => 0

/-- A printable string. -/
def IsText : OracleField → Prop
  | text _ => True
  | _ => False

/-- A field with a length of its own. -/
def IsCounted : OracleField → Prop
  | text _ => True
  | bytes _ => True
  | _ => False

instance (field : OracleField) : Decidable field.IsText :=
  match field with
  | text _ => inferInstanceAs (Decidable True)
  | bytes _ => inferInstanceAs (Decidable False)
  | number _ _ => inferInstanceAs (Decidable False)
  | hash => inferInstanceAs (Decidable False)

instance (field : OracleField) : Decidable field.IsCounted :=
  match field with
  | text _ => inferInstanceAs (Decidable True)
  | bytes _ => inferInstanceAs (Decidable True)
  | number _ _ => inferInstanceAs (Decidable False)
  | hash => inferInstanceAs (Decidable False)

end OracleField

/-- Read bytes at an offset. -/
def readSlice (data : List UInt8) (offset : Int) (n : Nat) : Except OracleFailure (List UInt8) :=
  if offset < 0 ∨ (data.length : Int) < offset + n then .error .outOfBounds
  else .ok ((data.drop offset.toNat).take n)

/-! ## The validator -/

/-- A byte of a printable string. -/
def Printable (b : UInt8) : Prop := 32 ≤ b ∧ b ≤ 127

instance (b : UInt8) : Decidable (Printable b) := inferInstanceAs (Decidable (_ ∧ _))

/-- The loop over the bytes of a string, whose index is an `int`: whether all are
printable. -/
def scanText (data : List UInt8) : Nat → Int → Except OracleFailure Bool
  | 0, _ => .ok true
  | n + 1, j =>
    if j < 0 then .error .outOfBounds
    else match data[j.toNat]? with
      | none => .error .outOfBounds
      | some b =>
        if ¬ Printable b then .ok false
        else if j = 2 ^ 31 - 1 then .error .intOverflow
        else scanText data n (j + 1)

/-- The length of a field, which may stand before it. -/
def OracleField.readLen (field : OracleField) (data : List UInt8) (offset : Nat) :
    Except OracleFailure Nat :=
  match field with
  | text width => do
    let bs ← readSlice data offset width
    return leNat bs
  | bytes width => do
    let bs ← readSlice data offset width
    return leNat bs
  | number len _ => .ok len
  | hash => .ok 32

/-- `len>data.size()-offset`: the difference is unsigned, so nothing is larger past the end. -/
def lenExceeds (size offset len : Nat) : Prop := offset ≤ size ∧ size - offset < len

instance (size offset len : Nat) : Decidable (lenExceeds size offset len) :=
  inferInstanceAs (Decidable (_ ∧ _))

/-- One letter in `oracle_parse_data_format`: the next offset, or none to return 0. -/
def parseField (field : OracleField) (data : List UInt8) (offset : Nat) :
    Except OracleFailure (Option Nat) := do
  let len ← field.readLen data offset
  let offset := offset + field.width
  if lenExceeds data.length offset len then return none
  if field.IsText then
    let j := toInt32 offset
    let printable ← scanText data ((offset + len : Nat) - j).toNat j
    return if printable then some (offset + len) else none
  else return some (offset + len)

/-- The loop over the format. -/
def parseLoop (data : List UInt8) : List UInt8 → Nat → Except OracleFailure (Option Nat)
  | [], offset => .ok (some offset)
  | fmt :: format, offset =>
    match OracleField.ofLetter fmt with
    | none => .ok none
    | some field => do
      match ← parseField field data offset with
      | none => return none
      | some offset => parseLoop data format offset

/-- `oracle_parse_data_format`. -/
def oracleParseDataFormat (data format : List UInt8) : Except OracleFailure Int := do
  match ← parseLoop data format 0 with
  | none => return 0
  | some offset => return if offset ≠ data.length then 0 else toInt32 offset

/-! ## The reader -/

/-- What is printed of a field. -/
inductive OracleText where
  /-- Nothing. -/
  | empty
  /-- The string itself. -/
  | text (bs : List UInt8)
  /-- Data in hexadecimal digits. -/
  | hex (bs : List UInt8)
  /-- A number in decimal digits. -/
  | number (x : Int)
  /-- A hash in hexadecimal digits. -/
  | hash (x : Uint256)
  deriving DecidableEq, Repr

/-- What `oracle_format` returns and writes. -/
structure OracleValue where
  /-- The next offset; -1 for a failure. -/
  offset : Int
  /-- The hash, or zero. -/
  hash : Uint256
  /-- The number, or zero. -/
  val : Int
  /-- The output string. -/
  str : OracleText
  deriving DecidableEq, Repr

/-- The value of a field that cannot be read. -/
def OracleValue.fail : OracleValue := { offset := -1, hash := 0, val := 0, str := .empty }

/-- `IGUANA_MAXSCRIPTSIZE`. -/
def iguanaMaxscriptsize : Nat := 10001

/-- A string or data in `oracle_format`. Without an output string the offset stays before
what the length counts. -/
def formatCounted (withStr : Bool) (width : Nat) (text : List UInt8 → OracleText)
    (data : List UInt8) (offset : Nat) (datalen : Int) : Except OracleFailure OracleValue := do
  let bs ← readSlice data offset width
  let len := leNat bs
  let offset := toInt32 (offset + width : Nat)
  if len = 0 then return .fail
  else if withStr then
    if len < iguanaMaxscriptsize ∧ offset + len ≤ datalen then
      let bs ← readSlice data offset len
      return { OracleValue.fail with offset := offset + len, str := text bs }
    else return .fail
  else return { OracleValue.fail with offset := offset }

/-- A number or a hash in `oracle_format`. -/
def formatFixed (withStr : Bool) (len : Nat) (value : List UInt8 → OracleValue)
    (data : List UInt8) (offset : Nat) (datalen : Int) : Except OracleFailure OracleValue := do
  if len + (offset : Int) ≤ datalen then
    let bs ← readSlice data offset len
    return { value bs with
      offset := offset + len
      str := if withStr then (value bs).str else .empty }
  else return .fail

/-- The number of some bytes. -/
def numberValue (signed : Bool) (bs : List UInt8) : OracleValue :=
  let x : Int := if signed then (leNat bs : Int).bmod (256 ^ bs.length) else leNat bs
  { OracleValue.fail with val := toInt64 x, str := .number x }

/-- The hash of some bytes. -/
def hashValue (bs : List UInt8) : OracleValue :=
  { OracleValue.fail with
    hash := BitVec.ofNat 256 (leNat bs), str := .hash (BitVec.ofNat 256 (leNat bs)) }

/-- `oracle_format` with or without an output string. -/
def oracleFormat (withStr : Bool) (fmt : UInt8) (data : List UInt8) (offset : Nat)
    (datalen : Int) : Except OracleFailure OracleValue :=
  match OracleField.ofLetter fmt with
  | none => .ok .fail
  | some (.text width) => formatCounted withStr width .text data offset datalen
  | some (.bytes width) => formatCounted withStr width .hex data offset datalen
  | some (.number len signed) => formatFixed withStr len (numberValue signed) data offset datalen
  | some .hash => formatFixed withStr 32 hashValue data offset datalen

/-- The fields of a format one after another: the last offset, or none when a field cannot
be read. -/
def formatRun (withStr : Bool) (data : List UInt8) (datalen : Int) :
    List UInt8 → Nat → Except OracleFailure (Option Nat)
  | [], offset => .ok (some offset)
  | fmt :: format, offset => do
    let value ← oracleFormat withStr fmt data offset datalen
    if value.offset < 0 then return none
    else formatRun withStr data datalen format value.offset.toNat

end IndexChain
