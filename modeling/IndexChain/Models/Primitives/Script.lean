import IndexChain.Core.Bytes
import IndexChain.Models.Primitives.Transaction

/-!
# Scripts

The part of `script/script.h` that reads a script one instruction at a time, and
the recognisers that validation code applies to output scripts: op_return data,
crypto-condition outputs and their attached parameters.
-/

namespace IndexChain

open IndexChain.Core

namespace CScript

/-- `OP_PUSHDATA4`, the last opcode with an immediate operand. -/
def opPushdata4 : UInt8 := 0x4e

/-- `GetOp`: the opcode, its operand and the rest of the script. -/
def getOp : CScript → Option (UInt8 × List UInt8 × CScript)
  | [] => none
  | opcode :: pc =>
    if opPushdata4 < opcode then some (opcode, [], pc)
    else
      -- the operand size is the opcode itself or follows in 1, 2 or 4 bytes
      let width := if opcode < 0x4c then 0 else if opcode = 0x4c then 1
        else if opcode = 0x4d then 2 else 4
      if pc.length < width then none
      else
        let nSize := if width = 0 then opcode.toNat else leNat (pc.take width)
        let pc := pc.drop width
        if pc.length < nSize then none else some (opcode, pc.take nSize, pc.drop nSize)

/-- The opcode is the first byte. -/
theorem head_of_getOp {s : CScript} {opcode : UInt8} {data : List UInt8} {pc : CScript}
    (h : getOp s = some (opcode, data, pc)) : s.head? = some opcode := by
  unfold getOp at h
  split at h
  · cases h
  · extract_lets width nSize pc' at h
    split at h
    · exact congrArg some (congrArg Prod.fst (Option.some.inj h))
    · split at h
      · cases h
      · split at h
        · cases h
        · exact congrArg some (congrArg Prod.fst (Option.some.inj h))

/-- `operator<<` for bytes: push them with the shortest size. -/
def pushBytes (bs : List UInt8) : CScript :=
  (if bs.length < 0x4c then leBytes 1 bs.length
    else if bs.length ≤ 0xff then 0x4c :: leBytes 1 bs.length
    else if bs.length ≤ 0xffff then 0x4d :: leBytes 2 bs.length
    else 0x4e :: leBytes 4 bs.length) ++ bs

/-- `CScript() << pk << OP_CHECKSIG`. -/
def payToPubkey (pk : List UInt8) : CScript := pushBytes pk ++ [0xac]

/-- `GetOpReturnData`: the first push after an `OP_RETURN`. The data is filled in
even when the function reports failure, so the two are returned separately. -/
def opReturnData (sig : CScript) : Bool × List UInt8 :=
  match getOp sig with
  | some (0x6a, _, pc) => match getOp pc with
    | some (opcode, data, _) => (decide (0 < opcode) && decide (opcode ≤ opPushdata4), data)
    | none => (false, [])
  | _ => (false, [])

/-- The data of an op_return script, empty when there is none. -/
def getOpReturnData (sig : CScript) : List UInt8 :=
  (opReturnData sig).2

/-- Data comes from a script that starts with `OP_RETURN`. -/
theorem head_of_getOpReturnData {s : CScript} (h : getOpReturnData s ≠ []) :
    s.head? = some 0x6a := by
  unfold getOpReturnData opReturnData at h
  split at h
  · rename_i data pc hget
    exact head_of_getOp hget
  · exact absurd rfl h

/-- `GetBalancedData`: the pushes of a script in which every push is dropped again. -/
def getBalancedData : Nat → Int → CScript → Option (List (List UInt8))
  | 0, netPushes, pc => if pc.isEmpty && netPushes == 0 then some [] else none
  | fuel + 1, netPushes, pc =>
    if pc.isEmpty then if netPushes = 0 then some [] else none
    else match getOp pc with
      | none => none
      | some (opcode, data, pc) =>
        if opcode = 0x75 then
          if netPushes - 1 < 0 then none else getBalancedData fuel (netPushes - 1) pc
        else if opcode = 0 then
          (getBalancedData fuel (netPushes + 1) pc).map ([0] :: ·)
        else if 0x51 ≤ opcode ∧ opcode ≤ 0x60 then
          (getBalancedData fuel (netPushes + 1) pc).map ([opcode - 0x50] :: ·)
        else if opcode ≤ opPushdata4 ∧ data ≠ [] then
          (getBalancedData fuel (netPushes + 1) pc).map (data :: ·)
        else none

/-- `IsPayToCryptoCondition`: a condition, `OP_CHECKCRYPTOCONDITION` and balanced
data. The result is the script up to the opcode and the data. -/
def payToCryptoCondition (s : CScript) : Option (CScript × List (List UInt8)) :=
  match getOp s with
  | some (opcode, _, pc) =>
    if 0 < opcode ∧ opcode < 0x4c then
      match getOp pc with
      | some (0xcc, _, pc') =>
        (getBalancedData pc'.length 0 pc').map fun vParams =>
          (s.take (s.length - pc'.length), vParams)
      | _ => none
    else none
  | none => none

/-- Whether a script pays to a crypto-condition. -/
def isPayToCryptoCondition (s : CScript) : Bool :=
  (payToCryptoCondition s).isSome

theorem isPayToCryptoCondition_of_head {s : CScript} (h : s.head? = some 0x6a) :
    isPayToCryptoCondition s = false := by
  cases s with
  | nil => cases h
  | cons b rest =>
    obtain rfl : b = 0x6a := Option.some.inj h
    rfl

/-- `getCCopret`: the op_return attached to a crypto-condition output; `none` when
the script is not one, and an empty script when nothing is attached. -/
def getCCopret (s : CScript) : Option CScript :=
  (payToCryptoCondition s).map fun r => match r.2 with
    | [v] => v.drop 6
    | _ => []

end CScript

end IndexChain
