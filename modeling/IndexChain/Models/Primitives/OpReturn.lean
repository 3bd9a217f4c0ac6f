import IndexChain.Core.Canonical
import IndexChain.Models.Primitives.Script

/-!
# Op_return scripts

Contracts write their data in an output `OP_RETURN << data`. The size of a long push has 32
bits, so data of 4 GiB and more is read back cut off.
-/

namespace IndexChain

open IndexChain.Core

namespace CScript

/-- `CScript() << OP_RETURN << data`. -/
def opReturn (data : List UInt8) : CScript := 0x6a :: pushBytes data

/-- A push whose size is in bytes of its own. -/
theorem getOp_pushdata {opcode : UInt8} {width : Nat} (data : List UInt8)
    (hop : opcode = 0x4c ∧ width = 1 ∨ opcode = 0x4d ∧ width = 2 ∨ opcode = 0x4e ∧ width = 4) :
    getOp (opcode :: (leBytes width data.length ++ data)) =
      some (opcode, data.take (data.length % 256 ^ width),
        data.drop (data.length % 256 ^ width)) := by
  have hle : data.length % 256 ^ width ≤ data.length := Nat.mod_le _ _
  rcases hop with ⟨rfl, rfl⟩ | ⟨rfl, rfl⟩ | ⟨rfl, rfl⟩
  all_goals
    simp [getOp, opPushdata4, leNat_leBytes_mod, List.take_left', List.drop_left']
    omega

/-- A push is read back up to its size in 32 bits. -/
theorem getOp_pushBytes (data : List UInt8) :
    ∃ opcode, opcode ≤ opPushdata4 ∧ getOp (pushBytes data) =
      some (opcode, data.take (data.length % 2 ^ 32), data.drop (data.length % 2 ^ 32)) := by
  unfold pushBytes
  split
  · rename_i hsmall
    have hop : UInt8.ofNat data.length < 0x4c := by
      rw [UInt8.lt_iff_toNat_lt, UInt8.toNat_ofNat']
      simp only [UInt8.reduceToNat]
      omega
    have hmod : data.length % 2 ^ 32 = data.length := Nat.mod_eq_of_lt (by omega)
    have hnot : ¬ opPushdata4 < UInt8.ofNat data.length := by
      rw [UInt8.lt_iff_toNat_lt] at hop ⊢
      simp only [opPushdata4, UInt8.reduceToNat] at hop ⊢
      omega
    have hsize : (UInt8.ofNat data.length).toNat = data.length := by
      rw [UInt8.toNat_ofNat']
      omega
    refine ⟨UInt8.ofNat data.length, UInt8.not_lt.1 hnot, ?_⟩
    rw [leBytes, leBytes, List.cons_append, List.nil_append, hmod]
    simp only [getOp, if_neg hnot, if_pos hop, Nat.not_lt_zero, if_false, if_true, hsize,
      List.drop_zero, Nat.lt_irrefl]
  · split
    · rename_i hlen
      exact ⟨0x4c, by decide, by
        rw [List.cons_append, getOp_pushdata data (by decide), Nat.mod_eq_of_lt (by omega),
          Nat.mod_eq_of_lt (by omega)]⟩
    · split
      · rename_i hlen
        exact ⟨0x4d, by decide, by
          rw [List.cons_append, getOp_pushdata data (by decide), Nat.mod_eq_of_lt (by omega),
            Nat.mod_eq_of_lt (by omega)]⟩
      · exact ⟨0x4e, by decide, getOp_pushdata data (by decide)⟩

/-- The data of an op_return is read back up to its size in 32 bits. -/
theorem getOpReturnData_opReturn (data : List UInt8) :
    getOpReturnData (opReturn data) = data.take (data.length % 2 ^ 32) := by
  obtain ⟨opcode, -, hget⟩ := getOp_pushBytes data
  have hret : getOp (opReturn data) = some (0x6a, [], pushBytes data) := rfl
  simp only [getOpReturnData, opReturnData, hret, hget]

/-- Data of less than 4 GiB is read back. -/
theorem getOpReturnData_opReturn_of_lt {data : List UInt8} (h : data.length < 2 ^ 32) :
    getOpReturnData (opReturn data) = data := by
  rw [getOpReturnData_opReturn, Nat.mod_eq_of_lt h, List.take_length]

/-- Exactly such data is read back. -/
theorem getOpReturnData_opReturn_iff (data : List UInt8) :
    getOpReturnData (opReturn data) = data ↔ data.length < 2 ^ 32 := by
  constructor
  · intro h
    have hlen := congrArg List.length h
    rw [getOpReturnData_opReturn, List.length_take] at hlen
    omega
  · exact getOpReturnData_opReturn_of_lt

end CScript

end IndexChain
