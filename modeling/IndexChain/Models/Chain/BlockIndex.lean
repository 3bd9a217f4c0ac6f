import IndexChain.Models.Primitives.Transaction

/-!
# The block index

`CBlockIndex` of `chain.h`, as far as validation reads and writes its status. The
low three bits of `nStatus` are a validity level from 0 to 5, the bits above are
flags. `BLOCK_VALID_CONTEXT` is 6, so it shares two bits with the level.
-/

namespace IndexChain.Chain

/-- The status word of a block. -/
abbrev BlockStatus := BitVec 32

namespace BlockStatus

/-- Parsed, version and proof of work ok. -/
def validHeader : BlockStatus := 1

/-- All parent headers found. -/
def validTree : BlockStatus := 2

/-- The transactions are well formed. -/
def validTransactions : BlockStatus := 3

/-- No double spends, amounts ok. -/
def validChain : BlockStatus := 4

/-- Scripts and signatures ok. -/
def validScripts : BlockStatus := 5

/-- The contextual checks have passed. -/
def validContext : BlockStatus := 6

/-- All validity bits. -/
def validMask : BlockStatus :=
  validHeader ||| validTree ||| validTransactions ||| validChain ||| validScripts

/-- The block is on disk. -/
def haveData : BlockStatus := 8

/-- The undo data is on disk. -/
def haveUndo : BlockStatus := 16

/-- A check of the block failed. -/
def failedValid : BlockStatus := 32

/-- The block descends from a failed one. -/
def failedChild : BlockStatus := 64

/-- Either failure. -/
def failedMask : BlockStatus := failedValid ||| failedChild

/-- The block activates a network upgrade. -/
def activatesUpgrade : BlockStatus := 128

/-- The block is in the temporary file. -/
def inTmpfile : BlockStatus := 256

/-- The validity level. -/
def level (st : BlockStatus) : BlockStatus :=
  st &&& validMask

/-- A flag outside the level. -/
abbrev Apart (flag : BlockStatus) : Prop :=
  flag &&& validMask = 0#32

theorem level_or {st flag : BlockStatus} (h : Apart flag) : level (st ||| flag) = level st := by
  unfold level
  rw [BitVec.and_or_distrib_right, h, BitVec.or_zero]

theorem level_and_not {st flag : BlockStatus} (h : Apart flag) :
    level (st &&& ~~~flag) = level st := by
  unfold level
  have hmask : ~~~flag &&& validMask = validMask := by
    ext i hi
    have hbit := congrArg (fun b : BlockStatus => b[i]) h
    simp only [BitVec.getElem_and, BitVec.getElem_not] at hbit ⊢
    cases hm : validMask[i] with
    | false => simp
    | true =>
      rw [hm] at hbit
      simpa using hbit
  rw [BitVec.and_assoc, hmask]

/-- Setting bits does not lower the level. -/
theorem level_le_level_or (st flag : BlockStatus) :
    (level st).toNat ≤ (level (st ||| flag)).toNat := by
  simp only [level]
  rw [BitVec.and_or_distrib_right, BitVec.toNat_or]
  exact Nat.left_le_or

end BlockStatus

/-- An entry of the block index. -/
structure CBlockIndex where
  /-- The previous block. -/
  pprev : Option Uint256 := none
  /-- The height in the tree. -/
  nHeight : Int := 0
  /-- The block time. -/
  nTime : Nat := 0
  /-- The status word. -/
  nStatus : BlockStatus := 0
  /-- The number of transactions, 0 until the block is received. -/
  nTx : Nat := 0
  /-- The file that holds the block. -/
  nFile : Int := 0
  deriving DecidableEq, Repr

namespace CBlockIndex

open BlockStatus

/-- Set a flag. -/
def orStatus (e : CBlockIndex) (flag : BlockStatus) : CBlockIndex :=
  { e with nStatus := e.nStatus ||| flag }

/-- Clear a flag. -/
def clearStatus (e : CBlockIndex) (flag : BlockStatus) : CBlockIndex :=
  { e with nStatus := e.nStatus &&& ~~~flag }

/-- Whether a check failed here or below. -/
def failed (e : CBlockIndex) : Bool :=
  e.nStatus &&& failedMask != 0

/-- `IsValid`: no failure, and the level is reached. -/
def isValid (e : CBlockIndex) (nUpTo : BlockStatus) : Bool :=
  if e.failed then false else decide (nUpTo ≤ level e.nStatus)

/-- `RaiseValidity`; no caller uses whether anything changed. -/
def raiseValidity (e : CBlockIndex) (nUpTo : BlockStatus) : CBlockIndex :=
  if e.failed then e
  else if level e.nStatus < nUpTo then
    { e with nStatus := (e.nStatus &&& ~~~validMask) ||| nUpTo }
  else e

/-- `GetUndoPos().IsNull()`. -/
def undoPosIsNull (e : CBlockIndex) : Bool :=
  if e.nStatus &&& haveUndo != 0 then e.nFile == -1 else true

/-- `ReceivedBlockTransactions`: the block is on disk and its transactions are well formed. -/
def receivedBlockTransactions (e : CBlockIndex) (nTx : Nat) (nFile : Int) : CBlockIndex :=
  raiseValidity ({ e with nTx := nTx, nFile := nFile }.orStatus haveData) validTransactions

/-- The level claims that the scripts of the block are valid. -/
abbrev ClaimsScripts (e : CBlockIndex) : Prop :=
  validScripts ≤ level e.nStatus

theorem claimsScripts_orStatus {e : CBlockIndex} {flag : BlockStatus} (h : Apart flag) :
    (e.orStatus flag).ClaimsScripts ↔ e.ClaimsScripts := by
  unfold ClaimsScripts orStatus
  rw [level_or h]

theorem claimsScripts_clearStatus {e : CBlockIndex} {flag : BlockStatus} (h : Apart flag) :
    (e.clearStatus flag).ClaimsScripts ↔ e.ClaimsScripts := by
  unfold ClaimsScripts clearStatus
  rw [level_and_not h]

/-- Raising the validity to a lower level claims nothing about scripts. -/
theorem claimsScripts_raiseValidity {e : CBlockIndex} {nUpTo : BlockStatus}
    (hmask : nUpTo &&& validMask = nUpTo) (hlt : nUpTo < validScripts) :
    (e.raiseValidity nUpTo).ClaimsScripts ↔ e.ClaimsScripts := by
  unfold ClaimsScripts raiseValidity
  split
  · rfl
  · split
    · rename_i hlevel
      have hraised : level ((e.nStatus &&& ~~~validMask) ||| nUpTo) = nUpTo := by
        unfold level
        rw [BitVec.and_or_distrib_right, BitVec.and_assoc, hmask]
        have hzero : ~~~validMask &&& validMask = 0#32 := by decide
        rw [hzero, BitVec.and_zero, BitVec.zero_or]
      dsimp only
      rw [hraised]
      rw [BitVec.lt_def] at hlevel hlt
      rw [BitVec.le_def, BitVec.le_def]
      omega
    · rfl

theorem claimsScripts_received (e : CBlockIndex) (nTx : Nat) (nFile : Int) :
    (e.receivedBlockTransactions nTx nFile).ClaimsScripts ↔ e.ClaimsScripts := by
  unfold receivedBlockTransactions
  rw [claimsScripts_raiseValidity (by decide) (by decide), claimsScripts_orStatus (by decide)]

theorem claimsScripts_of_isValid {e : CBlockIndex} (h : e.isValid validScripts = true) :
    e.ClaimsScripts := by
  unfold isValid at h
  split at h
  · cases h
  · exact of_decide_eq_true h

end CBlockIndex

end IndexChain.Chain
