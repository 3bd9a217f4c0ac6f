import IndexChain.Core.Checked
import Mathlib.Data.BitVec
import Mathlib.Data.List.Basic

/-!
# The stake kernel

`komodo_stake` of `komodo_bitcoind.h`, which a staker calls to find the second at which an
output may stake, and a validator to check that second. Both divide the kernel hash by the
coin age, but the staker takes the age at the second it starts from and adds the segment to
it, and the validator takes the age at the second that was found.
-/

namespace IndexChain.Stake

open IndexChain.Core

/-- `SATOSHIDEN`. -/
def satoshiden : UInt64 := 100000000

/-- Thirty days, the cap of the age in seconds. -/
def maxAge : Int := 3600 * 24 * 30

/-- The number of seconds that are tried. -/
def maxIter : Nat := 600

/-- `arith_uint256::SetCompact`. -/
def setCompact (nCompact : UInt32) : BitVec 256 :=
  let nSize := (nCompact >>> 24).toNat
  let nWord := (nCompact &&& 0x007fffff).toNat
  if nSize ≤ 3 then BitVec.ofNat 256 (nWord >>> (8 * (3 - nSize)))
  else BitVec.ofNat 256 (nWord <<< (8 * (nSize - 3)))

/-- An exception. -/
inductive StakeError where
  | divisionByZero
  deriving DecidableEq, Repr

/-- What `komodo_stake` computes with, besides the block time and the flag. -/
structure StakeKernel where
  /-- `ASSETCHAINS_ALGO` is `ASSETCHAINS_VERUSHASH` or `ASSETCHAINS_VERUSHASHV1_1`. -/
  verushash : Bool
  /-- `ASSETCHAINS_STAKED`. -/
  staked : Int
  /-- `STAKING_MIN_DIFF`. -/
  stakingMinDiff : UInt32
  /-- `bnTarget`. -/
  bnTarget : BitVec 256
  /-- `nHeight`. -/
  nHeight : Int32
  /-- The value of the output. -/
  value : UInt64
  /-- The time of the output. -/
  txtime : UInt32
  /-- The kernel hash, of `komodo_stakehash`. -/
  hash : BitVec 256
  /-- The segment of the address, of `komodo_stakehash`. -/
  segid32 : UInt32
  /-- `prevtime`. -/
  prevtime : UInt32
  /-- `PoSperc`. -/
  PoSperc : Int
  /-- `GetAdjustedTime`, when the block time is compared with it. -/
  adjustedTime : Int
  /-- `GetAdjustedTime`, when the block time is taken from it. -/
  adjustedTime' : Int

namespace StakeKernel

variable (k : StakeKernel)

/-- `minage`. -/
def minage : Int32 := if 6000 < k.nHeight * 3 then 6000 else k.nHeight * 3

/-- `segid`. -/
def segid : UInt32 := (k.nHeight.toUInt32 + k.segid32) &&& 0x3f

/-- `ratio`, for a target that is not zero. -/
def ratio : BitVec 256 := setCompact k.stakingMinDiff / k.bnTarget

/-- `blocktime + iter + segid * 2`. -/
def candidateTime (blocktime : UInt32) (iter : Nat) : UInt32 :=
  blocktime + UInt32.ofNat iter + k.segid * 2

/-- The output is old enough at a second. -/
def passes (blocktime : UInt32) (iter : Nat) : Bool :=
  !decide (k.candidateTime blocktime iter < k.txtime + k.minage.toUInt32)

/-- `diff`: the age in seconds, before it is multiplied. It is computed as an unsigned
number, so it is never negative. -/
def diff (blocktime : UInt32) (iter : Nat) : Int :=
  let diff : Int :=
    (UInt32.ofNat iter + blocktime - k.txtime - k.minage.toUInt32).toNat
  let diff := if k.verushash && decide (k.staked < k.PoSperc) then
    diff.tdiv ((k.PoSperc - k.staked + 1) * (k.PoSperc - k.staked + 1)) else diff
  let diff := if diff < 0 then 60 else if maxAge < diff then maxAge else diff
  if 0 < iter then diff + k.segid.toNat * 2 else diff

/-- `coinage`. -/
def coinage (blocktime : UInt32) (iter : Nat) : UInt64 :=
  let time := k.candidateTime blocktime iter
  let coinage := k.value / satoshiden * UInt64.ofNat (k.diff blocktime iter).toNat
  let coinage := if k.verushash && decide (k.PoSperc < k.staked) && decide (k.prevtime + 128 < time)
    then coinage * (time - (k.prevtime + 102)).toUInt64 else coinage
  if k.prevtime + 480 < time then coinage * (time - (k.prevtime + 400)).toUInt64 else coinage

/-- `hashval <= bnTarget` for a coin age. -/
def hits (coinage : UInt64) : Except StakeError Bool :=
  if coinage + 1 = 0 then .error .divisionByZero
  else .ok (decide (k.ratio * (k.hash / BitVec.ofNat 256 (coinage + 1).toNat) ≤ k.bnTarget))

/-- The loop of `komodo_stake`: the second at which the output wins. A validator stops after
the first one at which the output is old enough. -/
def stakeLoop (validate : Bool) (blocktime : UInt32) :
    List Nat → Except StakeError (Option Nat)
  | [] => .ok none
  | iter :: iters =>
    if k.passes blocktime iter then do
      let hit ← k.hits (k.coinage blocktime iter)
      if hit then .ok (some iter)
      else if validate then .ok none
      else stakeLoop validate blocktime iters
    else stakeLoop validate blocktime iters

/-- The block time that a staker starts from. -/
def startTime (blocktime : UInt32) : UInt32 :=
  let blocktime := if blocktime < k.prevtime + 3 then k.prevtime + 3 else blocktime
  if (blocktime.toNat : Int) < k.adjustedTime - 60 then
    UInt32.ofNat ((k.adjustedTime' + 30) % 2 ^ 32).toNat else blocktime

/-- There is nothing to stake. -/
def isNull (blocktime : UInt32) : Bool :=
  decide (k.value = 0) || decide (k.txtime = 0) || decide (blocktime = 0) ||
    decide (k.prevtime = 0) || decide (k.value < satoshiden)

/-- `komodo_stake` after the block time is set. -/
def stakeFrom (validate : Bool) (blocktime : UInt32) : Except StakeError UInt32 :=
  if k.isNull blocktime then .ok 0
  else if k.bnTarget = 0 then .error .divisionByZero
  else do
    let winner ← k.stakeLoop validate blocktime (List.range maxIter)
    let blocktime' := match winner with
      | some iter => if validate then blocktime else k.candidateTime blocktime iter
      | none => blocktime
    if k.nHeight < 10 then .ok blocktime'
    else .ok (if winner.isSome then blocktime' else 0)

/-- `komodo_stake`. -/
def stake (validate : Bool) (blocktime : UInt32) : Except StakeError UInt32 :=
  k.stakeFrom validate (if validate then blocktime else k.startTime blocktime)

end StakeKernel

end IndexChain.Stake
