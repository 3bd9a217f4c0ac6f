import IndexChain.Core.Checked
import IndexChain.Models.Primitives.Transaction
import IndexChain.Models.Supply.Subsidy

/-!
# The commission

`komodo_commission` is what a block owes to the founders' address, and `komodo_checkcommission`
looks for it in the second output of the coinbase. The number of outputs is checked only for an
amount that is not negative as an `int64_t` (`completes_checkcommission`).
-/

namespace IndexChain.Supply

open IndexChain.Core

/-- What a read was to give that is outside the object it reads. -/
inductive ReadFault where
  | transaction
  | output
  | script
  | notary
  deriving DecidableEq

/-- `pblock->vtx[i]`. -/
def transactionAt (block : CBlock) (i : Nat) : Except ReadFault CTransaction :=
  entry block.vtx i .transaction

/-- `tx.vout[i]`. -/
def outputAt (tx : CTransaction) (i : Nat) : Except ReadFault CTxOut := entry tx.vout i .output

/-- The key of a script that is a public key and `OP_CHECKSIG`. -/
def p2pk (script : CScript) : Option (List UInt8) :=
  if script.length = 35 ∧ script[0]? = some 33 ∧ script[34]? = some 0xac then
    some ((script.drop 1).take 33)
  else none

/-- The globals of a chain with a name that the checks of a coinbase read. -/
structure AssetChain extends RewardConfig where
  commission : UInt64
  founders : Int
  foundersReward : UInt64
  /-- `ASSETCHAINS_SCRIPTPUB`, a text of hexadecimal digits. -/
  scriptpub : List UInt8
  /-- The text that `komodo_appendACscriptpub` leaves, where it is called and changes it. -/
  appendACscriptpub : Int → Option (List UInt8)
  /-- `decode_hex` of a number of bytes. -/
  decodeHex : Nat → List UInt8 → List UInt8
  overridePubkey33 : List UInt8
  overridePubkeyhash : List UInt8

namespace AssetChain

variable (chain : AssetChain)

/-! ## The amount -/

/-- The inner loop of `komodo_commission`, over the outputs of transaction `i` from output `j` on.
The last output of a stake is left out, and so is the second one of the coinbase. -/
def outputTotal (stake : Bool) (i : Nat) : Nat → List CTxOut → Int → Int
  | _, [], total => total
  | j, txout :: later, total =>
    if stake ∧ later = [] then total
    else
      let total := if i ≠ 0 ∨ j ≠ 1 then toUint64 (total + txout.nValue) else total
      if 1000000 * COIN < total then 1000000 * COIN
      else outputTotal stake i (j + 1) later total

/-- The outer loop of `komodo_commission`, from transaction `i` on. -/
def blockTotal (height : Int) : Nat → List CTransaction → Int → Int
  | _, [], total => total
  | i, tx :: later, total =>
    let stake := 225000 < height ∧ chain.assetchainsStaked ≠ 0 ∧ 0 < i ∧ later = []
    blockTotal height (i + 1) later (outputTotal (decide stake) i 0 tx.vout total)

/-- `commission` before small amounts are dropped. -/
def fullCommission (block : CBlock) (height : Int) : Int :=
  if chain.founders ≠ 0 then
    let commission := toUint64 (chain.getBlockSubsidy height * chain.commission.toNat) / COIN
    if 1 < chain.founders then
      if height.tmod chain.founders = 0 then
        if chain.foundersReward = 0 then toUint64 (commission * chain.founders)
        else chain.foundersReward.toNat
      else 0
    else commission
  else
    let total := chain.blockTotal height 0 block.vtx 0
    toUint64 (total / 10000 * chain.commission.toNat) / 10000

/-- `komodo_commission`. -/
def komodoCommission (block : CBlock) (height : Int) : Int :=
  if chain.staked = 2 then 0
  else
    let commission := chain.fullCommission block height
    if commission < 10000 then 0 else commission

/-! ## The check -/

/-- A script of twenty bytes between the opcodes of a payment to a key's hash. -/
def isP2pkh (hash script : List UInt8) : Bool :=
  script == [0x76, 0xa9, 20] ++ hash ++ [0x88, 0xac]

/-- `matched != 0`: the script of the second output is the one that gets the commission. -/
def matchesScript (height : Int) (script : CScript) : Bool :=
  if 1 < chain.scriptpub.length then
    let text := (chain.appendACscriptpub height).getD chain.scriptpub
    text.length / 2 == script.length && decide (script.length < 8192) && !script.isEmpty &&
      (chain.decodeHex script.length text).take script.length == script
  else
    p2pk script == some chain.overridePubkey33 ||
      script.length == 25 && isP2pkh chain.overridePubkeyhash script

/-- `komodo_checkcommission`. -/
def komodoCheckcommission (block : CBlock) (height : Int) : Except ReadFault Int := do
  if chain.commission ≠ 0 ∨ chain.foundersReward ≠ 0 then
    let checktoshis := toInt64 (chain.komodoCommission block height)
    let coinbase ← transactionAt block 0
    if 10000 ≤ checktoshis ∧ coinbase.vout.length < 2 then pure (-1)
    else if checktoshis ≠ 0 then
      let txout ← outputAt coinbase 1
      if !chain.matchesScript height txout.scriptPubKey then pure (-1)
      else if txout.nValue ≠ checktoshis then pure (-1)
      else pure checktoshis
    else pure checktoshis
  else pure 0

/-! ## What the check reads -/

theorem fullCommission_range (block : CBlock) (height : Int) :
    0 ≤ chain.fullCommission block height ∧ chain.fullCommission block height < 2 ^ 64 := by
  have hquot : ∀ x d : Int, 0 < d → 0 ≤ toUint64 x / d ∧ toUint64 x / d < 2 ^ 64 := by
    intro x d hd
    obtain ⟨hlow, hhigh⟩ := toUint64_range x
    exact ⟨Int.ediv_nonneg hlow hd.le, (Int.ediv_le_self d hlow).trans_lt hhigh⟩
  rw [fullCommission]
  split
  · dsimp only
    split
    · split
      · split
        · exact toUint64_range _
        · exact ⟨Int.natCast_nonneg _, by exact_mod_cast chain.foundersReward.toNat_lt⟩
      · decide
    · exact hquot _ _ (by decide)
  · exact hquot _ _ (by decide)

variable {chain} {block : CBlock} {height : Int}

theorem coinbase_eq (hcoinbase : block.vtx ≠ []) :
    transactionAt block 0 = .ok (block.vtx.head hcoinbase) := by
  rw [transactionAt, entry_eq_ok, ← List.head?_eq_getElem?]
  exact List.head?_eq_some_head hcoinbase

/-- A commission is nothing or at least `10000`. -/
theorem komodoCommission_range : chain.komodoCommission block height = 0 ∨
    10000 ≤ chain.komodoCommission block height ∧ chain.komodoCommission block height < 2 ^ 64 := by
  have hrange := chain.fullCommission_range block height
  rw [komodoCommission]
  split
  · exact Or.inl rfl
  · dsimp only
    split
    · exact Or.inl rfl
    · exact Or.inr ⟨by omega, hrange.2⟩

/-- The second output exists, or the commission is not negative in the register that holds it. -/
def CommissionSafe (chain : AssetChain) (block : CBlock) (height : Int) : Prop :=
  chain.commission ≠ 0 ∨ chain.foundersReward ≠ 0 →
    ∀ coinbase, transactionAt block 0 = .ok coinbase →
      2 ≤ coinbase.vout.length ∨ chain.komodoCommission block height < 2 ^ 63

/-- `komodo_checkcommission` reads only what exists exactly for the blocks that are safe. -/
theorem completes_checkcommission (hcoinbase : block.vtx ≠ []) :
    Completes (chain.komodoCheckcommission block height) ↔ chain.CommissionSafe block height := by
  have hcommission : chain.komodoCommission block height = 0 ∨
      10000 ≤ chain.komodoCommission block height ∧ chain.komodoCommission block height < 2 ^ 64 :=
    komodoCommission_range
  rw [komodoCheckcommission, CommissionSafe]
  by_cases hactive : chain.commission ≠ 0 ∨ chain.foundersReward ≠ 0
  · rw [if_pos hactive, coinbase_eq hcoinbase, except_ok_bind]
    simp only [Completes.ite_iff, Completes.pure, Completes.bind_iff, outputAt, completes_entry,
      implies_true, and_true, true_and, hactive, forall_const,
      Except.ok.injEq, forall_eq']
    rcases lt_or_ge (chain.komodoCommission block height) (2 ^ 63) with hsmall | hlarge
    · rw [toInt64_of_range (by omega) hsmall]
      omega
    · obtain ⟨k, hk⟩ := toInt64_eq_sub (chain.komodoCommission block height)
      obtain ⟨hlow, hhigh⟩ := toInt64_range (chain.komodoCommission block height)
      omega
  · rw [if_neg hactive]
    exact ⟨fun _ h => absurd h hactive, fun _ => Completes.pure 0⟩

/-- What the check returns is in the range of an `int64_t`. -/
theorem checkcommission_lt {c : Int} (h : chain.komodoCheckcommission block height = .ok c) :
    c < 2 ^ 63 := by
  have hrange := (toInt64_range (chain.komodoCommission block height)).2
  rw [komodoCheckcommission] at h
  split at h
  · obtain ⟨coinbase, -, h⟩ := except_bind_eq_ok.1 h
    split at h
    · cases h
      decide
    · split at h
      · obtain ⟨txout, -, h⟩ := except_bind_eq_ok.1 h
        split at h
        · cases h
          decide
        · split at h
          · cases h
            decide
          · cases h
            exact hrange
      · cases h
        exact hrange
  · cases h
    decide

end AssetChain

end IndexChain.Supply
