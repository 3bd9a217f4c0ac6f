import IndexChain.Models.Supply.NotaryPay

/-!
# The proof of work and what is paid

`komodo_checkPOW` tests the work of a block and, when that is right, its payments: the
commission, and that a coinbase with several outputs comes with a notarisation in the second
transaction. That a second transaction exists is tested nowhere on the way. `reads_exist_iff`
collects what has to exist for the three checks of a block.
-/

namespace IndexChain.Supply

open IndexChain.Core

/-- What the check of the work asks of the rest of the node. -/
structure PowEnv extends PayEnv where
  /-- The chain has a name. -/
  named : Bool
  checkEquihashSolution : CBlock → Bool
  /-- `bhash > bnTarget`. -/
  aboveTarget : CBlock → Bool
  /-- `komodo_block2pubkey33`: the key, and `possible`. -/
  block2pubkey33 : CBlock → List UInt8 × Bool
  /-- The height of the previous block, when it is known. -/
  prevHeight : CBlock → Option Int
  /-- `ASSETCHAINS_LWMAPOS != 0`. -/
  lwmapos : Bool
  verusCheckPOSBlock : Int → CBlock → Int → Bool
  /-- `KOMODO_TEST_ASSETCHAIN_SKIP_POW`, which regtest sets. -/
  skipPow : Bool
  isPoSblock : Int → Int → CBlock → Int
  /-- `bhash` is above `komodo_PoWtarget`. -/
  abovePoWtarget : CBlock → Int → Bool
  /-- The text of `ASSETCHAINS_SCRIPTPUB` does not end with the mark for a script that is
  completed later. -/
  unmarkedScriptpub : Bool
  /-- The 33 bytes of `CRYPTO777_PUBSECPSTR`. -/
  crypto777 : List UInt8

/-- The locals with which the payments are reached. -/
structure PowState where
  height : Int
  failed : Bool
  notaryid : Int

namespace PowEnv

variable (env : PowEnv)

/-! ## The work

A result in `Except.error` is what the function returns without looking at the payments. -/

/-- The height, for a block whose height is not given. -/
def startHeight (slowflag : Int) (block : CBlock) (height : Int) : Except Int Int :=
  if height = 0 then
    if slowflag ≠ 0 then .error 0
    else
      let height := (env.prevHeight block).elim 0 (· + 1)
      if height = 0 then .error 0 else .ok height
  else .ok height

/-- `notaryid`, on the chain without a name. -/
def findNotary (block : CBlock) (height : Int) : Int :=
  let t := env.komodoNotaries height block.nTime
  ((t.pubkeys.take t.num.toNat).findIdx? fun pubkey =>
    (env.block2pubkey33 block).1 == pubkey).elim (-1) Int.ofNat

/-- The hash against the target. -/
def targetStage (block : CBlock) (height : Int) : Except Int PowState :=
  if (env.named ∨ 792000 < height) ∧ env.aboveTarget block then
    if 0 < height ∧ ¬ env.named then .ok ⟨height, true, env.findNotary block height⟩
    else if ¬ (env.block2pubkey33 block).2 ∨ env.named then
      if env.skipPow then .error 0
      else if env.chain.assetchainsStaked = 0 then .error (-1)
      else .ok ⟨height, true, -1⟩
    else .ok ⟨height, true, -1⟩
  else .ok ⟨height, false, -1⟩

/-- The rules of a chain with staking. -/
def stakeStage (slowflag : Int) (block : CBlock) (st : PowState) : Except Int PowState :=
  if env.chain.assetchainsStaked ≠ 0 ∧ 2 ≤ st.height then
    let isPoSblock := env.isPoSblock slowflag st.height block
    if isPoSblock = 0 then
      if slowflag = 0 then .error 0
      else if env.chain.assetchainsStaked = 100 ∧ 100 < st.height then .error (-1)
      else if env.abovePoWtarget block st.height ∧ 100 < st.height then .error (-1)
      else .ok { st with failed := false }
    else if isPoSblock < 0 then .error (-1)
    else .ok { st with failed := false }
  else .ok st

/-- `komodo_checkPOW` up to the payments. -/
def powStage (slowflag : Int) (block : CBlock) (height : Int) : Except Int PowState := do
  if !env.checkEquihashSolution block then .error (-1)
  else
    let height ← env.startHeight slowflag block height
    if env.lwmapos ∧ env.aboveTarget block ∧ env.verusCheckPOSBlock slowflag block height then
      .error 0
    else
      let st ← env.targetStage block height
      env.stakeStage slowflag block st

/-! ## The payments -/

/-- The script of the first output at height one, when it has to be a certain one. -/
def firstScriptOk (script : CScript) : Bool :=
  if 1 < env.chain.scriptpub.length ∧ env.unmarkedScriptpub then
    env.chain.scriptpub.length / 2 == script.length && decide (script.length < 10000) &&
      (env.chain.decodeHex script.length env.chain.scriptpub).take script.length == script
  else p2pk script == some env.chain.overridePubkey33

/-- A first output at height one has to have a certain script. -/
def FirstScript : Prop :=
  1 < env.chain.scriptpub.length ∧ env.unmarkedScriptpub ∨
    env.chain.overridePubkey33.head?.getD 0 ≠ 0

instance : Decidable env.FirstScript := inferInstanceAs (Decidable (_ ∨ _))

/-- The commission: whether the check goes on. -/
def commissionStage (block : CBlock) (st : PowState) : Except ReadFault Bool := do
  if st.failed = false ∧ env.chain.commission ≠ 0 then
    if st.height = 1 then
      if env.FirstScript then
        let coinbase ← transactionAt block 0
        let txout ← outputAt coinbase 0
        pure (env.firstScriptOk txout.scriptPubKey)
      else pure true
    else
      let checktoshis ← env.chain.komodoCheckcommission block st.height
      pure (decide (0 ≤ checktoshis))
  else pure true

/-- `komodo_is_notarytx`. -/
def isNotarytx (tx : CTransaction) : Except ReadFault Bool :=
  match tx.vout.head? with
  | none => .ok false
  | some txout =>
    -- the pointer is never null, and `memcmp` reads the 33 bytes behind the first one
    if txout.scriptPubKey.length < 34 then .error .script
    else .ok ((txout.scriptPubKey.drop 1).take 33 == env.crypto777)

/-- The second transaction of a block with notary pay: whether the check goes on. -/
def notaryStage (slowflag : Int) (block : CBlock) (st : PowState) : Except ReadFault Bool := do
  if st.failed = false ∧ env.notaryPay.head?.getD 0 ≠ 0 then
    let coinbase ← transactionAt block 0
    if 1 < coinbase.vout.length ∧ slowflag = 0 then
      let tx ← transactionAt block 1
      let isNotarytx ← env.isNotarytx tx
      if !isNotarytx then pure false
      else
        let numSN := (env.komodoNotaries st.height block.nTime).num
        pure (decide (numSN.tdiv 5 ≤ tx.vin.length))
    else pure true
  else pure true

/-- `komodo_checkPOW`. -/
def komodoCheckPOW (slowflag : Int) (block : CBlock) (height : Int) : Except ReadFault Int :=
  match env.powStage slowflag block height with
  | .error result => .ok result
  | .ok st => do
    let commissionOk ← env.commissionStage block st
    if !commissionOk then pure (-1)
    else
      let notaryOk ← env.notaryStage slowflag block st
      if !notaryOk then pure (-1)
      else if st.failed ∧ ¬ (env.block2pubkey33 block).2 ∧ st.notaryid < 0 then pure (-1)
      else pure 0

/-! ## What the checks read -/

variable {env} {slowflag height : Int} {block : CBlock} {st : PowState}

/-- The script that a second transaction is judged by is missing, or as long as a payment to a
key. -/
def Judgeable (tx : CTransaction) : Prop :=
  ∀ txout, tx.vout.head? = some txout → 34 ≤ txout.scriptPubKey.length

/-- What `komodo_checkPOW` reads exists, for the locals with which it reaches the payments. -/
structure PowSafe (env : PowEnv) (slowflag : Int) (block : CBlock) (st : PowState) : Prop where
  first : st.failed = false → env.chain.commission ≠ 0 → st.height = 1 → env.FirstScript →
    ∀ coinbase, transactionAt block 0 = .ok coinbase → coinbase.vout ≠ []
  commission : st.failed = false → env.chain.commission ≠ 0 → st.height ≠ 1 →
    env.chain.CommissionSafe block st.height
  second : st.failed = false → env.notaryPay.head?.getD 0 ≠ 0 → slowflag = 0 →
    env.commissionStage block st = .ok true →
    ∀ coinbase, transactionAt block 0 = .ok coinbase → 1 < coinbase.vout.length →
      ∃ tx, transactionAt block 1 = .ok tx ∧ Judgeable tx

theorem completes_isNotarytx {tx : CTransaction} :
    Completes (env.isNotarytx tx) ↔ Judgeable tx := by
  rw [isNotarytx, Judgeable]
  cases tx.vout.head? with
  | none => simp
  | some txout => simp [Completes.ite_iff]

theorem completes_commissionStage (hcoinbase : block.vtx ≠ []) :
    Completes (env.commissionStage block st) ↔
      (st.failed = false → env.chain.commission ≠ 0 → st.height = 1 → env.FirstScript →
        ∀ coinbase, transactionAt block 0 = .ok coinbase → coinbase.vout ≠ []) ∧
      (st.failed = false → env.chain.commission ≠ 0 → st.height ≠ 1 →
        env.chain.CommissionSafe block st.height) := by
  rw [commissionStage]
  by_cases hpay : st.failed = false ∧ env.chain.commission ≠ 0
  · rw [if_pos hpay]
    by_cases hone : st.height = 1
    · rw [if_pos hone]
      simp only [Completes.ite_iff, Completes.bind_iff, AssetChain.coinbase_eq hcoinbase,
        Completes.ok, Completes.pure, outputAt, completes_entry, List.length_pos_iff,
        Except.ok.injEq, forall_eq', hpay, hone]
      simp [hpay.2]
    · rw [if_neg hone, Completes.bind_iff, AssetChain.completes_checkcommission hcoinbase]
      simp [hpay, hone]
  · rw [if_neg hpay]
    refine iff_of_true (Completes.pure true) ⟨fun hf hc => ?_, fun hf hc => ?_⟩
    · exact absurd ⟨hf, hc⟩ hpay
    · exact absurd ⟨hf, hc⟩ hpay

/-- When the notary stage reads what exists. -/
theorem completes_notaryStage (hcoinbase : block.vtx ≠ []) :
    Completes (env.notaryStage slowflag block st) ↔
      (st.failed = false → env.notaryPay.head?.getD 0 ≠ 0 → slowflag = 0 →
        ∀ coinbase, transactionAt block 0 = .ok coinbase → 1 < coinbase.vout.length →
          ∃ tx, transactionAt block 1 = .ok tx ∧ Judgeable tx) := by
  rw [notaryStage]
  by_cases hpay : st.failed = false ∧ env.notaryPay.head?.getD 0 ≠ 0
  · rw [if_pos hpay, AssetChain.coinbase_eq hcoinbase, except_ok_bind]
    simp only [hpay, ne_eq, not_false_eq_true, forall_const, Except.ok.injEq, forall_eq']
    by_cases hmany : 1 < (block.vtx.head hcoinbase).vout.length ∧ slowflag = 0
    · rw [if_pos hmany, Completes.bind_iff]
      constructor
      · rintro ⟨⟨tx, htx⟩, h⟩ _ _
        exact ⟨tx, htx, completes_isNotarytx.1 (Completes.bind_iff.1 (h tx htx)).1⟩
      · intro h
        obtain ⟨tx, htx, hjudged⟩ := h hmany.2 hmany.1
        refine ⟨⟨tx, htx⟩, fun tx' htx' => ?_⟩
        obtain rfl := Except.ok.inj (htx'.symm.trans htx)
        refine Completes.bind_iff.2 ⟨completes_isNotarytx.2 hjudged, fun isNotarytx _ => ?_⟩
        exact Completes.ite_iff.2 ⟨fun _ => Completes.pure _, fun _ => Completes.pure _⟩
    · rw [if_neg hmany]
      exact iff_of_true (Completes.pure true) fun hslow hmore => absurd ⟨hmore, hslow⟩ hmany
  · rw [if_neg hpay]
    exact iff_of_true (Completes.pure true) fun hf hc => absurd ⟨hf, hc⟩ hpay

/-- When `komodo_checkPOW` reads what exists. -/
theorem completes_checkPOW (hcoinbase : block.vtx ≠ []) :
    Completes (env.komodoCheckPOW slowflag block height) ↔
      ∀ st, env.powStage slowflag block height = .ok st → env.PowSafe slowflag block st := by
  rw [komodoCheckPOW]
  cases hstage : env.powStage slowflag block height with
  | error result => simp
  | ok st =>
    simp only [Except.ok.injEq, forall_eq']
    rw [Completes.bind_iff, completes_commissionStage hcoinbase]
    constructor
    · rintro ⟨⟨hfirst, hcommission⟩, h⟩
      refine ⟨hfirst, hcommission, fun hfailed hpay hslow hok => ?_⟩
      have hnotary := (Completes.bind_iff.1 (h true hok)).1
      exact (completes_notaryStage hcoinbase).1 hnotary hfailed hpay hslow
    · intro h
      refine ⟨⟨h.first, h.commission⟩, fun commissionOk hok => ?_⟩
      cases commissionOk with
      | false => exact Completes.pure (-1)
      | true =>
        have hnotary := (completes_notaryStage hcoinbase).2 fun hfailed hpay hslow =>
          h.second hfailed hpay hslow hok
        refine Completes.bind_iff.2 ⟨hnotary, fun notaryOk _ => ?_⟩
        exact Completes.ite_iff.2 ⟨fun _ => Completes.pure _, fun _ =>
          Completes.ite_iff.2 ⟨fun _ => Completes.pure _, fun _ => Completes.pure _⟩⟩

/-- The three checks read only transactions, outputs, scripts and notaries that exist, exactly
for the blocks that are safe for each of them. -/
theorem reads_exist_iff (env : PowEnv) (slowflag height : Int) {block : CBlock}
    (hcoinbase : block.vtx ≠ []) :
    Completes (env.chain.komodoCheckcommission block height) ∧
        Completes (env.komodoChecknotarypay block height) ∧
        Completes (env.komodoCheckPOW slowflag block height) ↔
      env.chain.CommissionSafe block height ∧ env.NotarypaySafe block height ∧
        ∀ st, env.powStage slowflag block height = .ok st → env.PowSafe slowflag block st := by
  rw [AssetChain.completes_checkcommission hcoinbase, PayEnv.completes_checknotarypay hcoinbase,
    completes_checkPOW hcoinbase]

/-- A chain with notary pay and one notary, whose blocks all have enough work. -/
def payingChain : PowEnv where
  chain := { RewardConfig.fungibleChain with
    staked := 0
    commission := 0
    founders := 0
    foundersReward := 0
    scriptpub := []
    appendACscriptpub := fun _ => none
    decodeHex := fun _ _ => []
    overridePubkey33 := []
    overridePubkeyhash := [] }
  notaryPay := [1000]
  notaryPay_length := rfl
  getTransaction := fun _ => some { hash := 7, vout := [⟨5, 33 :: List.replicate 33 2 ++ [0xac]⟩] }
  komodoNotaries := fun _ _ =>
    { num := 1
      num_le := by decide
      pubkeys := List.replicate 64 (List.replicate 33 2)
      pubkeys_length := rfl }
  getnotarizedheight := fun _ _ _ => 100
  named := true
  checkEquihashSolution := fun _ => true
  aboveTarget := fun _ => false
  block2pubkey33 := fun _ => ([], false)
  prevHeight := fun _ => none
  lwmapos := false
  verusCheckPOSBlock := fun _ _ _ => false
  skipPow := false
  isPoSblock := fun _ _ _ => 0
  abovePoWtarget := fun _ _ => false
  unmarkedScriptpub := false
  crypto777 := List.replicate 33 3

/-- A coinbase with an output for the notary. -/
def payingCoinbase : CTransaction where
  hash := 2
  vout := [⟨100000000, [0x51]⟩, ⟨1000, 33 :: List.replicate 33 2 ++ [0xac]⟩]

/-- A notarisation that the notary has signed. -/
def signedNotarisation : CTransaction where
  hash := 3
  vin := [{ prevout := ⟨7, 0⟩ }]
  vout := [⟨5, 33 :: List.replicate 33 3 ++ [0xac]⟩, ⟨0, [0x6a, 1, 9]⟩]

/-- A notarised block that pays its notaries. -/
theorem notarised_block_safe :
    let block : CBlock := ⟨1, 0, 1600000000, [payingCoinbase, signedNotarisation], by decide⟩
    payingChain.chain.CommissionSafe block 200 ∧ payingChain.NotarypaySafe block 200 ∧
      ∀ st, payingChain.powStage 0 block 200 = .ok st → payingChain.PowSafe 0 block st := by
  intro block
  exact (reads_exist_iff payingChain 0 200 (List.cons_ne_nil _ _)).1
    ⟨⟨0, by rfl⟩, ⟨1000, by decide +kernel⟩, ⟨0, by rfl⟩⟩

/-- Without its notarisation the block makes `komodo_checkPOW` read a second transaction that
does not exist. -/
theorem lone_coinbase_reads_beyond :
    ¬ ∀ (env : PowEnv) (slowflag height : Int) (block : CBlock), block.vtx ≠ [] →
      Completes (env.chain.komodoCheckcommission block height) ∧
        Completes (env.komodoChecknotarypay block height) ∧
        Completes (env.komodoCheckPOW slowflag block height) := by
  intro hclaim
  obtain ⟨-, -, result, hresult⟩ := hclaim payingChain 0 200
    ⟨1, 0, 1600000000, [payingCoinbase], by decide⟩ (List.cons_ne_nil _ _)
  have hfault : payingChain.komodoCheckPOW 0 ⟨1, 0, 1600000000, [payingCoinbase], by decide⟩ 200 =
      .error .transaction := by rfl
  cases hfault.symm.trans hresult

end PowEnv

end IndexChain.Supply
