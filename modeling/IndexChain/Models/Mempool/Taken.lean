import IndexChain.Models.Mempool.RoundTrip

/-!
# Which transactions of a block are taken

With `fSkipExpiry` the verdict of `AcceptToMemoryPool` on a transparent transaction
depends on the coins of the tip and of the transactions in the pool only. A transaction
that is rejected once is rejected again when the pool has grown, so the second pass of
`CheckBlock` repeats the count of the first and the loop ends there. What the pool holds
then is known before: the transactions that stay, and those of the block that are taken
one after the other.
-/

namespace IndexChain

open IndexChain.Core CTxMemPool

/-! ## Sums in range -/

namespace TxCheckEnv

variable {env : TxCheckEnv} {tx : CTransaction}

theorem addInRange_eq_some {n v : Int} (hv : 0 ≤ v) (hmax : v ≤ env.maxMoney)
    (hsum : env.moneyRange (toInt64 (n + v)) = true) :
    env.addInRange n v = some (toInt64 (n + v)) := by
  unfold addInRange
  rw [if_pos]
  unfold moneyRange at hsum ⊢
  rw [hsum, decide_eq_true hv, decide_eq_true hmax]
  rfl

theorem foldlM_addInRange_vout {l : List CTxOut} {s s' : OutTotals}
    (h : l.foldlM (env.checkOut tx) s = .ok s') :
    l.foldlM (fun n out => env.addInRange n out.nValue) s.nValueOut = some s'.nValueOut := by
  induction l generalizing s with
  | nil =>
    cases h
    rfl
  | cons out l ih =>
    rw [List.foldlM_cons, except_bind_eq_ok] at h
    obtain ⟨s1, h1, h2⟩ := h
    unfold checkOut at h1
    dsimp only at h1
    rw [require_bind_eq_ok, require_bind_eq_ok, require_bind_eq_ok, require_bind_eq_ok] at h1
    obtain ⟨hpos, hmax, -, hsum, hret⟩ := h1
    cases hret
    rw [List.foldlM_cons, addInRange_eq_some (of_decide_eq_true hpos) (of_decide_eq_true hmax) hsum]
    exact ih h2

/-- The checks of JoinSplits add up what they take. -/
theorem foldlM_addInRange_joinSplit {l : List JSDescription} {s s' : JsTotals}
    (h : l.foldlM env.checkJoinSplit s = .ok s') :
    l.foldlM (fun n js => env.addInRange n js.vpubOld) s.nValueOut = some s'.nValueOut := by
  induction l generalizing s with
  | nil =>
    cases h
    rfl
  | cons js l ih =>
    rw [List.foldlM_cons, except_bind_eq_ok] at h
    obtain ⟨s1, h1, h2⟩ := h
    unfold checkJoinSplit at h1
    dsimp only at h1
    iterate 8 rw [require_bind_eq_ok] at h1
    obtain ⟨-, -, hpos, -, hmax, -, -, hsum, hret⟩ := h1
    have hs1 : s1.nValueOut = toInt64 (s.nValueOut + js.vpubOld) := by
      rw [← Except.ok.inj hret]
      split
      · rfl
      · split
        · rfl
        · split <;> rfl
    rw [List.foldlM_cons, addInRange_eq_some (of_decide_eq_true hpos) (of_decide_eq_true hmax) hsum]
    have hrest := ih h2
    rwa [hs1] at hrest

/-- `GetValueOut` does not throw after `CheckTransaction`. -/
theorem getValueOut_isSome (h : env.checkTransaction tx = .ok ()) :
    (env.getValueOut tx).isSome = true := by
  unfold checkTransaction at h
  dsimp only at h
  simp only [except_bind_eq_ok, require_eq_ok] at h
  obtain ⟨-, -, -, -, -, -, -, -, out, hout, -, -, -, -, -, -, -, hbal, -, hrange, js, hjs, -⟩ := h
  rw [Bool.and_eq_true, decide_eq_true_eq, decide_eq_true_eq] at hbal
  have hvout := foldlM_addInRange_vout hout
  have hsplits := foldlM_addInRange_joinSplit hjs
  unfold getValueOut
  rw [hvout]
  simp only [Option.bind_eq_bind, Option.bind_some]
  by_cases hneg : tx.valueBalance ≤ 0
  · rw [if_pos hneg] at hrange hsplits ⊢
    rw [Bool.or_eq_true, decide_eq_true_eq] at hrange
    have hsum := hrange.resolve_left (Int.not_lt.2 hneg)
    rw [addInRange_eq_some (by omega) (by omega) hsum, Option.bind_some, hsplits]
    rfl
  · rw [if_neg hneg] at hsplits ⊢
    exact Option.isSome_iff_exists.2 ⟨_, hsplits⟩

/-- Nor does `GetShieldedValueIn`, of a transaction without JoinSplits. -/
theorem getShieldedValueIn_isSome (h : env.checkTransaction tx = .ok ())
    (hjs : tx.vjoinsplit = []) : (env.getShieldedValueIn tx).isSome = true := by
  unfold checkTransaction at h
  dsimp only at h
  rw [hjs] at h
  simp only [except_bind_eq_ok, require_eq_ok] at h
  obtain ⟨-, -, -, -, -, -, -, -, out, hout, -, -, -, -, -, -, -, hbal, -, -, js, -, -, -, -, -,
    nValueIn, hin, -, htotal, -⟩ := h
  cases hin
  rw [Bool.and_eq_true, decide_eq_true_eq, decide_eq_true_eq] at hbal
  unfold getShieldedValueIn
  rw [hjs]
  by_cases hneg : 0 ≤ tx.valueBalance
  · rw [Bool.or_eq_true, decide_eq_true_eq] at htotal
    have hsum := htotal.resolve_left (Int.not_lt.2 hneg)
    rw [if_pos hneg, addInRange_eq_some hneg hbal.1 hsum]
    rfl
  · rw [if_neg hneg]
    rfl

end TxCheckEnv

namespace PoolEnv

variable {env : PoolEnv} {tx : CTransaction}

/-- A transaction that passes the checks on its own is not thrown out by its sums. -/
theorem afterInputs_isSome (h : env.contextFree tx true = .ok ()) (htr : tx.isTransparent = true)
    (coins : List CCoins) : (env.afterInputs tx coins).isSome = true := by
  have hcheck : env.txEnv.checkTransaction tx = .ok () := by
    unfold contextFree at h
    rw [require_bind_eq_ok, require_bind_eq_ok, unit_bind_eq_ok] at h
    exact h.2.2.1
  have hjs : tx.vjoinsplit = [] := by
    rw [CTransaction.isTransparent, Bool.and_eq_true, List.isEmpty_iff] at htr
    exact htr.1
  obtain ⟨nValueOut, hout⟩ := Option.isSome_iff_exists.1 (TxCheckEnv.getValueOut_isSome hcheck)
  obtain ⟨nShielded, hshielded⟩ :=
    Option.isSome_iff_exists.1 (TxCheckEnv.getShieldedValueIn_isSome hcheck hjs)
  have hin : ∃ nValueIn, env.getValueIn tx (outputsFor tx coins) = some nValueIn := by
    unfold getValueIn
    rw [hshielded]
    split
    · exact ⟨_, rfl⟩
    · exact ⟨_, rfl⟩
  obtain ⟨nValueIn, hin⟩ := hin
  unfold afterInputs
  dsimp only
  rw [hin, hout]
  simp only [Option.bind_eq_bind, Option.bind_some]
  split
  · rfl
  · split
    · rfl
    · split
      · rfl
      · split
        · rfl
        · split <;> rfl

/-- The reasons for which the values are rejected. -/
theorem afterInputs_reason {coins : List CCoins} {reason : String}
    (h : env.afterInputs tx coins = some (.error reason)) : reason ≠ "staking" := by
  unfold afterInputs at h
  dsimp only at h
  obtain ⟨nValueIn, -, h⟩ := Option.bind_eq_some_iff.1 h
  split at h
  · cases h
    decide
  · split at h
    · cases h
      decide
    · obtain ⟨nValueOut, -, h⟩ := Option.bind_eq_some_iff.1 h
      split at h
      · cases h
        decide
      · split at h
        · cases h
          decide
        · split at h
          · cases h
            decide
          · cases h

/-! ## The verdict -/

variable (env) in
/-- The coins of the tip and of transactions in the pool. -/
def viewWith (txs : List CTransaction) : CCoinsView :=
  { env.pcoinsTip with
    getCoins := fun txid =>
      match txs.find? fun tx => tx.hash == txid with
      | some tx => some (CCoins.fromTx tx mempoolHeight)
      | none => (env.view {}).getCoins txid }

variable (env) in
/-- The checks before the inputs are read, with `fSkipExpiry`. -/
def ownChecks (v : CCoinsView) (tx : CTransaction) : Except String Unit := do
  env.contextFree tx true
  require (!v.haveCoins tx.hash) "already have coins"
  require (!tx.isCoinImport || tx.inputOutpoints.all fun o => !v.haveCoins o.hash)
    "import tombstone exists"

variable (env) in
/-- The verdict on a transparent transaction that is not in the pool: the fee, or why it
is rejected; none when an input is missing. -/
def verdict (v : CCoinsView) (tx : CTransaction) : Option (Except String Int) :=
  match env.ownChecks v tx with
  | .error reason => some (.error reason)
  | .ok () => (v.inputCoins tx).bind (env.afterInputs tx)

variable {pool : CTxMemPool} {v w : CCoinsView}

/-- With `fSkipExpiry` the checks before the inputs are read look at coins only. -/
theorem beforeInputs_eq (hv : (env.view pool).getCoins = v.getCoins)
    (hnot : pool.contains tx.hash = false) (htr : tx.isTransparent = true) :
    env.beforeInputs pool tx true = env.ownChecks v tx := by
  have hcoins : ∀ txid, (env.view pool).haveCoins txid = v.haveCoins txid := by
    intro txid
    unfold CCoinsView.haveCoins
    rw [hv]
  have hrequirements : (env.view pool).haveJoinSplitRequirements env.trees tx = true := by
    rw [CTransaction.isTransparent, Bool.and_eq_true, List.isEmpty_iff, List.isEmpty_iff] at htr
    rw [CCoinsView.haveJoinSplitRequirements, htr.1, htr.2]
    rfl
  unfold beforeInputs ownChecks CCoinsView.inputsThere
  rw [hnot, hrequirements]
  simp only [hcoins]
  refine congrArg (env.contextFree tx true >>= ·) (funext fun _ => ?_)
  refine congrArg (require _ _ >>= ·) (funext fun _ => ?_)
  cases tx.isCoinImport with
  | true =>
    rw [if_pos rfl, Bool.not_true, Bool.false_or]
    cases tx.inputOutpoints.all fun o => !v.haveCoins o.hash with
    | true => rfl
    | false => rfl
  | false => rfl

/-- Acceptance with `fSkipExpiry` follows the verdict. -/
theorem accept_eq (hv : (env.view pool).getCoins = v.getCoins)
    (hnot : pool.contains tx.hash = false) (htr : tx.isTransparent = true) :
    env.acceptToMemoryPool pool tx true = (env.verdict v tx).map fun r => r.map fun nFees =>
      pool.addUnchecked (env.entryFor pool tx [] nFees true) := by
  have hinputs : (env.view pool).inputCoins tx = v.inputCoins tx := by
    unfold CCoinsView.inputCoins
    rw [hv]
  unfold acceptToMemoryPool verdict
  rw [beforeInputs_eq hv hnot htr, hinputs]
  cases env.ownChecks v tx with
  | error reason => rfl
  | ok u =>
    dsimp only
    cases v.inputCoins tx with
    | none => rfl
    | some coins =>
      rw [Option.bind_eq_bind, Option.bind_some, Option.bind_some]
      cases env.afterInputs tx coins with
      | none => rfl
      | some r =>
        cases r with
        | error reason => rfl
        | ok nFees => rfl

variable (env) in
/-- If the inputs of the transaction are read at all, they are there. -/
def InputsThere (v : CCoinsView) (tx : CTransaction) : Prop :=
  tx.isCoinImport = false → env.contextFree tx true = .ok () → v.haveCoins tx.hash = false →
    ∀ o ∈ tx.inputOutpoints, ∃ coins, v.getCoins o.hash = some coins ∧
      coins.isAvailable o.n.toNat = true

theorem ownChecks_eq_ok : env.ownChecks v tx = .ok () ↔ env.contextFree tx true = .ok () ∧
    v.haveCoins tx.hash = false ∧
    (tx.isCoinImport = true → ∀ o ∈ tx.inputOutpoints, v.haveCoins o.hash = false) := by
  unfold ownChecks
  rw [unit_bind_eq_ok, require_bind_eq_ok, require_eq_ok, Bool.not_eq_true', Bool.or_eq_true,
    Bool.not_eq_true', List.all_eq_true]
  refine and_congr_right fun _ => and_congr_right fun _ => ?_
  cases tx.isCoinImport with
  | true => simp
  | false => simp

/-- Where the checks fail, and why. -/
theorem ownChecks_eq_error {reason : String} : env.ownChecks v tx = .error reason ↔
    env.contextFree tx true = .error reason ∨
    (env.contextFree tx true = .ok () ∧ v.haveCoins tx.hash = true ∧
      reason = "already have coins") ∨
    (env.contextFree tx true = .ok () ∧ v.haveCoins tx.hash = false ∧ tx.isCoinImport = true ∧
      (∃ o ∈ tx.inputOutpoints, v.haveCoins o.hash = true) ∧
      reason = "import tombstone exists") := by
  unfold ownChecks
  cases env.contextFree tx true with
  | error e =>
    constructor
    · exact fun h => Or.inl h
    · rintro (h | ⟨h, -⟩ | ⟨h, -⟩)
      · exact h
      · cases h
      · cases h
  | ok u =>
    cases v.haveCoins tx.hash with
    | true =>
      constructor
      · intro h
        exact Or.inr (Or.inl ⟨rfl, rfl, (Except.error.inj h).symm⟩)
      · rintro (h | ⟨-, -, rfl⟩ | ⟨-, h, -⟩)
        · cases h
        · rfl
        · cases h
    | false =>
      cases htomb : !tx.isCoinImport || tx.inputOutpoints.all fun o => !v.haveCoins o.hash with
      | true =>
        rw [Bool.or_eq_true, Bool.not_eq_true', List.all_eq_true] at htomb
        constructor
        · intro h
          cases h
        · rintro (h | ⟨-, h, -⟩ | ⟨-, -, himport, ⟨o, ho, hhave⟩, -⟩)
          · cases h
          · cases h
          · have hnone := htomb.resolve_left (by rw [himport]; exact Bool.noConfusion) o ho
            rw [hhave] at hnone
            cases hnone
      | false =>
        rw [Bool.or_eq_false_iff, Bool.not_eq_false', List.all_eq_false] at htomb
        obtain ⟨himport, o, ho, hhave⟩ := htomb
        constructor
        · intro h
          refine Or.inr (Or.inr ⟨rfl, rfl, himport, ⟨o, ho, ?_⟩, (Except.error.inj h).symm⟩)
          simpa using hhave
        · rintro (h | ⟨-, h, -⟩ | ⟨-, -, -, -, rfl⟩)
          · cases h
          · cases h
          · rfl

theorem verdict_eq_error {reason : String} (h : env.verdict v tx = some (.error reason)) :
    env.ownChecks v tx = .error reason ∨ (env.ownChecks v tx = .ok () ∧
      ∃ coins, v.inputCoins tx = some coins ∧ env.afterInputs tx coins = some (.error reason)) := by
  unfold verdict at h
  cases hown : env.ownChecks v tx with
  | error e =>
    rw [hown] at h
    exact Or.inl (congrArg Except.error (Except.error.inj (Option.some.inj h)))
  | ok u =>
    rw [hown] at h
    exact Or.inr ⟨rfl, Option.bind_eq_some_iff.1 h⟩

theorem mapM_isSome_iff {α β : Type} {f : α → Option β} {l : List α} :
    (l.mapM f).isSome = true ↔ ∀ a ∈ l, (f a).isSome = true := by
  induction l with
  | nil => simp
  | cons a l ih =>
    rw [List.mapM_cons, List.forall_mem_cons, ← ih]
    cases f a with
    | none => simp
    | some b =>
      cases l.mapM f with
      | none => simp
      | some bs => simp

theorem inputCoins_isSome_iff : (v.inputCoins tx).isSome = true ↔ (tx.isCoinImport = false →
    ∀ o ∈ tx.inputOutpoints, ∃ coins, v.getCoins o.hash = some coins ∧
      coins.isAvailable o.n.toNat = true) := by
  unfold CCoinsView.inputCoins
  cases tx.isCoinImport with
  | true => simp
  | false =>
    rw [if_neg Bool.false_ne_true, mapM_isSome_iff]
    simp only [forall_const, Option.isSome_iff_exists, Option.filter_eq_some_iff]

/-- A verdict is reached exactly if the inputs are there. -/
theorem verdict_isSome_iff (htr : tx.isTransparent = true) :
    (env.verdict v tx).isSome = true ↔ env.InputsThere v tx := by
  unfold verdict InputsThere
  cases hown : env.ownChecks v tx with
  | error reason =>
    refine ⟨fun _ himport hfree hfresh => ?_, fun _ => rfl⟩
    have hok := ownChecks_eq_ok.2 ⟨hfree, hfresh, fun h => by rw [himport] at h; cases h⟩
    rw [hown] at hok
    cases hok
  | ok u =>
    obtain ⟨hfree, hfresh, -⟩ := ownChecks_eq_ok.1 hown
    dsimp only
    have hvalues : ((v.inputCoins tx).bind (env.afterInputs tx)).isSome =
        (v.inputCoins tx).isSome := by
      cases v.inputCoins tx with
      | none => rfl
      | some coins => exact afterInputs_isSome hfree htr coins
    rw [hvalues, inputCoins_isSome_iff]
    exact ⟨fun h himport _ _ => h himport, fun h himport => h himport hfree hfresh⟩

end PoolEnv

/-! ## Taking the transactions of a block -/

namespace CheckBlockEnv

variable (env : CheckBlockEnv) (block : CBlock) (st : PoolState)

/-- The coins that are seen when transactions of the block have been taken. -/
def seen (taken : List CTransaction) : CCoinsView :=
  env.pool.viewWith (kept st ++ taken)

/-- A transaction with this id is in the pool. -/
def present (taken : List CTransaction) (tx : CTransaction) : Bool :=
  (kept st ++ taken).any fun t => t.hash == tx.hash

/-- A transaction is taken if it passes the checks. -/
def takeOne (taken : List CTransaction) (tx : CTransaction) : List CTransaction :=
  if present st taken tx then taken
  else match env.pool.verdict (env.seen st taken) tx with
    | some (.ok _) => taken ++ [tx]
    | _ => taken

/-- The transactions of the block that are taken. -/
def taken : List CTransaction :=
  (env.tried block).foldl (env.takeOne st) []

/-- The inputs of the transactions are there, each at its turn. -/
def AllInputsThere : List CTransaction → List CTransaction → Prop
  | _, [] => True
  | taken, tx :: rest =>
    (present st taken tx = false → env.pool.InputsThere (env.seen st taken) tx) ∧
      AllInputsThere (env.takeOne st taken tx) rest

/-- Whether transaction `i` of the block is counted as rejected. -/
def rejectOf (i : Nat) (taken : List CTransaction) (tx : CTransaction) : Nat :=
  if present st taken tx then 0
  else match env.pool.verdict (env.seen st taken) tx with
    | some (.error reason) =>
      if i + 1 == block.vtx.length && env.isVerusPOSBlock block && reason == "staking" then 0 else 1
    | _ => 0

/-- The rejects of a pass from transaction `i` on. -/
def rejectsFrom : Nat → List CTransaction → List CTransaction → Nat
  | _, _, [] => 0
  | i, taken, tx :: rest =>
    if env.skips block i tx then rejectsFrom (i + 1) taken rest
    else env.rejectOf block st i taken tx + rejectsFrom (i + 1) (env.takeOne st taken tx) rest

/-- Transactions of the block without coins at the tip. -/
structure Stage (taken : List CTransaction) : Prop where
  /-- They are tried. -/
  tried : ∀ t ∈ taken, t ∈ env.tried block
  /-- Their ids are new. -/
  fresh : ∀ t ∈ taken, (env.pool.view {}).haveCoins t.hash = false

variable {env block st} {tx : CTransaction} {t t' : List CTransaction}

theorem present_eq_false : present st t tx = false ↔ ∀ x ∈ kept st ++ t, x.hash ≠ tx.hash := by
  unfold present
  rw [List.any_eq_false]
  simp only [beq_iff_eq]

theorem takeOne_cases (env : CheckBlockEnv) (st : PoolState) (t : List CTransaction)
    (tx : CTransaction) : env.takeOne st t tx = t ∨
      (present st t tx = false ∧ (∃ nFees, env.pool.verdict (env.seen st t) tx = some (.ok nFees)) ∧
        env.takeOne st t tx = t ++ [tx]) := by
  unfold takeOne
  split
  · exact Or.inl rfl
  · rename_i hnot
    split
    · rename_i nFees hok
      exact Or.inr ⟨Bool.eq_false_iff.2 hnot, ⟨nFees, hok⟩, rfl⟩
    · exact Or.inl rfl

/-- Away from the pool, coins are those of the tip. -/
theorem haveCoins_seen (h : present st t tx = false) :
    (env.seen st t).haveCoins tx.hash = (env.pool.view {}).haveCoins tx.hash := by
  have hnone : (kept st ++ t).find? (fun x => x.hash == tx.hash) = none := by
    rw [List.find?_eq_none]
    intro x hx
    simpa using present_eq_false.1 h x hx
  have hget : (env.seen st t).getCoins tx.hash = (env.pool.view {}).getCoins tx.hash := by
    unfold seen PoolEnv.viewWith
    dsimp only
    rw [hnone]
  unfold CCoinsView.haveCoins
  rw [hget]

theorem Stage.takeOne (h : Stage env block t) (htx : tx ∈ env.tried block) :
    Stage env block (env.takeOne st t tx) := by
  rcases takeOne_cases env st t tx with heq | ⟨hnot, ⟨nFees, hok⟩, heq⟩
  · rwa [heq]
  · have hfresh : (env.pool.view {}).haveCoins tx.hash = false := by
      unfold PoolEnv.verdict at hok
      split at hok
      · cases hok
      · rename_i hown
        rw [← haveCoins_seen hnot]
        exact (PoolEnv.ownChecks_eq_ok.1 hown).2.1
    rw [heq]
    constructor
    · intro x hx
      rcases List.mem_append.1 hx with hx | hx
      · exact h.tried x hx
      · rwa [List.mem_singleton.1 hx]
    · intro x hx
      rcases List.mem_append.1 hx with hx | hx
      · exact h.fresh x hx
      · rwa [List.mem_singleton.1 hx]

theorem Stage.mem_allTxs (h : Stage env block t) {x : CTransaction} (hx : x ∈ kept st ++ t) :
    x ∈ allTxs block st := by
  rcases List.mem_append.1 hx with hx | hx
  · exact kept_mem_allTxs hx
  · exact tried_mem_allTxs (h.tried x hx)

/-- What is seen stays when more is taken. -/
theorem Stage.getCoins_mono (hids : TxidsAgree (allTxs block st)) (h' : Stage env block t')
    (hsub : ∀ x ∈ t, x ∈ t') {txid : Uint256} {coins : CCoins}
    (hget : (env.seen st t).getCoins txid = some coins) :
    (env.seen st t').getCoins txid = some coins := by
  have hin : ∀ x ∈ kept st ++ t, x ∈ kept st ++ t' := by
    intro x hx
    rcases List.mem_append.1 hx with hx | hx
    · exact List.mem_append_left _ hx
    · exact List.mem_append_right _ (hsub x hx)
  unfold seen PoolEnv.viewWith at hget ⊢
  dsimp only at hget ⊢
  cases hfind : (kept st ++ t).find? fun x => x.hash == txid with
  | some x =>
    rw [hfind] at hget
    obtain rfl : x.hash = txid := by simpa using List.find?_some hfind
    rw [hids.find?_eq (fun y hy => h'.mem_allTxs hy) (hin x (List.mem_of_find?_eq_some hfind))]
    exact hget
  | none =>
    rw [hfind] at hget
    dsimp only at hget
    have hnone : (kept st ++ t').find? (fun x => x.hash == txid) = none := by
      rw [List.find?_eq_none]
      intro x hx hhash
      obtain rfl : x.hash = txid := by simpa using hhash
      rcases List.mem_append.1 hx with hx | hx
      · exact List.find?_eq_none.1 hfind x (List.mem_append_left _ hx) (by simp)
      · rw [getCoins_of_fresh (h'.fresh x hx)] at hget
        cases hget
    rw [hnone]
    exact hget

theorem Stage.haveCoins_mono (hids : TxidsAgree (allTxs block st)) (h' : Stage env block t')
    (hsub : ∀ x ∈ t, x ∈ t') {txid : Uint256} (hhave : (env.seen st t).haveCoins txid = true) :
    (env.seen st t').haveCoins txid = true := by
  unfold CCoinsView.haveCoins at hhave ⊢
  cases hget : (env.seen st t).getCoins txid with
  | none =>
    rw [hget] at hhave
    cases hhave
  | some coins =>
    rw [hget] at hhave
    rw [h'.getCoins_mono hids hsub hget]
    exact hhave

theorem Stage.inputCoins_mono (hids : TxidsAgree (allTxs block st)) (h' : Stage env block t')
    (hsub : ∀ x ∈ t, x ∈ t') {coins : List CCoins}
    (hinputs : (env.seen st t).inputCoins tx = some coins) :
    (env.seen st t').inputCoins tx = some coins := by
  unfold CCoinsView.inputCoins at hinputs ⊢
  split at hinputs
  · rename_i himport
    rwa [if_pos himport]
  · rename_i himport
    rw [if_neg himport]
    refine mapM_of_imp (fun o k hk => ?_) hinputs
    obtain ⟨hget, havail⟩ := Option.filter_eq_some_iff.1 hk
    exact Option.filter_eq_some_iff.2 ⟨h'.getCoins_mono hids hsub hget, havail⟩

/-- A transaction that is rejected is rejected again when more is taken. The reason can
change only to that of an import, which is not what the stake is rejected for. -/
theorem Stage.rejected_mono (hids : TxidsAgree (allTxs block st)) (h' : Stage env block t')
    (hsub : ∀ x ∈ t, x ∈ t') (hnot : present st t tx = false) (hnot' : present st t' tx = false)
    {reason : String} (hv : env.pool.verdict (env.seen st t) tx = some (.error reason)) :
    ∃ reason', env.pool.verdict (env.seen st t') tx = some (.error reason') ∧
      (reason' = "staking" ↔ reason = "staking") := by
  have hfresh : (env.seen st t').haveCoins tx.hash = (env.seen st t).haveCoins tx.hash := by
    rw [haveCoins_seen hnot, haveCoins_seen hnot']
  rcases PoolEnv.verdict_eq_error hv with hown | ⟨hown, coins, hcoins, hafter⟩
  · refine ⟨reason, ?_, Iff.rfl⟩
    have hown' : env.pool.ownChecks (env.seen st t') tx = .error reason := by
      rw [PoolEnv.ownChecks_eq_error] at hown ⊢
      rw [hfresh]
      refine hown.imp id (Or.imp id ?_)
      rintro ⟨hfree, hhave, himport, ⟨o, ho, htomb⟩, hreason⟩
      exact ⟨hfree, hhave, himport, ⟨o, ho, h'.haveCoins_mono hids hsub htomb⟩, hreason⟩
    unfold PoolEnv.verdict
    rw [hown']
  · have hreason := PoolEnv.afterInputs_reason hafter
    obtain ⟨hfree, hhave, -⟩ := PoolEnv.ownChecks_eq_ok.1 hown
    unfold PoolEnv.verdict
    cases hown' : env.pool.ownChecks (env.seen st t') tx with
    | error reason' =>
      refine ⟨reason', rfl, ?_⟩
      obtain hfree' | ⟨-, hhave', -⟩ | ⟨-, -, -, -, rfl⟩ := PoolEnv.ownChecks_eq_error.1 hown'
      · rw [hfree] at hfree'
        cases hfree'
      · rw [hfresh, hhave] at hhave'
        cases hhave'
      · exact iff_of_false (by decide) hreason
    | ok u =>
      refine ⟨reason, ?_, Iff.rfl⟩
      dsimp only
      rw [h'.inputCoins_mono hids hsub hcoins]
      exact hafter

/-! ## A second pass -/

variable {l : List CTransaction}

theorem subset_takeOne : ∀ x ∈ t, x ∈ env.takeOne st t tx := by
  intro x hx
  rcases takeOne_cases env st t tx with heq | ⟨-, -, heq⟩
  · rwa [heq]
  · rw [heq]
    exact List.mem_append_left _ hx

theorem subset_foldl_takeOne : ∀ x ∈ t, x ∈ l.foldl (env.takeOne st) t := by
  induction l generalizing t with
  | nil => exact fun x hx => hx
  | cons tx l ih => exact fun x hx => ih x (subset_takeOne x hx)

theorem Stage.foldl_takeOne (h : Stage env block t) (hl : ∀ x ∈ l, x ∈ env.tried block) :
    Stage env block (l.foldl (env.takeOne st) t) := by
  induction l generalizing t with
  | nil => exact h
  | cons tx l ih =>
    exact ih (h.takeOne (hl tx List.mem_cons_self)) fun x hx => hl x (List.mem_cons_of_mem _ hx)

theorem present_mono (hsub : ∀ x ∈ t, x ∈ t') (h : present st t tx = true) :
    present st t' tx = true := by
  obtain ⟨x, hx, hhash⟩ := List.any_eq_true.1 h
  refine List.any_eq_true.2 ⟨x, ?_, hhash⟩
  rcases List.mem_append.1 hx with hx | hx
  · exact List.mem_append_left _ hx
  · exact List.mem_append_right _ (hsub x hx)

/-- A rejected transaction stays out of the pool, and stays rejected. -/
theorem Stage.rejected_foldl (hids : TxidsAgree (allTxs block st)) (h : Stage env block t)
    (hl : ∀ x ∈ l, x ∈ env.tried block) (htx : tx ∈ env.tried block)
    (hnot : present st t tx = false) {reason : String}
    (hv : env.pool.verdict (env.seen st t) tx = some (.error reason)) :
    present st (l.foldl (env.takeOne st) t) tx = false ∧
      ∃ reason', env.pool.verdict (env.seen st (l.foldl (env.takeOne st) t)) tx =
        some (.error reason') ∧ (reason' = "staking" ↔ reason = "staking") := by
  induction l generalizing t reason with
  | nil => exact ⟨hnot, reason, hv, Iff.rfl⟩
  | cons x l ih =>
    have hx := hl x List.mem_cons_self
    have hrest : ∀ y ∈ l, y ∈ env.tried block := fun y hy => hl y (List.mem_cons_of_mem _ hy)
    have hstage : Stage env block (env.takeOne st t x) := h.takeOne hx
    rw [List.foldl_cons]
    rcases takeOne_cases env st t x with heq | ⟨-, ⟨nFees, hok⟩, heq⟩
    · rw [heq]
      exact ih h hrest hnot hv
    · rw [heq] at hstage ⊢
      have hne : x.hash ≠ tx.hash := by
        intro hhash
        obtain rfl := hids x (tried_mem_allTxs hx) tx (tried_mem_allTxs htx) hhash
        rw [hv] at hok
        cases hok
      have hnot' : present st (t ++ [x]) tx = false := by
        rw [present_eq_false] at hnot ⊢
        intro y hy
        rw [← List.append_assoc, List.mem_append] at hy
        rcases hy with hy | hy
        · exact hnot y hy
        · rwa [List.mem_singleton.1 hy]
      obtain ⟨reason1, hv1, hiff1⟩ := hstage.rejected_mono hids
        (fun y hy => List.mem_append_left _ hy) hnot hnot' hv
      obtain ⟨hnot2, reason2, hv2, hiff2⟩ := ih hstage hrest hnot' hv1
      exact ⟨hnot2, reason2, hv2, hiff2.trans hiff1⟩

/-- At the end of a pass, a transaction that had its turn changes nothing any more. -/
theorem Stage.settled_one (hids : TxidsAgree (allTxs block st)) (h : Stage env block t)
    (hl : ∀ x ∈ l, x ∈ env.tried block) (htx : tx ∈ env.tried block) (i : Nat)
    (hin : present st t tx = false → env.pool.InputsThere (env.seen st t) tx)
    (ht' : l.foldl (env.takeOne st) (env.takeOne st t tx) = t') :
    (present st t' tx = false → env.pool.InputsThere (env.seen st t') tx) ∧
      env.takeOne st t' tx = t' ∧
      env.rejectOf block st i t' tx = env.rejectOf block st i t tx := by
  have htr := (triedFrom_subset tx htx).2.1
  have hsub : ∀ x ∈ env.takeOne st t tx, x ∈ t' := by
    rw [← ht']
    exact subset_foldl_takeOne
  -- what is in the pool is not looked at again
  have hdone : present st t' tx = true → env.rejectOf block st i t tx = 0 →
      (present st t' tx = false → env.pool.InputsThere (env.seen st t') tx) ∧
      env.takeOne st t' tx = t' ∧
      env.rejectOf block st i t' tx = env.rejectOf block st i t tx := by
    intro hpresent hzero
    refine ⟨fun hfalse => absurd (hpresent.symm.trans hfalse) Bool.noConfusion, if_pos hpresent,
      ?_⟩
    rw [hzero]
    exact if_pos hpresent
  cases hpresent : present st t tx with
  | true =>
    exact hdone (present_mono (fun x hx => hsub x (subset_takeOne x hx)) hpresent)
      (if_pos hpresent)
  | false =>
    have hsome := (PoolEnv.verdict_isSome_iff htr).2 (hin hpresent)
    obtain ⟨verdict, hv⟩ := Option.isSome_iff_exists.1 hsome
    cases verdict with
    | ok nFees =>
      have htake : env.takeOne st t tx = t ++ [tx] := by
        unfold CheckBlockEnv.takeOne
        rw [hpresent, hv]
        rfl
      have hmem : tx ∈ t' := hsub tx (by rw [htake]; simp)
      refine hdone (List.any_eq_true.2 ⟨tx, List.mem_append_right _ hmem, by simp⟩) ?_
      unfold rejectOf
      rw [hpresent, hv]
      rfl
    | error reason =>
      have htake : env.takeOne st t tx = t := by
        unfold CheckBlockEnv.takeOne
        rw [hpresent, hv]
        rfl
      rw [htake] at ht'
      obtain ⟨hnot', reason', hv', hiff⟩ := h.rejected_foldl hids hl htx hpresent hv
      rw [ht'] at hnot' hv'
      refine ⟨fun _ => ?_, ?_, ?_⟩
      · exact (PoolEnv.verdict_isSome_iff htr).1 (by rw [hv']; rfl)
      · unfold CheckBlockEnv.takeOne
        rw [hnot', hv']
        rfl
      · unfold rejectOf
        rw [hnot', hpresent, hv', hv]
        dsimp only
        rw [if_neg Bool.false_ne_true, if_neg Bool.false_ne_true]
        have hbeq : (reason' == "staking") = (reason == "staking") := by
          rw [Bool.eq_iff_iff, beq_iff_eq, beq_iff_eq]
          exact hiff
        rw [hbeq]

/-- A pass that finds all inputs is the last one that takes anything. -/
theorem Stage.settled (hids : TxidsAgree (allTxs block st)) {i : Nat} {txs : List CTransaction}
    (h : Stage env block t) (hsub : ∀ x ∈ env.triedFrom block i txs, x ∈ env.tried block)
    (hin : env.AllInputsThere st t (env.triedFrom block i txs))
    (ht' : (env.triedFrom block i txs).foldl (env.takeOne st) t = t') :
    env.AllInputsThere st t' (env.triedFrom block i txs) ∧
      (env.triedFrom block i txs).foldl (env.takeOne st) t' = t' ∧
      env.rejectsFrom block st i t' txs = env.rejectsFrom block st i t txs := by
  induction txs generalizing i t with
  | nil => exact ⟨trivial, rfl, rfl⟩
  | cons tx rest ih =>
    rw [triedFrom] at hsub hin ht' ⊢
    rw [rejectsFrom, rejectsFrom]
    cases hskip : env.skips block i tx with
    | true =>
      rw [hskip, if_pos rfl] at hsub hin ht'
      rw [if_pos rfl, if_pos rfl, if_pos rfl]
      exact ih h hsub hin ht'
    | false =>
      rw [hskip, if_neg Bool.false_ne_true] at hsub hin ht'
      rw [if_neg Bool.false_ne_true, if_neg Bool.false_ne_true, if_neg Bool.false_ne_true]
      rw [List.foldl_cons] at ht' ⊢
      obtain ⟨hfirst, hrest⟩ := hin
      have htx := hsub tx List.mem_cons_self
      have hsub' : ∀ x ∈ env.triedFrom block (i + 1) rest, x ∈ env.tried block :=
        fun x hx => hsub x (List.mem_cons_of_mem _ hx)
      obtain ⟨hin1, htake, hreject⟩ := h.settled_one hids hsub' htx i hfirst ht'
      obtain ⟨hin2, htake2, hrejects⟩ := ih (h.takeOne htx) hsub' hrest ht'
      unfold AllInputsThere
      rw [htake, hreject, hrejects]
      exact ⟨⟨hin1, hin2⟩, htake2, rfl⟩

/-! ## The passes of `CheckBlock` -/

variable {mid : PoolState} {i n : Nat}

variable (st) in
/-- The pool holds what stays in it and what has been taken. -/
def Holds (mid : PoolState) (t : List CTransaction) : Prop :=
  ∀ x, x ∈ mid.mempool.txs ↔ x ∈ kept st ++ t

theorem Holds.contains (h : Holds st mid t) :
    mid.mempool.contains tx.hash = present st t tx := by
  rw [Bool.eq_iff_iff, contains_iff]
  unfold present
  rw [List.any_eq_true]
  simp only [h _, beq_iff_eq]

/-- What is read from the pool is what is seen. -/
theorem Holds.getCoins (hids : TxidsAgree (allTxs block st)) (hst : Stage env block t)
    (h : Holds st mid t) : (env.pool.view mid.mempool).getCoins = (env.seen st t).getCoins := by
  funext txid
  have hlookup : mid.mempool.lookup txid = (kept st ++ t).find? fun tx => tx.hash == txid := by
    cases hfind : mid.mempool.lookup txid with
    | some x =>
      obtain ⟨hx, rfl⟩ := lookup_eq_some_iff.1 hfind
      exact (hids.find?_eq (fun y hy => hst.mem_allTxs hy) ((h x).1 hx)).symm
    | none =>
      symm
      rw [List.find?_eq_none]
      intro x hx hhash
      have hcontains := contains_iff.2 ⟨x, (h x).2 hx, by simpa using hhash⟩
      rw [lookup_eq_none_iff.1 hfind] at hcontains
      cases hcontains
  rw [getCoins_view, hlookup]
  rfl

/-- What `myAddtomempool` does with a transaction of the block. -/
theorem Holds.myAddtomempool (hids : TxidsAgree (allTxs block st)) (hst : Stage env block t)
    (h : Holds st mid t) (htx : tx ∈ env.tried block) :
    env.pool.myAddtomempool mid.mempool tx true =
      if present st t tx then some (.ok mid.mempool)
      else (env.pool.verdict (env.seen st t) tx).map fun r => r.map fun nFees =>
        mid.mempool.addUnchecked (env.pool.entryFor mid.mempool tx [] nFees true) := by
  have htr := (triedFrom_subset tx htx).2.1
  have hcontains : mid.mempool.contains tx.hash = present st t tx := h.contains
  unfold PoolEnv.myAddtomempool
  cases hpresent : present st t tx with
  | true =>
    rw [hpresent] at hcontains
    obtain ⟨x, hx, hhash⟩ := contains_iff.1 hcontains
    rw [lookup_eq_some_iff.2 ⟨hx, hhash⟩]
    rfl
  | false =>
    rw [hpresent] at hcontains
    rw [lookup_eq_none_iff.2 hcontains]
    exact PoolEnv.accept_eq (h.getCoins hids hst) hcontains htr

/-- One transaction of the block whose inputs are there. -/
theorem Holds.addBlockTx (hids : TxidsAgree (allTxs block st)) (hst : Stage env block t)
    (h : Holds st mid t) (htx : tx ∈ env.tried block) (hskip : env.skips block i tx = false)
    (hin : present st t tx = false → env.pool.InputsThere (env.seen st t) tx) :
    ∃ mid', env.addBlockTx block i tx mid n = some (mid', n + env.rejectOf block st i t tx) ∧
      Holds st mid' (env.takeOne st t tx) := by
  unfold CheckBlockEnv.addBlockTx takeOne rejectOf
  rw [hskip, if_neg Bool.false_ne_true, h.myAddtomempool hids hst htx]
  cases hpresent : present st t tx with
  | true => exact ⟨_, rfl, h⟩
  | false =>
    have hsome := (PoolEnv.verdict_isSome_iff (triedFrom_subset tx htx).2.1).2 (hin hpresent)
    obtain ⟨verdict, hv⟩ := Option.isSome_iff_exists.1 hsome
    rw [hv]
    rw [if_neg Bool.false_ne_true, if_neg Bool.false_ne_true, if_neg Bool.false_ne_true]
    cases verdict with
    | error reason =>
      refine ⟨{ mid with tmpmempool := mid.tmpmempool.remove tx }, ?_, h⟩
      dsimp only [Option.map_some, Except.map, Option.bind_eq_bind, Option.bind_some]
      split
      · rfl
      · rfl
    | ok nFees =>
      refine ⟨_, rfl, fun x => ?_⟩
      have hcontains : mid.mempool.contains tx.hash = false := h.contains.trans hpresent
      have hadded : x ∈ (mid.mempool.addUnchecked
          (env.pool.entryFor mid.mempool tx [] nFees true)).txs ↔ x ∈ mid.mempool.txs ∨ x = tx :=
        mem_txs_addUnchecked (agree_of_not_contains hcontains)
      refine hadded.trans ?_
      rw [h x]
      simp only [List.mem_append, List.mem_singleton, or_assoc]

/-- A missing input stops the node. -/
theorem Holds.addBlockTx_none (hids : TxidsAgree (allTxs block st)) (hst : Stage env block t)
    (h : Holds st mid t) (htx : tx ∈ env.tried block) (hskip : env.skips block i tx = false)
    (hpresent : present st t tx = false)
    (hmissing : ¬ env.pool.InputsThere (env.seen st t) tx) :
    env.addBlockTx block i tx mid n = none := by
  have hnone : env.pool.verdict (env.seen st t) tx = none := by
    rw [← Option.not_isSome_iff_eq_none,
      PoolEnv.verdict_isSome_iff (triedFrom_subset tx htx).2.1]
    exact hmissing
  unfold CheckBlockEnv.addBlockTx
  rw [hskip, if_neg Bool.false_ne_true, h.myAddtomempool hids hst htx, hpresent,
    if_neg Bool.false_ne_true, hnone]
  rfl

/-- A pass over transactions whose inputs are there. -/
theorem Holds.pass (hids : TxidsAgree (allTxs block st)) {txs : List CTransaction}
    (hst : Stage env block t) (h : Holds st mid t)
    (hsub : ∀ x ∈ env.triedFrom block i txs, x ∈ env.tried block)
    (hin : env.AllInputsThere st t (env.triedFrom block i txs)) :
    ∃ mid', env.pass block i txs mid n = some (mid', n + env.rejectsFrom block st i t txs) ∧
      Holds st mid' ((env.triedFrom block i txs).foldl (env.takeOne st) t) := by
  induction txs generalizing i n t mid with
  | nil => exact ⟨mid, rfl, h⟩
  | cons tx rest ih =>
    rw [triedFrom] at hsub hin ⊢
    rw [CheckBlockEnv.pass, rejectsFrom]
    cases hskip : env.skips block i tx with
    | true =>
      rw [hskip, if_pos rfl] at hsub hin
      have hsame : env.addBlockTx block i tx mid n = some (mid, n) := by
        unfold CheckBlockEnv.addBlockTx
        rw [hskip, if_pos rfl]
      rw [if_pos rfl, if_pos rfl, hsame, Option.bind_some]
      exact ih hst h hsub hin
    | false =>
      rw [hskip, if_neg Bool.false_ne_true] at hsub hin
      rw [if_neg Bool.false_ne_true, if_neg Bool.false_ne_true]
      have htx := hsub tx List.mem_cons_self
      obtain ⟨mid1, hone, h1⟩ := h.addBlockTx (n := n) hids hst htx hskip hin.1
      obtain ⟨mid2, hrest, h2⟩ := ih (n := n + env.rejectOf block st i t tx) (hst.takeOne htx) h1
        (fun x hx => hsub x (List.mem_cons_of_mem _ hx)) hin.2
      rw [hone, Option.bind_some, hrest, Nat.add_assoc]
      exact ⟨mid2, rfl, h2⟩

/-- A pass stops the node at the first missing input. -/
theorem Holds.pass_none (hids : TxidsAgree (allTxs block st)) {txs : List CTransaction}
    (hst : Stage env block t) (h : Holds st mid t)
    (hsub : ∀ x ∈ env.triedFrom block i txs, x ∈ env.tried block)
    (hmissing : ¬ env.AllInputsThere st t (env.triedFrom block i txs)) :
    env.pass block i txs mid n = none := by
  induction txs generalizing i n t mid with
  | nil => exact absurd trivial hmissing
  | cons tx rest ih =>
    rw [triedFrom] at hsub hmissing
    rw [CheckBlockEnv.pass]
    cases hskip : env.skips block i tx with
    | true =>
      rw [hskip, if_pos rfl] at hsub hmissing
      have hsame : env.addBlockTx block i tx mid n = some (mid, n) := by
        unfold CheckBlockEnv.addBlockTx
        rw [hskip, if_pos rfl]
      rw [hsame, Option.bind_some]
      exact ih hst h hsub hmissing
    | false =>
      rw [hskip, if_neg Bool.false_ne_true] at hsub hmissing
      have htx := hsub tx List.mem_cons_self
      by_cases hin : present st t tx = false → env.pool.InputsThere (env.seen st t) tx
      · obtain ⟨mid1, hone, h1⟩ := h.addBlockTx (n := n) hids hst htx hskip hin
        rw [hone, Option.bind_some]
        exact ih (hst.takeOne htx) h1 (fun x hx => hsub x (List.mem_cons_of_mem _ hx))
          fun hrest => hmissing ⟨hin, hrest⟩
      · rw [Classical.not_imp] at hin
        rw [h.addBlockTx_none hids hst htx hskip hin.1 hin.2]
        rfl

theorem Stage.nil : Stage env block [] where
  tried _ h := absurd h List.not_mem_nil
  fresh _ h := absurd h List.not_mem_nil

theorem holds_putAside : Holds st st.putAside [] := by
  intro x
  rw [List.append_nil, mem_putAside_mempool, mem_kept]

/-- Two passes are enough when the inputs are there: the second takes nothing more and
rejects as many. -/
theorem passes_taken (hids : TxidsAgree (allTxs block st)) (fuel : Nat)
    (hin : env.AllInputsThere st [] (env.tried block)) :
    ∃ mid, env.passes block (fuel + 2) 0 st.putAside = some mid ∧
      Holds st mid (env.taken block st) := by
  have hsub : ∀ x ∈ env.triedFrom block 0 block.vtx, x ∈ env.tried block := fun x hx => hx
  obtain ⟨mid1, hpass1, h1⟩ := holds_putAside.pass (n := 0) hids Stage.nil hsub hin
  obtain ⟨hin2, htake2, hrejects2⟩ := Stage.nil.settled hids hsub hin rfl
  obtain ⟨mid2, hpass2, h2⟩ :=
    h1.pass (n := 0) hids (Stage.nil.foldl_takeOne hsub) hsub hin2
  rw [htake2] at h2
  rw [hrejects2] at hpass2
  rw [passes, hpass1, Option.bind_some]
  split
  · exact ⟨mid1, rfl, h1⟩
  · rw [passes, hpass2, Option.bind_some, if_pos (Or.inr rfl)]
    exact ⟨mid2, rfl, h2⟩

theorem passes_none (hids : TxidsAgree (allTxs block st)) {fuel : Nat}
    (hmissing : ¬ env.AllInputsThere st [] (env.tried block)) :
    env.passes block fuel 0 st.putAside = none := by
  cases fuel with
  | zero => rfl
  | succ fuel =>
    rw [passes, holds_putAside.pass_none hids Stage.nil (fun x hx => hx) hmissing]
    rfl

/-! ## What `CheckBlock` leaves behind -/

variable {fuel : Nat} {fCheckPOW : Bool} {st' : PoolState}

/-- A block that is rejected before the pool is touched, or with the pool in disorder. -/
theorem checkBlock_false (h : env.checkBlock block fuel fCheckPOW st = some (false, st')) :
    ((env.headerOk block fCheckPOW && coinbaseFirst block) = false ∧ st' = st) ∨
      ((env.headerOk block fCheckPOW && coinbaseFirst block) = true ∧
        env.passes block fuel 0 st.putAside = some st') := by
  unfold checkBlock at h
  rw [← Bool.not_and] at h
  cases hearly : env.headerOk block fCheckPOW && coinbaseFirst block with
  | false =>
    rw [hearly, if_pos Bool.not_false] at h
    exact Or.inl ⟨rfl, (congrArg Prod.snd (Option.some.inj h)).symm⟩
  | true =>
    rw [hearly, Bool.not_true, if_neg Bool.false_ne_true] at h
    split at h
    · cases h
    · obtain ⟨mid, hmid, heq⟩ := Option.map_eq_some_iff.1 h
      split at heq
      · cases heq
      · obtain rfl := congrArg Prod.snd heq
        exact Or.inr ⟨rfl, hmid⟩

/-- A block that `CheckBlock` rejects leaves the pool with the transactions it had exactly
if it is rejected for its header or coinbase, before the pool is touched, or if what it
takes is what was put aside. -/
theorem checkBlock_false_unchanged_iff (hids : TxidsAgree (allTxs block st))
    (h : env.checkBlock block fuel fCheckPOW st = some (false, st')) :
    (∀ tx, tx ∈ st'.mempool.txs ↔ tx ∈ st.mempool.txs) ↔
      (env.headerOk block fCheckPOW && coinbaseFirst block) = false ∨
      ∀ tx, tx ∈ env.taken block st ↔ tx ∈ st.mempool.txs ∧ tx.isTransparent = true := by
  rcases checkBlock_false h with ⟨hearly, rfl⟩ | ⟨hpassed, hpasses⟩
  · exact iff_of_true (fun _ => Iff.rfl) (Or.inl hearly)
  · have hin : env.AllInputsThere st [] (env.tried block) := by
      by_contra hmissing
      rw [passes_none hids hmissing] at hpasses
      cases hpasses
    obtain ⟨mid, hmid, hholds⟩ := passes_taken hids fuel hin
    obtain rfl : mid = st' := by
      have hmore := passes_succ (passes_succ hpasses)
      exact Option.some.inj (hmid.symm.trans hmore)
    have hstage : Stage env block (env.taken block st) := Stage.nil.foldl_takeOne fun x hx => hx
    have htr : ∀ tx ∈ env.taken block st, tx.isTransparent = true :=
      fun tx htx => (triedFrom_subset tx (hstage.tried tx htx)).2.1
    rw [hpassed, or_iff_right Bool.noConfusion]
    refine forall_congr' fun tx => ?_
    rw [hholds tx, List.mem_append, mem_kept]
    -- the transactions that stay are the others
    cases hcase : tx.isTransparent with
    | true => simp
    | false =>
      have hnot : tx ∉ env.taken block st := by
        intro htx
        rw [htr tx htx] at hcase
        cases hcase
      simp [hnot]

/-- `CheckBlock` runs to its end exactly if the block does not get as far as the pool, or
the inputs of its transactions are there, each at its turn. -/
theorem checkBlock_isSome_iff (hids : TxidsAgree (allTxs block st)) (fuel : Nat)
    (fCheckPOW : Bool) : (env.checkBlock block (fuel + 2) fCheckPOW st).isSome = true ↔
      (env.headerOk block fCheckPOW && coinbaseFirst block) = false ∨ fCheckPOW = false ∨
        env.AllInputsThere st [] (env.tried block) := by
  unfold checkBlock
  rw [← Bool.not_and]
  cases env.headerOk block fCheckPOW && coinbaseFirst block with
  | false => exact iff_of_true rfl (Or.inl rfl)
  | true =>
    rw [Bool.not_true, if_neg Bool.false_ne_true, or_iff_right Bool.noConfusion]
    cases fCheckPOW with
    | false => exact iff_of_true rfl (Or.inl rfl)
    | true =>
      rw [Bool.not_true, if_neg Bool.false_ne_true, or_iff_right Bool.noConfusion,
        Option.isSome_map]
      constructor
      · intro hsome
        by_contra hmissing
        rw [passes_none hids hmissing] at hsome
        cases hsome
      · intro hin
        obtain ⟨mid, hmid, -⟩ := passes_taken hids fuel hin
        rw [hmid]
        rfl

end CheckBlockEnv

/-! ## Blocks that are rejected -/

namespace RejectedBlock

open CheckBlockEnv SamplePool

/-- The block check of the sample, with a deposit that is not paid. -/
def noDeposit : CheckBlockEnv :=
  { env with depositOk := fun _ => false }

/-- A transaction that spends an output nobody has made. -/
def ghost : CTransaction :=
  { hash := 0x30
    vin := [{ prevout := { hash := 9, n := 0 }, scriptSig := [0x51, 0x51] }]
    vout := [{ nValue := 90000, scriptPubKey := [0x51] }] }

/-- A rejected block with the transaction of the pool leaves it there. -/
theorem same_tx_unchanged : ∃ st',
    noDeposit.checkBlock (block (spender 0x10 90000)) 2 true (state (spender 0x10 90000)) =
      some (false, st') ∧
    ∀ tx, tx ∈ st'.mempool.txs ↔ tx ∈ (state (spender 0x10 90000)).mempool.txs := by
  have hreturns : (noDeposit.checkBlock (block (spender 0x10 90000)) 2 true
      (state (spender 0x10 90000))).map Prod.fst = some false := by decide +kernel
  obtain ⟨⟨verdict, st'⟩, hcheck, hverdict⟩ := Option.map_eq_some_iff.1 hreturns
  obtain rfl : verdict = false := hverdict
  refine ⟨st', hcheck, (checkBlock_false_unchanged_iff same_txidsAgree hcheck).2
    (Or.inr fun tx => ?_)⟩
  have htaken : noDeposit.taken (block (spender 0x10 90000)) (state (spender 0x10 90000)) =
      [spender 0x10 90000] := by decide +kernel
  have htxs : (state (spender 0x10 90000)).mempool.txs = [spender 0x10 90000] := by decide +kernel
  rw [htaken, htxs, List.mem_singleton]
  constructor
  · rintro rfl
    exact ⟨rfl, by decide +kernel⟩
  · exact fun h => h.1

/-- A block whose deposit is not paid takes the transaction of the pool away, and leaves
one of its own there. -/
theorem rejected_block_changes_pool :
    ¬ ∀ (env : CheckBlockEnv) (block : CBlock) (fuel : Nat) (fCheckPOW : Bool)
      (st st' : PoolState), TxidsAgree (allTxs block st) →
      env.checkBlock block fuel fCheckPOW st = some (false, st') →
      ∀ tx, tx ∈ st'.mempool.txs ↔ tx ∈ st.mempool.txs := by
  intro hclaim
  have hreturns : (noDeposit.checkBlock (block (spender 0x20 80000)) 2 true
      (state (spender 0x10 90000))).map (fun p => (p.1, p.2.mempool.txs)) =
        some (false, [spender 0x20 80000]) := by decide +kernel
  obtain ⟨⟨verdict, st'⟩, hcheck, heq⟩ := Option.map_eq_some_iff.1 hreturns
  obtain rfl : verdict = false := congrArg Prod.fst heq
  have htxs : st'.mempool.txs = [spender 0x20 80000] := congrArg Prod.snd heq
  have hmem := (hclaim noDeposit (block (spender 0x20 80000)) 2 true (state (spender 0x10 90000))
    st' other_txidsAgree hcheck (spender 0x20 80000)).1 (by rw [htxs]; exact List.mem_cons_self)
  have hnot : spender 0x20 80000 ∉ (state (spender 0x10 90000)).mempool.txs := by decide +kernel
  exact hnot hmem

/-- The inputs of a block that spends the output at the tip are there. -/
theorem spender_returns : (SamplePool.env.checkBlock (block (spender 0x20 80000)) 2 true
    (state (spender 0x10 90000))).isSome = true := by
  refine (checkBlock_isSome_iff other_txidsAgree 0 true).2 (Or.inr (Or.inr ?_))
  have htried : SamplePool.env.tried (block (spender 0x20 80000)) = [spender 0x20 80000] := by
    decide +kernel
  rw [htried]
  refine ⟨fun _ _ _ _ o ho => ?_, trivial⟩
  obtain rfl := List.mem_singleton.1 ho
  exact ⟨_, rfl, rfl⟩

/-- A block that spends an output nobody has made stops the node. -/
theorem ghost_stops_node :
    ¬ ∀ (env : CheckBlockEnv) (block : CBlock) (fuel : Nat) (fCheckPOW : Bool) (st : PoolState),
      TxidsAgree (allTxs block st) →
      (env.checkBlock block (fuel + 2) fCheckPOW st).isSome = true := by
  intro hclaim
  have hids : TxidsAgree (allTxs (block ghost) (state (spender 0x10 90000))) := by
    unfold TxidsAgree
    decide +kernel
  have hreturns := hclaim SamplePool.env (block ghost) 0 true (state (spender 0x10 90000)) hids
  have hstops : (SamplePool.env.checkBlock (block ghost) (0 + 2) true
      (state (spender 0x10 90000))).isSome = false := by decide +kernel
  rw [hstops] at hreturns
  cases hreturns

end RejectedBlock

end IndexChain
