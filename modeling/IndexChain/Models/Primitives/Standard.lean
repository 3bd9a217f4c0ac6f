import IndexChain.Models.Primitives.Script

/-!
# Standard scripts

`Solver` and `ExtractDestination` of `script/standard.cpp`, and `GetAddressType` of `main.cpp`:
the kind of a script with its solutions, the one destination that it pays to, and the kind of
address under which the address indexes record it.
-/

namespace IndexChain

open IndexChain.Core

/-- `txnouttype`. -/
inductive TxnOutType where
  | nonstandard
  | pubkey
  | pubkeyhash
  | scripthash
  | multisig
  | cryptocondition
  | nullData
  deriving DecidableEq, Repr

/-- `CTxDestination`. -/
inductive CTxDestination where
  | noDestination
  | pubKey (key : List UInt8)
  | keyID (hash : BitVec 160)
  | scriptID (hash : BitVec 160)
  deriving DecidableEq, Repr

/-- An instruction of a template. -/
inductive TemplateOp where
  /-- An instruction that has to be there. -/
  | op (opcode : UInt8)
  /-- `OP_SMALLDATA`. -/
  | smalldata
  /-- `OP_SMALLINTEGER`. -/
  | smallinteger
  /-- `OP_PUBKEYS`. -/
  | pubkeys
  /-- `OP_PUBKEYHASH`. -/
  | pubkeyhash
  /-- `OP_PUBKEY`. -/
  | pubkey
  deriving DecidableEq, Repr

/-- What `Solver` leaves: whether it succeeds, and its two references. -/
structure Solved where
  /-- Whether there is a solution. -/
  ok : Bool
  /-- `typeRet`. -/
  typeRet : TxnOutType
  /-- `vSolutionsRet`. -/
  vSolutionsRet : List (List UInt8)
  deriving DecidableEq, Repr

/-- What the kind of a script depends on besides the script. -/
structure StandardEnv where
  /-- `Hash160`. -/
  hash160 : List UInt8 → BitVec 160
  /-- `IsCryptoConditionsEnabled`. -/
  isCryptoConditionsEnabled : Bool
  /-- `MayAcceptCryptoCondition`. -/
  mayAcceptCryptoCondition : CScript → Bool
  /-- The keys of `COptCCParams`, none when it is not valid. Its constructor leaves the version
  unset for data that it does not parse. -/
  ccKeys : List UInt8 → List (List UInt8)
  /-- `-datacarrier`. -/
  datacarrier : Bool
  /-- `nMaxDatacarrierBytes`. -/
  nMaxDatacarrierBytes : Nat

namespace CScript

/-- `IsPayToScriptHash`. -/
def isPayToScriptHash (s : CScript) : Bool :=
  s.length = 23 ∧ s[0]? = some 0xa9 ∧ s[1]? = some 0x14 ∧ s[22]? = some 0x87

/-- `IsCheckLockTimeVerify`. -/
def isCheckLockTimeVerify (s : CScript) : Bool :=
  match getOp s with
  | some (_, unlockTimeParam, _) =>
    unlockTimeParam.length < 6 ∧ s[unlockTimeParam.length + 1]? = some 0xb1
  | none => false

/-- The keys from an operand on, with the instruction after them. -/
def takeKeys : Nat → UInt8 → List UInt8 → CScript →
    List (List UInt8) × UInt8 × List UInt8 × CScript
  | 0, opcode, vch, pc => ([], opcode, vch, pc)
  | fuel + 1, opcode, vch, pc =>
    if 33 ≤ vch.length ∧ vch.length ≤ 65 then
      match getOp pc with
      -- `GetOp` leaves `OP_INVALIDOPCODE`
      | none => ([vch], 0xff, [], [])
      | some (opcode', vch', pc') =>
        let r := takeKeys fuel opcode' vch' pc'
        (vch :: r.1, r.2)
    else ([], opcode, vch, pc)

end CScript

namespace StandardEnv

variable (e : StandardEnv)

open CScript

/-- The solutions of an instruction that fits an instruction of a template. -/
def accepts (opcode : UInt8) (vch : List UInt8) : TemplateOp → Option (List (List UInt8))
  | .pubkey => if vch.length < 33 ∨ 65 < vch.length then none else some [vch]
  | .pubkeyhash => if vch.length ≠ 20 then none else some [vch]
  | .smallinteger =>
    if opcode = 0 then some [[0]]
    else if 0x51 ≤ opcode ∧ opcode ≤ 0x60 then some [[opcode - 0x50]]
    else none
  | .smalldata => if e.nMaxDatacarrierBytes < vch.length then none else some []
  | .op opcode2 => if opcode ≠ opcode2 ∨ vch ≠ [] then none else some []
  | .pubkeys => none

/-- The solutions of a script that matches a template. -/
def matchTemplate : List TemplateOp → CScript → Option (List (List UInt8))
  | [], s => if s = [] then some [] else none
  | .pubkeys :: t :: ts, s => do
    let (opcode, vch, pc) ← getOp s
    let (keys, opcode, vch, pc) := takeKeys (s.length) opcode vch pc
    let sols ← e.accepts opcode vch t
    let rest ← matchTemplate ts pc
    return keys ++ sols ++ rest
  | t :: ts, s => do
    let (opcode, vch, pc) ← getOp s
    let sols ← e.accepts opcode vch t
    let rest ← matchTemplate ts pc
    return sols ++ rest

/-- `mTemplates`, in the order of the multimap. -/
def templates : List (TxnOutType × List TemplateOp) :=
  [(TxnOutType.pubkey, [TemplateOp.pubkey, .op 0xac]),
    (.pubkeyhash, [.op 0x76, .op 0xa9, .pubkeyhash, .op 0x88, .op 0xac]),
    (.multisig, [.smallinteger, .pubkeys, .smallinteger, .op 0xae])] ++
  (if e.datacarrier then [(TxnOutType.nullData, [TemplateOp.op 0x6a, .smalldata])] else []) ++
  [(TxnOutType.nullData, [TemplateOp.op 0x6a])]

/-- The additional checks for `TX_MULTISIG`. -/
def multisigOk (vSolutionsRet : List (List UInt8)) : Bool :=
  let m := (vSolutionsRet.head?.bind List.head?).getD 0
  let n := (vSolutionsRet.getLast?.bind List.head?).getD 0
  ¬ (m < 1 ∨ n < 1 ∨ n < m ∨ vSolutionsRet.length - 2 ≠ n.toNat)

/-- The first template that matches. -/
def scanTemplates (s : CScript) : List (TxnOutType × List TemplateOp) → Solved
  | [] => ⟨false, .nonstandard, []⟩
  | (typeRet, template) :: rest =>
    match e.matchTemplate template s with
    | none => scanTemplates s rest
    | some vSolutionsRet => ⟨typeRet ≠ .multisig ∨ multisigOk vSolutionsRet, typeRet, vSolutionsRet⟩

/-- `Solver`. A condition that may not be accepted leaves the references as they are. -/
def solver (s : CScript) : Solved :=
  if isPayToScriptHash s then ⟨true, .scripthash, [(s.drop 2).take 20]⟩
  else match if e.isCryptoConditionsEnabled then payToCryptoCondition s else none with
    | some (ccSubScript, vParams) =>
      if e.mayAcceptCryptoCondition s then
        ⟨true, .cryptocondition, leBytes 20 (e.hash160 ccSubScript).toNat ::
          vParams.head?.elim [] e.ccKeys⟩
      else ⟨false, .nonstandard, []⟩
    | none => e.scanTemplates s e.templates

/-- `IsValid` of a `CPubKey` that is made of these bytes. -/
def isValidPubKey : List UInt8 → Bool
  | [] => false
  | header :: rest =>
    let len := if header = 2 ∨ header = 3 then 33
      else if header = 4 ∨ header = 6 ∨ header = 7 then 65 else 0
    len ≠ 0 ∧ len = rest.length + 1

/-- A `uint160` of bytes. -/
def uint160 (vch : List UInt8) : BitVec 160 :=
  BitVec.ofNat 160 (leNat vch)

/-- The script that `ExtractDestination` solves: without the lock of a CLTV script. -/
def afterCLTV (s : CScript) : CScript :=
  if isCheckLockTimeVerify s then s.drop ((s.head?.getD 0).toNat + 3) else s

/-- `ExtractDestination`. -/
def extractDestination (s : CScript) : Option CTxDestination :=
  let r := e.solver (afterCLTV s)
  if ¬ r.ok then none
  else match r.typeRet, r.vSolutionsRet with
    | .pubkey, vch :: _ => if isValidPubKey vch then some (.keyID (e.hash160 vch)) else none
    | .pubkeyhash, vch :: _ => some (.keyID (uint160 vch))
    | .scripthash, vch :: _ => some (.scriptID (uint160 vch))
    | .cryptocondition, vch :: sols =>
      if ¬ e.isCryptoConditionsEnabled then none
      else match sols with
        | pk :: _ => if isValidPubKey pk then some (.pubKey pk) else none
        | [] => some (.keyID (uint160 vch))
    | _, _ => none

/-- The key of a destination as `GetKeyID` of its address gives it. -/
def keyIDs : CTxDestination → List (List UInt8)
  | .noDestination => []
  | .pubKey vch => [leBytes 20 (e.hash160 vch).toNat]
  | .keyID id => [leBytes 20 id.toNat]
  | .scriptID _ => []

/-- `GetAddressType`: the destination is only extracted when there is no solution. -/
def getAddressType (s : CScript) : Nat × List (List UInt8) :=
  let r := e.solver s
  if r.ok then
    (if r.typeRet = .scripthash then 2 else if r.typeRet = .cryptocondition then 3 else 1,
      r.vSolutionsRet)
  else match e.extractDestination s with
    | some vDest => (1, r.vSolutionsRet ++ e.keyIDs vDest)
    | none => (0, r.vSolutionsRet)

/-! ## Scripts for a destination -/

/-- `GetScriptForDestination`. -/
def getScriptForDestination : CTxDestination → CScript
  | .noDestination => []
  | .pubKey vch => pushBytes vch ++ [0xac]
  | .keyID id => [0x76, 0xa9] ++ pushBytes (leBytes 20 id.toNat) ++ [0x88, 0xac]
  | .scriptID id => [0xa9] ++ pushBytes (leBytes 20 id.toNat) ++ [0x87]

/-- A payment to a script hash is solved by the hash. -/
theorem solver_scriptID (id : BitVec 160) :
    e.solver (getScriptForDestination (.scriptID id)) =
      ⟨true, .scripthash, [leBytes 20 id.toNat]⟩ := rfl

theorem uint160_leBytes (id : BitVec 160) : uint160 (leBytes 20 id.toNat) = id := by
  have hlt : id.toNat < 256 ^ 20 := id.isLt
  rw [uint160, leNat_leBytes hlt, BitVec.ofNat_toNat, BitVec.setWidth_eq]

/-- The destination of a script for a script hash is the script hash. -/
theorem extractDestination_scriptID (id : BitVec 160) :
    e.extractDestination (getScriptForDestination (.scriptID id)) = some (.scriptID id) := by
  have hcltv : afterCLTV (getScriptForDestination (.scriptID id)) =
      getScriptForDestination (.scriptID id) := rfl
  unfold extractDestination
  rw [hcltv, solver_scriptID]
  exact congrArg (fun id => some (CTxDestination.scriptID id)) (uint160_leBytes id)

/-- The kinds of address. -/
theorem getAddressType_cases {s : CScript} (h : (e.getAddressType s).1 ≠ 0) :
    (e.getAddressType s).1 = 1 ∨ (e.getAddressType s).1 = 2 ∨ (e.getAddressType s).1 = 3 := by
  unfold getAddressType at h ⊢
  dsimp only at h ⊢
  by_cases hok : (e.solver s).ok = true
  · rw [if_pos hok]
    dsimp only
    split
    · exact Or.inr (Or.inl rfl)
    · split
      · exact Or.inr (Or.inr rfl)
      · exact Or.inl rfl
  · rw [if_neg hok] at h ⊢
    cases hdest : e.extractDestination s with
    | none =>
      rw [hdest] at h
      exact absurd rfl h
    | some vDest => exact Or.inl rfl

end StandardEnv

end IndexChain
