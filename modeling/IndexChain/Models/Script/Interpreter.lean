import IndexChain.Core.Checked
import IndexChain.Models.Primitives.Standard
import IndexChain.Models.Script.Number

/-!
# The script interpreter

`EvalScript` and `VerifyScript` of `script/interpreter.cpp`: a stack machine that runs one
instruction after the other, and the test of an input script against an output script. The
signature checks, the hash functions and the conditions are parameters.
-/

namespace IndexChain

open IndexChain.Core

/-- An element of the stack. -/
abbrev Valtype : Type := List UInt8

/-- `ScriptError`, without `SCRIPT_ERR_OK`. -/
inductive ScriptError where
  | unknownError
  | evalFalse
  | opReturn
  | scriptSize
  | pushSize
  | opCount
  | stackSize
  | sigCount
  | pubkeyCount
  | verify
  | equalverify
  | checkmultisigverify
  | checksigverify
  | numequalverify
  | badOpcode
  | disabledOpcode
  | invalidStackOperation
  | invalidAltstackOperation
  | unbalancedConditional
  | negativeLocktime
  | unsatisfiedLocktime
  | sigHashtype
  | sigDer
  | minimaldata
  | sigPushonly
  | sigNulldummy
  | pubkeytype
  | cleanstack
  | discourageUpgradableNops
  | cryptoconditionVerify
  | cryptoconditionInvalidFulfillment
  deriving DecidableEq, Repr

/-- The bits `SCRIPT_VERIFY_...` of `flags`. -/
structure ScriptFlags where
  p2sh : Bool := false
  strictenc : Bool := false
  lowS : Bool := false
  nulldummy : Bool := false
  sigpushonly : Bool := false
  minimaldata : Bool := false
  discourageUpgradableNops : Bool := false
  cleanstack : Bool := false
  checklocktimeverify : Bool := false
  deriving DecidableEq, Repr

/-- `BaseSignatureChecker`. -/
structure SignatureChecker where
  /-- `CheckSig` for a signature, a key, the script and the branch. -/
  checkSig : Valtype → Valtype → CScript → UInt32 → Bool
  /-- `CheckLockTime`. -/
  checkLockTime : Int → Bool
  /-- `CheckCryptoCondition` for a condition and a fulfillment. -/
  checkCryptoCondition : Valtype → Valtype → CScript → UInt32 → Int

/-- What a script is evaluated with. -/
structure ScriptEnv where
  /-- `flags`. -/
  flags : ScriptFlags
  /-- `checker`. -/
  checker : SignatureChecker
  /-- `consensusBranchId`. -/
  consensusBranchId : UInt32
  /-- `IsCryptoConditionsEnabled`. -/
  isCryptoConditionsEnabled : Bool
  /-- `CPubKey::CheckLowS`. -/
  checkLowS : Valtype → Bool
  /-- `CRIPEMD160`. -/
  ripemd160 : Valtype → Vector UInt8 20
  /-- `CSHA1`. -/
  sha1 : Valtype → Vector UInt8 20
  /-- `CSHA256`. -/
  sha256 : Valtype → Vector UInt8 32

/-! ## Instructions -/

/-- The instructions that only move elements. -/
inductive StackOp where
  | op2drop | op2dup | op3dup | op2over | op2rot | op2swap | opIfdup | opDepth | opDrop
  | opDup | opNip | opOver | opRot | opSwap | opTuck | opSize
  deriving DecidableEq, Repr

/-- The numeric instructions on one number. -/
inductive UnaryOp where
  | op1add | op1sub | opNegate | opAbs | opNot | op0notequal
  deriving DecidableEq, Repr

/-- The numeric instructions on two numbers. -/
inductive BinaryOp where
  | opAdd | opSub | opBooland | opBoolor | opNumequal | opNumnotequal | opLessthan
  | opGreaterthan | opLessthanorequal | opGreaterthanorequal | opMin | opMax
  deriving DecidableEq, Repr

/-- The hash functions. -/
inductive HashOp where
  | opRipemd160 | opSha1 | opSha256 | opHash160 | opHash256
  deriving DecidableEq, Repr

/-- The cases of the switch that change `vfExec`. -/
inductive ControlOp where
  | opIf (notIf : Bool)
  | opElse
  | opEndif
  deriving DecidableEq, Repr

/-- The other cases, those with and without `VERIFY` as one. -/
inductive ScriptOp where
  | pushNumber (n : Int)
  | opNop
  | opChecklocktimeverify
  | upgradableNop
  | opVerify
  | opReturn
  | opToaltstack
  | opFromaltstack
  | move (op : StackOp)
  | opPick (roll : Bool)
  | opEqual (verify : Bool)
  | unary (op : UnaryOp)
  | binary (op : BinaryOp)
  | opNumequalverify
  | opWithin
  | hash (op : HashOp)
  | opChecksig (verify : Bool)
  | opCheckmultisig (verify : Bool)
  | opCheckcryptocondition (verify : Bool)
  deriving DecidableEq, Repr

/-- The opcodes that change `vfExec`. -/
def controlOps : List (UInt8 × ControlOp) :=
  [(0x63, .opIf false), (0x64, .opIf true), (0x67, .opElse), (0x68, .opEndif)]

/-- The other opcodes of the switch, after the numbers. -/
def scriptOps : List (UInt8 × ScriptOp) :=
  [(0x61, .opNop), (0x69, .opVerify), (0x6a, .opReturn), (0x6b, .opToaltstack),
    (0x6c, .opFromaltstack), (0x6d, .move .op2drop), (0x6e, .move .op2dup), (0x6f, .move .op3dup),
    (0x70, .move .op2over), (0x71, .move .op2rot), (0x72, .move .op2swap),
    (0x73, .move .opIfdup), (0x74, .move .opDepth), (0x75, .move .opDrop),
    (0x76, .move .opDup), (0x77, .move .opNip), (0x78, .move .opOver), (0x79, .opPick false),
    (0x7a, .opPick true), (0x7b, .move .opRot), (0x7c, .move .opSwap), (0x7d, .move .opTuck),
    (0x82, .move .opSize), (0x87, .opEqual false), (0x88, .opEqual true),
    (0x8b, .unary .op1add), (0x8c, .unary .op1sub), (0x8f, .unary .opNegate),
    (0x90, .unary .opAbs), (0x91, .unary .opNot), (0x92, .unary .op0notequal),
    (0x93, .binary .opAdd), (0x94, .binary .opSub), (0x9a, .binary .opBooland),
    (0x9b, .binary .opBoolor), (0x9c, .binary .opNumequal), (0x9d, .opNumequalverify),
    (0x9e, .binary .opNumnotequal), (0x9f, .binary .opLessthan),
    (0xa0, .binary .opGreaterthan), (0xa1, .binary .opLessthanorequal),
    (0xa2, .binary .opGreaterthanorequal), (0xa3, .binary .opMin), (0xa4, .binary .opMax),
    (0xa5, .opWithin), (0xa6, .hash .opRipemd160), (0xa7, .hash .opSha1),
    (0xa8, .hash .opSha256), (0xa9, .hash .opHash160), (0xaa, .hash .opHash256),
    (0xac, .opChecksig false), (0xad, .opChecksig true), (0xae, .opCheckmultisig false),
    (0xaf, .opCheckmultisig true), (0xb0, .upgradableNop), (0xb1, .opChecklocktimeverify),
    (0xb2, .upgradableNop), (0xb3, .upgradableNop), (0xb4, .upgradableNop),
    (0xb5, .upgradableNop), (0xb6, .upgradableNop), (0xb7, .upgradableNop),
    (0xb8, .upgradableNop), (0xb9, .upgradableNop), (0xcc, .opCheckcryptocondition false),
    (0xcd, .opCheckcryptocondition true)]

/-- The case of an opcode; `none` for the default. -/
def scriptOpOf (opcode : UInt8) : Option ScriptOp :=
  if opcode = 0x4f ∨ (0x51 ≤ opcode ∧ opcode ≤ 0x60) then
    some (.pushNumber ((opcode.toNat : Int) - 0x50))
  else scriptOps.lookup opcode

/-- The disabled opcodes: `OP_CAT`, `OP_SUBSTR`, `OP_LEFT`, `OP_RIGHT`, `OP_INVERT`, `OP_AND`,
`OP_OR`, `OP_XOR`, `OP_2MUL`, `OP_2DIV`, `OP_MUL`, `OP_DIV`, `OP_MOD`, `OP_LSHIFT`, `OP_RSHIFT`
and `OP_CODESEPARATOR`. -/
def disabledOps : List UInt8 :=
  [0x7e, 0x7f, 0x80, 0x81, 0x83, 0x84, 0x85, 0x86, 0x8d, 0x8e, 0x95, 0x96, 0x97, 0x98, 0x99, 0xab]

/-! ## Elements -/

/-- `CastToBool`: a zero at the end may have a sign. -/
def castToBool : Valtype → Bool
  | [] => false
  | [b] => b ≠ 0 ∧ b ≠ 0x80
  | b :: bs => b ≠ 0 ∨ castToBool bs

/-- `vchTrue` and `vchFalse`. -/
def vchBool (b : Bool) : Valtype := if b then [1] else []

/-- `IsCompressedOrUncompressedPubKey`. -/
def isCompressedOrUncompressedPubKey (vchPubKey : Valtype) : Bool :=
  match vchPubKey with
  | 0x04 :: _ => vchPubKey.length = 65
  | 0x02 :: _ => vchPubKey.length = 33
  | 0x03 :: _ => vchPubKey.length = 33
  | _ => false

/-- `IsValidSignatureEncoding`. -/
def isValidSignatureEncoding (sig : Valtype) : Bool :=
  let byte := fun i => (sig[i]?.getD 0).toNat
  let lenR := byte 3
  let lenS := byte (5 + lenR)
  9 ≤ sig.length ∧ sig.length ≤ 73 ∧ byte 0 = 0x30 ∧ byte 1 = sig.length - 3 ∧
    5 + lenR < sig.length ∧ lenR + lenS + 7 = sig.length ∧
    byte 2 = 0x02 ∧ lenR ≠ 0 ∧ byte 4 < 0x80 ∧ ¬ (1 < lenR ∧ byte 4 = 0 ∧ byte 5 < 0x80) ∧
    byte (lenR + 4) = 0x02 ∧ lenS ≠ 0 ∧ byte (lenR + 6) < 0x80 ∧
    ¬ (1 < lenS ∧ byte (lenR + 6) = 0 ∧ byte (lenR + 7) < 0x80)

/-- `IsDefinedHashtypeSignature`. -/
def isDefinedHashtypeSignature (vchSig : Valtype) : Bool :=
  match vchSig.getLast? with
  | none => false
  | some last =>
    let nHashType := last &&& 0x7f
    1 ≤ nHashType ∧ nHashType ≤ 3

/-- `CheckMinimalPush`. -/
def checkMinimalPush (data : Valtype) (opcode : UInt8) : Bool :=
  match data with
  | [] => opcode = 0
  | [b] => if 1 ≤ b ∧ b ≤ 16 then opcode = 0x50 + b else if b = 0x81 then opcode = 0x4f
    else opcode = 1
  | _ => if data.length ≤ 75 then opcode.toNat = data.length
    else if data.length ≤ 255 then opcode = 0x4c
    else if data.length ≤ 65535 then opcode = 0x4d
    else true

/-- What `stackOp` makes of the stack, its top first; `none` when it is too small. -/
def stackOp : StackOp → List Valtype → Option (List Valtype)
  | .op2drop, _ :: _ :: s => some s
  | .op2dup, x2 :: x1 :: s => some (x2 :: x1 :: x2 :: x1 :: s)
  | .op3dup, x3 :: x2 :: x1 :: s => some (x3 :: x2 :: x1 :: x3 :: x2 :: x1 :: s)
  | .op2over, x4 :: x3 :: x2 :: x1 :: s => some (x2 :: x1 :: x4 :: x3 :: x2 :: x1 :: s)
  | .op2rot, x6 :: x5 :: x4 :: x3 :: x2 :: x1 :: s => some (x2 :: x1 :: x6 :: x5 :: x4 :: x3 :: s)
  | .op2swap, x4 :: x3 :: x2 :: x1 :: s => some (x2 :: x1 :: x4 :: x3 :: s)
  | .opIfdup, x :: s => some (if castToBool x then x :: x :: s else x :: s)
  | .opDepth, s => some (CScriptNum.serialize s.length :: s)
  | .opDrop, _ :: s => some s
  | .opDup, x :: s => some (x :: x :: s)
  | .opNip, x2 :: _ :: s => some (x2 :: s)
  | .opOver, x2 :: x1 :: s => some (x1 :: x2 :: x1 :: s)
  | .opRot, x3 :: x2 :: x1 :: s => some (x1 :: x3 :: x2 :: s)
  | .opSwap, x2 :: x1 :: s => some (x1 :: x2 :: s)
  | .opTuck, x2 :: x1 :: s => some (x2 :: x1 :: x2 :: s)
  | .opSize, x :: s => some (CScriptNum.serialize x.length :: x :: s)
  | _, _ => none

/-- A number for a truth value. -/
def numBool (b : Bool) : Int := if b then 1 else 0

/-- The numeric instructions on one number. -/
def unaryOp : UnaryOp → Int → Int
  | .op1add, bn => bn + 1
  | .op1sub, bn => bn - 1
  | .opNegate, bn => -bn
  | .opAbs, bn => if bn < 0 then -bn else bn
  | .opNot, bn => numBool (bn = 0)
  | .op0notequal, bn => numBool (bn ≠ 0)

/-- The numeric instructions on two numbers. -/
def binaryOp : BinaryOp → Int → Int → Int
  | .opAdd, bn1, bn2 => bn1 + bn2
  | .opSub, bn1, bn2 => bn1 - bn2
  | .opBooland, bn1, bn2 => numBool (bn1 ≠ 0 ∧ bn2 ≠ 0)
  | .opBoolor, bn1, bn2 => numBool (bn1 ≠ 0 ∨ bn2 ≠ 0)
  | .opNumequal, bn1, bn2 => numBool (bn1 = bn2)
  | .opNumnotequal, bn1, bn2 => numBool (bn1 ≠ bn2)
  | .opLessthan, bn1, bn2 => numBool (bn1 < bn2)
  | .opGreaterthan, bn1, bn2 => numBool (bn2 < bn1)
  | .opLessthanorequal, bn1, bn2 => numBool (bn1 ≤ bn2)
  | .opGreaterthanorequal, bn1, bn2 => numBool (bn2 ≤ bn1)
  | .opMin, bn1, bn2 => if bn1 < bn2 then bn1 else bn2
  | .opMax, bn1, bn2 => if bn2 < bn1 then bn1 else bn2

/-! ## The machine -/

/-- The stacks, their last element first, and `nOpCount`. -/
structure ScriptStacks where
  /-- `stack`. -/
  stack : List Valtype
  /-- `altstack`. -/
  altstack : List Valtype
  /-- `nOpCount`. -/
  nOpCount : Nat
  deriving DecidableEq, Repr

/-- The variables of `EvalScript`. -/
structure ScriptState extends ScriptStacks where
  /-- `vfExec`, its last element first. -/
  vfExec : List Bool
  deriving DecidableEq, Repr

/-- The variables before the first instruction. -/
def ScriptState.start (stack : List Valtype) : ScriptState := ⟨⟨stack, [], 0⟩, []⟩

/-- `fExec`. -/
def ScriptState.fExec (s : ScriptState) : Bool := !s.vfExec.contains false

/-- The same variables with another stack. -/
def ScriptStacks.withStack (s : ScriptStacks) (stack : List Valtype) : ScriptStacks :=
  { s with stack }

/-- The end of an instruction that leaves a truth value, or tests it. -/
def ScriptStacks.leave (s : ScriptStacks) (stack : List Valtype) (fValue verify : Bool)
    (err : ScriptError) : Except ScriptError ScriptStacks :=
  if verify then if fValue then .ok (s.withStack stack) else .error err
  else .ok (s.withStack (vchBool fValue :: stack))

/-- What `OP_CHECKMULTISIG` finds on the stack. -/
structure MultisigArgs where
  /-- The signatures, the last one first. -/
  sigs : List Valtype
  /-- The keys, the last one first. -/
  keys : List Valtype
  /-- The element that is dropped without a use. -/
  dummy : Valtype
  /-- The rest of the stack. -/
  below : List Valtype
  deriving DecidableEq, Repr

namespace ScriptEnv

variable (e : ScriptEnv)

/-- `CheckSignatureEncoding`. `IsLowDERSignature` leaves the error that was set before. -/
def checkSignatureEncoding (vchSig : Valtype) : Except ScriptError Unit :=
  if vchSig = [] then .ok ()
  else if ¬ isValidSignatureEncoding vchSig then .error .sigDer
  else if e.flags.lowS ∧ ¬ e.checkLowS vchSig.dropLast then .error .unknownError
  else if e.flags.strictenc ∧ ¬ isDefinedHashtypeSignature vchSig then .error .sigHashtype
  else .ok ()

/-- `CheckPubKeyEncoding`. -/
def checkPubKeyEncoding (vchPubKey : Valtype) : Except ScriptError Unit :=
  require (¬ (e.flags.strictenc ∧ ¬ isCompressedOrUncompressedPubKey vchPubKey)) .pubkeytype

/-- A number of 4 bytes. What its constructor throws is caught at the end of `EvalScript`. -/
def number (vch : Valtype) : Except ScriptError Int :=
  match CScriptNum.ofVch vch e.flags.minimaldata 4 with
  | some bn => .ok bn
  | none => .error .unknownError

/-- `CHash160`. -/
def hash160 (vch : Valtype) : Vector UInt8 20 := e.ripemd160 (e.sha256 vch).toList

/-- The hash functions. -/
def hashOp : HashOp → Valtype → Valtype
  | .opRipemd160, vch => (e.ripemd160 vch).toList
  | .opSha1, vch => (e.sha1 vch).toList
  | .opSha256, vch => (e.sha256 vch).toList
  | .opHash160, vch => (e.hash160 vch).toList
  | .opHash256, vch => (e.sha256 (e.sha256 vch).toList).toList

/-- One signature against one key, with the tests of their encodings. -/
def checkOne (script : CScript) (vchSig vchPubKey : Valtype) : Except ScriptError Bool := do
  e.checkSignatureEncoding vchSig
  e.checkPubKeyEncoding vchPubKey
  return e.checker.checkSig vchSig vchPubKey script e.consensusBranchId

/-- The loop of `OP_CHECKMULTISIG` over the signatures and the keys that are left. -/
def checkMultisig (script : CScript) : List Valtype → List Valtype → Except ScriptError Bool
  | [], _ => .ok true
  | _ :: _, [] => .ok false
  | vchSig :: sigs, vchPubKey :: keys => do
    let fOk ← e.checkOne script vchSig vchPubKey
    let left := if fOk then sigs else vchSig :: sigs
    if keys.length < left.length then .ok false else checkMultisig script left keys

/-- The first part of `OP_CHECKMULTISIG`: its arguments and `nOpCount`. -/
def multisigArgs (s : ScriptStacks) : Except ScriptError (MultisigArgs × Nat) :=
  match s.stack with
  | [] => .error .invalidStackOperation
  | vchKeys :: stack => do
    let nKeysCount ← e.number vchKeys
    require (0 ≤ nKeysCount ∧ nKeysCount ≤ 20) .pubkeyCount
    let nOpCount := s.nOpCount + nKeysCount.toNat
    require (nOpCount ≤ 201) .opCount
    match stack.drop nKeysCount.toNat with
    | [] => .error .invalidStackOperation
    | vchSigs :: stack' => do
      let nSigsCount ← e.number vchSigs
      require (0 ≤ nSigsCount ∧ nSigsCount ≤ nKeysCount) .sigCount
      -- the element that is dropped at the end counts
      match stack'.drop nSigsCount.toNat with
      | [] => .error .invalidStackOperation
      | dummy :: below =>
        return (⟨stack'.take nSigsCount.toNat, stack.take nKeysCount.toNat, dummy, below⟩, nOpCount)

/-- `OP_CHECKMULTISIG`. -/
def evalMultisig (script : CScript) (verify : Bool) (s : ScriptStacks) :
    Except ScriptError ScriptStacks := do
  let (args, nOpCount) ← e.multisigArgs s
  let fSuccess ← e.checkMultisig script args.sigs args.keys
  require (¬ (e.flags.nulldummy ∧ args.dummy ≠ [])) .sigNulldummy
  { s with nOpCount }.leave args.below fSuccess verify .checkmultisigverify

/-- `OP_PICK` and `OP_ROLL`. -/
def evalPick (roll : Bool) (s : ScriptStacks) : Except ScriptError ScriptStacks :=
  match s.stack with
  | vchN :: x :: stack => do
    let n ← e.number vchN
    match if n < 0 then none else (x :: stack)[n.toNat]? with
    | none => .error .invalidStackOperation
    | some vch =>
      return s.withStack (vch :: if roll then (x :: stack).eraseIdx n.toNat else x :: stack)
  | _ => .error .invalidStackOperation

/-- `OP_CHECKLOCKTIMEVERIFY`. -/
def evalLockTime (s : ScriptStacks) : Except ScriptError ScriptStacks :=
  if ¬ e.flags.checklocktimeverify then
    if e.flags.discourageUpgradableNops then .error .discourageUpgradableNops else .ok s
  else match s.stack with
    | [] => .error .invalidStackOperation
    | vch :: _ => match CScriptNum.ofVch vch e.flags.minimaldata 5 with
      | none => .error .unknownError
      | some nLockTime =>
        if nLockTime < 0 then .error .negativeLocktime
        else if ¬ e.checker.checkLockTime nLockTime then .error .unsatisfiedLocktime
        else .ok s

/-- `OP_CHECKCRYPTOCONDITION`. -/
def evalCondition (script : CScript) (verify : Bool) (s : ScriptStacks) :
    Except ScriptError ScriptStacks :=
  if ¬ e.isCryptoConditionsEnabled then .error .badOpcode
  else match s.stack with
    | cond :: ffill :: stack =>
      let fResult := e.checker.checkCryptoCondition cond ffill script e.consensusBranchId
      if fResult = -1 then .error .cryptoconditionInvalidFulfillment
      else s.leave stack (fResult = 1) verify .cryptoconditionVerify
    | _ => .error .invalidStackOperation

/-- The cases of the switch that leave `vfExec` as it is. -/
def evalOp (script : CScript) (s : ScriptStacks) : ScriptOp → Except ScriptError ScriptStacks
  | .pushNumber n => .ok (s.withStack (CScriptNum.serialize n :: s.stack))
  | .opNop => .ok s
  | .opChecklocktimeverify => e.evalLockTime s
  | .upgradableNop =>
    if e.flags.discourageUpgradableNops then .error .discourageUpgradableNops else .ok s
  | .opVerify => match s.stack with
    | [] => .error .invalidStackOperation
    | vch :: stack => if castToBool vch then .ok (s.withStack stack) else .error .verify
  | .opReturn => .error .opReturn
  | .opToaltstack => match s.stack with
    | [] => .error .invalidStackOperation
    | vch :: stack => .ok { s with stack, altstack := vch :: s.altstack }
  | .opFromaltstack => match s.altstack with
    | [] => .error .invalidAltstackOperation
    | vch :: altstack => .ok { s with stack := vch :: s.stack, altstack }
  | .move op => match stackOp op s.stack with
    | some stack => .ok (s.withStack stack)
    | none => .error .invalidStackOperation
  | .opPick roll => e.evalPick roll s
  | .opEqual verify => match s.stack with
    | vch2 :: vch1 :: stack => s.leave stack (vch1 = vch2) verify .equalverify
    | _ => .error .invalidStackOperation
  | .unary op => match s.stack with
    | vch :: stack => do
      let bn ← e.number vch
      return s.withStack (CScriptNum.serialize (unaryOp op bn) :: stack)
    | _ => .error .invalidStackOperation
  | .binary op => match s.stack with
    | vch2 :: vch1 :: stack => do
      let bn1 ← e.number vch1
      let bn2 ← e.number vch2
      return s.withStack (CScriptNum.serialize (binaryOp op bn1 bn2) :: stack)
    | _ => .error .invalidStackOperation
  | .opNumequalverify => match s.stack with
    | vch2 :: vch1 :: stack => do
      let bn1 ← e.number vch1
      let bn2 ← e.number vch2
      let fValue := castToBool (CScriptNum.serialize (binaryOp .opNumequal bn1 bn2))
      s.leave stack fValue true .numequalverify
    | _ => .error .invalidStackOperation
  | .opWithin => match s.stack with
    | vch3 :: vch2 :: vch1 :: stack => do
      let bn1 ← e.number vch1
      let bn2 ← e.number vch2
      let bn3 ← e.number vch3
      return s.withStack (vchBool (bn2 ≤ bn1 ∧ bn1 < bn3) :: stack)
    | _ => .error .invalidStackOperation
  | .hash op => match s.stack with
    | vch :: stack => .ok (s.withStack (e.hashOp op vch :: stack))
    | _ => .error .invalidStackOperation
  | .opChecksig verify => match s.stack with
    | vchPubKey :: vchSig :: stack => do
      let fSuccess ← e.checkOne script vchSig vchPubKey
      s.leave stack fSuccess verify .checksigverify
    | _ => .error .invalidStackOperation
  | .opCheckmultisig verify => e.evalMultisig script verify s
  | .opCheckcryptocondition verify => e.evalCondition script verify s

end ScriptEnv

/-- The cases of the switch that change `vfExec`. -/
def ScriptState.evalControl (s : ScriptState) : ControlOp → Except ScriptError ScriptState
  | .opIf notIf =>
    if s.fExec then match s.stack with
      | [] => .error .unbalancedConditional
      | vch :: stack => .ok { s with stack, vfExec := (castToBool vch != notIf) :: s.vfExec }
    else .ok { s with vfExec := false :: s.vfExec }
  | .opElse => match s.vfExec with
    | [] => .error .unbalancedConditional
    | fValue :: vfExec => .ok { s with vfExec := (!fValue) :: vfExec }
  | .opEndif => match s.vfExec with
    | [] => .error .unbalancedConditional
    | _ :: vfExec => .ok { s with vfExec }

namespace ScriptEnv

variable (e : ScriptEnv)

/-- The effect of an instruction on the stacks. -/
def onStacks (script : CScript) (opcode : UInt8) (vchPushValue : Valtype) (s : ScriptStacks) :
    Except ScriptError ScriptStacks :=
  if opcode ≤ CScript.opPushdata4 then
    if e.flags.minimaldata ∧ ¬ checkMinimalPush vchPushValue opcode then .error .minimaldata
    else .ok (s.withStack (vchPushValue :: s.stack))
  else match scriptOpOf opcode with
    | some op => e.evalOp script s op
    | none => .error .badOpcode

/-- What an instruction does after it was counted. One that is not executed has an effect from
`OP_IF` to `OP_ENDIF` only. -/
def execute (script : CScript) (opcode : UInt8) (vchPushValue : Valtype) (s : ScriptState) :
    Except ScriptError ScriptState :=
  match controlOps.lookup opcode with
  | some op => s.evalControl op
  | none =>
    if s.fExec then do
      let t ← e.onStacks script opcode vchPushValue s.toScriptStacks
      return { s with toScriptStacks := t }
    else if 0x63 ≤ opcode ∧ opcode ≤ 0x68 then .error .badOpcode
    else .ok s

/-- `nOpCount` with an instruction more. `OP_RESERVED` does not count. -/
def countOp (opcode : UInt8) (nOpCount : Nat) : Nat :=
  if 0x60 < opcode then nOpCount + 1 else nOpCount

/-- One round of the loop, for an instruction that was read. -/
def step (script : CScript) (s : ScriptState) (opcode : UInt8) (vchPushValue : Valtype) :
    Except ScriptError ScriptState := do
  require (vchPushValue.length ≤ 520) .pushSize
  let nOpCount := countOp opcode s.nOpCount
  require (opcode ≤ 0x60 ∨ nOpCount ≤ 201) .opCount
  require (opcode ∉ disabledOps) .disabledOpcode
  let s' ← e.execute script opcode vchPushValue { s with nOpCount }
  require (s'.stack.length + s'.altstack.length ≤ 1000) .stackSize
  return s'

/-- The loop over what is left of the script. Every instruction takes a byte. -/
def evalLoop (script : CScript) : Nat → CScript → ScriptState → Except ScriptError ScriptState
  | 0, _, s => .ok s
  | fuel + 1, pc, s =>
    if pc = [] then .ok s
    else match CScript.getOp pc with
      | none => .error .badOpcode
      | some (opcode, vchPushValue, pc') => do
        let s' ← e.step script s opcode vchPushValue
        evalLoop script fuel pc' s'

/-- `EvalScript`: the stack at the end. -/
def evalScript (stack : List Valtype) (script : CScript) : Except ScriptError (List Valtype) := do
  require (script.length ≤ 10000) .scriptSize
  let s ← e.evalLoop script script.length script (.start stack)
  require s.vfExec.isEmpty .unbalancedConditional
  return s.stack

end ScriptEnv

namespace SampleScript

/-- A short hash of a string: its first bytes. -/
def firstBytes (n : Nat) (v : Valtype) : Vector UInt8 n := Vector.ofFn fun i => v.getD i 0

/-- A checker that takes a key for its own signature. -/
def checker : SignatureChecker where
  checkSig vchSig vchPubKey _ _ := vchSig = vchPubKey
  checkLockTime _ := false
  checkCryptoCondition _ _ _ _ := 0

/-- The rules of a block, with the stack cleaned up. -/
def env : ScriptEnv where
  flags := { p2sh := true, cleanstack := true }
  checker := checker
  consensusBranchId := 0
  isCryptoConditionsEnabled := false
  checkLowS _ := true
  ripemd160 := firstBytes 20
  sha1 := firstBytes 20
  sha256 := firstBytes 32

end SampleScript

end IndexChain
