import IndexChain.Core.Canonical
import IndexChain.Core.Checked
import IndexChain.Core.Sha256
import IndexChain.Models.Primitives.Script

/-!
# Crypto-condition contracts

What the contracts share: public keys, the condition scripts they compare outputs
with, and the transactions they look up. The scripts come from the
crypto-condition library and stay abstract; validation code only ever compares
them with the scripts of outputs.
-/

namespace IndexChain

open IndexChain.Core

/-- A public key as the bytes that count; an invalid key has none. -/
abbrev CPubKey := List UInt8

namespace CPubKey

/-- The length of a key with a given first byte. -/
def getLen (chHeader : UInt8) : Nat :=
  if chHeader = 2 ∨ chHeader = 3 then 33
  else if chHeader = 4 ∨ chHeader = 6 ∨ chHeader = 7 then 65 else 0

/-- The key whose buffer starts with the given bytes. -/
def ofBytes (bs : List UInt8) : CPubKey :=
  match bs with
  | [] => []
  | b :: _ => (bs ++ List.replicate 65 0).take (getLen b)

/-- The key with the given bytes, which have to be all of it. -/
def set (bs : List UInt8) : CPubKey :=
  match bs with
  | [] => []
  | b :: _ => if getLen b = bs.length then bs else []

/-- Read a key; one that is too long is skipped. -/
def read : Reader CPubKey := do
  let len ← Reader.compactSize
  let bs ← Reader.bytes len
  return if len ≤ 65 then ofBytes bs else []

/-- A key is syntactically valid. -/
def isValid (pk : CPubKey) : Bool := !pk.isEmpty

end CPubKey

/-- Read a `uint256` as it is stored in memory. -/
def readUint256 : Reader Uint256 := do
  let bs ← Reader.bytes 32
  return BitVec.ofNat 256 (leNat bs)

theorem readUint256_append (x : Uint256) (rest : List UInt8) :
    readUint256 (leBytes 32 x.toNat ++ rest) = some (x, rest) := by
  unfold readUint256
  rw [Reader.bind_of_eq (Reader.bytes_append (leBytes_length 32 x.toNat)),
    leNat_leBytes (Nat.lt_of_lt_of_le x.isLt (by decide)), BitVec.ofNat_toNat, BitVec.setWidth_eq]
  rfl

/-- The bytes of a `uint256` as it is stored in memory. -/
def writeUint256 (x : Uint256) : List UInt8 := leBytes 32 x.toNat

theorem inverts_uint256 : Reader.Inverts (fun _ => True) readUint256 writeUint256 := by
  refine ⟨fun x _ rest => readUint256_append x rest, ?_⟩
  intro bs x rest h
  obtain ⟨cs, rest', hbytes, hpure⟩ := Reader.bind_eq_some.1 h
  obtain ⟨rfl, rfl⟩ : BitVec.ofNat 256 (leNat cs) = x ∧ rest' = rest := by
    simpa using Reader.pure_eq_some.1 hpure
  obtain ⟨rfl, hlen⟩ := Reader.Canonical.bytes 32 hbytes
  have hlt : leNat cs < 2 ^ 256 := by
    have h := leNat_lt cs
    rwa [hlen] at h
  have hbs : leBytes 32 (leNat cs) = cs := by
    have h := leBytes_leNat cs
    rwa [hlen] at h
  rw [writeUint256, BitVec.toNat_ofNat, Nat.mod_eq_of_lt hlt, hbs]
  exact ⟨rfl, trivial⟩

/-- `revuint256`. -/
def revuint256 (x : Uint256) : Uint256 :=
  BitVec.ofNat 256 (leNat (leBytes 32 x.toNat).reverse)

/-- `vcalc_sha256` of the bytes of a `uint256`. -/
def vcalcSha256 (x : Uint256) : Uint256 :=
  BitVec.ofNat 256 (leNat (sha256 (leBytes 32 x.toNat)))

/-- An address text; empty when there is none. -/
abbrev Address := List UInt8

/-- Why a contract does not accept a transaction. Apart from `eval->Invalid` there is
what the compiled code does not survive in a defined state. -/
inductive Failure where
  /-- `eval->Invalid` with its reason. -/
  | invalid (reason : String)
  /-- An output of the transaction is read that it does not have. -/
  | outOfBounds (v : Nat)
  /-- An output of an earlier transaction is read that it does not have. -/
  | spentOutOfBounds (v : Nat)
  /-- An input of the transaction is read that it does not have. -/
  | vinOutOfBounds (i : Nat)
  /-- An entry of another list is read that it does not have. -/
  | listOutOfBounds (i : Nat)
  /-- A division by zero. -/
  | divisionByZero
  /-- A block that is not known is read. -/
  | nullPointer
  deriving DecidableEq, Repr

/-- The transaction is judged by an output that it does not have. -/
def Failure.IsOutOfBounds (err : Failure) : Prop := ∃ v, err = .outOfBounds v

theorem Failure.not_isOutOfBounds_invalid (reason : String) :
    ¬ (Failure.invalid reason).IsOutOfBounds := by
  rintro ⟨v, h⟩
  cases h

/-- Read an output of the transaction. -/
def CTransaction.out (tx : CTransaction) (v : Nat) : Except Failure CTxOut :=
  match tx.vout[v]? with
  | some out => .ok out
  | none => .error (.outOfBounds v)

/-- Read an input of the transaction. -/
def CTransaction.inp (tx : CTransaction) (i : Nat) : Except Failure CTxIn :=
  match tx.vin[i]? with
  | some txin => .ok txin
  | none => .error (.vinOutOfBounds i)

/-- Read an output of an earlier transaction. -/
def CTransaction.spent (tx : CTransaction) (v : Nat) : Except Failure CTxOut :=
  match tx.vout[v]? with
  | some out => .ok out
  | none => .error (.spentOutOfBounds v)

theorem CTransaction.out_eq_ok {tx : CTransaction} {v : Nat} {out : CTxOut} :
    tx.out v = .ok out ↔ tx.vout[v]? = some out := by
  unfold CTransaction.out
  cases tx.vout[v]? with
  | none => simp
  | some o => simp

theorem CTransaction.inp_eq_ok {tx : CTransaction} {i : Nat} {txin : CTxIn} :
    tx.inp i = .ok txin ↔ tx.vin[i]? = some txin := by
  unfold CTransaction.inp
  cases tx.vin[i]? with
  | none => simp
  | some o => simp

theorem CTransaction.spent_eq_ok {tx : CTransaction} {v : Nat} {out : CTxOut} :
    tx.spent v = .ok out ↔ tx.vout[v]? = some out := by
  unfold CTransaction.spent
  cases tx.vout[v]? with
  | none => simp
  | some o => simp

theorem CTransaction.out_bind_eq_ok {α : Type} {tx : CTransaction} {v : Nat}
    {k : CTxOut → Except Failure α} {x : α} :
    (tx.out v >>= k) = .ok x ↔ ∃ out, tx.vout[v]? = some out ∧ k out = .ok x := by
  simp only [except_bind_eq_ok, CTransaction.out_eq_ok]

theorem CTransaction.avoids_out {tx : CTransaction} {v : Nat} (h : v < tx.vout.length) :
    Avoids Failure.IsOutOfBounds (tx.out v) := by
  rw [CTransaction.out_eq_ok.2 (List.getElem?_eq_getElem h)]
  exact Avoids.ok _

theorem CTransaction.avoids_spent (tx : CTransaction) (v : Nat) :
    Avoids Failure.IsOutOfBounds (tx.spent v) := by
  unfold CTransaction.spent
  split
  · exact Avoids.ok _
  · refine Avoids.error ?_
    rintro ⟨v', h⟩
    cases h

/-- The condition scripts and the recognisers of the crypto-condition library. -/
structure CCLib where
  /-- The script of `MakeCC1vout`. -/
  cc1 : UInt8 → CPubKey → CScript
  /-- The script of `MakeCC1of2vout`. -/
  cc1of2 : UInt8 → CPubKey → CPubKey → CScript
  /-- The script of `MakeTokensCC1vout`. -/
  tokensCC1 : UInt8 → UInt8 → CPubKey → CScript
  /-- The script of `MakeTokensCC1of2vout`. -/
  tokensCC1of2 : UInt8 → UInt8 → CPubKey → CPubKey → CScript
  /-- `ismyvin` of a contract: the input fulfils a condition with its code. -/
  isMyVin : UInt8 → CScript → Bool
  /-- `GetCryptoCondition` and the first key in the condition. -/
  condition : CScript → Option (Option CPubKey)
  /-- `GetUnspendable`. -/
  unspendable : UInt8 → CPubKey
  /-- `Solver` finds a payment to a key or to its hash. -/
  paysPubkey : CPubKey → CScript → Bool
  /-- `Getscriptaddress`. -/
  scriptAddress : CScript → Option Address
  /-- `unspendableCCaddr` of a contract. -/
  unspendableCCaddr : UInt8 → Address

/-- The library and the transactions a contract is evaluated on. -/
structure CCEnv extends CCLib where
  /-- `ASSETCHAINS_SYMBOL`. -/
  assetchainsSymbol : String
  /-- `myGetTransaction`. -/
  getTransaction : Uint256 → Option CTransaction

/-- What a contract reads from the block index besides. -/
structure CCChainEnv extends CCEnv where
  /-- The height of the active chain. -/
  height : Int
  /-- The height of the block of a transaction; none while it is in the mempool. -/
  txHeight : Uint256 → Option Int
  /-- `NOTARIZED_HEIGHT` of the chain. -/
  notarizedHeight : Int

namespace CCLib

variable (lib : CCLib)

/-- `IsCCInput`. -/
def isCCInput (scriptSig : CScript) : Bool :=
  (lib.condition scriptSig).isSome

/-- The key of a condition; an invalid one stands for the contract's own. -/
def keyOr (evalcode : UInt8) (pk : CPubKey) : CPubKey :=
  if pk.isValid then pk else lib.unspendable evalcode

/-- `GetCCaddress`. -/
def getCCaddress (evalcode : UInt8) (pk : CPubKey) : Address :=
  (lib.scriptAddress (lib.cc1 evalcode (lib.keyOr evalcode pk))).getD []

/-- `GetTokensCCaddress`. -/
def getTokensCCaddress (evalcode evalcode2 : UInt8) (pk : CPubKey) : Address :=
  (lib.scriptAddress (lib.tokensCC1 evalcode evalcode2 (lib.keyOr evalcode pk))).getD []

/-- `GetCCaddress1of2`. -/
def getCCaddress1of2 (evalcode : UInt8) (pk pk2 : CPubKey) : Address :=
  (lib.scriptAddress (lib.cc1of2 evalcode pk pk2)).getD []

/-- `ConstrainVout`: the kind of an output, its address and its amount, where given. -/
def constrainVout (vout : CTxOut) (ccFlag : Bool) (cmpaddr : Option Address) (nValue : Int) :
    Bool :=
  CScript.isPayToCryptoCondition vout.scriptPubKey == ccFlag &&
  cmpaddr.all (fun addr => lib.scriptAddress vout.scriptPubKey == some addr) &&
  (nValue == 0 || nValue == vout.nValue)

/-- An output that is constrained to an amount is constrained without it. -/
theorem constrainVout_zero {vout : CTxOut} {ccFlag : Bool} {cmpaddr : Option Address}
    {nValue : Int} (h : lib.constrainVout vout ccFlag cmpaddr nValue = true) :
    lib.constrainVout vout ccFlag cmpaddr 0 = true := by
  unfold constrainVout at h ⊢
  rw [Bool.and_eq_true] at h
  rw [h.1]
  rfl

/-- `PreventCC`: no condition inputs and outputs from an index on. -/
def preventCC (tx : CTransaction) (preventCCvins preventCCvouts : Option Nat) :
    Except Failure Unit := do
  require (preventCCvins.all fun k => (tx.vin.drop k).all fun txin => !lib.isCCInput txin.scriptSig)
    (.invalid "invalid CC vin")
  require (preventCCvouts.all fun k => (tx.vout.drop k).all fun out =>
    !CScript.isPayToCryptoCondition out.scriptPubKey) (.invalid "invalid CC vout")

/-- The script that pushes codes and keys and checks them as a condition. -/
def plainScript (codes : List UInt8) (pk0 pk1 : CPubKey) : CScript :=
  let data := codes ++ pk0 ++ pk1
  UInt8.ofNat data.length :: data ++ [0xcc]

/-- A compressed key. -/
def plainKey (b : UInt8) : CPubKey := 0x02 :: (List.replicate 31 0 ++ [b])

/-- A library whose scripts and fulfilments spell out the codes and keys they commit to
in place of their hashes. -/
def plain : CCLib where
  cc1 e pk := plainScript [0, e, 0] pk []
  cc1of2 e pk0 pk1 := plainScript [1, e, 0] pk0 pk1
  tokensCC1 e1 e2 pk := plainScript [2, e1, e2] pk []
  tokensCC1of2 e1 e2 pk0 pk1 := plainScript [3, e1, e2] pk0 pk1
  isMyVin e scriptSig := (scriptSig.take 2).contains e
  condition scriptSig :=
    if scriptSig.isEmpty then none else some (some (CPubKey.ofBytes (scriptSig.drop 2)))
  unspendable e := 0x03 :: (List.replicate 31 0 ++ [e])
  paysPubkey pk s := s == CScript.payToPubkey pk
  scriptAddress s := match CScript.payToCryptoCondition s with
    | some (script, _) => some script
    | none => if s.getLast? = some 0xac then some s else none
  unspendableCCaddr e := plainScript [0, e, 0] (0x03 :: (List.replicate 31 0 ++ [e])) []

end CCLib

namespace CCEnv

variable (env : CCEnv)

/-- The output an input spends, when its transaction is found and has one there. -/
def spentOutput (txin : CTxIn) : Option CTxOut :=
  (env.getTransaction txin.prevout.hash).bind fun tx => tx.vout[txin.prevout.n.toNat]?

/-- `TotalPubkeyNormalInputs`. -/
def totalPubkeyNormalInputs (tx : CTransaction) (pubkey : CPubKey) : Int :=
  (tx.vin.map fun txin =>
    if env.isCCInput txin.scriptSig then 0
    else match env.spentOutput txin with
      | some out => if env.paysPubkey pubkey out.scriptPubKey then out.nValue else 0
      | none => 0).sum

end CCEnv

/-- `komodo_txnotarizedconfirmed`. -/
def CCChainEnv.txnotarizedconfirmed (env : CCChainEnv) (txid : Uint256) : Bool :=
  (env.getTransaction txid).isSome &&
  match env.txHeight txid with
  | none => false
  | some txheight =>
    let confirms := 1 + env.height - txheight
    let notarized := if env.notarizedHeight < txheight then 0 else env.notarizedHeight
    decide (0 < txheight) && decide (txheight ≤ env.height) &&
      ((decide (0 < notarized) && decide (1 < confirms)) ||
        (notarized == 0 && decide (101 ≤ confirms)))

end IndexChain
