import IndexChain.Core.Bytes
import IndexChain.Core.Sha256
import IndexChain.Models.Primitives.Transaction

/-!
# The key-value store

`komodo_kv.h`. A key belongs to the public key of its record until the record expires.
Whether it has expired is judged by the height that the op_return states, not by the
height of its block, so an op_return can declare a live record expired and replace it
(`kvupdate_keeps_iff`).

Op_returns are read from the buffer that holds the script. Nothing compares the length
they state with the length of the script, and the search for a transfer reads on behind
them, so an op_return is an address with a length.
-/

namespace IndexChain.Notary

open IndexChain.Core

/-! ## Buffers -/

/-- Bytes by address; what lies beyond the script that was last copied is arbitrary. -/
def ScriptBuf := Nat → UInt8

namespace ScriptBuf

/-- `memcpy(scriptbuf, script, len)`. -/
def memcpy (buf : ScriptBuf) (script : CScript) : ScriptBuf := fun i =>
  match script[i]? with
  | some b => b
  | none => buf i

/-- `&buf[off]`. -/
def shift (buf : ScriptBuf) (off : Nat) : ScriptBuf := fun i => buf (off + i)

/-- The `n` bytes at an offset. -/
def slice (buf : ScriptBuf) (off n : Nat) : List UInt8 :=
  (List.range n).map fun i => buf (off + i)

/-- `strcmp(s, &buf[off]) == 0` for a C string `s`. -/
def strEq (buf : ScriptBuf) (s : List UInt8) (off : Nat) : Bool :=
  buf.slice off (s.length + 1) == s ++ [0]

/-- `strlen(&buf[off])`, within the size of the buffer. -/
def strlen (buf : ScriptBuf) (off : Nat) : Nat :=
  ((buf.slice off 10001).takeWhile (· != 0)).length

/-- `iguana_rwnum` into a `uint16_t`. -/
def uint16 (buf : ScriptBuf) (off : Nat) : Nat := leNat (buf.slice off 2)

/-- `iguana_rwnum` into a `uint32_t`. -/
def uint32 (buf : ScriptBuf) (off : Nat) : UInt32 := UInt32.ofNat (leNat (buf.slice off 4))

/-- `iguana_rwnum` into an `int32_t`. -/
def int32 (buf : ScriptBuf) (off : Nat) : Int :=
  (leNat (buf.slice off 4) : Int).bmod (2 ^ 32)

/-- `iguana_rwbignum` into a `uint256`. -/
def uint256 (buf : ScriptBuf) (off : Nat) : Uint256 :=
  BitVec.ofNat 256 (leNat (buf.slice off 32))

end ScriptBuf

/-! ## Records -/

/-- `struct komodo_kv`, less its key. -/
structure KomodoKv where
  /-- The value. -/
  value : List UInt8
  /-- The owner; zero if everyone may update the key. -/
  pubkey : Uint256
  /-- The height from which it lasts. -/
  height : Int
  /-- A height is an `int32_t`. -/
  height_int32 : toInt32 height = height
  /-- How long it lasts and how it is protected. -/
  flags : UInt32
  deriving DecidableEq

/-- `KOMODO_KV`: the records by key. -/
abbrev KvStore := List UInt8 → Option KomodoKv

namespace KvStore

/-- `HASH_DELETE`. -/
def delete (kv : KvStore) (key : List UInt8) : KvStore := fun k => if k = key then none else kv k

/-- `HASH_ADD_KEYPTR`, and the assignments to the record. -/
def insert (kv : KvStore) (key : List UInt8) (ptr : KomodoKv) : KvStore :=
  fun k => if k = key then some ptr else kv k

variable {kv : KvStore} {key key' : List UInt8} {ptr : KomodoKv}

@[simp] theorem delete_self : kv.delete key key = none := if_pos rfl

@[simp] theorem insert_self : kv.insert key ptr key = some ptr := if_pos rfl

theorem delete_of_ne (h : key' ≠ key) : kv.delete key key' = kv key' := if_neg h

theorem insert_of_ne (h : key' ≠ key) : kv.insert key ptr key' = kv key' := if_neg h

end KvStore

/-- `KOMODO_KVPROTECTED`. -/
def kvProtected : UInt32 := 1

/-- `KOMODO_KVDURATION`. -/
def kvDurationUnit : Nat := 1440

/-- `komodo_kvnumdays`. -/
def kvnumdays (flags : UInt32) : Nat :=
  let numdays := ((flags >>> 2) &&& 0x3ff).toNat + 1
  if 365 < numdays then 365 else numdays

/-- `komodo_kvduration`. -/
def kvduration (flags : UInt32) : Nat := kvnumdays flags * kvDurationUnit

/-- `komodo_kvfee`, in the arithmetic of `int32_t` and then `uint64_t`. -/
def kvfee (flags : UInt32) (opretlen keylen : Nat) : Nat :=
  let k := if 32 < keylen then 32 else keylen
  let fee := toUint64 (toInt32 (kvnumdays flags * (toInt32 (opretlen * opretlen)).tdiv k))
  if fee < 100000 then 100000 else fee.toNat

namespace KomodoKv

/-- The last height at which a record is live. -/
def expiry (ptr : KomodoKv) : Int := toInt32 (ptr.height + kvduration ptr.flags)

/-- The test of `komodo_kvsearch`. -/
def expired (ptr : KomodoKv) (currentHeight : Int) : Bool := decide (ptr.expiry < currentHeight)

end KomodoKv

/-- `komodo_kvsearch`: a record that has expired is deleted. -/
def kvsearch (currentHeight : Int) (key : List UInt8) (kv : KvStore) :
    Option KomodoKv × KvStore :=
  match kv key with
  | none => (none, kv)
  | some ptr => if ptr.expired currentHeight then (none, kv.delete key) else (some ptr, kv)

/-- A search leaves other keys alone. -/
theorem kvsearch_snd_of_ne (currentHeight : Int) {key key' : List UInt8} (h : key ≠ key')
    (kv : KvStore) : (kvsearch currentHeight key kv).2 key' = kv key' := by
  unfold kvsearch
  cases kv key with
  | none => rfl
  | some ptr =>
    dsimp only
    split
    · exact KvStore.delete_of_ne h.symm
    · rfl

/-! ## Updates -/

/-- What the store needs to know of the chain and the curve. -/
structure KvEnv where
  /-- `ASSETCHAINS_SYMBOL`, empty on the main chain. -/
  assetchainsSymbol : List UInt8
  /-- `curve25519_shared`. -/
  curve25519Shared : Uint256 → Uint256 → Uint256

/-- The fields of a key-value op_return, as `komodo_kvupdate` reads them. -/
structure KvOpret where
  /-- The address of the op_return. -/
  buf : ScriptBuf
  /-- The length that it states. -/
  opretlen : Nat

namespace KvOpret

variable (o : KvOpret)

/-- The length of the key. -/
def keylen : Nat := o.buf.uint16 1

/-- The length of the value. -/
def valuesize : Nat := o.buf.uint16 3

/-- The height that the op_return states. -/
def height : Int := o.buf.int32 5

/-- The flags that the fee is computed from. -/
def flags : UInt32 := o.buf.uint32 9

/-- The key. -/
def key : List UInt8 := o.buf.slice 13 o.keylen

/-- The value. -/
def value : List UInt8 := o.buf.slice (13 + o.keylen) o.valuesize

/-- The length without a public key and a signature. -/
def coresize : Nat := 13 + o.keylen + o.valuesize

/-- The public key of the new owner; zero if there is none. -/
def pubkey : Uint256 := if o.coresize + 32 ≤ o.opretlen then o.buf.uint256 o.coresize else 0

/-- The signature; zero if there is none. -/
def sig : Uint256 := if o.opretlen = o.coresize + 64 then o.buf.uint256 (o.coresize + 32) else 0

/-- `_unhex`. -/
def unhex (c : UInt8) : Option UInt8 :=
  if 0x30 ≤ c ∧ c ≤ 0x39 then some (c - 0x30)
  else if 0x61 ≤ c ∧ c ≤ 0x66 then some (c - 0x61 + 10)
  else if 0x41 ≤ c ∧ c ≤ 0x46 then some (c - 0x41 + 10)
  else none

/-- `"transfer:"`. -/
def transferName : List UInt8 := [0x74, 0x72, 0x61, 0x6e, 0x73, 0x66, 0x65, 0x72, 0x3a]

/-- The key a value asks to transfer to: 64 hexadecimal digits, and no more. -/
def transferpub : Option Uint256 :=
  let start := 13 + o.keylen
  let digits := (o.buf.slice (start + 9) 64).map unhex
  if o.buf.slice start 9 = transferName ∧ digits.all Option.isSome ∧
      unhex (o.buf (start + 73)) = none then
    some (digits.foldl (fun acc d => acc * 16 + BitVec.ofNat 256 (d.getD 0).toNat) 0)
  else none

end KvOpret

theorem toInt32_int32 (buf : ScriptBuf) (off : Nat) : toInt32 (buf.int32 off) = buf.int32 off := by
  unfold toInt32 ScriptBuf.int32
  exact Int.bmod_bmod

namespace KvEnv

variable (env : KvEnv)

/-- `komodo_kvsigverify`. -/
def kvsigverify (data : List UInt8) (pubkey sig : Uint256) : Bool :=
  pubkey == 0 ||
    env.curve25519Shared (BitVec.ofNat 256 (leNat (sha256 data))) pubkey == sig

/-- The op_return is looked up at all: it is not too short, pays the fee, and its parts add up
to its length. A key of length zero divides by zero in `komodo_kvfee`. -/
def kvaccepts (o : KvOpret) (value : Nat) : Bool :=
  !env.assetchainsSymbol.isEmpty && decide (o.keylen + 13 ≤ o.opretlen) && o.keylen != 0 &&
  decide (kvfee o.flags o.opretlen o.keylen ≤ value) &&
  (o.opretlen == o.coresize || o.opretlen == o.coresize + 32 || o.opretlen == o.coresize + 64)

/-- The record after an update. The flags are what the search left in them, so zero for a
new key. -/
def kvrecord (o : KvOpret) (found : Option KomodoKv) (stored : Option KomodoKv) : KomodoKv where
  value := match stored with
    | some ptr => if ptr.flags &&& kvProtected = 0 then o.value else ptr.value
    | none => o.value
  pubkey := match stored with
    | some _ => o.transferpub.getD o.pubkey
    | none => o.pubkey
  height := o.height
  height_int32 := toInt32_int32 o.buf 5
  flags := (found.map KomodoKv.flags).getD 0

@[simp] theorem kvrecord_height (o : KvOpret) (found stored : Option KomodoKv) :
    (kvrecord o found stored).height = o.height := by
  simp only [kvrecord]

/-- `komodo_kvupdate`. -/
def kvupdate (o : KvOpret) (value : Nat) (kv : KvStore) : KvStore :=
  if env.kvaccepts o value then
    let r := kvsearch o.height o.key kv
    if r.1.all fun ptr => env.kvsigverify (o.key ++ ptr.value) ptr.pubkey o.sig then
      r.2.insert o.key (kvrecord o r.1 (r.2 o.key))
    else r.2
  else kv

/-! ## Ownership -/

section Ownership

variable {env} {o : KvOpret} {value : Nat} {kv : KvStore} {key : List UInt8} {ptr : KomodoKv}

/-- An op_return that is not looked up changes nothing. -/
theorem kvupdate_of_not_accepts (h : env.kvaccepts o value = false) :
    env.kvupdate o value kv = kv := by
  unfold kvupdate
  rw [h]
  rfl

/-- Other keys are left alone. -/
theorem kvupdate_of_ne (h : o.key ≠ key) : env.kvupdate o value kv key = kv key := by
  have hsearch := kvsearch_snd_of_ne o.height h kv
  unfold kvupdate
  generalize kvsearch o.height o.key kv = r at hsearch ⊢
  by_cases haccept : env.kvaccepts o value = true
  · rw [if_pos haccept]
    split
    · rw [KvStore.insert_of_ne h.symm, hsearch]
    · exact hsearch
  · rw [if_neg haccept]

/-- A record that is live at the height the op_return states is kept, unless that is signed. -/
theorem kvupdate_of_live (hptr : kv o.key = some ptr) (hlive : o.height ≤ ptr.expiry)
    (hsig : env.kvsigverify (o.key ++ ptr.value) ptr.pubkey o.sig = false) :
    env.kvupdate o value kv = kv := by
  have hsearch : kvsearch o.height o.key kv = (some ptr, kv) := by
    unfold kvsearch KomodoKv.expired
    rw [hptr]
    dsimp only
    rw [if_neg (by simpa using hlive)]
  unfold kvupdate
  rw [hsearch]
  dsimp only
  rw [Option.all_some, hsig]
  simp

/-- A record that has expired by that height is replaced without a signature. -/
theorem kvupdate_of_expired (haccept : env.kvaccepts o value = true) (hptr : kv o.key = some ptr)
    (hdead : ptr.expiry < o.height) :
    env.kvupdate o value kv o.key = some (kvrecord o none none) := by
  have hsearch : kvsearch o.height o.key kv = (none, kv.delete o.key) := by
    unfold kvsearch KomodoKv.expired
    rw [hptr]
    dsimp only
    rw [if_pos (by simpa using hdead)]
  unfold kvupdate
  rw [if_pos haccept, hsearch]
  dsimp only
  rw [Option.all_none, if_pos rfl, KvStore.delete_self, KvStore.insert_self]

/-- A record that is live at some height of a block has not wrapped around. -/
theorem height_le_expiry {blockHeight : Int} (hblock : 0 ≤ blockHeight)
    (hlive : ptr.expired blockHeight = false) : ptr.height ≤ ptr.expiry := by
  have hrange : -2147483648 ≤ ptr.height ∧ ptr.height < 2147483648 := by
    have hint := ptr.height_int32
    rw [toInt32, Int.bmod_def] at hint
    split at hint
    · omega
    · omega
  have hdays : kvduration ptr.flags ≤ 365 * 1440 := by
    have hnum : kvnumdays ptr.flags ≤ 365 := by
      unfold kvnumdays
      dsimp only
      split
      · omega
      · omega
    exact Nat.mul_le_mul_right 1440 hnum
  have hmod : (ptr.height + kvduration ptr.flags) % 4294967296 =
        ptr.height + kvduration ptr.flags ∨
      (ptr.height + kvduration ptr.flags) % 4294967296 =
        ptr.height + kvduration ptr.flags + 4294967296 := by
    omega
  simp only [KomodoKv.expired, decide_eq_false_iff_not] at hlive
  rw [KomodoKv.expiry, toInt32, Int.bmod_def] at hlive ⊢
  push_cast at hlive ⊢
  split at hlive
  · rw [if_pos (by assumption)]
    omega
  · omega

/-- A live record is safe from an op_return that its owner has not signed, exactly when the
op_return is not looked up, is for another key, or states a height at which the record is
still live. A record without an owner needs no signature. -/
theorem kvupdate_keeps_iff {blockHeight : Int} (hptr : kv key = some ptr)
    (hblock : 0 ≤ blockHeight) (hlive : ptr.expired blockHeight = false)
    (hsig : env.kvsigverify (key ++ ptr.value) ptr.pubkey o.sig = false) :
    env.kvupdate o value kv key = some ptr ↔
      env.kvaccepts o value = false ∨ o.key ≠ key ∨ o.height ≤ ptr.expiry := by
  constructor
  · intro hkept
    by_contra hnot
    push Not at hnot
    obtain ⟨haccept, rfl, hdead⟩ := hnot
    rw [Bool.ne_false_iff] at haccept
    rw [kvupdate_of_expired haccept hptr hdead] at hkept
    have hheight : o.height = ptr.height := by
      rw [← Option.some.inj hkept, kvrecord_height]
    have hle := height_le_expiry hblock hlive
    omega
  · rintro (haccept | hne | hheight)
    · rw [kvupdate_of_not_accepts haccept, hptr]
    · rw [kvupdate_of_ne hne, hptr]
    · by_cases hkey : o.key = key
      · obtain rfl := hkey
        rw [kvupdate_of_live hptr hheight hsig, hptr]
      · rw [kvupdate_of_ne hkey, hptr]

end Ownership

end KvEnv

/-! ## A record with an owner -/

namespace SampleKv

/-- The bytes of a list, followed by zeros. -/
def bufOf (bs : List UInt8) : ScriptBuf := fun i => bs.getD i 0

/-- An op_return without a signature that sets the key `a` to `x`. -/
def opret (height : Nat) : KvOpret where
  buf := bufOf ([0x4b] ++ leBytes 2 1 ++ leBytes 2 1 ++ leBytes 4 height ++ leBytes 4 0 ++
    [0x61, 0x78])
  opretlen := 15

/-- The record of key `a`: the value `v`, owned and set at height 100. -/
def owned : KomodoKv where
  value := [0x76]
  pubkey := 9
  height := 100
  height_int32 := by decide
  flags := 0

/-- A store with one record. -/
def store : KvStore := fun k => if k = [0x61] then some owned else none

/-- A chain with the hash of a product in place of the hash of a shared point. -/
def env : KvEnv where
  assetchainsSymbol := [0x58]
  curve25519Shared secret point :=
    BitVec.ofNat 256 (leNat (sha256 (leBytes 32 (secret * point).toNat)))

end SampleKv

open SampleKv

/-- The record lasts for a day, and is kept when the op_return states the height of its block. -/
theorem record_kept_at_block_height :
    owned.expiry = 1540 ∧ env.kvupdate (opret 200) 100000 store [0x61] = some owned := by
  refine ⟨by decide, ?_⟩
  exact (KvEnv.kvupdate_keeps_iff (rfl : store [0x61] = some owned)
    (by decide : (0 : Int) ≤ 200) (by decide) (by decide +kernel)).2 (Or.inr (Or.inr (by decide)))

/-- The same op_return in the same block takes the key over when it states a later height. -/
theorem record_taken_over :
    store [0x61] = some owned ∧ owned.pubkey ≠ 0 ∧ owned.expired 200 = false ∧
    env.kvsigverify ([0x61] ++ owned.value) owned.pubkey (opret 2000).sig = false ∧
    (env.kvupdate (opret 2000) 100000 store [0x61]).map
      (fun ptr => (ptr.value, ptr.pubkey, ptr.height)) = some ([0x78], 0, 2000) := by
  refine ⟨rfl, by decide, by decide, by decide +kernel, by decide +kernel⟩

end IndexChain.Notary
