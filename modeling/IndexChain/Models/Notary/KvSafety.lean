import IndexChain.Core.Checked
import IndexChain.Models.Notary.Kv

/-!
# What an update reads

`komodo_kvupdate` again, with each read checked against the length of the op_return and the
division of `komodo_kvfee` against a divisor of zero. An update that returns is `kvupdate`
(`kvupdate_of_checked`). The lengths are checked behind the reads of the header and behind the
division, and not at all in the search for a transfer; the fee is a product of 32 bits.
`kvsafe_iff` says which op_returns are harmless.
-/

namespace IndexChain.Notary

open IndexChain.Core
open KvEnv (kvrecord)

/-- How an update ends that does not return. -/
inductive KvFault where
  /-- It reads a byte outside the op_return. -/
  | outside (offset : Nat)
  /-- It divides by zero. -/
  | divisionByZero
  deriving DecidableEq

/-- A computation does not end in a fault. -/
abbrev Returns {α : Type} (e : Except KvFault α) : Prop := Avoids (fun _ => True) e

namespace Returns

variable {α : Type}

@[simp] theorem ok (a : α) : Returns (.ok a) := Avoids.ok a

@[simp] theorem not_error (fault : KvFault) : ¬ Returns (.error fault : Except KvFault α) :=
  fun h => h fault rfl trivial

theorem exists_ok {e : Except KvFault α} (h : Returns e) : ∃ a, e = .ok a := by
  cases e with
  | error fault => exact absurd h (not_error fault)
  | ok a => exact ⟨a, rfl⟩

theorem bind_iff {β : Type} {e : Except KvFault α} {k : α → Except KvFault β} :
    Returns (e >>= k) ↔ Returns e ∧ ∀ a, e = .ok a → Returns (k a) :=
  Avoids.bind_iff

/-- When what comes next does not depend on the result. -/
theorem bind_const {β : Type} {e : Except KvFault α} {k : Except KvFault β} :
    Returns (e >>= fun _ => k) ↔ Returns e ∧ Returns k := by
  rw [bind_iff]
  refine and_congr_right fun h => ?_
  obtain ⟨a, rfl⟩ := exists_ok h
  exact ⟨fun hk => hk a rfl, fun hk _ _ => hk⟩

end Returns

namespace KvOpret

variable (o : KvOpret)

/-! ## Reads -/

/-- A read of `n` bytes. -/
def bytes (off n : Nat) : Except KvFault (List UInt8) :=
  if n = 0 ∨ off + n ≤ o.opretlen then .ok (o.buf.slice off n)
  else .error (.outside (max off o.opretlen))

/-- A read that is made in one case only. -/
def bytesWhen (b : Bool) (off n : Nat) : Except KvFault (List UInt8) :=
  if b then o.bytes off n else .ok []

/-- The length of a string: bytes are read up to one where the string stops. At most `n` of them
are in the op_return. -/
def scan (stop : UInt8 → Bool) : Nat → Nat → Except KvFault Nat
  | 0, off => .error (.outside off)
  | n + 1, off => if stop (o.buf off) then .ok 0 else (· + 1) <$> scan stop n (off + 1)

/-- `strncmp(s, &opretbuf[off], strlen(s)) == 0`: the first bytes that differ are the last that
are read. -/
def strncmp : List UInt8 → Nat → Except KvFault Bool
  | [], _ => .ok true
  | c :: s, off =>
    if off < o.opretlen then if o.buf off = c then strncmp s (off + 1) else .ok false
    else .error (.outside off)

/-- `is_hexstr(&opretbuf[off], 0)`. -/
def isHexstr (off : Nat) : Except KvFault Nat :=
  o.scan (fun c => (unhex c).isNone) (o.opretlen - off) off

/-- `strlen(&opretbuf[off])`, as `printf` reads its `%s`. -/
def strlen (off : Nat) : Except KvFault Nat := o.scan (· == 0) (o.opretlen - off) off

/-- The search for a transfer in the value, and the line that is printed for one. -/
def transferReads : Except KvFault Unit := do
  let valueptr := 13 + o.keylen
  let named ← o.strncmp transferName valueptr
  if named then
    let digits ← o.isHexstr (valueptr + 9)
    if digits = 64 then
      let _ ← o.strlen 13
      let _ ← o.strlen (valueptr + 9)
      .ok ()
    else .ok ()
  else .ok ()

/-- Only a record that exists is transferred. -/
def transferWhen (exists_ : Bool) : Except KvFault Unit :=
  if exists_ then o.transferReads else .ok ()

/-- `komodo_kvfee`, as it divides. -/
def fee : Except KvFault Nat :=
  if o.keylen = 0 then .error .divisionByZero else .ok (kvfee o.flags o.opretlen o.keylen)

/-- The parts of the op_return add up to its length. -/
def sizesMatch : Bool :=
  o.opretlen == o.coresize || o.opretlen == o.coresize + 32 || o.opretlen == o.coresize + 64

end KvOpret

/-! ## The update -/

namespace KvEnv

variable (env : KvEnv)

/-- `komodo_kvupdate`, from the test of the sizes on. -/
def kvstoreChecked (o : KvOpret) (kv : KvStore) : Except KvFault KvStore := do
  let _ ← o.bytesWhen (o.coresize + 32 ≤ o.opretlen) o.coresize 32
  let _ ← o.bytesWhen (o.opretlen = o.coresize + 64) (o.coresize + 32) 32
  let key ← o.bytes 13 o.keylen
  let r := kvsearch o.height key kv
  if r.1.all fun ptr => env.kvsigverify (key ++ ptr.value) ptr.pubkey o.sig then
    let _ ← o.transferWhen (r.2 key).isSome
    let _ ← o.bytesWhen ((r.2 key).all fun ptr => ptr.flags &&& kvProtected = 0)
      (13 + o.keylen) o.valuesize
    .ok (r.2.insert key (kvrecord o r.1 (r.2 key)))
  else .ok r.2

/-- `komodo_kvupdate`. -/
def kvupdateChecked (o : KvOpret) (value : Nat) (kv : KvStore) : Except KvFault KvStore :=
  if env.assetchainsSymbol.isEmpty then .ok kv
  else do
    let _ ← o.bytes 1 12
    if o.opretlen < o.keylen + 13 then .ok kv
    else
      let fee ← o.fee
      if value < fee then .ok kv
      else if o.sizesMatch then env.kvstoreChecked o kv
      else .ok kv

end KvEnv

/-! ## Reads that return -/

namespace KvOpret

variable {o : KvOpret}

theorem bytes_eq_ok {off n : Nat} {bs : List UInt8} (h : o.bytes off n = .ok bs) :
    bs = o.buf.slice off n := by
  unfold bytes at h
  split at h
  · cases h
    rfl
  · cases h

@[simp] theorem returns_bytes {off n : Nat} :
    Returns (o.bytes off n) ↔ n = 0 ∨ off + n ≤ o.opretlen := by
  unfold bytes
  split
  · simp [*]
  · simp [*]

@[simp] theorem returns_bytesWhen {b : Bool} {off n : Nat} :
    Returns (o.bytesWhen b off n) ↔ (b = true → n = 0 ∨ off + n ≤ o.opretlen) := by
  cases b
  · simp [bytesWhen]
  · simp [bytesWhen]

/-- The bytes of the op_return from an offset on. -/
def rest (o : KvOpret) (off : Nat) : List UInt8 := o.buf.slice off (o.opretlen - off)

theorem slice_succ (buf : ScriptBuf) (off n : Nat) :
    buf.slice off (n + 1) = buf off :: buf.slice (off + 1) n := by
  rw [ScriptBuf.slice, List.range_succ_eq_map, List.map_cons, List.map_map, ScriptBuf.slice]
  refine congrArg₂ _ rfl (List.map_congr_left fun i _ => ?_)
  rw [Function.comp_apply, Nat.succ_eq_add_one, Nat.add_assoc, Nat.add_comm 1 i]

theorem rest_of_lt {off : Nat} (h : off < o.opretlen) :
    o.rest off = o.buf off :: o.rest (off + 1) := by
  rw [rest, rest, ← slice_succ]
  congr 1
  omega

theorem rest_of_le {off : Nat} (h : o.opretlen ≤ off) : o.rest off = [] := by
  rw [rest, Nat.sub_eq_zero_of_le h]
  rfl

/-- A string that stops is read to where it stops. -/
theorem scan_eq {stop : UInt8 → Bool} {n off : Nat}
    (h : ∃ c ∈ o.buf.slice off n, stop c = true) :
    o.scan stop n off = .ok ((o.buf.slice off n).takeWhile fun c => !stop c).length := by
  induction n generalizing off with
  | zero => simp [ScriptBuf.slice] at h
  | succ n ih =>
    rw [slice_succ] at h ⊢
    rw [scan, List.takeWhile_cons]
    by_cases hstop : stop (o.buf off) = true
    · simp [hstop]
    · obtain ⟨c, hc, hcs⟩ := h
      rcases List.mem_cons.1 hc with rfl | hc
      · exact absurd hcs hstop
      · rw [if_neg hstop, ih ⟨c, hc, hcs⟩]
        simp [hstop]

/-- One that does not is read past the end. -/
theorem returns_scan {stop : UInt8 → Bool} {n off : Nat} :
    Returns (o.scan stop n off) ↔ ∃ c ∈ o.buf.slice off n, stop c = true := by
  refine ⟨fun h => ?_, fun h => by rw [scan_eq h]; exact Returns.ok _⟩
  induction n generalizing off with
  | zero => exact absurd h (Returns.not_error _)
  | succ n ih =>
    rw [slice_succ]
    rw [scan] at h
    by_cases hstop : stop (o.buf off) = true
    · exact ⟨_, List.mem_cons_self, hstop⟩
    · rw [if_neg hstop] at h
      have hrec : Returns (o.scan stop n (off + 1)) := by
        cases hscan : o.scan stop n (off + 1) with
        | error fault =>
          rw [hscan] at h
          exact absurd h (Returns.not_error fault)
        | ok k => exact Returns.ok k
      obtain ⟨c, hc, hcs⟩ := ih hrec
      exact ⟨c, List.mem_cons_of_mem _ hc, hcs⟩

/-- A comparison that returns says whether the op_return goes on with the string. -/
theorem strncmp_eq {s : List UInt8} {off : Nat} (h : s <+: o.rest off ∨ ¬ o.rest off <+: s) :
    o.strncmp s off = .ok (decide (s <+: o.rest off)) := by
  induction s generalizing off with
  | nil => simp [strncmp]
  | cons c s ih =>
    rw [strncmp]
    by_cases hoff : off < o.opretlen
    · rw [if_pos hoff, rest_of_lt hoff] at *
      by_cases hc : o.buf off = c
      · rw [if_pos hc, hc]
        rw [hc, List.cons_prefix_cons, List.cons_prefix_cons] at h
        rw [ih (by simpa using h)]
        simp
      · rw [if_neg hc]
        simp [List.cons_prefix_cons, Ne.symm hc]
    · rw [rest_of_le (not_lt.1 hoff)] at h
      simp at h

/-- It returns unless the op_return ends within the string. -/
theorem returns_strncmp {s : List UInt8} {off : Nat} :
    Returns (o.strncmp s off) ↔ s <+: o.rest off ∨ ¬ o.rest off <+: s := by
  refine ⟨fun h => ?_, fun h => by rw [strncmp_eq h]; exact Returns.ok _⟩
  induction s generalizing off with
  | nil => exact Or.inl List.nil_prefix
  | cons c s ih =>
    rw [strncmp] at h
    by_cases hoff : off < o.opretlen
    · rw [if_pos hoff] at h
      rw [rest_of_lt hoff, List.cons_prefix_cons, List.cons_prefix_cons]
      by_cases hc : o.buf off = c
      · rw [if_pos hc] at h
        simpa [hc] using ih h
      · exact Or.inr fun hpre => hc hpre.1
    · rw [if_neg hoff] at h
      exact absurd h (Returns.not_error _)

theorem mem_rest {off : Nat} {c : UInt8} :
    c ∈ o.rest off ↔ ∃ i, off ≤ i ∧ i < o.opretlen ∧ o.buf i = c := by
  rw [rest, ScriptBuf.slice, List.mem_map]
  constructor
  · rintro ⟨i, hi, rfl⟩
    rw [List.mem_range] at hi
    exact ⟨off + i, by omega, by omega, rfl⟩
  · rintro ⟨i, hlow, hhigh, rfl⟩
    exact ⟨i - off, List.mem_range.2 (by omega), by rw [Nat.add_sub_cancel' hlow]⟩

theorem returns_strlen {off : Nat} : Returns (o.strlen off) ↔ 0 ∈ o.rest off := by
  rw [strlen, returns_scan]
  simp [rest]

/-- The digits behind `"transfer:"`, and whatever follows them. -/
def digits (o : KvOpret) : List UInt8 := o.rest (13 + o.keylen + 9)

/-- The search for a transfer ends in the op_return: the value differs from `"transfer:"`, or
what follows has a byte that is no hexadecimal digit, and a zero in case there are 64 digits. -/
def TransferEnds (o : KvOpret) : Prop :=
  let value := o.rest (13 + o.keylen)
  (¬ value <+: transferName ∧ ¬ transferName <+: value) ∨
    transferName <+: value ∧ (∃ c ∈ o.digits, (unhex c).isNone = true) ∧
      ((o.digits.takeWhile fun c => !(unhex c).isNone).length = 64 → 0 ∈ o.digits)

instance : Decidable o.TransferEnds :=
  inferInstanceAs (Decidable ((¬ _ <+: _ ∧ ¬ _ <+: _) ∨ _ <+: _ ∧ _ ∧ (_ → _)))

/-- What is printed for a transfer ends with the digits. -/
theorem returns_printed :
    Returns (do
      let _ ← o.strlen 13
      let _ ← o.strlen (13 + o.keylen + 9)
      (.ok () : Except KvFault Unit)) ↔ 0 ∈ o.digits := by
  rw [Returns.bind_const, Returns.bind_const, returns_strlen, returns_strlen]
  refine ⟨fun h => h.2.1, fun h => ⟨?_, h, Returns.ok ()⟩⟩
  obtain ⟨i, hlow, hhigh, hi⟩ := mem_rest.1 h
  exact mem_rest.2 ⟨i, by omega, hhigh, hi⟩

theorem returns_transferReads : Returns o.transferReads ↔ o.TransferEnds := by
  rw [transferReads, Returns.bind_iff, returns_strncmp]
  by_cases hname : transferName <+: o.rest (13 + o.keylen)
  · rw [strncmp_eq (Or.inl hname)]
    simp only [hname, true_or, true_and, Except.ok.injEq, forall_eq', decide_true, ↓reduceIte,
      not_true_eq_false, and_false, false_or, TransferEnds]
    rw [isHexstr, Returns.bind_iff, returns_scan]
    refine and_congr_right fun hhex => ?_
    rw [scan_eq hhex]
    simp only [Except.ok.injEq, forall_eq']
    change Returns (if (o.digits.takeWhile _).length = 64 then _ else _) ↔ _
    split
    · rename_i hlen
      simp only [hlen, true_imp_iff]
      exact returns_printed
    · rename_i hlen
      exact ⟨fun _ h => absurd h hlen, fun _ => Returns.ok ()⟩
  · simp only [TransferEnds, hname, false_or, not_false_eq_true, and_true, false_and, or_false]
    refine and_iff_left_of_imp fun hrest named hnamed => ?_
    rw [strncmp_eq (Or.inr hrest)] at hnamed
    cases hnamed
    simp [hname]

end KvOpret

/-! ## Updates that return -/

section Updates

variable {env : KvEnv} {o : KvOpret} {value : Nat} {kv : KvStore}

/-- A search finds the record that is left, if it is live. -/
theorem kvsearch_snd_self (currentHeight : Int) (key : List UInt8) (kv : KvStore) :
    (kvsearch currentHeight key kv).2 key = (kvsearch currentHeight key kv).1 := by
  unfold kvsearch
  split
  · assumption
  · split
    · exact KvStore.delete_self
    · assumption

theorem kvsearch_fst_eq_some {currentHeight : Int} {key : List UInt8} {ptr : KomodoKv} :
    (kvsearch currentHeight key kv).1 = some ptr ↔
      kv key = some ptr ∧ currentHeight ≤ ptr.expiry := by
  unfold kvsearch KomodoKv.expired
  cases kv key with
  | none => simp
  | some ptr' =>
    by_cases hdead : ptr'.expiry < currentHeight
    · simp only [hdead, decide_true, ↓reduceIte, reduceCtorEq, Option.some_inj, false_iff, not_and,
        not_le]
      rintro rfl
      exact hdead
    · simp only [hdead, decide_false, Bool.false_eq_true, ↓reduceIte, Option.some_inj]
      refine ⟨?_, fun h => h.1⟩
      rintro rfl
      exact ⟨rfl, not_lt.1 hdead⟩

/-- The op_return updates a record that is live at its height, and may do so. -/
def UpdatesRecord (env : KvEnv) (o : KvOpret) (kv : KvStore) : Prop :=
  ∃ ptr, kv o.key = some ptr ∧ o.height ≤ ptr.expiry ∧
    env.kvsigverify (o.key ++ ptr.value) ptr.pubkey o.sig = true

/-- When the sizes match, only the search for a transfer may read outside. -/
theorem returns_kvstoreChecked (hsizes : o.sizesMatch = true) :
    Returns (env.kvstoreChecked o kv) ↔ (UpdatesRecord env o kv → o.TransferEnds) := by
  have hcore : o.opretlen = o.coresize ∨ o.opretlen = o.coresize + 32 ∨
      o.opretlen = o.coresize + 64 := by
    simpa [KvOpret.sizesMatch, or_assoc] using hsizes
  have hlen : 13 + o.keylen + o.valuesize ≤ o.opretlen := by
    have hdef : o.coresize = 13 + o.keylen + o.valuesize := rfl
    omega
  have hkey : o.bytes 13 o.keylen = .ok o.key := if_pos (Or.inr (by omega))
  have hpubkey : decide (o.coresize + 32 ≤ o.opretlen) = true →
      32 = 0 ∨ o.coresize + 32 ≤ o.opretlen := fun h => Or.inr (of_decide_eq_true h)
  have hsig : decide (o.opretlen = o.coresize + 64) = true →
      32 = 0 ∨ o.coresize + 32 + 32 ≤ o.opretlen := fun h =>
    Or.inr (of_decide_eq_true h).ge
  rw [KvEnv.kvstoreChecked, Returns.bind_const, Returns.bind_const, hkey, except_ok_bind,
    KvOpret.returns_bytesWhen, KvOpret.returns_bytesWhen, and_iff_right hpubkey,
    and_iff_right hsig]
  dsimp only
  rw [kvsearch_snd_self]
  cases hfound : (kvsearch o.height o.key kv).1 with
  | none =>
    have hnone : ¬ UpdatesRecord env o kv := by
      rintro ⟨ptr, hptr, hlive, -⟩
      rw [kvsearch_fst_eq_some.2 ⟨hptr, hlive⟩] at hfound
      cases hfound
    simp [hnone, Returns.bind_const, KvOpret.transferWhen, hlen]
  | some ptr =>
    obtain ⟨hptr, hlive⟩ := kvsearch_fst_eq_some.1 hfound
    have hupdates : UpdatesRecord env o kv ↔
        env.kvsigverify (o.key ++ ptr.value) ptr.pubkey o.sig = true := by
      refine ⟨?_, fun h => ⟨ptr, hptr, hlive, h⟩⟩
      rintro ⟨ptr', hptr', -, h⟩
      rw [hptr, Option.some_inj] at hptr'
      rwa [hptr']
    rw [hupdates, Option.all_some]
    split
    · rename_i hsigned
      simp [hsigned, Returns.bind_const, KvOpret.transferWhen, KvOpret.returns_transferReads, hlen]
    · rename_i hsigned
      simp [hsigned]

/-- An update that returns is the update. -/
theorem kvupdate_of_checked {kv' : KvStore} (h : env.kvupdateChecked o value kv = .ok kv') :
    kv' = env.kvupdate o value kv := by
  rw [KvEnv.kvupdateChecked] at h
  rw [KvEnv.kvupdate, KvEnv.kvaccepts]
  by_cases hsymbol : env.assetchainsSymbol.isEmpty = true
  · rw [if_pos hsymbol] at h
    cases h
    simp [hsymbol]
  rw [if_neg hsymbol, except_bind_eq_ok] at h
  obtain ⟨_, -, h⟩ := h
  by_cases hkeylen : o.opretlen < o.keylen + 13
  · rw [if_pos hkeylen] at h
    cases h
    simp [hkeylen]
  rw [if_neg hkeylen, except_bind_eq_ok] at h
  obtain ⟨fee, hfee, h⟩ := h
  have hzero : o.keylen ≠ 0 := by
    intro hzero
    rw [KvOpret.fee, if_pos hzero] at hfee
    cases hfee
  rw [KvOpret.fee, if_neg hzero, Except.ok.injEq] at hfee
  subst hfee
  by_cases hvalue : value < kvfee o.flags o.opretlen o.keylen
  · rw [if_pos hvalue] at h
    cases h
    simp [hvalue]
  rw [if_neg hvalue] at h
  by_cases hsizes : o.sizesMatch = true
  · rw [if_pos hsizes, KvEnv.kvstoreChecked, except_bind_eq_ok] at h
    obtain ⟨_, -, h⟩ := h
    rw [except_bind_eq_ok] at h
    obtain ⟨_, -, h⟩ := h
    rw [except_bind_eq_ok] at h
    obtain ⟨key, hkey, h⟩ := h
    obtain rfl : key = o.key := KvOpret.bytes_eq_ok hkey
    rw [KvOpret.sizesMatch] at hsizes
    rw [hsizes, if_pos (by simp [hsymbol, hzero, not_lt.1 hkeylen, not_lt.1 hvalue])]
    dsimp only at h ⊢
    split at h
    · rw [except_bind_eq_ok] at h
      obtain ⟨_, -, h⟩ := h
      rw [except_bind_eq_ok] at h
      obtain ⟨_, -, h⟩ := h
      cases h
      rw [if_pos (by assumption)]
    · cases h
      rw [if_neg (by assumption)]
  · rw [if_neg hsizes] at h
    cases h
    rw [KvOpret.sizesMatch, Bool.not_eq_true] at hsizes
    simp [hsizes]

end Updates

/-! ## The fee -/

/-- `IGUANA_MAXSCRIPTSIZE`. -/
def iguanaMaxscriptsize : Nat := 10001

/-- The fee before it is raised to the least fee, in exact integers. -/
def exactFee (flags : UInt32) (opretlen keylen : Nat) : Nat :=
  kvnumdays flags * (opretlen * opretlen / min keylen 32)

theorem kvnumdays_le (flags : UInt32) : kvnumdays flags ≤ 365 := by
  unfold kvnumdays
  dsimp only
  split
  · omega
  · omega

/-- A product that wraps around is not the fee. -/
theorem toUint64_toInt32_eq {x : Nat} (hx : x < 2 ^ 63) :
    toUint64 (toInt32 x) = x ↔ x < 2 ^ 31 := by
  rw [toUint64, toInt32, Int.bmod_def]
  split
  · omega
  · omega

theorem toUint64_toInt32_cases (x : Int) :
    0 ≤ toUint64 (toInt32 x) ∧ (toUint64 (toInt32 x) < 2 ^ 31 ∨ 2 ^ 63 ≤ toUint64 (toInt32 x)) := by
  rw [toUint64, toInt32, Int.bmod_def]
  split
  · omega
  · omega

/-- The fee is exact as long as it is below 2^31. -/
theorem kvfee_eq_iff {flags : UInt32} {opretlen keylen : Nat}
    (hlen : opretlen ≤ iguanaMaxscriptsize) :
    kvfee flags opretlen keylen = max 100000 (exactFee flags opretlen keylen) ↔
      exactFee flags opretlen keylen < 2 ^ 31 := by
  have hsquare : opretlen * opretlen ≤ 10001 * 10001 := Nat.mul_le_mul hlen hlen
  have hmin : (if 32 < keylen then 32 else keylen) = min keylen 32 := by
    rw [Nat.min_def]
    split
    · rw [if_neg (by omega)]
    · rw [if_pos (by omega)]
  have hint : toInt32 ((opretlen : Int) * opretlen) = ((opretlen * opretlen : Nat) : Int) := by
    rw [← Nat.cast_mul, toInt32, Int.bmod_def, if_pos (by omega)]
    omega
  have hproduct : (kvnumdays flags : Int) *
      (toInt32 ((opretlen : Int) * opretlen)).tdiv ((min keylen 32 : Nat) : Int) =
        (exactFee flags opretlen keylen : Nat) := by
    rw [hint, ← Int.ofNat_tdiv, exactFee, Nat.cast_mul]
  have hbound : exactFee flags opretlen keylen < 2 ^ 63 := by
    have hdiv : opretlen * opretlen / min keylen 32 ≤ 10001 * 10001 :=
      (Nat.div_le_self _ _).trans hsquare
    have hmul := Nat.mul_le_mul (kvnumdays_le flags) hdiv
    rw [exactFee]
    omega
  rw [kvfee, hmin, hproduct]
  generalize exactFee flags opretlen keylen = x at hbound ⊢
  by_cases hwrap : x < 2 ^ 31
  · rw [(toUint64_toInt32_eq hbound).2 hwrap, iff_true_right hwrap]
    split
    · omega
    · omega
  · have hcases := toUint64_toInt32_cases x
    rw [iff_false_right hwrap]
    generalize toUint64 (toInt32 x) = fee at hcases ⊢
    split
    · omega
    · omega

/-! ## Harmless op_returns -/

section Safe

variable {env : KvEnv} {o : KvOpret} {value : Nat} {kv : KvStore}

/-- An update neither reads outside the op_return nor divides by zero, and the fee that it asks
for is the exact one. -/
structure KvSafe (env : KvEnv) (o : KvOpret) (value : Nat) (kv : KvStore) : Prop where
  /-- The update returns. -/
  returns : Returns (env.kvupdateChecked o value kv)
  /-- The fee that is asked for, when one is asked for. -/
  fee : env.assetchainsSymbol.isEmpty = false → o.keylen + 13 ≤ o.opretlen →
    kvfee o.flags o.opretlen o.keylen = max 100000 (exactFee o.flags o.opretlen o.keylen)

/-- The op_return has its header, and if there is room for the key then the key is not empty, the
fee is below 2^31, and the search for a transfer is not made or ends in the op_return. -/
def KvHarmless (env : KvEnv) (o : KvOpret) (value : Nat) (kv : KvStore) : Prop :=
  13 ≤ o.opretlen ∧ (o.keylen + 13 ≤ o.opretlen →
    0 < o.keylen ∧ exactFee o.flags o.opretlen o.keylen < 2 ^ 31 ∧
    (env.kvaccepts o value = true → UpdatesRecord env o kv → o.TransferEnds))

/-- Behind the test of the key length. -/
theorem returns_of_key (hsymbol : env.assetchainsSymbol.isEmpty = false)
    (hkeylen : o.keylen + 13 ≤ o.opretlen) :
    Returns (env.kvupdateChecked o value kv) ↔ 0 < o.keylen ∧
      (env.kvaccepts o value = true → UpdatesRecord env o kv → o.TransferEnds) := by
  rw [KvEnv.kvupdateChecked, hsymbol, if_neg Bool.false_ne_true, Returns.bind_const,
    KvOpret.returns_bytes, and_iff_right (Or.inr (by omega)), if_neg (by omega),
    Returns.bind_iff, KvOpret.fee, Nat.pos_iff_ne_zero]
  by_cases hzero : o.keylen = 0
  · simp [hzero]
  · have haccept : env.kvaccepts o value = true ↔
        kvfee o.flags o.opretlen o.keylen ≤ value ∧ o.sizesMatch = true := by
      simp [KvEnv.kvaccepts, hsymbol, hkeylen, hzero, KvOpret.sizesMatch]
    simp only [hzero, ↓reduceIte, Returns.ok, true_and, Except.ok.injEq, forall_eq', ne_eq,
      not_false_eq_true, haccept]
    split
    · rename_i hvalue
      simp [not_le.2 hvalue]
    · rename_i hvalue
      split
      · rename_i hsizes
        simp [returns_kvstoreChecked hsizes, not_lt.1 hvalue, hsizes]
      · rename_i hsizes
        simp [hsizes]

/-- An update is safe exactly for a harmless op_return; on the main chain there are no updates. -/
theorem kvsafe_iff (hlen : o.opretlen ≤ iguanaMaxscriptsize) :
    KvSafe env o value kv ↔ env.assetchainsSymbol.isEmpty = true ∨ KvHarmless env o value kv := by
  cases hsymbol : env.assetchainsSymbol.isEmpty with
  | true =>
    refine iff_of_true ⟨?_, fun h => by simp [hsymbol] at h⟩ (Or.inl rfl)
    rw [KvEnv.kvupdateChecked, hsymbol]
    exact Returns.ok kv
  | false =>
    rw [or_iff_right Bool.false_ne_true]
    by_cases hheader : 13 ≤ o.opretlen
    · rw [KvHarmless, and_iff_right hheader]
      by_cases hkeylen : o.keylen + 13 ≤ o.opretlen
      · rw [forall_prop_of_true hkeylen]
        constructor
        · intro h
          obtain ⟨hpos, htransfer⟩ := (returns_of_key hsymbol hkeylen).1 h.returns
          exact ⟨hpos, (kvfee_eq_iff hlen).1 (h.fee hsymbol hkeylen), htransfer⟩
        · rintro ⟨hpos, hfee, htransfer⟩
          exact ⟨(returns_of_key hsymbol hkeylen).2 ⟨hpos, htransfer⟩,
            fun _ _ => (kvfee_eq_iff hlen).2 hfee⟩
      · refine iff_of_true ⟨?_, fun _ h => absurd h hkeylen⟩ fun h => absurd h hkeylen
        rw [KvEnv.kvupdateChecked, hsymbol, if_neg Bool.false_ne_true, Returns.bind_const,
          KvOpret.returns_bytes, if_pos (by omega)]
        exact ⟨Or.inr (by omega), Returns.ok kv⟩
    · refine iff_of_false (fun h => ?_) fun h => hheader h.1
      have hreturns := h.returns
      rw [KvEnv.kvupdateChecked, hsymbol, if_neg Bool.false_ne_true, Returns.bind_iff,
        KvOpret.returns_bytes] at hreturns
      omega

end Safe

/-! ## Op_returns that are not harmless -/

namespace SampleKv

/-- An op_return for the empty key. -/
def emptyKey : KvOpret where
  buf := bufOf ([0x4b] ++ leBytes 2 0 ++ leBytes 2 0 ++ leBytes 4 100 ++ leBytes 4 0)
  opretlen := 13

end SampleKv

open SampleKv

/-- An op_return for a key of one byte is harmless, whatever it pays. -/
theorem new_key_safe : KvSafe env (opret 200) 100000 (fun _ => none) := by
  refine (kvsafe_iff (by decide)).2 (Or.inr ⟨by decide, fun _ => ⟨by decide, by decide, ?_⟩⟩)
  rintro - ⟨ptr, hptr, -⟩
  cases hptr

/-- One for the empty key divides by zero, and the fee for a year of a short key in a long
op_return is cut to 32 bits. -/
theorem empty_key_divides_by_zero :
    env.kvupdateChecked emptyKey 100000 (fun _ => none) = .error .divisionByZero ∧
    ¬ KvSafe env emptyKey 100000 (fun _ => none) ∧
    kvfee 0xffc 10000 1 = 2140261632 ∧ exactFee 0xffc 10000 1 = 36500000000 := by
  have hfault : env.kvupdateChecked emptyKey 100000 (fun _ => none) = .error .divisionByZero := by
    rfl
  refine ⟨hfault, fun h => ?_, by decide, by decide⟩
  have hreturns := h.returns
  rw [hfault] at hreturns
  exact Returns.not_error _ hreturns

end IndexChain.Notary
