import IndexChain.Models.Notary.Kv

/-!
# How long a key lasts

A new key pays for the days that its flags state. The search that runs before the record is
written clears the flags, so the record lasts for one day whatever was paid
(`paidFor_iff`). The command that makes the op_return searches into flags of its own.
-/

namespace IndexChain.Notary

open IndexChain.Core
open KvEnv (kvrecord)

/-! ## Searches and updates -/

/-- A call that reads or writes the store. -/
inductive KvCall where
  /-- `komodo_kvsearch`, at a height of the chain. -/
  | search (currentHeight : Int) (key : List UInt8)
  /-- `komodo_kvupdate`. -/
  | update (o : KvOpret) (value : Nat)

namespace KvCall

/-- The store after a call. -/
def run (env : KvEnv) : KvCall → KvStore → KvStore
  | search currentHeight key, kv => (kvsearch currentHeight key kv).2
  | update o value, kv => env.kvupdate o value kv

/-- The store after a list of calls. -/
def runs (env : KvEnv) (calls : List KvCall) (kv : KvStore) : KvStore :=
  calls.foldl (fun kv call => call.run env kv) kv

/-- A call does not update a key, nor search for it after a height. -/
def Spares (key : List UInt8) (last : Int) : KvCall → Prop
  | search currentHeight key' => key' = key → currentHeight ≤ last
  | update o _ => o.key ≠ key

variable {env : KvEnv} {key : List UInt8} {last : Int} {kv : KvStore} {ptr : KomodoKv}

/-- A search that finds a live record. -/
theorem kvsearch_live (hptr : kv key = some ptr) {currentHeight : Int}
    (hlive : currentHeight ≤ ptr.expiry) : kvsearch currentHeight key kv = (some ptr, kv) := by
  have hexpired : ptr.expired currentHeight = false := by simpa [KomodoKv.expired] using hlive
  simp [kvsearch, hptr, hexpired]

/-- A search that finds a record that has expired. -/
theorem kvsearch_expired (hptr : kv key = some ptr) {currentHeight : Int}
    (hdead : ptr.expiry < currentHeight) :
    kvsearch currentHeight key kv = (none, kv.delete key) := by
  have hexpired : ptr.expired currentHeight = true := by simpa [KomodoKv.expired] using hdead
  simp [kvsearch, hptr, hexpired]

/-- A record that lasts until a height is kept by a call that spares it until then. -/
theorem run_of_spares {call : KvCall} (hcall : call.Spares key last) (hptr : kv key = some ptr)
    (hlast : last ≤ ptr.expiry) : call.run env kv key = some ptr := by
  cases call with
  | search currentHeight key' =>
    by_cases hkey : key' = key
    · obtain rfl := hkey
      rw [run, kvsearch_live hptr ((hcall rfl).trans hlast)]
      exact hptr
    · exact (kvsearch_snd_of_ne currentHeight hkey kv).trans hptr
  | update o value => exact (KvEnv.kvupdate_of_ne hcall).trans hptr

/-- It is kept by every list of such calls. -/
theorem runs_of_spares {calls : List KvCall} (hcalls : ∀ call ∈ calls, call.Spares key last)
    (hptr : kv key = some ptr) (hlast : last ≤ ptr.expiry) : runs env calls kv key = some ptr := by
  induction calls generalizing kv with
  | nil => exact hptr
  | cons call calls ih =>
    obtain ⟨hcall, hcalls⟩ := List.forall_mem_cons.1 hcalls
    exact ih hcalls (run_of_spares hcall hptr hlast)

end KvCall

/-! ## What a new key gets -/

/-- The owner of a new key gets what the flags of the op_return state: the record has these
flags, and is found with its value at every height of its lifetime. -/
structure PaidFor (env : KvEnv) (o : KvOpret) (value : Nat) (kv : KvStore) : Prop where
  /-- The record has the flags that the fee was computed from. -/
  flags : (env.kvupdate o value kv o.key).map KomodoKv.flags = some o.flags
  /-- The record is found until its last height, unless a later update touches the key. -/
  found : ∀ calls : List KvCall,
    (∀ call ∈ calls, call.Spares o.key (o.height + kvduration o.flags)) →
    ∀ currentHeight : Int, toInt32 currentHeight = currentHeight →
      currentHeight ≤ o.height + kvduration o.flags →
      (kvsearch currentHeight o.key (KvCall.runs env calls (env.kvupdate o value kv))).1.map
        KomodoKv.value = some o.value

section New

variable {env : KvEnv} {o : KvOpret} {value : Nat} {kv : KvStore}

/-- The record of a new key. -/
theorem kvupdate_of_new (haccept : env.kvaccepts o value = true)
    (hnew : (kvsearch o.height o.key kv).1 = none) :
    env.kvupdate o value kv o.key = some (kvrecord o none none) := by
  have hstored : (kvsearch o.height o.key kv).2 o.key = none := by
    cases hptr : kv o.key with
    | none => simp [kvsearch, hptr]
    | some ptr =>
      rcases lt_or_ge ptr.expiry o.height with hdead | hlive
      · rw [KvCall.kvsearch_expired hptr hdead]
        exact KvStore.delete_self
      · rw [KvCall.kvsearch_live hptr hlive] at hnew
        cases hnew
  simp [KvEnv.kvupdate, haccept, hnew, hstored]

/-- Its flags are zero. -/
@[simp] theorem kvrecord_flags_of_new : (kvrecord o none none).flags = 0 := rfl

@[simp] theorem kvrecord_value_of_new : (kvrecord o none none).value = o.value := rfl

theorem kvduration_zero : kvduration 0 = 1440 := by decide

/-- A new key lasts for one day. -/
theorem expiry_of_new : (kvrecord o none none).expiry = toInt32 (o.height + 1440) := by
  rw [KomodoKv.expiry, kvrecord_flags_of_new, kvduration_zero, KvEnv.kvrecord_height,
    Nat.cast_ofNat]

/-- An addition of a day that does not wrap around. -/
theorem toInt32_day {height : Int} (hrange : toInt32 height = height) :
    height ≤ toInt32 (height + 1440) ↔ height + 1440 < 2 ^ 31 := by
  have hlow : -2 ^ 31 ≤ height ∧ height < 2 ^ 31 := by
    rw [toInt32, Int.bmod_def] at hrange
    split at hrange
    · omega
    · omega
  rw [toInt32, Int.bmod_def]
  split
  · omega
  · omega

theorem toInt32_of_day {height : Int} (hrange : toInt32 height = height)
    (hday : height + 1440 < 2 ^ 31) : toInt32 (height + 1440) = height + 1440 := by
  rw [toInt32, Int.bmod_def] at hrange ⊢
  split at hrange
  · split
    · omega
    · omega
  · split
    · omega
    · omega

/-- The owner of a new key gets what was paid for exactly when the flags are zero, which state a
single day, and that day does not end behind the last height there is. -/
theorem paidFor_iff (haccept : env.kvaccepts o value = true)
    (hnew : (kvsearch o.height o.key kv).1 = none) :
    PaidFor env o value kv ↔ o.flags = 0 ∧ o.height + 1440 < 2 ^ 31 := by
  have hrecord := kvupdate_of_new haccept hnew
  have hrange : toInt32 o.height = o.height := toInt32_int32 o.buf 5
  constructor
  · intro h
    have hflags := h.flags
    rw [hrecord, Option.map_some, Option.some_inj, kvrecord_flags_of_new] at hflags
    refine ⟨hflags.symm, (toInt32_day hrange).1 ?_⟩
    have hfound := h.found [] (fun _ hcall => absurd hcall List.not_mem_nil) o.height hrange
      (by omega)
    by_contra hdead
    rw [not_le, ← expiry_of_new] at hdead
    rw [KvCall.runs, List.foldl_nil, KvCall.kvsearch_expired hrecord hdead] at hfound
    cases hfound
  · rintro ⟨hflags, hday⟩
    have hexpiry : (kvrecord o none none).expiry = o.height + 1440 := by
      rw [expiry_of_new, toInt32_of_day hrange hday]
    refine ⟨by rw [hrecord, hflags]; rfl, fun calls hcalls currentHeight _ hheight => ?_⟩
    rw [hflags, kvduration_zero] at hcalls hheight
    have hlast : o.height + ((1440 : Nat) : Int) ≤ (kvrecord o none none).expiry := hexpiry.ge
    have hkept : KvCall.runs env calls (env.kvupdate o value kv) o.key =
        some (kvrecord o none none) := KvCall.runs_of_spares hcalls hrecord hlast
    rw [KvCall.kvsearch_live hkept (hheight.trans hlast)]
    rfl

end New

/-! ## A key for two days -/

namespace SampleKv

/-- An op_return that sets the key `a` to `x` at height 100. -/
def newOpret (flags : Nat) : KvOpret where
  buf := bufOf ([0x4b] ++ leBytes 2 1 ++ leBytes 2 1 ++ leBytes 4 100 ++ leBytes 4 flags ++
    [0x61, 0x78])
  opretlen := 15

end SampleKv

open SampleKv

/-- Without flags a new key lasts for the day that is paid. -/
theorem one_day_paid : PaidFor env (newOpret 0) 100000 (fun _ => none) :=
  (paidFor_iff (by decide) rfl).2 ⟨by decide, by decide⟩

/-- The flags of two days, from the command: the fee is paid, and the key is gone on the
second day. -/
theorem two_days_lost :
    env.kvaccepts (newOpret 5) 100000 = true ∧ kvnumdays (newOpret 5).flags = 2 ∧
    (env.kvupdate (newOpret 5) 100000 (fun _ => none) [0x61]).map KomodoKv.flags = some 0 ∧
    (kvsearch 1541 [0x61] (env.kvupdate (newOpret 5) 100000 (fun _ => none))).1 = none ∧
    (1541 : Int) ≤ (newOpret 5).height + kvduration (newOpret 5).flags ∧
    ¬ PaidFor env (newOpret 5) 100000 (fun _ => none) := by
  refine ⟨by decide, by decide, by decide, by decide, by decide, fun h => ?_⟩
  exact absurd h.flags (by decide)

end IndexChain.Notary
