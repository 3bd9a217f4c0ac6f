import IndexChain.Core.Serialize

/-!
# Canonical readers

A reader is canonical when what it takes off the front of a byte string is what is
written for the value it gives: then a value that is read comes from its own bytes. A
reader is stable when it reads the same from a longer string.
-/

namespace IndexChain.Core

/-- The bytes of a number fit their count. -/
theorem leNat_lt (bs : List UInt8) : leNat bs < 256 ^ bs.length := by
  induction bs with
  | nil => exact Nat.one_pos
  | cons b bs ih =>
    have hb := b.toNat_lt
    rw [leNat, List.length_cons, Nat.pow_succ]
    omega

/-- A number determines its bytes. -/
theorem leBytes_leNat (bs : List UInt8) : leBytes bs.length (leNat bs) = bs := by
  induction bs with
  | nil => rfl
  | cons b bs ih =>
    have hb := b.toNat_lt
    have hhead : UInt8.ofNat (b.toNat + 256 * leNat bs) = b := by
      apply UInt8.toNat_inj.1
      rw [UInt8.toNat_ofNat']
      omega
    have htail : (b.toNat + 256 * leNat bs) / 256 = leNat bs := by omega
    simp only [leNat, List.length_cons, leBytes]
    rw [hhead, htail, ih]

/-- A number wraps at the width of its bytes. -/
theorem leNat_leBytes_mod (n x : Nat) : leNat (leBytes n x) = x % 256 ^ n := by
  induction n generalizing x with
  | zero => rw [Nat.pow_zero, Nat.mod_one, leBytes, leNat]
  | succ n ih =>
    have hpow : 256 ^ (n + 1) = 256 * 256 ^ n := Nat.pow_succ'
    rw [leBytes, leNat, ih, UInt8.toNat_ofNat', hpow]
    exact Nat.mod_mul.symm

/-- The bytes of a signed number. -/
def writeInt (n : Nat) (x : Int) : List UInt8 :=
  leBytes n (x % 256 ^ n).toNat

@[simp] theorem writeInt_length (n : Nat) (x : Int) : (writeInt n x).length = n :=
  leBytes_length n _

/-- A number is a value of a signed type of `n` bytes. -/
def FitsInt (n : Nat) (x : Int) : Prop :=
  -((256 ^ n : Nat) : Int) ≤ 2 * x ∧ 2 * x < ((256 ^ n : Nat) : Int)

/-- `MAX_SIZE`, the largest size that is read. -/
def maxSize : Nat := 0x02000000

/-- Write a byte vector: its size and its bytes. -/
def writeBytes (bs : List UInt8) : List UInt8 :=
  writeCompactSize bs.length ++ bs

namespace Reader

variable {α β : Type} {r : Reader α} {k : α → Reader β} {n : Nat}

/-- A signed number in its range is read back. -/
theorem Reads.int {x : Int} (h : FitsInt n x) : Reads (Reader.int n) (writeInt n x) x := by
  obtain ⟨hlow, hhigh⟩ := h
  have hpos : (0 : Int) < 256 ^ n := Int.pow_pos (by decide)
  have hnonneg := Int.emod_nonneg x hpos.ne'
  have hlt : (x % 256 ^ n).toNat < 256 ^ n := by
    have h := Int.emod_lt_of_pos x hpos
    rw [Int.toNat_lt hnonneg]
    push_cast
    exact h
  have hbmod : (((x % 256 ^ n).toNat : Nat) : Int).bmod (256 ^ n) = x := by
    rw [Int.toNat_of_nonneg hnonneg]
    have hcast : ((256 : Int) ^ n) = ((256 ^ n : Nat) : Int) := by push_cast; rfl
    rw [hcast, Int.emod_bmod]
    apply Int.bmod_eq_of_le_mul_two
    all_goals omega
  refine Reads.bind_pure (Reads.nat hlt) ?_
  rw [hbmod]
  exact Reads.pure x

/-- A byte vector of an admitted size is read back. -/
theorem Reads.vector {cs : List UInt8} (h : cs.length ≤ 0x02000000) :
    Reads Reader.vector (writeBytes cs) cs :=
  (Reads.compactSize h).bind (Reads.bytes rfl)

/-- A byte vector is read back when its size is admitted. -/
theorem ReadsWhen.bytes {cs : List UInt8} (h : cs.length < 2 ^ 64) :
    ReadsWhen (cs.length ≤ maxSize) Reader.vector (writeBytes cs) cs :=
  ReadsWhen.vector h

theorem unmarshal_eq_some {bs : List UInt8} {a : α} :
    unmarshal r bs = some a ↔ r bs = some (a, []) := by
  refine ⟨exists_of_unmarshal, fun h => ?_⟩
  simp only [unmarshal, h]

/-- What the reader takes off is what is written for the value, which is admitted. -/
def Canonical (p : α → Prop) (r : Reader α) (write : α → List UInt8) : Prop :=
  ∀ ⦃bs a rest⦄, r bs = some (a, rest) → bs = write a ++ rest ∧ p a

theorem Canonical.byte : Canonical (fun _ => True) Reader.byte fun b => [b] := by
  intro bs b rest h
  cases bs with
  | nil => cases h
  | cons c bs =>
    obtain ⟨rfl, rfl⟩ : c = b ∧ bs = rest := by simpa [Reader.byte] using h
    exact ⟨rfl, trivial⟩

theorem Canonical.bytes (n : Nat) :
    Canonical (fun cs => cs.length = n) (Reader.bytes n) fun cs => cs := by
  intro bs cs rest h
  unfold Reader.bytes at h
  split at h
  · cases h
  · rename_i hlen
    obtain ⟨rfl, rfl⟩ : bs.take n = cs ∧ bs.drop n = rest := by simpa using h
    exact ⟨(List.take_append_drop n bs).symm, List.length_take_of_le (Nat.not_lt.1 hlen)⟩

theorem Canonical.nat (n : Nat) :
    Canonical (fun x => x < 256 ^ n) (Reader.nat n) (leBytes n) := by
  intro bs x rest h
  obtain ⟨cs, rest', hbytes, hpure⟩ := bind_eq_some.1 h
  obtain ⟨rfl, rfl⟩ : leNat cs = x ∧ rest' = rest := by simpa using pure_eq_some.1 hpure
  obtain ⟨rfl, rfl⟩ := Canonical.bytes n hbytes
  exact ⟨by rw [leBytes_leNat], leNat_lt cs⟩

theorem Canonical.int (n : Nat) : Canonical (FitsInt n) (Reader.int n) (writeInt n) := by
  intro bs x rest h
  obtain ⟨v, rest', hnat, hpure⟩ := bind_eq_some.1 h
  obtain ⟨rfl, rfl⟩ : (v : Int).bmod (256 ^ n) = x ∧ rest' = rest := by
    simpa using pure_eq_some.1 hpure
  obtain ⟨rfl, hlt⟩ := Canonical.nat n hnat
  have hmod : ((v : Int).bmod (256 ^ n) % 256 ^ n).toNat = v := by
    have hcast : ((256 : Int) ^ n) = ((256 ^ n : Nat) : Int) := by push_cast; rfl
    rw [hcast, Int.bmod_emod, Int.emod_eq_of_lt (by omega) (by omega), Int.toNat_natCast]
  have hpos : 0 < 256 ^ n := Nat.pow_pos (by decide)
  have hlow := @Int.le_bmod v (256 ^ n) hpos
  have hhigh := @Int.bmod_lt v (256 ^ n) hpos
  refine ⟨by rw [writeInt, hmod], ?_, ?_⟩
  all_goals omega

/-- A check of a value that is given on. -/
theorem guard_eq_some {c : Prop} [Decidable c] {a b : α} {bs rest : List UInt8}
    (h : (if c then fail else Pure.pure a : Reader α) bs = some (b, rest)) :
    ¬ c ∧ a = b ∧ bs = rest := by
  split at h
  · cases h
  · rename_i hc
    exact ⟨hc, by simpa using pure_eq_some.1 h⟩

/-- A size is read from its shortest form, and only up to 32 MiB. -/
theorem Canonical.compactSize :
    Canonical (fun n => n ≤ 0x02000000) Reader.compactSize writeCompactSize := by
  intro bs n rest hread
  obtain ⟨chSize, rest₁, hbyte, h⟩ := bind_eq_some.1 hread
  obtain ⟨rfl, -⟩ := Canonical.byte hbyte
  clear hread hbyte
  by_cases hsmall : chSize < 253
  · rw [if_pos hsmall] at h
    obtain ⟨m, rest₂, hm, hcheck⟩ := bind_eq_some.1 h
    obtain ⟨rfl, rfl⟩ : chSize.toNat = m ∧ rest₁ = rest₂ := by simpa using pure_eq_some.1 hm
    obtain ⟨hok, rfl, rfl⟩ := guard_eq_some hcheck
    refine ⟨?_, by omega⟩
    have hlt : chSize.toNat < 253 := UInt8.lt_iff_toNat_lt.1 hsmall
    rw [writeCompactSize, if_pos hlt, leBytes, UInt8.ofNat_toNat, leBytes]
  rw [if_neg hsmall] at h
  by_cases hword : chSize = 253
  · rw [if_pos hword] at h
    obtain ⟨m, rest₂, hm, hcheck⟩ := bind_eq_some.1 h
    obtain ⟨rfl, hlt⟩ := Canonical.nat 2 hm
    obtain ⟨hok, rfl, rfl⟩ := guard_eq_some hcheck
    have hlarge : ¬ m < 253 := fun hlt => hok (Or.inl ⟨hword, hlt⟩)
    refine ⟨?_, by omega⟩
    rw [writeCompactSize, if_neg hlarge, if_pos (Nat.le_of_lt_succ hlt), hword]
    rfl
  rw [if_neg hword] at h
  by_cases hdword : chSize = 254
  · rw [if_pos hdword] at h
    obtain ⟨m, rest₂, hm, hcheck⟩ := bind_eq_some.1 h
    obtain ⟨rfl, hlt⟩ := Canonical.nat 4 hm
    obtain ⟨hok, rfl, rfl⟩ := guard_eq_some hcheck
    have hlarge : ¬ m < 0x10000 := fun hlt => hok (Or.inr (Or.inl ⟨hdword, hlt⟩))
    refine ⟨?_, by omega⟩
    rw [writeCompactSize, if_neg (by omega), if_neg (by omega),
      if_pos (Nat.le_of_lt_succ hlt), hdword]
    rfl
  · rw [if_neg hdword] at h
    obtain ⟨m, rest₂, hm, hcheck⟩ := bind_eq_some.1 h
    obtain ⟨hok, rfl, rfl⟩ := guard_eq_some hcheck
    -- a size in eight bytes is either not in its shortest form or too large
    have hqword : chSize = 255 := by
      have hch := chSize.toNat_lt
      rw [UInt8.lt_iff_toNat_lt] at hsmall
      rw [← UInt8.toNat_inj] at hword hdword ⊢
      simp only [UInt8.reduceToNat] at hsmall hword hdword ⊢
      omega
    have hlarge : ¬ m < 0x100000000 := fun hlt => hok (Or.inr (Or.inr (Or.inl ⟨hqword, hlt⟩)))
    omega

theorem Canonical.vector :
    Canonical (fun cs => cs.length ≤ 0x02000000) Reader.vector writeBytes := by
  intro bs cs rest h
  obtain ⟨n, rest', hsize, hbytes⟩ := bind_eq_some.1 h
  obtain ⟨rfl, hn⟩ := Canonical.compactSize hsize
  obtain ⟨rfl, rfl⟩ := Canonical.bytes n hbytes
  exact ⟨by rw [writeBytes, List.append_assoc], hn⟩

theorem Canonical.repeated {p : α → Prop} {write : α → List UInt8} (h : Canonical p r write)
    (n : Nat) : Canonical (fun xs => xs.length = n ∧ ∀ x ∈ xs, p x) (Reader.repeated r n)
      fun xs => xs.flatMap write := by
  induction n with
  | zero =>
    intro bs xs rest hread
    obtain ⟨rfl, rfl⟩ : [] = xs ∧ bs = rest := by simpa using pure_eq_some.1 hread
    exact ⟨rfl, rfl, by simp⟩
  | succ n ih =>
    intro bs xs rest hread
    obtain ⟨x, rest₁, hx, hread⟩ := bind_eq_some.1 hread
    obtain ⟨ys, rest₂, hys, hpure⟩ := bind_eq_some.1 hread
    obtain ⟨rfl, rfl⟩ : x :: ys = xs ∧ rest₂ = rest := by simpa using pure_eq_some.1 hpure
    obtain ⟨rfl, hpx⟩ := h hx
    obtain ⟨rfl, hlen, hpys⟩ := ih hys
    refine ⟨?_, congrArg (· + 1) hlen, List.forall_mem_cons.2 ⟨hpx, hpys⟩⟩
    simp only [List.flatMap_cons, List.append_assoc]

theorem Canonical.vectorOf {p : α → Prop} {write : α → List UInt8} (h : Canonical p r write) :
    Canonical (fun xs => xs.length ≤ 0x02000000 ∧ ∀ x ∈ xs, p x) (Reader.vectorOf r)
      (writeVector write) := by
  intro bs xs rest hread
  obtain ⟨n, rest', hsize, hrepeated⟩ := bind_eq_some.1 hread
  obtain ⟨rfl, hn⟩ := Canonical.compactSize hsize
  obtain ⟨rfl, rfl, hxs⟩ := h.repeated n hrepeated
  exact ⟨by rw [writeVector, List.append_assoc], hn, hxs⟩

/-! ## Readers and writers of one format -/

/-- The reader gives back the admitted values from what is written for them, and takes
nothing else. -/
structure Inverts (p : α → Prop) (r : Reader α) (write : α → List UInt8) : Prop where
  /-- An admitted value is read back. -/
  reads : ∀ a, p a → Reads r (write a) a
  /-- What is read was written for an admitted value. -/
  canonical : Canonical p r write

section Inverts

variable {p q : α → Prop} {write : α → List UInt8}

theorem Inverts.congr (h : Inverts p r write) (hpq : ∀ a, p a ↔ q a) : Inverts q r write :=
  ⟨fun a ha => h.reads a ((hpq a).2 ha), fun _ _ _ hread =>
    ⟨(h.canonical hread).1, (hpq _).1 (h.canonical hread).2⟩⟩

theorem Inverts.pure (a : α) : Inverts (fun x => x = a) (Pure.pure a) fun _ => [] := by
  refine ⟨?_, ?_⟩
  · intro x hx
    rw [hx]
    exact Reads.pure a
  · intro bs x rest h
    obtain ⟨rfl, rfl⟩ : a = x ∧ bs = rest := by simpa using pure_eq_some.1 h
    exact ⟨rfl, rfl⟩

/-- One value, and then those of which it is a part. -/
theorem Inverts.bind {v : β → List UInt8} {s : α → β → Prop} (part : β → α)
    (hr : Inverts p r write) (hk : ∀ a, Inverts (s a) (k a) v)
    (hpart : ∀ a b, s a b → part b = a) :
    Inverts (fun b => p (part b) ∧ s (part b) b) (r >>= k) fun b => write (part b) ++ v b := by
  refine ⟨?_, ?_⟩
  · rintro b ⟨hp, hs⟩
    exact (hr.reads (part b) hp).bind ((hk (part b)).reads b hs)
  · intro bs b rest h
    obtain ⟨a, rest', ha, hb⟩ := bind_eq_some.1 h
    obtain ⟨rfl, hp⟩ := hr.canonical ha
    obtain ⟨rfl, hs⟩ := (hk a).canonical hb
    obtain rfl := hpart a b hs
    exact ⟨(List.append_assoc _ _ _).symm, hp, hs⟩

/-- The last value. -/
theorem Inverts.bind_pure {f : α → β} (part : β → α) (hr : Inverts p r write)
    (hpart : ∀ a, part (f a) = a) :
    Inverts (fun b => p (part b) ∧ b = f (part b)) (r >>= fun a => Pure.pure (f a))
      fun b => write (part b) := by
  have h := hr.bind part (fun a => Inverts.pure (f a)) fun a b hb => by rw [hb, hpart]
  simpa only [List.append_nil] using h

theorem Inverts.int (n : Nat) : Inverts (FitsInt n) (Reader.int n) (writeInt n) :=
  ⟨fun _ hx => Reads.int hx, Canonical.int n⟩

theorem Inverts.vector :
    Inverts (fun cs => cs.length ≤ 0x02000000) Reader.vector writeBytes :=
  ⟨fun _ hcs => Reads.vector hcs, Canonical.vector⟩

theorem Inverts.vectorOf (h : Inverts p r write) :
    Inverts (fun xs => xs.length ≤ 0x02000000 ∧ ∀ x ∈ xs, p x) (Reader.vectorOf r)
      (writeVector write) :=
  ⟨fun _ hxs => Reads.vectorOf hxs.1 fun x hx => h.reads x (hxs.2 x hx), h.canonical.vectorOf⟩

end Inverts

/-! ## Longer strings -/

/-- What follows does not change what is read. -/
def Stable (r : Reader α) : Prop :=
  ∀ ⦃bs a rest⦄, r bs = some (a, rest) → ∀ ext, r (bs ++ ext) = some (a, rest ++ ext)

/-- A reader of all values that it takes. -/
theorem Inverts.stable {write : α → List UInt8} {p : α → Prop} (h : Inverts p r write) :
    Stable r := by
  intro bs a rest hread ext
  obtain ⟨rfl, hp⟩ := h.canonical hread
  rw [List.append_assoc]
  exact h.reads a hp (rest ++ ext)

theorem Stable.pure (a : α) : Stable (Pure.pure a) := by
  intro bs b rest h ext
  obtain ⟨rfl, rfl⟩ : a = b ∧ bs = rest := by simpa using pure_eq_some.1 h
  rfl

theorem Stable.fail : Stable (fail : Reader α) := by
  intro bs a rest h
  cases h

theorem Stable.bind (hr : Stable r) (hk : ∀ a, Stable (k a)) : Stable (r >>= k) := by
  intro bs b rest h ext
  obtain ⟨a, rest', ha, hb⟩ := bind_eq_some.1 h
  rw [bind_of_eq (hr ha ext)]
  exact hk a hb ext

theorem Stable.ite {c : Prop} [Decidable c] {s : Reader α} (hr : Stable r) (hs : Stable s) :
    Stable (if c then r else s) := by
  split
  · exact hr
  · exact hs

theorem Stable.byte : Stable Reader.byte := by
  intro bs b rest h ext
  obtain ⟨rfl, -⟩ := Canonical.byte h
  rfl

theorem Stable.bytes (n : Nat) : Stable (Reader.bytes n) := by
  intro bs cs rest h ext
  obtain ⟨rfl, hlen⟩ := Canonical.bytes n h
  rw [List.append_assoc]
  exact bytes_append hlen

theorem Stable.nat (n : Nat) : Stable (Reader.nat n) :=
  (Stable.bytes n).bind fun _ => Stable.pure _

theorem Stable.compactSize : Stable Reader.compactSize := by
  refine Stable.byte.bind fun chSize => ?_
  have hcheck : ∀ n, Stable (if (chSize = 253 ∧ n < 253) ∨ (chSize = 254 ∧ n < 0x10000) ∨
      (chSize = 255 ∧ n < 0x100000000) ∨ 0x02000000 < n then Reader.fail else Pure.pure n) :=
    fun n => Stable.fail.ite (Stable.pure n)
  exact ((Stable.pure _).bind hcheck).ite (((Stable.nat 2).bind hcheck).ite
    (((Stable.nat 4).bind hcheck).ite ((Stable.nat 8).bind hcheck)))

end Reader

end IndexChain.Core
