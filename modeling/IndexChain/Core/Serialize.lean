import IndexChain.Core.Bytes

/-!
# Writers and their readers

What is written for a value is read back as the value, whatever follows in the
stream. Sizes are written in one, three, five or nine bytes, a vector after its size,
and an optional value after a flag.
-/

namespace IndexChain.Core

/-- The bytes of a 64-bit size in its compact form. -/
def writeCompactSize (n : Nat) : List UInt8 :=
  if n < 253 then leBytes 1 n
  else if n ≤ 0xFFFF then 253 :: leBytes 2 n
  else if n ≤ 0xFFFFFFFF then 254 :: leBytes 4 n
  else 255 :: leBytes 8 n

/-- Write a vector: its size and its elements. -/
def writeVector {α : Type} (write : α → List UInt8) (xs : List α) : List UInt8 :=
  writeCompactSize xs.length ++ xs.flatMap write

/-- Write an optional value: a discriminant, and the value when there is one. -/
def writeOptional {α : Type} (write : α → List UInt8) : Option α → List UInt8
  | some a => 1 :: write a
  | none => [0]

namespace Reader

variable {α β : Type} {r : Reader α} {k : α → Reader β} {a : α} {b : β} {bs cs : List UInt8}

/-- Read a vector: its size and its elements. -/
def vectorOf (r : Reader α) : Reader (List α) := do
  let n ← compactSize
  repeated r n

/-- Read an optional value; the discriminant is 0 or 1. -/
def optional (r : Reader α) : Reader (Option α) := do
  let discriminant ← byte
  if discriminant = 0 then return none
  else if discriminant = 1 then do
    let a ← r
    return some a
  else fail

/-- The reader consumes exactly these bytes and gives this value. -/
def Reads (r : Reader α) (bs : List UInt8) (a : α) : Prop :=
  ∀ rest, r (bs ++ rest) = some (a, rest)

theorem Reads.pure (a : α) : Reads (Pure.pure a) [] a :=
  fun _ => rfl

theorem Reads.bind (ha : Reads r bs a) (hb : Reads (k a) cs b) : Reads (r >>= k) (bs ++ cs) b := by
  intro rest
  rw [List.append_assoc, bind_of_eq (ha (cs ++ rest)), hb]

/-- Bytes that begin with others are read to the same value. -/
theorem Reads.eq_of_prefix (ha : Reads r bs a) {a' : α} (hb : Reads r cs a') (h : bs <+: cs) :
    a = a' := by
  obtain ⟨rest, rfl⟩ := h
  have hfirst := ha rest
  have hwhole := hb []
  rw [List.append_nil, hfirst] at hwhole
  exact congrArg Prod.fst (Option.some.inj hwhole)

/-- A reader followed by what computes the result reads what the reader reads. -/
theorem Reads.bind_pure (ha : Reads r bs a) (hb : Reads (k a) [] b) : Reads (r >>= k) bs b := by
  have h := ha.bind hb
  rwa [List.append_nil] at h

/-- A check that passes consumes nothing. -/
theorem Reads.guard {c : Prop} [Decidable c] (a : α) (h : ¬ c) :
    Reads (if c then fail else Pure.pure a) [] a := by
  rw [if_neg h]
  exact Reads.pure a

theorem Reads.byte (c : UInt8) : Reads Reader.byte [c] c :=
  fun _ => rfl

theorem Reads.nat {n x : Nat} (h : x < 256 ^ n) : Reads (Reader.nat n) (leBytes n x) x :=
  nat_append h

/-- A size that the reader admits is read back. -/
theorem Reads.compactSize {n : Nat} (h : n ≤ 0x02000000) :
    Reads Reader.compactSize (writeCompactSize n) n := by
  unfold writeCompactSize Reader.compactSize
  split
  · rename_i hsmall
    have htoNat : (UInt8.ofNat n).toNat = n := by
      rw [UInt8.toNat_ofNat']
      omega
    have hlt : UInt8.ofNat n < 253 := by
      rw [UInt8.lt_iff_toNat_lt, htoNat]
      exact hsmall
    have hne : ∀ c : UInt8, 253 ≤ c → UInt8.ofNat n ≠ c := by
      intro c hc heq
      rw [heq, UInt8.lt_iff_toNat_lt] at hlt
      rw [UInt8.le_iff_toNat_le] at hc
      omega
    refine Reads.bind_pure (Reads.byte _) ?_
    rw [if_pos hlt, htoNat]
    refine Reads.bind_pure (Reads.pure _) ?_
    refine Reads.guard n ?_
    rintro (⟨heq, -⟩ | ⟨heq, -⟩ | ⟨heq, -⟩ | hbig)
    · exact hne 253 (by decide) heq
    · exact hne 254 (by decide) heq
    · exact hne 255 (by decide) heq
    · omega
  · rename_i hsmall
    split
    · rename_i hmid
      refine (Reads.byte 253).bind ?_
      refine Reads.bind_pure (Reads.nat (x := n) (by omega)) ?_
      refine Reads.guard n ?_
      rintro (⟨-, hlt⟩ | ⟨heq, -⟩ | ⟨heq, -⟩ | hbig)
      · omega
      · exact absurd heq (by decide)
      · exact absurd heq (by decide)
      · omega
    · rename_i hmid
      have hlarge : n ≤ 0xFFFFFFFF := by omega
      rw [if_pos hlarge]
      refine (Reads.byte 254).bind ?_
      refine Reads.bind_pure (Reads.nat (x := n) (by omega)) ?_
      refine Reads.guard n ?_
      rintro (⟨heq, -⟩ | ⟨-, hlt⟩ | ⟨heq, -⟩ | hbig)
      · exact absurd heq (by decide)
      · omega
      · exact absurd heq (by decide)
      · omega

/-- Reading as many values as were written. -/
theorem Reads.repeated {write : α → List UInt8} {xs : List α}
    (h : ∀ x ∈ xs, Reads r (write x) x) :
    Reads (Reader.repeated r xs.length) (xs.flatMap write) xs := by
  induction xs with
  | nil => exact Reads.pure []
  | cons x xs ih =>
    have hhead := h x List.mem_cons_self
    have htail := ih fun y hy => h y (List.mem_cons_of_mem x hy)
    exact hhead.bind (htail.bind_pure (Reads.pure (x :: xs)))

/-- A vector of an admitted size is read back. -/
theorem Reads.vectorOf {write : α → List UInt8} {xs : List α} (hlen : xs.length ≤ 0x02000000)
    (h : ∀ x ∈ xs, Reads r (write x) x) : Reads (Reader.vectorOf r) (writeVector write xs) xs :=
  (Reads.compactSize hlen).bind (Reads.repeated h)

/-- An optional value is read back. -/
theorem Reads.optional {write : α → List UInt8} {x : Option α}
    (h : ∀ a ∈ x, Reads r (write a) a) :
    Reads (Reader.optional r) (writeOptional write x) x := by
  cases x with
  | none => exact (Reads.byte 0).bind_pure (Reads.pure none)
  | some a => exact (Reads.byte 1).bind ((h a rfl).bind_pure (Reads.pure (some a)))

/-- Bytes are read back. -/
theorem Reads.bytes {cs : List UInt8} {n : Nat} (h : cs.length = n) :
    Reads (Reader.bytes n) cs cs :=
  fun _ => bytes_append h

/-! ## Values that a reader refuses -/

/-- The reader fails on these bytes, whatever follows. -/
def Refuses (r : Reader α) (bs : List UInt8) : Prop :=
  ∀ rest, r (bs ++ rest) = none

/-- The bytes are read as the value under a condition, and refused otherwise. -/
structure ReadsWhen (p : Prop) (r : Reader α) (bs : List UInt8) (a : α) : Prop where
  /-- The value is read. -/
  reads : p → Reads r bs a
  /-- The bytes are refused. -/
  refuses : ¬ p → Refuses r bs

variable {p q : Prop}

theorem Refuses.bind (h : Refuses r bs) : Refuses (r >>= k) (bs ++ cs) := by
  intro rest
  change Reader.bind r k (bs ++ cs ++ rest) = none
  unfold Reader.bind
  rw [List.append_assoc, h]

theorem Reads.bind_refuses (ha : Reads r bs a) (hb : Refuses (k a) cs) :
    Refuses (r >>= k) (bs ++ cs) := by
  intro rest
  rw [List.append_assoc, bind_of_eq (ha (cs ++ rest)), hb]

theorem Reads.bind_refuses_nil (ha : Reads r bs a) (hb : Refuses (k a) []) :
    Refuses (r >>= k) bs := by
  have h := ha.bind_refuses hb
  rwa [List.append_nil] at h

/-- A check that does not pass. -/
theorem Refuses.guard {c : Prop} [Decidable c] (a : α) (h : c) :
    Refuses (if c then fail else Pure.pure a) [] := by
  rw [if_pos h]
  intro rest
  rfl

/-- What is always read. -/
theorem Reads.always (h : Reads r bs a) : ReadsWhen True r bs a :=
  ⟨fun _ => h, fun hfalse => absurd trivial hfalse⟩

theorem ReadsWhen.congr (h : ReadsWhen p r bs a) (hpq : p ↔ q) : ReadsWhen q r bs a :=
  ⟨fun hq => h.reads (hpq.2 hq), fun hq => h.refuses fun hp => hq (hpq.1 hp)⟩

/-- One value after another. -/
theorem ReadsWhen.bind (ha : ReadsWhen p r bs a) (hb : ReadsWhen q (k a) cs b) :
    ReadsWhen (p ∧ q) (r >>= k) (bs ++ cs) b := by
  refine ⟨fun ⟨hp, hq⟩ => (ha.reads hp).bind (hb.reads hq), fun hnot => ?_⟩
  by_cases hp : p
  · exact (ha.reads hp).bind_refuses (hb.refuses fun hq => hnot ⟨hp, hq⟩)
  · exact (ha.refuses hp).bind

/-- A value that is always read, and then another. -/
theorem ReadsWhen.bind_always (ha : Reads r bs a) (hb : ReadsWhen q (k a) cs b) :
    ReadsWhen q (r >>= k) (bs ++ cs) b :=
  (ha.always.bind hb).congr (iff_of_eq (true_and q))

/-- What is read at all has met the condition. -/
theorem ReadsWhen.of_bind {rest : List UInt8} {c : β × List UInt8} (ha : ReadsWhen p r bs a)
    (h : (r >>= k) (bs ++ rest) = some c) : p ∧ k a rest = some c := by
  by_cases hp : p
  · rw [bind_of_eq (ha.reads hp rest)] at h
    exact ⟨hp, h⟩
  · have hnone : (r >>= k) (bs ++ rest ++ []) = none := (ha.refuses hp).bind []
    rw [List.append_nil, h] at hnone
    cases hnone

/-- A value followed by what computes the result. -/
theorem ReadsWhen.bind_pure (ha : ReadsWhen p r bs a) (hb : Reads (k a) [] b) :
    ReadsWhen p (r >>= k) bs b := by
  have h := (ha.bind hb.always).congr (iff_of_eq (and_true p))
  rwa [List.append_nil] at h

/-- A value that is only there under a condition. -/
theorem ReadsWhen.ite {c : Prop} [Decidable c] {old : α} (h : c → ReadsWhen p r bs a)
    (hold : ¬ c → old = a) :
    ReadsWhen (c → p) (if c then r else Pure.pure old) (if c then bs else []) a := by
  by_cases hc : c
  · rw [if_pos hc, if_pos hc]
    exact (h hc).congr ⟨fun hp _ => hp, fun hp => hp hc⟩
  · rw [if_neg hc, if_neg hc, hold hc]
    exact (Reads.pure a).always.congr ⟨fun _ hc' => absurd hc' hc, fun _ => trivial⟩

/-- A value that is always read when it is there. -/
theorem Reads.ite {c : Prop} [Decidable c] {old : α} (h : c → Reads r bs a)
    (hold : ¬ c → old = a) :
    Reads (if c then r else Pure.pure old) (if c then bs else []) a :=
  (ReadsWhen.ite (fun hc => (h hc).always) hold).reads fun _ => trivial

/-- A size of 64 bits is read back up to the largest one that is admitted. -/
theorem ReadsWhen.compactSize {n : Nat} (h : n < 2 ^ 64) :
    ReadsWhen (n ≤ 0x02000000) Reader.compactSize (writeCompactSize n) n := by
  refine ⟨Reads.compactSize, fun hbig => ?_⟩
  unfold writeCompactSize Reader.compactSize
  rw [if_neg (by omega), if_neg (by omega)]
  split
  · refine (Reads.byte 254).bind_refuses ?_
    refine Reads.bind_refuses_nil (Reads.nat (x := n) (by omega)) ?_
    exact Refuses.guard n (Or.inr (Or.inr (Or.inr (Nat.not_le.1 hbig))))
  · refine (Reads.byte 255).bind_refuses ?_
    refine Reads.bind_refuses_nil (Reads.nat (x := n) (by omega)) ?_
    exact Refuses.guard n (Or.inr (Or.inr (Or.inr (Nat.not_le.1 hbig))))

/-- As many values as were written. -/
theorem ReadsWhen.repeated {write : α → List UInt8} {p : α → Prop} {xs : List α}
    (h : ∀ x ∈ xs, ReadsWhen (p x) r (write x) x) :
    ReadsWhen (∀ x ∈ xs, p x) (Reader.repeated r xs.length) (xs.flatMap write) xs := by
  induction xs with
  | nil => exact (Reads.pure []).always.congr (by simp)
  | cons x xs ih =>
    have hhead := h x List.mem_cons_self
    have htail := ih fun y hy => h y (List.mem_cons_of_mem x hy)
    exact (hhead.bind (htail.bind_pure (Reads.pure (x :: xs)))).congr
      List.forall_mem_cons.symm

/-- A vector is read back when its size is admitted and its elements are. -/
theorem ReadsWhen.vectorOf {write : α → List UInt8} {p : α → Prop} {xs : List α}
    (hlen : xs.length < 2 ^ 64) (h : ∀ x ∈ xs, ReadsWhen (p x) r (write x) x) :
    ReadsWhen (xs.length ≤ 0x02000000 ∧ ∀ x ∈ xs, p x) (Reader.vectorOf r)
      (writeVector write xs) xs :=
  (ReadsWhen.compactSize hlen).bind (ReadsWhen.repeated h)

/-- A byte vector is read back when its size is admitted. -/
theorem ReadsWhen.vector {cs : List UInt8} (hlen : cs.length < 2 ^ 64) :
    ReadsWhen (cs.length ≤ 0x02000000) Reader.vector (writeCompactSize cs.length ++ cs) cs :=
  ((ReadsWhen.compactSize hlen).bind (Reads.bytes rfl).always).congr (iff_of_eq (and_true _))

end Reader

end IndexChain.Core
