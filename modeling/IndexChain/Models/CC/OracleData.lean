import IndexChain.Core.Canonical
import IndexChain.Models.CC.Oracles

/-!
# Oracle data against a format

Data are in a format when they are its fields one after another. The validator and the
reader agree on this for formats of numbers and hashes; strings and data of a length of
their own separate them (`agree_iff`).
-/

namespace IndexChain

open IndexChain.Core

/-! ## Formats -/

/-- The bytes of a field. -/
def OracleField.Holds : OracleField → List UInt8 → Prop
  | text width, bs => ∃ t : List UInt8, bs = leBytes width t.length ++ t ∧
      t.length < 256 ^ width ∧ ∀ b ∈ t, Printable b
  | bytes width, bs => ∃ t : List UInt8, bs = leBytes width t.length ++ t ∧
      t.length < 256 ^ width
  | number len _, bs => bs.length = len
  | hash, bs => bs.length = 32

/-- Data are the fields of a format one after another. -/
inductive FieldsOf : List UInt8 → List UInt8 → Prop
  /-- No fields. -/
  | nil : FieldsOf [] []
  /-- A field and those after it. -/
  | cons {fmt : UInt8} {format bs rest : List UInt8} {field : OracleField} :
      OracleField.ofLetter fmt = some field → field.Holds bs → FieldsOf format rest →
      FieldsOf (fmt :: format) (bs ++ rest)

/-- The fields of a format from an offset, with strings that end where an `int` can count
to. -/
inductive FieldsAt : Nat → List UInt8 → List UInt8 → Prop
  /-- No fields. -/
  | nil {offset : Nat} : FieldsAt offset [] []
  /-- A field and those after it. -/
  | cons {offset : Nat} {fmt : UInt8} {format bs rest : List UInt8} {field : OracleField} :
      OracleField.ofLetter fmt = some field → field.Holds bs →
      (field.IsText → offset + bs.length < 2 ^ 31) → FieldsAt (offset + bs.length) format rest →
      FieldsAt offset (fmt :: format) (bs ++ rest)

theorem FieldsAt.fieldsOf {offset : Nat} {format bs : List UInt8} (h : FieldsAt offset format bs) :
    FieldsOf format bs := by
  induction h with
  | nil => exact .nil
  | cons hfmt hholds _ _ ih => exact .cons hfmt hholds ih

theorem FieldsOf.fieldsAt {format bs : List UInt8} (h : FieldsOf format bs) {offset : Nat}
    (hlt : offset + bs.length < 2 ^ 31) : FieldsAt offset format bs := by
  induction h generalizing offset with
  | nil => exact .nil
  | cons hfmt hholds _ ih =>
    rw [List.length_append] at hlt
    exact .cons hfmt hholds (fun _ => by omega) (ih (by omega))

/-! ## One field -/

/-- A printable byte stands at an index. -/
def PrintableAt (data : List UInt8) (i : Nat) : Prop := ∃ b ∈ data[i]?, Printable b

instance (data : List UInt8) (i : Nat) : Decidable (PrintableAt data i) :=
  decidable_of_iff ((data[i]?.any fun b => decide (Printable b)) = true)
    (by simp [PrintableAt, Option.any_eq_true])

/-- The length of the field that starts at an offset. -/
def OracleField.lenAt (field : OracleField) (data : List UInt8) (offset : Nat) : Nat :=
  match field with
  | text width => leNat ((data.drop offset).take width)
  | bytes width => leNat ((data.drop offset).take width)
  | number len _ => len
  | hash => 32

/-- The string is scanned with an index that leaves the range of an `int`. -/
def Overruns (data : List UInt8) (start len : Nat) : Prop :=
  start + len ≤ data.length ∧ toInt32 start < (start + len : Nat) ∧
    (toInt32 start < 0 ∨ 2 ^ 31 ≤ start + len ∧
      ∀ i : Nat, toInt32 start ≤ i → i < 2 ^ 31 → PrintableAt data i)

/-- The length of the field is cut off, or its string is too far from the start. -/
def OracleField.Faults (field : OracleField) (data : List UInt8) (offset : Nat) : Prop :=
  data.length < offset + field.width ∨
    field.IsText ∧ Overruns data (offset + field.width) (field.lenAt data offset)

theorem readSlice_natCast (data : List UInt8) (offset n : Nat) :
    readSlice data offset n = if data.length < offset + n then .error .outOfBounds
      else .ok ((data.drop offset).take n) := by
  unfold readSlice
  split
  · rw [if_pos (by omega)]
  · rw [if_neg (by omega), Int.toNat_natCast]

theorem OracleField.readLen_eq (field : OracleField) {data : List UInt8} {offset : Nat}
    (h : offset ≤ data.length) : field.readLen data offset =
      if data.length < offset + field.width then .error .outOfBounds
      else .ok (field.lenAt data offset) := by
  cases field with
  | text width =>
    by_cases hcut : data.length < offset + width
    · simp [readLen, readSlice_natCast, OracleField.width, hcut, bind, Except.bind]
    · simp [readLen, readSlice_natCast, OracleField.width, lenAt, hcut, bind, Except.bind, pure,
        Except.pure]
  | bytes width =>
    by_cases hcut : data.length < offset + width
    · simp [readLen, readSlice_natCast, OracleField.width, hcut, bind, Except.bind]
    · simp [readLen, readSlice_natCast, OracleField.width, lenAt, hcut, bind, Except.bind, pure,
        Except.pure]
  | number len signed => exact (if_neg (Nat.not_lt.2 h)).symm
  | hash => exact (if_neg (Nat.not_lt.2 h)).symm

theorem printableAt_append {pre t rest : List UInt8} (h : ∀ b ∈ t, Printable b) {i : Nat}
    (hlow : pre.length ≤ i) (hhigh : i < pre.length + t.length) :
    PrintableAt (pre ++ (t ++ rest)) i := by
  have hi : i - pre.length < t.length := by omega
  refine ⟨t[i - pre.length], ?_, h _ (List.getElem_mem hi)⟩
  rw [List.getElem?_append_right hlow, List.getElem?_append_left hi, Option.mem_def,
    List.getElem?_eq_getElem hi]

/-- The length that stands before a field. -/
theorem leNat_take_leBytes {width : Nat} {t : List UInt8} (h : t.length < 256 ^ width)
    (rest : List UInt8) :
    leNat ((leBytes width t.length ++ t ++ rest).take width) = t.length := by
  rw [List.append_assoc, List.take_left' (leBytes_length _ _), leNat_leBytes h]

/-- A counted field that is read from its length. -/
theorem exists_counted {rest : List UInt8} {width : Nat}
    (h : width + leNat (rest.take width) ≤ rest.length) :
    ∃ t : List UInt8, leBytes width t.length ++ t <+: rest ∧ t.length < 256 ^ width ∧
      t = (rest.drop width).take (leNat (rest.take width)) := by
  have hwidth : (rest.take width).length = width := by
    rw [List.length_take]
    omega
  have hlen : ((rest.drop width).take (leNat (rest.take width))).length =
      leNat (rest.take width) := by
    rw [List.length_take, List.length_drop]
    omega
  have hbytes := leBytes_leNat (rest.take width)
  have hlt := leNat_lt (rest.take width)
  rw [hwidth] at hbytes hlt
  refine ⟨_, ?_, by rw [hlen]; exact hlt, rfl⟩
  rw [hlen, hbytes, ← List.take_add]
  exact List.take_prefix _ _

/-- What a field that stands at an offset says about the data. -/
theorem OracleField.of_holds {field : OracleField} {data bs : List UInt8} {offset : Nat}
    (hoffset : offset ≤ data.length) (hpre : bs <+: data.drop offset) (h : field.Holds bs) :
    bs.length = field.width + field.lenAt data offset ∧
    offset + bs.length ≤ data.length ∧
    (field.IsText → ∀ i, offset + field.width ≤ i → i < offset + bs.length →
        PrintableAt data i) := by
  have hle := hpre.length_le
  rw [List.length_drop] at hle
  obtain ⟨rest, hrest⟩ := hpre
  refine ⟨?_, by omega, ?_⟩
  · cases field with
    | text width =>
      obtain ⟨t, rfl, hlt, -⟩ := h
      simp only [lenAt, ← hrest, leNat_take_leBytes hlt]
      rw [List.length_append, leBytes_length, OracleField.width]
    | bytes width =>
      obtain ⟨t, rfl, hlt⟩ := h
      simp only [lenAt, ← hrest, leNat_take_leBytes hlt]
      rw [List.length_append, leBytes_length, OracleField.width]
    | number len signed => rw [h, OracleField.width, lenAt, Nat.zero_add]
    | hash => rw [h, OracleField.width, lenAt]
  · intro htext i hlow hhigh
    cases field with
    | text width =>
      obtain ⟨t, rfl, -, hprintable⟩ := h
      have hpre : (data.take offset ++ leBytes width t.length).length = offset + width := by
        rw [List.length_append, List.length_take, leBytes_length]
        omega
      have hdata : data = (data.take offset ++ leBytes width t.length) ++ (t ++ rest) := by
        rw [List.append_assoc, ← List.append_assoc (leBytes _ _), hrest, List.take_append_drop]
      rw [List.length_append, leBytes_length] at hhigh
      simp only [OracleField.width] at hlow
      rw [hdata]
      exact printableAt_append hprintable (by omega) (by omega)
    | _ => exact absurd htext id

/-- A field stands at an offset. -/
theorem OracleField.exists_holds {field : OracleField} {data : List UInt8} {offset : Nat}
    (hlen : offset + field.width + field.lenAt data offset ≤ data.length)
    (htext : field.IsText → ∀ i, offset + field.width ≤ i →
      i < offset + field.width + field.lenAt data offset → PrintableAt data i) :
    ∃ bs, bs <+: data.drop offset ∧ field.Holds bs := by
  have hrest : (data.drop offset).length = data.length - offset := List.length_drop
  cases field with
  | text width =>
    simp only [lenAt, OracleField.width] at hlen htext
    have hfit : width + leNat ((data.drop offset).take width) ≤ (data.drop offset).length := by
      omega
    obtain ⟨t, hpre, hlt, ht⟩ := exists_counted hfit
    refine ⟨_, hpre, t, rfl, hlt, fun b hb => ?_⟩
    obtain ⟨i, hi⟩ := List.mem_iff_getElem?.1 hb
    rw [ht, List.getElem?_take] at hi
    split at hi
    · rw [List.getElem?_drop, List.getElem?_drop] at hi
      obtain ⟨b', hb', hprintable⟩ := htext trivial (offset + (width + i)) (by omega) (by omega)
      rw [Option.mem_def, hi] at hb'
      exact Option.some.inj hb' ▸ hprintable
    · cases hi
  | bytes width =>
    simp only [lenAt, OracleField.width] at hlen
    have hfit : width + leNat ((data.drop offset).take width) ≤ (data.drop offset).length := by
      omega
    obtain ⟨t, hpre, hlt, -⟩ := exists_counted hfit
    exact ⟨_, hpre, t, rfl, hlt⟩
  | number len signed =>
    simp only [lenAt, OracleField.width] at hlen
    refine ⟨(data.drop offset).take len, List.take_prefix _ _, ?_⟩
    rw [Holds, List.length_take]
    omega
  | hash =>
    simp only [lenAt, OracleField.width] at hlen
    refine ⟨(data.drop offset).take 32, List.take_prefix _ _, ?_⟩
    rw [Holds, List.length_take]
    omega

/-! ## The loop over a string -/

theorem toInt32_of_lt {x : Int} (hlow : -2 ^ 31 ≤ x) (hhigh : x < 2 ^ 31) : toInt32 x = x := by
  apply Int.bmod_eq_of_le_mul_two
  all_goals omega

theorem toInt32_lt (x : Int) : toInt32 x < 2 ^ 31 := by
  have h := @Int.bmod_lt x (2 ^ 32) (by decide)
  have hdef : toInt32 x = x.bmod (2 ^ 32) := rfl
  omega

theorem toInt32_le {x : Int} (h : 0 ≤ x) : toInt32 x ≤ x := by
  have hmod := Int.emod_emod_of_dvd x (Int.dvd_refl (2 ^ 32))
  have hdef : toInt32 x = x.bmod (2 ^ 32) := rfl
  rw [hdef, Int.bmod]
  split
  · omega
  · omega

theorem printableAt_iff {data : List UInt8} {j : Nat} (hj : j < data.length) :
    PrintableAt data j ↔ Printable data[j] := by
  simp [PrintableAt, List.getElem?_eq_getElem hj]

/-- One step of the loop. -/
theorem scanText_succ {data : List UInt8} {j : Nat} (n : Nat) (hj : j < data.length) :
    scanText data (n + 1) j = if PrintableAt data j then
        if j = 2 ^ 31 - 1 then .error .intOverflow else scanText data n (j + 1 : Nat)
      else .ok false := by
  have hget : data[(j : Int).toNat]? = some data[j] := by
    rw [Int.toNat_natCast, List.getElem?_eq_getElem hj]
  rw [scanText, if_neg (by omega), hget]
  simp only [printableAt_iff hj]
  by_cases hprintable : Printable data[j]
  · rw [if_neg (not_not.2 hprintable), if_pos hprintable]
    by_cases hlast : j = 2 ^ 31 - 1
    · rw [if_pos (by omega), if_pos hlast]
    · rw [if_neg (by omega), if_neg hlast, Nat.cast_succ]
  · rw [if_pos hprintable, if_neg hprintable]

/-- The loop does not fail unless it would count beyond the range of an `int`. -/
theorem scanText_error_iff {data : List UInt8} {n j : Nat} (hj : j < 2 ^ 31)
    (hn : j + n ≤ data.length) :
    (∃ err, scanText data n j = .error err) ↔
      0 < n ∧ 2 ^ 31 ≤ j + n ∧ ∀ i, j ≤ i → i < 2 ^ 31 → PrintableAt data i := by
  induction n generalizing j with
  | zero => simp [scanText]
  | succ n ih =>
    rw [scanText_succ n (by omega)]
    by_cases hprintable : PrintableAt data j
    · rw [if_pos hprintable]
      by_cases hlast : j = 2 ^ 31 - 1
      · rw [if_pos hlast]
        refine iff_of_true ⟨_, rfl⟩ ⟨by omega, by omega, fun i hlow hhigh => ?_⟩
        obtain rfl : i = j := by omega
        exact hprintable
      · rw [if_neg hlast, ih (by omega) (by omega)]
        constructor
        · rintro ⟨hpos, hend, hall⟩
          refine ⟨by omega, by omega, fun i hlow hhigh => ?_⟩
          rcases Nat.eq_or_lt_of_le hlow with rfl | hlt
          · exact hprintable
          · exact hall i hlt hhigh
        · rintro ⟨-, hend, hall⟩
          exact ⟨by omega, by omega, fun i hlow hhigh => hall i (by omega) hhigh⟩
    · rw [if_neg hprintable]
      refine iff_of_false (by rintro ⟨err, ⟨⟩⟩) ?_
      rintro ⟨-, -, hall⟩
      exact hprintable (hall j (Nat.le_refl j) hj)

/-- The loop finds a string printable when all of it is, and its end can be counted to. -/
theorem scanText_true_iff {data : List UInt8} {n j : Nat} (hj : j < 2 ^ 31)
    (hn : j + n ≤ data.length) :
    scanText data n j = .ok true ↔
      (0 < n → j + n < 2 ^ 31) ∧ ∀ i, j ≤ i → i < j + n → PrintableAt data i := by
  induction n generalizing j with
  | zero =>
    refine iff_of_true rfl ⟨fun h => absurd h (Nat.lt_irrefl 0), fun i hlow hhigh => ?_⟩
    omega
  | succ n ih =>
    rw [scanText_succ n (by omega)]
    by_cases hprintable : PrintableAt data j
    · rw [if_pos hprintable]
      by_cases hlast : j = 2 ^ 31 - 1
      · rw [if_pos hlast]
        refine iff_of_false (by rintro ⟨⟩) ?_
        rintro ⟨hend, -⟩
        omega
      · rw [if_neg hlast, ih (by omega) (by omega)]
        constructor
        · rintro ⟨hend, hall⟩
          refine ⟨by omega, fun i hlow hhigh => ?_⟩
          rcases Nat.eq_or_lt_of_le hlow with rfl | hlt
          · exact hprintable
          · exact hall i hlt (by omega)
        · rintro ⟨hend, hall⟩
          exact ⟨by omega, fun i hlow hhigh => hall i (by omega) (by omega)⟩
    · rw [if_neg hprintable]
      refine iff_of_false (by rintro ⟨⟩) ?_
      rintro ⟨-, hall⟩
      exact hprintable (hall j (Nat.le_refl j) (by omega))

/-- The loop over the string of a field. -/
def scanFrom (data : List UInt8) (start len : Nat) : Except OracleFailure Bool :=
  scanText data ((start + len : Nat) - toInt32 start).toNat (toInt32 start)

/-- A string that starts too far away is read before the data. -/
theorem scanFrom_of_neg {data : List UInt8} {start len : Nat} (h : toInt32 start < 0) :
    scanFrom data start len = .error .outOfBounds := by
  obtain ⟨n, hn⟩ : ∃ n, ((start + len : Nat) - toInt32 start).toNat = n + 1 :=
    ⟨((start + len : Nat) - toInt32 start).toNat - 1, by omega⟩
  rw [scanFrom, hn, scanText, if_pos h]

/-- Otherwise the loop ends at the end of the string. -/
theorem scanFrom_of_nonneg (data : List UInt8) {start : Nat} (len : Nat)
    (h : 0 ≤ toInt32 start) :
    ∃ j : Nat, toInt32 start = j ∧ j ≤ start ∧ j < 2 ^ 31 ∧
      scanFrom data start len = scanText data (start + len - j) j := by
  have hle := toInt32_le (Int.natCast_nonneg start)
  have hlt := toInt32_lt start
  refine ⟨(toInt32 start).toNat, (Int.toNat_of_nonneg h).symm, by omega, by omega, ?_⟩
  have hn : ((start + len : Nat) - toInt32 start).toNat = start + len - (toInt32 start).toNat := by
    omega
  rw [scanFrom, hn, Int.toNat_of_nonneg h]

theorem scanFrom_error_iff {data : List UInt8} {start len : Nat}
    (hlen : start + len ≤ data.length) :
    (∃ err, scanFrom data start len = .error err) ↔ Overruns data start len := by
  by_cases hneg : toInt32 start < 0
  · refine iff_of_true ⟨_, scanFrom_of_neg hneg⟩ ⟨hlen, by omega, .inl hneg⟩
  · obtain ⟨j, hj, hle, hlt, hscan⟩ := scanFrom_of_nonneg data len (Int.not_lt.1 hneg)
    rw [hscan, scanText_error_iff hlt (by omega), Overruns, hj]
    constructor
    · rintro ⟨hpos, hend, hall⟩
      exact ⟨hlen, by omega, .inr ⟨by omega, fun i hlow hhigh => hall i (by omega) hhigh⟩⟩
    · rintro ⟨-, hpos, hneg | ⟨hend, hall⟩⟩
      · omega
      · exact ⟨by omega, by omega, fun i hlow hhigh => hall i (by omega) hhigh⟩

theorem scanFrom_true_iff {data : List UInt8} {start len : Nat}
    (hlen : start + len ≤ data.length) :
    scanFrom data start len = .ok true ↔
      start + len < 2 ^ 31 ∧ ∀ i, start ≤ i → i < start + len → PrintableAt data i := by
  by_cases hneg : toInt32 start < 0
  · rw [scanFrom_of_neg hneg]
    refine iff_of_false (by rintro ⟨⟩) ?_
    rintro ⟨hend, -⟩
    rw [toInt32_of_lt (by omega) (by omega)] at hneg
    omega
  · obtain ⟨j, hj, hle, hlt, hscan⟩ := scanFrom_of_nonneg data len (Int.not_lt.1 hneg)
    rw [hscan, scanText_true_iff hlt (by omega)]
    have hsum : j + (start + len - j) = start + len := by omega
    rw [hsum]
    constructor
    · rintro ⟨hend, hall⟩
      exact ⟨by omega, fun i hlow hhigh => hall i (by omega) hhigh⟩
    · rintro ⟨hend, hall⟩
      have heq : start = j := by
        rw [toInt32_of_lt (by omega) (by omega)] at hj
        omega
      exact ⟨fun _ => hend, fun i hlow hhigh => hall i (by omega) hhigh⟩

/-! ## One letter of the validator -/

/-- The tests of a letter, in their order. -/
theorem parseField_eq {field : OracleField} {data : List UInt8} {offset : Nat}
    (hoffset : offset ≤ data.length) :
    parseField field data offset =
      if data.length < offset + field.width then .error .outOfBounds
      else if data.length < offset + field.width + field.lenAt data offset then .ok none
      else if field.IsText then
        scanFrom data (offset + field.width) (field.lenAt data offset) >>= fun printable => .ok
          (if printable then some (offset + field.width + field.lenAt data offset) else none)
      else .ok (some (offset + field.width + field.lenAt data offset)) := by
  rw [parseField, field.readLen_eq hoffset]
  by_cases hcut : data.length < offset + field.width
  · rw [if_pos hcut, if_pos hcut]
    rfl
  · rw [if_neg hcut, if_neg hcut, except_ok_bind]
    by_cases hlong : data.length < offset + field.width + field.lenAt data offset
    · rw [if_pos hlong, if_pos (by simp only [lenExceeds]; omega)]
      rfl
    · rw [if_neg hlong, if_neg (by simp only [lenExceeds]; omega)]
      split
      · rfl
      · rfl

/-- A letter fails exactly when its field faults. -/
theorem parseField_error_iff {field : OracleField} {data : List UInt8} {offset : Nat}
    (hoffset : offset ≤ data.length) :
    (∃ err, parseField field data offset = .error err) ↔ field.Faults data offset := by
  rw [parseField_eq hoffset, OracleField.Faults]
  by_cases hcut : data.length < offset + field.width
  · rw [if_pos hcut]
    exact iff_of_true ⟨_, rfl⟩ (.inl hcut)
  · rw [if_neg hcut, or_iff_right hcut]
    by_cases hlong : data.length < offset + field.width + field.lenAt data offset
    · rw [if_pos hlong]
      refine iff_of_false (by rintro ⟨err, ⟨⟩⟩) ?_
      rintro ⟨-, hfits, -⟩
      omega
    · rw [if_neg hlong]
      by_cases htext : field.IsText
      · rw [if_pos htext, and_iff_right htext, ← scanFrom_error_iff (by omega)]
        cases scanFrom data (offset + field.width) (field.lenAt data offset) with
        | error err => exact iff_of_true ⟨err, rfl⟩ ⟨err, rfl⟩
        | ok printable => exact iff_of_false (by rintro ⟨err, ⟨⟩⟩) (by rintro ⟨err, ⟨⟩⟩)
      · rw [if_neg htext]
        exact iff_of_false (by rintro ⟨err, ⟨⟩⟩) fun h => htext h.1

/-- A letter passes exactly when a field stands at the offset, with a string that ends where
an `int` can count to. -/
theorem parseField_eq_some {field : OracleField} {data : List UInt8} {offset next : Nat}
    (hoffset : offset ≤ data.length) :
    parseField field data offset = .ok (some next) ↔
      ∃ bs, bs <+: data.drop offset ∧ field.Holds bs ∧
        (field.IsText → offset + bs.length < 2 ^ 31) ∧ next = offset + bs.length := by
  rw [parseField_eq hoffset]
  constructor
  · intro h
    split at h
    · cases h
    · split at h
      · cases h
      · rename_i hcut hlong
        have hscan : (field.IsText → scanFrom data (offset + field.width)
            (field.lenAt data offset) = .ok true) ∧
            next = offset + field.width + field.lenAt data offset := by
          split at h
          · obtain ⟨printable, hscan, h⟩ := except_bind_eq_ok.1 h
            cases printable with
            | true => exact ⟨fun _ => hscan, (Option.some.inj (Except.ok.inj h)).symm⟩
            | false => cases h
          · rename_i htext
            exact ⟨fun h => absurd h htext, (Option.some.inj (Except.ok.inj h)).symm⟩
        obtain ⟨hscan, rfl⟩ := hscan
        have htrue := fun htext => (scanFrom_true_iff (by omega)).1 (hscan htext)
        obtain ⟨bs, hpre, hholds⟩ := OracleField.exists_holds (Nat.not_lt.1 hlong)
          fun htext => (htrue htext).2
        obtain ⟨hlen, -, -⟩ := OracleField.of_holds hoffset hpre hholds
        exact ⟨bs, hpre, hholds, fun htext => by have := (htrue htext).1; omega, by omega⟩
  · rintro ⟨bs, hpre, hholds, hend, rfl⟩
    obtain ⟨hlen, hle, hprintable⟩ := OracleField.of_holds hoffset hpre hholds
    rw [if_neg (by omega), if_neg (by omega), hlen]
    split
    · rename_i htext
      have hend := hend htext
      have hprintable := hprintable htext
      have hfit : offset + field.width + field.lenAt data offset ≤ data.length := by omega
      have hscan := (scanFrom_true_iff hfit).2
        ⟨by omega, fun i hlow hhigh => hprintable i hlow (by omega)⟩
      rw [hscan, except_ok_bind, if_pos rfl, Nat.add_assoc]
    · rw [Nat.add_assoc]

/-! ## The validator -/

theorem append_prefix_drop_iff {data bs rest : List UInt8} {offset : Nat} :
    bs ++ rest <+: data.drop offset ↔
      bs <+: data.drop offset ∧ rest <+: data.drop (offset + bs.length) := by
  rw [← List.drop_drop]
  constructor
  · rintro ⟨t, ht⟩
    rw [List.append_assoc] at ht
    refine ⟨⟨_, ht⟩, t, ?_⟩
    rw [← ht, List.drop_left]
  · rintro ⟨⟨t, ht⟩, u, hu⟩
    rw [← ht, List.drop_left] at hu
    exact ⟨u, by rw [List.append_assoc, hu, ht]⟩

/-- After letters whose fields stand at the offset comes one that faults. -/
def Outside (data : List UInt8) (offset : Nat) (format : List UInt8) : Prop :=
  ∃ front fmt back bs field, format = front ++ fmt :: back ∧ bs <+: data.drop offset ∧
    FieldsAt offset front bs ∧ OracleField.ofLetter fmt = some field ∧
    field.Faults data (offset + bs.length)

/-- The first letter faults, or its field stands there and a later letter does. -/
theorem outside_cons_iff {data : List UInt8} {offset : Nat} {fmt : UInt8} {format : List UInt8} :
    Outside data offset (fmt :: format) ↔ ∃ field, OracleField.ofLetter fmt = some field ∧
      (field.Faults data offset ∨ ∃ bs, bs <+: data.drop offset ∧ field.Holds bs ∧
        (field.IsText → offset + bs.length < 2 ^ 31) ∧
        Outside data (offset + bs.length) format) := by
  constructor
  · rintro ⟨front, fmt', back, bs, field, hformat, hpre, hfields, hfmt, hfault⟩
    cases hfields with
    | nil =>
      obtain ⟨rfl, -⟩ := List.cons.inj hformat
      exact ⟨field, hfmt, .inl hfault⟩
    | cons hfmt₁ hholds hend hrest =>
      rename_i fmt₁ front bs₁ rest field₁
      obtain ⟨rfl, rfl⟩ := List.cons.inj hformat
      obtain ⟨hpre₁, hpre₂⟩ := append_prefix_drop_iff.1 hpre
      rw [List.length_append, ← Nat.add_assoc] at hfault
      exact ⟨field₁, hfmt₁, .inr ⟨bs₁, hpre₁, hholds, hend, front, fmt', back, rest, field, rfl,
        hpre₂, hrest, hfmt, hfault⟩⟩
  · rintro ⟨field, hfmt, hfault | ⟨bs, hpre, hholds, hend, front, fmt', back, rest, field', rfl,
      hpre', hrest, hfmt', hfault⟩⟩
    · exact ⟨[], fmt, format, [], field, rfl, List.nil_prefix, .nil, hfmt, hfault⟩
    · rw [Nat.add_assoc, ← List.length_append] at hfault
      exact ⟨fmt :: front, fmt', back, bs ++ rest, field', rfl,
        append_prefix_drop_iff.2 ⟨hpre, hpre'⟩, .cons hfmt hholds hend hrest, hfmt', hfault⟩

/-- The loop fails exactly when some letter faults. -/
theorem parseLoop_error_iff {data format : List UInt8} {offset : Nat}
    (hoffset : offset ≤ data.length) :
    (∃ err, parseLoop data format offset = .error err) ↔ Outside data offset format := by
  induction format generalizing offset with
  | nil =>
    refine iff_of_false (by rintro ⟨err, ⟨⟩⟩) ?_
    rintro ⟨front, fmt, back, bs, field, hformat, -⟩
    exact absurd hformat (by simp)
  | cons fmt format ih =>
    rw [outside_cons_iff, parseLoop]
    cases hfmt : OracleField.ofLetter fmt with
    | none => exact iff_of_false (by rintro ⟨err, ⟨⟩⟩) (by rintro ⟨field, ⟨⟩, -⟩)
    | some field =>
      simp only [Option.some.injEq, exists_eq_left']
      have hfault : (∃ err, parseField field data offset = .error err) ↔ _ :=
        parseField_error_iff hoffset
      cases hfield : parseField field data offset with
      | error err => exact iff_of_true ⟨err, rfl⟩ (.inl (hfault.1 ⟨err, hfield⟩))
      | ok next =>
        have hno : ¬ field.Faults data offset := by
          intro h
          obtain ⟨err, herr⟩ := hfault.2 h
          rw [hfield] at herr
          cases herr
        rw [or_iff_right hno]
        cases next with
        | none =>
          refine iff_of_false (by rintro ⟨err, ⟨⟩⟩) ?_
          rintro ⟨bs, hpre, hholds, hend, -⟩
          have hsome := (parseField_eq_some hoffset).2 ⟨bs, hpre, hholds, hend, rfl⟩
          rw [hfield] at hsome
          cases hsome
        | some next =>
          obtain ⟨bs, hpre, hholds, hend, rfl⟩ := (parseField_eq_some hoffset).1 hfield
          obtain ⟨-, hle, -⟩ := OracleField.of_holds hoffset hpre hholds
          rw [except_ok_bind, ih hle]
          constructor
          · intro h
            exact ⟨bs, hpre, hholds, hend, h⟩
          · rintro ⟨bs', hpre', hholds', hend', h⟩
            have hsome := (parseField_eq_some hoffset).2 ⟨bs', hpre', hholds', hend', rfl⟩
            rw [hfield] at hsome
            rwa [Option.some.inj (Except.ok.inj hsome)]

/-- The loop reaches the end of the format exactly when its fields stand at the offset. -/
theorem parseLoop_eq_some {data format : List UInt8} {offset last : Nat}
    (hoffset : offset ≤ data.length) :
    parseLoop data format offset = .ok (some last) ↔
      ∃ bs, bs <+: data.drop offset ∧ FieldsAt offset format bs ∧ last = offset + bs.length := by
  induction format generalizing offset with
  | nil =>
    constructor
    · intro h
      exact ⟨[], List.nil_prefix, .nil, (Option.some.inj (Except.ok.inj h)).symm⟩
    · rintro ⟨bs, -, hfields, rfl⟩
      cases hfields
      rfl
  | cons fmt format ih =>
    rw [parseLoop]
    constructor
    · intro h
      cases hfmt : OracleField.ofLetter fmt with
      | none =>
        rw [hfmt] at h
        cases h
      | some field =>
        rw [hfmt] at h
        obtain ⟨next, hfield, h⟩ := except_bind_eq_ok.1 h
        cases next with
        | none => cases h
        | some next =>
          obtain ⟨bs, hpre, hholds, hend, rfl⟩ := (parseField_eq_some hoffset).1 hfield
          obtain ⟨-, hle, -⟩ := OracleField.of_holds hoffset hpre hholds
          obtain ⟨rest, hpre', hrest, rfl⟩ := (ih hle).1 h
          refine ⟨bs ++ rest, append_prefix_drop_iff.2 ⟨hpre, hpre'⟩,
            .cons hfmt hholds hend hrest, ?_⟩
          rw [List.length_append, Nat.add_assoc]
    · rintro ⟨bs, hpre, hfields, rfl⟩
      cases hfields with
      | cons hfmt hholds hend hrest =>
        obtain ⟨hpre₁, hpre₂⟩ := append_prefix_drop_iff.1 hpre
        obtain ⟨-, hle, -⟩ := OracleField.of_holds hoffset hpre₁ hholds
        rename_i bs rest field
        have hfield := (parseField_eq_some hoffset).2 ⟨bs, hpre₁, hholds, hend, rfl⟩
        simp only [hfmt, hfield]
        exact (ih hle).2 ⟨rest, hpre₂, hrest, by rw [List.length_append, Nat.add_assoc]⟩

/-! ## The reader -/

/-- The format has only numbers and hashes. -/
def Fixed (format : List UInt8) : Prop :=
  ∀ fmt ∈ format, ∀ field, OracleField.ofLetter fmt = some field → ¬ field.IsCounted

/-- The bytes of a field that are passed over without an output string. -/
def OracleField.skip : OracleField → Nat
  | text width => width
  | bytes width => width
  | number len _ => len
  | hash => 32

/-- The next offset after a number or a hash. -/
theorem formatFixed_offset {withStr : Bool} {len : Nat} {value : List UInt8 → OracleValue}
    {data : List UInt8} {offset : Nat} {datalen : Int} {v : OracleValue}
    (h : formatFixed withStr len value data offset datalen = .ok v) (hv : 0 ≤ v.offset) :
    v.offset = (offset + len : Nat) ∧ v.offset ≤ datalen := by
  simp only [formatFixed] at h
  split at h
  · obtain ⟨bs, -, hpure⟩ := except_bind_eq_ok.1 h
    cases hpure
    dsimp only
    omega
  · cases h
    exact absurd hv (by decide)

/-- A number or a hash inside the data is read. -/
theorem formatFixed_ok (withStr : Bool) {len : Nat} (value : List UInt8 → OracleValue)
    {data : List UInt8} {offset : Nat} (h : offset + len ≤ data.length) :
    ∃ v, formatFixed withStr len value data offset data.length = .ok v ∧
      v.offset = (offset + len : Nat) := by
  have hle : (len : Int) + offset ≤ data.length := by omega
  rw [formatFixed, if_pos hle, readSlice_natCast, if_neg (Nat.not_lt.2 h)]
  exact ⟨_, rfl, Nat.cast_add offset len⟩

/-- The next offset after a string or data without an output string. -/
theorem formatCounted_offset {width : Nat} {text : List UInt8 → OracleText} {data : List UInt8}
    {offset : Nat} {datalen : Int} {v : OracleValue}
    (h : formatCounted false width text data offset datalen = .ok v) (hv : 0 ≤ v.offset) :
    v.offset = toInt32 (offset + width : Nat) ∧
      leNat ((data.drop offset).take width) ≠ 0 := by
  simp only [formatCounted, readSlice_natCast] at h
  obtain ⟨bs, hbs, h⟩ := except_bind_eq_ok.1 h
  split at hbs
  · cases hbs
  · cases hbs
    split at h
    · obtain rfl := Except.ok.inj h
      exact absurd hv (by decide)
    · rename_i hne
      rw [if_neg Bool.false_ne_true] at h
      simp only [pure, Except.pure, Except.ok.injEq] at h
      simp only [← h]
      exact ⟨trivial, hne⟩

/-- The next offset without an output string. -/
theorem oracleFormat_offset {fmt : UInt8} {data : List UInt8} {offset : Nat} {datalen : Int}
    {v : OracleValue} (h : oracleFormat false fmt data offset datalen = .ok v)
    (hv : 0 ≤ v.offset) : ∃ field, OracleField.ofLetter fmt = some field ∧
      v.offset ≤ (offset + field.skip : Nat) ∧ (datalen < 2 ^ 31 → v.offset < 2 ^ 31) ∧
      (field.IsCounted → leNat ((data.drop offset).take field.skip) ≠ 0) ∧
      (¬ field.IsCounted → v.offset = (offset + field.skip : Nat)) := by
  simp only [oracleFormat] at h
  cases hfmt : OracleField.ofLetter fmt with
  | none =>
    rw [hfmt] at h
    cases h
    exact absurd hv (by decide)
  | some field =>
    rw [hfmt] at h
    refine ⟨field, rfl, ?_⟩
    cases field with
    | text width =>
      obtain ⟨heq, hne⟩ := formatCounted_offset h hv
      rw [heq]
      exact ⟨toInt32_le (Int.natCast_nonneg _), fun _ => toInt32_lt _, fun _ => hne,
        fun hno => absurd trivial hno⟩
    | bytes width =>
      obtain ⟨heq, hne⟩ := formatCounted_offset h hv
      rw [heq]
      exact ⟨toInt32_le (Int.natCast_nonneg _), fun _ => toInt32_lt _, fun _ => hne,
        fun hno => absurd trivial hno⟩
    | number len signed =>
      obtain ⟨heq, hle⟩ := formatFixed_offset h hv
      exact ⟨heq.le, fun hlt => by omega, fun hcounted => absurd hcounted id, fun _ => heq⟩
    | hash =>
      obtain ⟨heq, hle⟩ := formatFixed_offset h hv
      exact ⟨heq.le, fun hlt => by omega, fun hcounted => absurd hcounted id, fun _ => heq⟩

/-- The bytes of a field besides what its length counts. -/
theorem OracleField.skip_le {field : OracleField} {bs : List UInt8} (h : field.Holds bs) :
    field.skip ≤ bs.length := by
  cases field with
  | text width =>
    obtain ⟨t, rfl, -, -⟩ := h
    rw [List.length_append, leBytes_length, skip]
    omega
  | bytes width =>
    obtain ⟨t, rfl, -⟩ := h
    rw [List.length_append, leBytes_length, skip]
    omega
  | number len signed => exact h.ge
  | hash => exact h.ge

theorem OracleField.skip_eq {field : OracleField} {bs : List UInt8} (h : field.Holds bs)
    (hfixed : ¬ field.IsCounted) : bs.length = field.skip := by
  cases field with
  | text width => exact absurd trivial hfixed
  | bytes width => exact absurd trivial hfixed
  | number len signed => exact h
  | hash => exact h

/-- A counted field that is not empty is longer than what is passed over. -/
theorem OracleField.skip_lt {field : OracleField} {bs rest : List UInt8} (h : field.Holds bs)
    (hcounted : field.IsCounted) (hne : leNat ((bs ++ rest).take field.skip) ≠ 0) :
    field.skip < bs.length := by
  cases field with
  | text width =>
    obtain ⟨t, rfl, hlt, -⟩ := h
    rw [skip, leNat_take_leBytes hlt] at hne
    rw [List.length_append, leBytes_length, skip]
    omega
  | bytes width =>
    obtain ⟨t, rfl, hlt⟩ := h
    rw [skip, leNat_take_leBytes hlt] at hne
    rw [List.length_append, leBytes_length, skip]
    omega
  | number len signed => exact absurd hcounted id
  | hash => exact absurd hcounted id

/-- A run without an output string passes over no more than the fields of its format have. -/
theorem formatRun_le {data format bs : List UInt8} (hfields : FieldsOf format bs)
    {offset last : Nat} {datalen : Int}
    (h : formatRun false data datalen format offset = .ok (some last)) :
    last ≤ offset + bs.length := by
  induction hfields generalizing offset with
  | nil =>
    obtain rfl := Option.some.inj (Except.ok.inj h)
    exact Nat.le_refl _
  | cons hfmt hholds hrest ih =>
    rw [formatRun] at h
    obtain ⟨v, hv, h⟩ := except_bind_eq_ok.1 h
    split at h
    · cases h
    · obtain ⟨field, hfmt', hle, -⟩ := oracleFormat_offset hv (by omega)
      rw [hfmt] at hfmt'
      cases hfmt'
      have hskip := OracleField.skip_le hholds
      have hlast := ih h
      rw [List.length_append]
      omega

/-- Where a run without an output string ends with the fields that stand at the offset, none
of them has a length of its own. -/
theorem fixed_of_formatRun {data format bs : List UInt8} (hfields : FieldsOf format bs)
    {offset : Nat} {datalen : Int} (hpre : bs <+: data.drop offset)
    (h : formatRun false data datalen format offset = .ok (some (offset + bs.length))) :
    Fixed format := by
  induction hfields generalizing offset with
  | nil =>
    intro fmt hmem
    cases hmem
  | cons hfmt hholds hrest ih =>
    rename_i fmt format bs rest field
    obtain ⟨tail, htail⟩ := hpre
    have hpre' := (append_prefix_drop_iff.1 ⟨tail, htail⟩).2
    rw [formatRun] at h
    obtain ⟨v, hv, h⟩ := except_bind_eq_ok.1 h
    split at h
    · cases h
    · obtain ⟨field', hfmt', hle, -, hne, heq⟩ := oracleFormat_offset hv (by omega)
      rw [hfmt] at hfmt'
      cases hfmt'
      have hlast := formatRun_le hrest h
      rw [List.length_append] at hlast h
      have hfixed : ¬ field.IsCounted := by
        intro hcounted
        have hne := hne hcounted
        rw [← htail, List.append_assoc] at hne
        have hskip := OracleField.skip_lt hholds hcounted hne
        omega
      have hskip := OracleField.skip_eq hholds hfixed
      have hnext : v.offset.toNat = offset + bs.length := by
        have heq := heq hfixed
        omega
      rw [hnext, ← Nat.add_assoc] at h
      have htailFixed := ih hpre' h
      intro fmt' hmem field' hfmt'
      rcases List.mem_cons.1 hmem with rfl | hmem
      · rw [hfmt] at hfmt'
        exact Option.some.inj hfmt' ▸ hfixed
      · exact htailFixed fmt' hmem field' hfmt'

theorem formatRun_lt {data format : List UInt8} {offset last : Nat} {datalen : Int}
    (hdatalen : datalen < 2 ^ 31) (hoffset : offset < 2 ^ 31)
    (h : formatRun false data datalen format offset = .ok (some last)) : last < 2 ^ 31 := by
  induction format generalizing offset with
  | nil =>
    obtain rfl := Option.some.inj (Except.ok.inj h)
    exact hoffset
  | cons fmt format ih =>
    rw [formatRun] at h
    obtain ⟨v, hv, h⟩ := except_bind_eq_ok.1 h
    split at h
    · cases h
    · obtain ⟨field, -, -, hlt, -, -⟩ := oracleFormat_offset hv (by omega)
      exact ih (by have := hlt hdatalen; omega) h

/-- A number or a hash that stands at the offset is read. -/
theorem oracleFormat_fixed (withStr : Bool) {fmt : UInt8} {field : OracleField}
    {data bs : List UInt8} {offset : Nat} (hfmt : OracleField.ofLetter fmt = some field)
    (hfixed : ¬ field.IsCounted) (hholds : field.Holds bs)
    (hle : offset + bs.length ≤ data.length) :
    ∃ v, oracleFormat withStr fmt data offset data.length = .ok v ∧
      v.offset = (offset + bs.length : Nat) := by
  simp only [oracleFormat, hfmt]
  cases field with
  | text width => exact absurd trivial hfixed
  | bytes width => exact absurd trivial hfixed
  | number len signed =>
    obtain rfl : bs.length = len := hholds
    exact formatFixed_ok withStr (numberValue signed) hle
  | hash =>
    have hlen : bs.length = 32 := hholds
    rw [hlen] at hle ⊢
    exact formatFixed_ok withStr hashValue hle

/-- The fields of a fixed format are read to their end, with and without an output string. -/
theorem formatRun_fixed (withStr : Bool) {data format bs : List UInt8}
    (hfields : FieldsOf format bs) {offset : Nat} (hfixed : Fixed format)
    (hle : offset + bs.length ≤ data.length) :
    formatRun withStr data data.length format offset = .ok (some (offset + bs.length)) := by
  induction hfields generalizing offset with
  | nil => rfl
  | cons hfmt hholds hrest ih =>
    rename_i fmt format bs rest field
    rw [List.length_append] at hle ⊢
    have hhead := hfixed fmt List.mem_cons_self field hfmt
    have hle₁ : offset + bs.length ≤ data.length := by omega
    have hle₂ : offset + bs.length + rest.length ≤ data.length := by omega
    obtain ⟨v, hv, hoffset⟩ := oracleFormat_fixed withStr hfmt hhead hholds hle₁
    have hrun := ih (fun fmt' hmem => hfixed fmt' (List.mem_cons_of_mem _ hmem)) hle₂
    rw [formatRun, hv, except_ok_bind, if_neg (by omega), hoffset, Int.toNat_natCast, hrun,
      Nat.add_assoc]

/-! ## Agreement -/

/-- The validator stays inside the data, accepts the data that are in the format, and what it
accepts the reader reads to the end, with and without an output string. -/
structure OracleAgree (data format : List UInt8) : Prop where
  /-- Every byte that is read exists. -/
  inside : ∃ result, oracleParseDataFormat data format = .ok result
  /-- The result is not zero for data in the format. -/
  accepts : ∀ result, oracleParseDataFormat data format = .ok result →
    (result ≠ 0 ↔ data ≠ [] ∧ FieldsOf format data)
  /-- The reader ends at the length of the data. -/
  reads : ∀ result, oracleParseDataFormat data format = .ok result → result ≠ 0 →
    ∀ withStr, formatRun withStr data (toInt32 data.length) format 0 = .ok (some data.length)

/-- The result of the validator, when it stays inside the data. -/
theorem oracleParseDataFormat_eq {data format : List UInt8} {result : Int}
    (h : oracleParseDataFormat data format = .ok result) :
    (result = toInt32 data.length ∧ FieldsAt 0 format data) ∨
      (result = 0 ∧ ¬ FieldsAt 0 format data) := by
  have hloop : FieldsAt 0 format data →
      parseLoop data format 0 = .ok (some data.length) := fun hfields =>
    (parseLoop_eq_some (Nat.zero_le _)).2 ⟨data, List.prefix_rfl, hfields, (Nat.zero_add _).symm⟩
  obtain ⟨last, hlast, h⟩ := except_bind_eq_ok.1 h
  cases last with
  | none =>
    obtain rfl := Except.ok.inj h
    refine .inr ⟨rfl, fun hfields => ?_⟩
    rw [hloop hfields] at hlast
    cases hlast
  | some last =>
    simp only [pure, Except.pure, Except.ok.injEq] at h
    split at h
    · rename_i hne
      refine .inr ⟨h.symm, fun hfields => ?_⟩
      rw [hloop hfields] at hlast
      exact hne (Option.some.inj (Except.ok.inj hlast)).symm
    · rename_i heq
      obtain ⟨bs, hpre, hfields, rfl⟩ := (parseLoop_eq_some (Nat.zero_le _)).1 hlast
      have hbs : bs = data := hpre.eq_of_length (by rw [List.drop_zero]; omega)
      rw [Nat.zero_add, hbs] at h
      exact .inl ⟨h.symm, hbs ▸ hfields⟩

theorem oracleParseDataFormat_ok_iff {data format : List UInt8} :
    (∃ result, oracleParseDataFormat data format = .ok result) ↔ ¬ Outside data 0 format := by
  rw [← parseLoop_error_iff (Nat.zero_le _), oracleParseDataFormat]
  cases parseLoop data format 0 with
  | error err => exact iff_of_false (by rintro ⟨result, ⟨⟩⟩) fun h => h ⟨err, rfl⟩
  | ok last =>
    refine iff_of_true ?_ (by rintro ⟨err, ⟨⟩⟩)
    cases last with
    | none => exact ⟨_, rfl⟩
    | some last => exact ⟨_, rfl⟩

/-- Validator and reader agree exactly when no field faults and, on data in the format, all
fields are numbers or hashes and the data can be counted with an `int`. -/
theorem agree_iff (data format : List UInt8) :
    OracleAgree data format ↔ ¬ Outside data 0 format ∧
      (data ≠ [] → FieldsOf format data → data.length < 2 ^ 31 ∧ Fixed format) := by
  constructor
  · intro h
    refine ⟨oracleParseDataFormat_ok_iff.1 h.inside, fun hne hfields => ?_⟩
    obtain ⟨result, hresult⟩ := h.inside
    have hrun := h.reads result hresult ((h.accepts result hresult).2 ⟨hne, hfields⟩) false
    have hzero : 0 < 2 ^ 31 := by omega
    refine ⟨formatRun_lt (toInt32_lt _) hzero hrun, ?_⟩
    rw [← Nat.zero_add data.length] at hrun
    exact fixed_of_formatRun hfields List.prefix_rfl hrun
  · rintro ⟨hinside, hcond⟩
    have haccepts : ∀ result, oracleParseDataFormat data format = .ok result →
        (result ≠ 0 ↔ data ≠ [] ∧ FieldsOf format data) := by
      intro result hresult
      rcases oracleParseDataFormat_eq hresult with ⟨heq, hfields⟩ | ⟨heq, hno⟩
      · rw [heq]
        constructor
        · intro hne
          refine ⟨fun hnil => hne ?_, hfields.fieldsOf⟩
          rw [hnil]
          exact toInt32_of_lt (by decide) (by decide)
        · rintro ⟨hne, hof⟩
          have hpos := List.length_pos_iff.2 hne
          have hlt := (hcond hne hof).1
          rw [toInt32_of_lt (by omega) (by omega)]
          omega
      · refine iff_of_false (fun h => h heq) ?_
        rintro ⟨hne, hof⟩
        have hlt := (hcond hne hof).1
        exact hno (hof.fieldsAt (by omega))
    refine ⟨oracleParseDataFormat_ok_iff.2 hinside, haccepts, ?_⟩
    intro result hresult hne withStr
    obtain ⟨hdata, hof⟩ := (haccepts result hresult).1 hne
    obtain ⟨hlt, hfixed⟩ := hcond hdata hof
    rw [toInt32_of_lt (by omega) (by omega)]
    have hle : 0 + data.length ≤ data.length := by omega
    have hrun := formatRun_fixed withStr hof hfixed hle
    rwa [Nat.zero_add] at hrun

/-- A length that is cut off is read past the end; an empty string is accepted and cannot be
read; without an output string the reader stops before the string. -/
theorem oracle_disagrees :
    (oracleParseDataFormat [5] [0x53] = .error .outOfBounds ∧ ¬ OracleAgree [5] [0x53]) ∧
    (oracleParseDataFormat [0] [0x73] = .ok 1 ∧ formatRun true [0] 1 [0x73] 0 = .ok none ∧
      ¬ OracleAgree [0] [0x73]) ∧
    (oracleParseDataFormat [1, 0x61] [0x73] = .ok 2 ∧
      formatRun false [1, 0x61] 2 [0x73] 0 = .ok (some 1) ∧ ¬ OracleAgree [1, 0x61] [0x73]) := by
  have hcut : oracleParseDataFormat [5] [0x53] = .error .outOfBounds := by decide +kernel
  have hempty : oracleParseDataFormat [0] [0x73] = .ok 1 := by decide +kernel
  have hstr : oracleParseDataFormat [1, 0x61] [0x73] = .ok 2 := by decide +kernel
  refine ⟨⟨hcut, fun h => ?_⟩, ⟨hempty, by decide +kernel, fun h => ?_⟩,
    hstr, by decide +kernel, fun h => ?_⟩
  · obtain ⟨result, hresult⟩ := h.inside
    rw [hcut] at hresult
    cases hresult
  · exact absurd (h.reads 1 hempty (by decide) true) (by decide +kernel)
  · exact absurd (h.reads 2 hstr (by decide) false) (by decide +kernel)

end IndexChain
