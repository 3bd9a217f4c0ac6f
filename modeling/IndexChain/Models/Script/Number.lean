import IndexChain.Core.ShortBytes

/-!
# The numbers of scripts

`CScriptNum` of `script/script.h`: the bytes that a number is pushed as, the number that a
stack element stands for, and the test for the shortest bytes. A number is kept in 64 bits;
operands have 4 bytes, so that no operation on them leaves that range.
-/

namespace IndexChain

open IndexChain.Core

namespace CScriptNum

/-- `serialize`. -/
def serialize (value : Int) : List UInt8 :=
  let result := shortBytes 8 value.natAbs
  match result.getLast? with
  | none => []
  | some back =>
    if back &&& 0x80 ≠ 0 then result ++ [if value < 0 then 0x80 else 0]
    else if value < 0 then result.dropLast ++ [back ||| 0x80]
    else result

/-- `set_vch`. -/
def setVch (vch : List UInt8) : Int :=
  match vch.getLast? with
  | none => 0
  | some back =>
    if back &&& 0x80 ≠ 0 then -((leNat vch : Int) - 0x80 * 256 ^ (vch.length - 1))
    else leNat vch

/-- The test that `fRequireMinimal` asks for. -/
def isMinimal (vch : List UInt8) : Bool :=
  match vch.reverse with
  | [] => true
  | [back] => back &&& 0x7f ≠ 0
  | back :: next :: _ => back &&& 0x7f ≠ 0 ∨ next &&& 0x80 ≠ 0

/-- The constructor that reads a stack element; `none` when it throws. -/
def ofVch (vch : List UInt8) (fRequireMinimal : Bool) (nMaxNumSize : Nat) : Option Int :=
  if nMaxNumSize < vch.length then none
  else if fRequireMinimal ∧ ¬ isMinimal vch then none
  else some (setVch vch)

/-! ## Bytes with a sign -/

theorem sign_iff (b : UInt8) : b &&& 0x80 ≠ 0 ↔ 128 ≤ b.toNat := by
  cases b with
  | ofBitVec b =>
    revert b
    decide

theorem low_iff (b : UInt8) : b &&& 0x7f ≠ 0 ↔ b.toNat % 128 ≠ 0 := by
  cases b with
  | ofBitVec b =>
    revert b
    decide

theorem toNat_or_sign {b : UInt8} (h : b.toNat < 128) : (b ||| 0x80).toNat = b.toNat + 128 := by
  cases b with
  | ofBitVec b =>
    revert b
    decide

theorem setVch_of_lt (init : List UInt8) {back : UInt8} (h : back.toNat < 128) :
    setVch (init ++ [back]) = leNat (init ++ [back]) := by
  have hsign : ¬ (back &&& 0x80 ≠ 0) := by
    rw [sign_iff]
    exact Nat.not_le.2 h
  simp only [setVch, List.getLast?_concat]
  exact if_neg hsign

theorem setVch_of_le (init : List UInt8) {back : UInt8} (h : 128 ≤ back.toNat) :
    setVch (init ++ [back]) =
      -((leNat init + (back.toNat - 128) * 256 ^ init.length : Nat) : Int) := by
  simp only [setVch, List.getLast?_concat]
  rw [if_pos ((sign_iff back).2 h), leNat_concat, List.length_append, List.length_singleton,
    Nat.add_sub_cancel]
  push_cast [h]
  rw [Int.sub_mul, Int.add_sub_assoc]

theorem isMinimal_concat (init : List UInt8) (back : UInt8) :
    isMinimal (init ++ [back]) = true ↔
      back.toNat % 128 ≠ 0 ∨ ∃ init' next, init = init' ++ [next] ∧ 128 ≤ next.toNat := by
  obtain rfl | ⟨init', next, rfl⟩ := List.eq_nil_or_concat' init
  · simp [isMinimal, ← low_iff]
  · have hrev : (init' ++ [next] ++ [back]).reverse = back :: next :: init'.reverse := by simp
    rw [isMinimal, hrev]
    simp only [decide_eq_true_eq]
    rw [low_iff, sign_iff]
    constructor
    · rintro (hlow | hsign)
      · exact .inl hlow
      · exact .inr ⟨init', next, rfl, hsign⟩
    · rintro (hlow | ⟨init'', next', heq, hsign⟩)
      · exact .inl hlow
      · obtain ⟨-, heq⟩ := List.append_inj' heq rfl
        cases heq
        exact .inr hsign

/-- What stands for a number of which the bytes are known. -/
theorem serialize_of_short {value : Int} {init : List UInt8} {back : UInt8}
    (hvalue : value.natAbs = leNat (init ++ [back])) (hshort : Short (init ++ [back]))
    (hlength : init.length < 8) :
    serialize value =
      if 128 ≤ back.toNat then init ++ [back] ++ [if value < 0 then 0x80 else 0]
      else if value < 0 then init ++ [back ||| 0x80] else init ++ [back] := by
  have hbytes : shortBytes 8 value.natAbs = init ++ [back] := by
    rw [hvalue]
    refine shortBytes_leNat hshort ?_
    rw [List.length_append, List.length_singleton]
    exact hlength
  simp only [serialize, hbytes, List.getLast?_concat, List.dropLast_concat, sign_iff]

/-! ## Round trips -/

/-- The range of 64 bits without the lowest number, of which the bytes are nine. -/
def Fits (value : Int) : Prop := value.natAbs < 2 ^ 63

theorem Fits.exists_bytes {value : Int} (h : Fits value) (hne : value ≠ 0) :
    ∃ init back, value.natAbs = leNat (init ++ [back]) ∧ Short (init ++ [back]) ∧
      init.length < 8 ∧ 0 < back.toNat := by
  have hlt : value.natAbs < 256 ^ 8 := h.trans (by decide)
  have hnum := leNat_shortBytes hlt
  have hshort := short_shortBytes hlt
  have hlength := length_shortBytes_le (n := 8) hlt
  obtain hnil | ⟨init, back, hbytes⟩ := List.eq_nil_or_concat' (shortBytes 8 value.natAbs)
  · rw [hnil] at hnum
    exact absurd (Int.natAbs_eq_zero.1 hnum.symm) hne
  · rw [hbytes] at hnum hshort hlength
    refine ⟨init, back, hnum.symm, hshort, ?_, ?_⟩
    · rw [List.length_append, List.length_singleton] at hlength
      exact hlength
    · refine Nat.pos_of_ne_zero fun hzero => hshort ?_
      rw [List.getLast?_concat, UInt8.toNat_inj.1 (hzero.trans UInt8.toNat_zero.symm)]

/-- The bytes of a number stand for it, and they are minimal. -/
theorem setVch_serialize {value : Int} (h : Fits value) :
    setVch (serialize value) = value ∧ isMinimal (serialize value) = true := by
  obtain rfl | hne := eq_or_ne value 0
  · decide
  · obtain ⟨init, back, hvalue, hshort, hlength, hpos⟩ := h.exists_bytes hne
    rw [serialize_of_short hvalue hshort hlength]
    split
    · -- the sign needs a byte of its own
      next hback =>
      have hzero : ∀ b : UInt8, leNat (init ++ [back] ++ [b]) =
          leNat (init ++ [back]) + b.toNat * 256 ^ (init ++ [back]).length := leNat_concat _
      split
      · next hneg =>
        rw [setVch_of_le _ (by decide), isMinimal_concat]
        refine ⟨?_, .inr ⟨init, back, rfl, hback⟩⟩
        rw [← hvalue, show (0x80 : UInt8).toNat - 128 = 0 from rfl]
        omega
      · next hneg =>
        rw [setVch_of_lt _ (by decide), isMinimal_concat, hzero, ← hvalue]
        refine ⟨?_, .inr ⟨init, back, rfl, hback⟩⟩
        rw [show (0 : UInt8).toNat = 0 from rfl]
        omega
    · next hback =>
      rw [Nat.not_le] at hback
      split
      · next hneg =>
        have hsign := toNat_or_sign hback
        rw [setVch_of_le _ (by omega), isMinimal_concat, hsign, Nat.add_sub_cancel,
          ← leNat_concat, ← hvalue]
        refine ⟨by omega, .inl (by omega)⟩
      · next hneg =>
        rw [setVch_of_lt _ hback, isMinimal_concat, ← hvalue]
        refine ⟨by omega, .inl (by omega)⟩

/-- Minimal bytes are those of their number. -/
theorem serialize_setVch {vch : List UInt8} (h : isMinimal vch = true) (hlength : vch.length ≤ 8) :
    serialize (setVch vch) = vch := by
  obtain rfl | ⟨init, back, rfl⟩ := List.eq_nil_or_concat' vch
  · rfl
  · rw [List.length_append, List.length_singleton] at hlength
    have hback := back.toNat_lt
    by_cases hlow : back.toNat % 128 = 0
    · -- the last byte holds the sign alone
      obtain ⟨init, next, rfl, hnext⟩ := ((isMinimal_concat init back).1 h).resolve_left (by omega)
      rw [List.length_append, List.length_singleton] at hlength
      have hshort : Short (init ++ [next]) := by
        intro heq
        rw [List.getLast?_concat] at heq
        rw [Option.some.inj heq] at hnext
        exact absurd hnext (by decide)
      have hpos := leNat_pos hshort (by simp)
      obtain hzero | hsign : back.toNat = 0 ∨ back.toNat = 128 := by omega
      · obtain rfl : back = 0 := UInt8.toNat_inj.1 hzero
        rw [setVch_of_lt _ (by decide), leNat_concat, show (0 : UInt8).toNat = 0 from rfl,
          Nat.zero_mul, Nat.add_zero]
        rw [serialize_of_short (Int.natAbs_natCast _) hshort (by omega), if_pos hnext,
          if_neg (by omega)]
      · obtain rfl : back = 0x80 := UInt8.toNat_inj.1 hsign
        rw [setVch_of_le _ (by decide), show (0x80 : UInt8).toNat - 128 = 0 from rfl,
          Nat.zero_mul, Nat.add_zero]
        rw [serialize_of_short (by rw [Int.natAbs_neg, Int.natAbs_natCast]) hshort (by omega),
          if_pos hnext, if_pos (by omega)]
    · obtain hlt | hge := Nat.lt_or_ge back.toNat 128
      · have hshort : Short (init ++ [back]) := by
          intro heq
          rw [List.getLast?_concat] at heq
          rw [Option.some.inj heq] at hlow
          exact hlow rfl
        rw [setVch_of_lt _ hlt, serialize_of_short (Int.natAbs_natCast _) hshort (by omega),
          if_neg (Nat.not_le.2 hlt), if_neg (Int.not_lt.2 (Int.natCast_nonneg _))]
      · -- the byte without its sign
        have hclear : (UInt8.ofNat (back.toNat - 128)).toNat = back.toNat - 128 := by
          rw [UInt8.toNat_ofNat']
          omega
        have hshort : Short (init ++ [UInt8.ofNat (back.toNat - 128)]) := by
          intro heq
          rw [List.getLast?_concat] at heq
          have := congrArg UInt8.toNat (Option.some.inj heq)
          rw [hclear, UInt8.toNat_zero] at this
          omega
        have hpos := leNat_pos hshort (by simp)
        have hor : UInt8.ofNat (back.toNat - 128) ||| 0x80 = back := by
          apply UInt8.toNat_inj.1
          rw [toNat_or_sign (by omega), hclear]
          omega
        rw [setVch_of_le _ hge, ← hclear, ← leNat_concat,
          serialize_of_short (by rw [Int.natAbs_neg, Int.natAbs_natCast]) hshort (by omega),
          if_neg (by omega), if_pos (by omega), hor]

theorem length_serialize_le (value : Int) : (serialize value).length ≤ 9 := by
  have hlength := length_shortBytes 8 value.natAbs
  simp only [serialize]
  split
  · exact Nat.zero_le 9
  · split
    · simp
      omega
    · split
      · simp
        omega
      · omega

/-- With the flag an element is read as a number just when it is what that number is pushed as:
no number has two encodings. -/
theorem ofVch_minimal_iff {vch : List UInt8} {value : Int} {nMaxNumSize : Nat}
    (hmax : nMaxNumSize ≤ 8) (hfits : Fits value) :
    ofVch vch true nMaxNumSize = some value ↔
      vch = serialize value ∧ vch.length ≤ nMaxNumSize := by
  rw [ofVch]
  constructor
  · intro h
    split_ifs at h with hlong hminimal
    rw [Nat.not_lt] at hlong
    simp only [true_and, Bool.not_eq_true, Bool.not_eq_false] at hminimal
    rw [← Option.some.inj h, serialize_setVch hminimal (hlong.trans hmax)]
    exact ⟨rfl, hlong⟩
  · rintro ⟨rfl, hlength⟩
    obtain ⟨hvalue, hminimal⟩ := setVch_serialize hfits
    rw [if_neg (Nat.not_lt.2 hlength), if_neg (by simp [hminimal]), hvalue]

/-- Minus one. -/
theorem ofVch_minimal_iff_minus : ofVch [0x81] true 4 = some (-1) :=
  (@ofVch_minimal_iff [0x81] (-1) 4 (by decide) (by unfold Fits; decide)).2 ⟨rfl, by decide⟩

end CScriptNum

end IndexChain
