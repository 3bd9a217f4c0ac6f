import IndexChain.Models.Prices.Synthetic

/-!
# The reducer of synthetic expressions

`prices_getreducedexpr` of `cc/prices.cpp` with the functions it calls and `SplitStr` of
`util.cpp`: the words of an expression are rewritten in place, `BTC_USD, BTC_EUR, /` to
`EUR_USD`. The words are strings throughout; nothing tells a price pair from a weight or
an operator except the comparison with the operators.
-/

namespace IndexChain.Prices

open IndexChain.Core

/-! ## Words -/

/-- `SplitStr`, from the middle of a word. -/
def splitStrFrom : List Char → Token → List Token
  | [], str => if str = [] then [] else [str]
  | c :: rest, str =>
    if isSpace c || c == ',' then
      if str = [] then splitStrFrom rest [] else str :: splitStrFrom rest []
    else splitStrFrom rest (str ++ [c])

/-- `SplitStr`. -/
def splitStr (strVal : List Char) : List Token := splitStrFrom strVal []

/-- The operands that a word needs, if `prices_isopcode` takes it for an operator. -/
def pricesIsopcode (s : Token) : Option Nat :=
  if s = ['!'] then some 1
  else if s = ['*'] ∨ s = ['/'] then some 2
  else if s = ['*', '*', '*'] ∨ s = ['/', '/', '/'] ∨ s = ['*', '/', '/'] ∨
      s = ['*', '*', '/'] then some 3
  else none

/-- `prices_splitpair`: the quotes before and after the first `_`. -/
def pricesSplitpair (pair : Token) : Token × Token :=
  (pair.takeWhile fun c => c != '_', (pair.dropWhile fun c => c != '_').drop 1)

/-- `prices_invertpair`. -/
def pricesInvertpair (pair : Token) : Token :=
  (pricesSplitpair pair).2 ++ '_' :: (pricesSplitpair pair).1

/-- The quotes of an operand are one quote. -/
def SelfPair (v : Token) : Prop := (pricesSplitpair v).1 = (pricesSplitpair v).2

instance (v : Token) : Decidable (SelfPair v) :=
  inferInstanceAs (Decidable ((pricesSplitpair v).1 = (pricesSplitpair v).2))

/-- A quote is above in one operand and below in the other. -/
def Cancels (v w : Token) : Prop :=
  (pricesSplitpair v).1 = (pricesSplitpair w).2 ∨ (pricesSplitpair v).2 = (pricesSplitpair w).1

instance (v w : Token) : Decidable (Cancels v w) :=
  inferInstanceAs (Decidable (_ ∨ _))

/-- The operand that stands for two that cancel. -/
def mergePair (v w : Token) : Token :=
  if (pricesSplitpair v).1 = (pricesSplitpair w).2 then
    (pricesSplitpair w).1 ++ '_' :: (pricesSplitpair v).2
  else (pricesSplitpair v).1 ++ '_' :: (pricesSplitpair w).2

/-! ## One operation -/

/-- An access outside of a vector. -/
inductive ReduceFault where
  /-- A word before the first or behind the last. -/
  | outOfRange (position : Nat)
  deriving DecidableEq, Repr

/-- The word `k` places before position `p`. -/
def wordBefore (vexpr : List Token) (p k : Nat) : Except ReduceFault Token :=
  if k ≤ p then
    match vexpr[p - k]? with
    | some s => .ok s
    | none => .error (.outOfRange (p - k))
  else .error (.outOfRange p)

/-- An operand, inverted if the operator has a `/` for it. -/
def invertFor (c : Char) (v : Token) : Token := if c = '/' then pricesInvertpair v else v

/-- `prices_invertoperation`. -/
def pricesInvertoperation (vexpr : List Token) (p : Nat) : Except ReduceFault (List Token) := do
  let op ← wordBefore vexpr p 0
  match pricesIsopcode op with
  | some 1 => do
    let a ← wordBefore vexpr p 1
    return [pricesInvertpair a]
  | some 2 => do
    let a ← wordBefore vexpr p 2
    let b ← wordBefore vexpr p 1
    return [a, if op = ['/'] then pricesInvertpair b else b, ['*']]
  | some 3 => do
    let a ← wordBefore vexpr p 3
    let b ← wordBefore vexpr p 2
    let c ← wordBefore vexpr p 1
    return List.zipWith invertFor op [a, b, c] ++ [['*', '*', '*']]
  | _ => return []

/-- `voperation.pop_back()` if the last word is `*`. -/
def popMult (voperation : List Token) : List Token :=
  if voperation.getLast? = some ['*'] then voperation.dropLast else voperation

/-- `***` becomes `*`, and `*` is dropped. -/
def weakenMult (voperation : List Token) : List Token :=
  if voperation.getLast? = some ['*', '*', '*'] then voperation.dropLast ++ [['*']]
  else popMult voperation

/-- Where the loops over the operands stop. -/
inductive OperandMatch where
  /-- The quotes of operand `i` are one quote. -/
  | self (i : Nat)
  /-- Operand `j` cancels against operand `i`. -/
  | mates (i j : Nat)
  deriving DecidableEq, Repr

/-- The loops over `i` and `j`, from operand `i` on. -/
def findMatch : List Token → Nat → Option OperandMatch
  | [], _ => none
  | v :: rest, i =>
    if SelfPair v then some (.self i)
    else match rest.findIdx? fun w => decide (Cancels v w) with
      | some k => some (.mates i (i + 1 + k))
      | none => findMatch rest (i + 1)

/-- The `while` loop of `prices_reduceoperands`. Every round that does not end it takes an
operand away. -/
def reduceLoop : Nat → List Token → Nat → Except ReduceFault (List Token × Nat)
  | 0, voperation, need => .ok (voperation, need)
  | opcount + 1, voperation, need =>
    if voperation.length < opcount + 1 then .error (.outOfRange voperation.length)
    else match findMatch (voperation.take (opcount + 1)) 0 with
      | none => .ok (voperation, need)
      | some (.self i) => reduceLoop opcount (popMult (voperation.eraseIdx i)) need
      | some (.mates i j) =>
        let merged := mergePair (voperation.getD i []) (voperation.getD j [])
        reduceLoop opcount (weakenMult ((voperation.set i merged).eraseIdx j)) (need - 1)

/-- `prices_reduceoperands`: what is left of the operation, and the operands it needs. -/
def pricesReduceoperands (voperation : List Token) : Except ReduceFault (List Token × Nat) :=
  reduceLoop (voperation.length - 1) voperation (voperation.length - 1)

/-- `prices_substitutereduced`. -/
def pricesSubstitutereduced (vexpr : List Token) (p : Nat) (voperation : List Token) :
    Except ReduceFault (List Token) :=
  match (vexpr[p]?).bind pricesIsopcode with
  | some need =>
    if need ≤ p then .ok (vexpr.take (p - need) ++ voperation ++ vexpr.drop (p + 1))
    else .error (.outOfRange p)
  | none => .ok vexpr

/-! ## The expression -/

/-- The body of the loop of `prices_getreducedexpr` for one position. -/
def reduceAt (vexpr : List Token) (i : Nat) : Except ReduceFault (List Token) :=
  match (vexpr[i]?).bind pricesIsopcode with
  | none => .ok vexpr
  | some need => do
    let voperation ← pricesInvertoperation vexpr i
    if voperation = [] then return vexpr
    let (voperation, reducedneed) ← pricesReduceoperands voperation
    if reducedneed < need then pricesSubstitutereduced vexpr i voperation else return vexpr

theorem popMult_length (voperation : List Token) :
    (popMult voperation).length ≤ voperation.length := by
  unfold popMult
  split <;> simp

theorem weakenMult_length (voperation : List Token) :
    (weakenMult voperation).length ≤ voperation.length := by
  unfold weakenMult
  split
  case isTrue hlast =>
    have hne : voperation ≠ [] := by
      rintro rfl
      cases hlast
    have hpos := List.length_pos_iff.mpr hne
    simp only [List.length_append, List.length_dropLast, List.length_cons, List.length_nil]
    omega
  case isFalse => exact popMult_length voperation

/-- The loop over the operands adds no words. -/
theorem reduceLoop_length {opcount need need' : Nat} {voperation voperation' : List Token}
    (h : reduceLoop opcount voperation need = .ok (voperation', need')) :
    voperation'.length ≤ voperation.length := by
  induction opcount generalizing voperation need with
  | zero =>
    cases h
    exact le_rfl
  | succ opcount ih =>
    rw [reduceLoop] at h
    split at h
    · cases h
    · split at h
      · cases h
        exact le_rfl
      · exact (ih h).trans ((popMult_length _).trans (List.length_eraseIdx_le _ _))
      · refine (ih h).trans ((weakenMult_length _).trans ((List.length_eraseIdx_le _ _).trans ?_))
        rw [List.length_set]

/-- An operation has no more words than its operator and operands. -/
theorem invertoperation_length {vexpr voperation : List Token} {p need : Nat}
    (hneed : (vexpr[p]?).bind pricesIsopcode = some need)
    (h : pricesInvertoperation vexpr p = .ok voperation) : voperation.length ≤ need + 1 := by
  obtain ⟨op, hop, hneed⟩ := Option.bind_eq_some_iff.mp hneed
  have hzero : wordBefore vexpr p 0 = .ok op := by simp [wordBefore, hop]
  simp only [pricesInvertoperation, hzero, hneed, except_ok_bind] at h
  split at h
  case h_1 =>
    obtain ⟨a, -, h⟩ := except_bind_eq_ok.mp h
    cases h
    simp_all
  case h_2 =>
    obtain ⟨a, -, h⟩ := except_bind_eq_ok.mp h
    obtain ⟨b, -, h⟩ := except_bind_eq_ok.mp h
    cases h
    simp_all
  case h_3 =>
    obtain ⟨a, -, h⟩ := except_bind_eq_ok.mp h
    obtain ⟨b, -, h⟩ := except_bind_eq_ok.mp h
    obtain ⟨c, -, h⟩ := except_bind_eq_ok.mp h
    cases h
    simp_all
  case h_4 =>
    cases h
    exact Nat.zero_le _

/-- What the body of the loop can do: nothing, or write a shorter operation in the place of
the operator and its operands. -/
theorem reduceAt_cases {vexpr vexpr' : List Token} {i : Nat}
    (h : reduceAt vexpr i = .ok vexpr') :
    vexpr' = vexpr ∨ ∃ need voperation, (vexpr[i]?).bind pricesIsopcode = some need ∧
      need ≤ i ∧ voperation.length ≤ need + 1 ∧
      vexpr' = vexpr.take (i - need) ++ voperation ++ vexpr.drop (i + 1) := by
  unfold reduceAt at h
  split at h
  case h_1 =>
    cases h
    exact .inl rfl
  case h_2 need hneed =>
    obtain ⟨voperation, hinvert, h⟩ := except_bind_eq_ok.mp h
    split at h
    case isTrue =>
      cases h
      exact .inl rfl
    case isFalse =>
      obtain ⟨⟨reduced, reducedneed⟩, hreduce, h⟩ := except_bind_eq_ok.mp h
      dsimp only at h
      split at h
      case isFalse =>
        cases h
        exact .inl rfl
      case isTrue =>
        simp only [pricesSubstitutereduced, hneed] at h
        split at h
        case isFalse => cases h
        case isTrue hle =>
          cases h
          exact .inr ⟨need, reduced, hneed, hle,
            (reduceLoop_length hreduce).trans (invertoperation_length hneed hinvert), rfl⟩

/-- The expression never grows. -/
theorem reduceAt_length {vexpr vexpr' : List Token} {i : Nat}
    (h : reduceAt vexpr i = .ok vexpr') : vexpr'.length ≤ vexpr.length := by
  rcases reduceAt_cases h with rfl | ⟨need, voperation, hneed, hle, hlength, rfl⟩
  · exact le_rfl
  · obtain ⟨op, hop, -⟩ := Option.bind_eq_some_iff.mp hneed
    have hi := (List.getElem?_eq_some_iff.mp hop).1
    simp only [List.length_append, List.length_take, List.length_drop]
    omega

/-- The loop of `prices_getreducedexpr`, from position `i` on. It ends because the
expression never grows. -/
def reduceFrom (vexpr : List Token) (i : Nat) : Except ReduceFault (List Token) :=
  if i < vexpr.length then
    match h : reduceAt vexpr i with
    | .error e => .error e
    | .ok vexpr' => reduceFrom vexpr' (i + 1)
  else .ok vexpr
termination_by vexpr.length - i
decreasing_by
  have hle := reduceAt_length h
  omega

/-- A round of the loop. -/
theorem reduceFrom_of_lt {vexpr vexpr' : List Token} {i : Nat} (hlt : i < vexpr.length)
    (hround : reduceAt vexpr i = .ok vexpr') : reduceFrom vexpr i = reduceFrom vexpr' (i + 1) := by
  rw [reduceFrom, if_pos hlt]
  split
  case h_1 e hfault =>
    rw [hround] at hfault
    cases hfault
  case h_2 v hok =>
    rw [hround] at hok
    cases hok
    rfl

/-- The end of the loop. -/
theorem reduceFrom_of_ge {vexpr : List Token} {i : Nat} (hge : vexpr.length ≤ i) :
    reduceFrom vexpr i = .ok vexpr := by
  rw [reduceFrom, if_neg (Nat.not_lt.mpr hge)]

/-- The words of an expression, with a comma and a space between them. -/
def joinExpr (vexpr : List Token) : List Char :=
  vexpr.foldl (fun reduced v => (if reduced ≠ [] then reduced ++ [',', ' '] else reduced) ++ v) []

/-- `prices_getreducedexpr`. -/
def pricesGetreducedexpr (expr : List Char) : Except ReduceFault (List Char) := do
  let vexpr ← reduceFrom (splitStr expr) 0
  return joinExpr vexpr

/-! ## The run of the loop -/

/-- The loop is at position `i` of `vexpr` when it started at the first word of `start`. -/
inductive Reaches (start : List Token) : List Token → Nat → Prop where
  /-- Before the first round. -/
  | start : Reaches start start 0
  /-- After a round. -/
  | next {vexpr vexpr' : List Token} {i : Nat} : Reaches start vexpr i → i < vexpr.length →
      reduceAt vexpr i = .ok vexpr' → Reaches start vexpr' (i + 1)

/-- What a round keeps is true of all that the loop reaches. -/
theorem Reaches.invariant {start vexpr : List Token} {i : Nat} {P : List Token → Nat → Prop}
    (h : Reaches start vexpr i) (hstart : P start 0)
    (hstep : ∀ vexpr vexpr' i, Reaches start vexpr i → P vexpr i → i < vexpr.length →
      reduceAt vexpr i = .ok vexpr' → P vexpr' (i + 1)) : P vexpr i := by
  induction h with
  | start => exact hstart
  | next hreach hlt hround ih => exact hstep _ _ _ hreach ih hlt hround

/-- If no round faults, then the loop ends in an expression it reaches. -/
theorem Reaches.reduceFrom_ok {start vexpr : List Token} {i : Nat} (h : Reaches start vexpr i)
    (hround : ∀ v i, Reaches start v i → i < v.length → ∃ v', reduceAt v i = .ok v') :
    ∃ vexpr' i', reduceFrom vexpr i = .ok vexpr' ∧ Reaches start vexpr' i' := by
  induction vexpr, i using reduceFrom.induct with
  | case1 vexpr i hlt e hfault =>
    obtain ⟨v', hok⟩ := hround vexpr i h hlt
    rw [hfault] at hok
    cases hok
  | case2 vexpr i hlt vexpr' hok ih =>
    obtain ⟨last, i', hlast, hreach⟩ := ih (.next h hlt hok)
    exact ⟨last, i', (reduceFrom_of_lt hlt hok).trans hlast, hreach⟩
  | case3 vexpr i hge => exact ⟨vexpr, i, reduceFrom_of_ge (Nat.le_of_not_lt hge), h⟩

end IndexChain.Prices
