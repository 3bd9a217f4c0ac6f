import IndexChain.Models.CC.Payments

/-!
# Synthetic prices

`prices_syntheticvec` and `prices_syntheticprice` of `cc/prices.cpp`: an expression in
postfix notation is parsed to a vector of opcodes, and a vector is evaluated with a stack
of four prices. The vector of a bet is taken from its op_return, so it need not be one
that the parser made.
-/

namespace IndexChain.Prices

open IndexChain.Core

/-! ## Opcodes -/

/-- `KOMODO_MAXPRICES`. -/
def komodoMaxprices : Nat := 2048

/-- `SATOSHIDEN`. -/
def satoshiden : Int := 100000000

/-- The operators of an expression. -/
inductive PriceOp where
  /-- `PRICES_MULT`, written `*`. -/
  | mult
  /-- `PRICES_DIV`, written `/`. -/
  | div
  /-- `PRICES_INV`, written `!`. -/
  | inv
  /-- `PRICES_MDD`, written `*//`. -/
  | mdd
  /-- `PRICES_MMD`, written `**/`. -/
  | mmd
  /-- `PRICES_MMM`, written `***`. -/
  | mmm
  /-- `PRICES_DDD`, written `///`. -/
  | ddd
  deriving DecidableEq, Repr

namespace PriceOp

/-- The number of the opcode, in units of `KOMODO_MAXPRICES`. -/
def code : PriceOp → Nat
  | mult => 2
  | div => 3
  | inv => 4
  | mdd => 5
  | mmd => 6
  | mmm => 7
  | ddd => 8

/-- How many operands an operator takes. -/
def need : PriceOp → Nat
  | mult => 2
  | div => 2
  | inv => 1
  | mdd => 3
  | mmd => 3
  | mmm => 3
  | ddd => 3

/-- The error of an operator with too few operands. -/
def errcode : PriceOp → Int
  | mult => -3
  | div => -4
  | inv => -5
  | mdd => -6
  | mmd => -7
  | mmm => -8
  | ddd => -9

/-- The opcode of an operator. -/
def opcode (op : PriceOp) : UInt16 := UInt16.ofNat (komodoMaxprices * op.code)

end PriceOp

/-- What an opcode asks for. -/
inductive PriceCode where
  /-- Push a price. -/
  | index (ind : Nat)
  /-- Add a weighted price to the total. -/
  | weight (value : Nat)
  /-- Apply an operator. -/
  | op (op : PriceOp)
  /-- No opcode. -/
  | invalid
  deriving DecidableEq, Repr

/-- The cases of the `switch` over `opcode & KOMODO_PRICEMASK`, with the value in the bits
below the mask. -/
def priceCode (opcode : UInt16) : PriceCode :=
  match opcode.toNat / komodoMaxprices with
  | 0 => .index (opcode.toNat % komodoMaxprices)
  | 1 => .weight (opcode.toNat % komodoMaxprices)
  | 2 => .op .mult
  | 3 => .op .div
  | 4 => .op .inv
  | 5 => .op .mdd
  | 6 => .op .mmd
  | 7 => .op .mmm
  | 8 => .op .ddd
  | _ => .invalid

/-! ## The parser -/

/-- A word of an expression. -/
abbrev Token : Type := List Char

/-- The string that `c_str` gives to a C function. -/
def Token.cStr (s : Token) : Token := s.takeWhile fun c => c != Char.ofNat 0

/-- `is_weight_str`. -/
def isWeightStr (s : Token) : Bool :=
  s.any Char.isDigit && !s.any fun c => c.isAlpha || c == '/'

/-- `isspace`. -/
def isSpace (c : Char) : Bool := c == ' ' || decide (9 ≤ c.toNat) && decide (c.toNat ≤ 13)

/-- The number of a string of digits. -/
def decimal (s : Token) : Nat := s.foldl (fun n c => 10 * n + (c.toNat - 48)) 0

/-- `atoi`: a number of 64 bits, cut to 32. -/
def atoi (s : Token) : Int :=
  let n : Int := match s.dropWhile isSpace with
    | '-' :: rest => -decimal (rest.takeWhile Char.isDigit)
    | '+' :: rest => decimal (rest.takeWhile Char.isDigit)
    | rest => decimal (rest.takeWhile Char.isDigit)
  toInt32 (max (-2 ^ 63) (min n (2 ^ 63 - 1)))

/-- The names of the prices of a chain, from index 1. There are fewer than
`KOMODO_MAXPRICES`, a node with more does not start. -/
structure PriceNames where
  /-- `komodo_pricename` of each index. -/
  names : List Token
  /-- There is room for them. -/
  length_lt : names.length + 1 < komodoMaxprices

/-- `komodo_priceind`. -/
def PriceNames.komodoPriceind (names : PriceNames) (symbol : Token) : Option Nat :=
  if symbol ∈ names.names then some (names.names.idxOf symbol + 1) else none

/-- The operator of a word. -/
def priceOpOf (opstr : Token) : Option PriceOp :=
  if opstr = ['*'] then some .mult
  else if opstr = ['/'] then some .div
  else if opstr = ['!'] then some .inv
  else if opstr = ['*', '*', '/'] then some .mmd
  else if opstr = ['*', '/', '/'] then some .mdd
  else if opstr = ['*', '*', '*'] then some .mmm
  else if opstr = ['/', '/', '/'] then some .ddd
  else none

/-- The opcode of a word and the number of operands it needs. -/
def PriceNames.opcodeOf (names : PriceNames) (opstr : Token) : Option (UInt16 × Nat) :=
  match priceOpOf opstr with
  | some op => some (op.opcode, op.need)
  | none => match if isWeightStr opstr then none else names.komodoPriceind opstr.cStr with
    | some ind => some (UInt16.ofNat ind, 0)
    | none =>
      let weight := (atoi opstr.cStr % 2 ^ 16).toNat
      if 0 < weight ∧ weight < komodoMaxprices then
        some (UInt16.ofNat komodoMaxprices ||| UInt16.ofNat weight, 1)
      else none

/-- The loop of `prices_syntheticvec`. -/
def PriceNames.parse (names : PriceNames) : List Token → Nat → Except Int (List UInt16)
  | [], depth => if depth ≠ 0 then .error (-5) else .ok []
  | opstr :: rest, depth => match names.opcodeOf opstr with
    | none => .error (-2)
    | some (opcode, need) =>
      if depth < need then .error (-3)
      else
        let depth' := if opcode.toNat / komodoMaxprices ≠ 1 then depth - need + 1
          else depth - need
        if 3 < depth' then .error (-4)
        else (names.parse rest depth').map fun vec => opcode :: vec

/-- `prices_syntheticvec`. -/
def PriceNames.pricesSyntheticvec (names : PriceNames) (synthetic : List Token) :
    Except Int (List UInt16) :=
  if synthetic = [] then .error (-1) else names.parse synthetic 0

/-! ## The evaluator -/

/-- What `komodo_priceget` finds. -/
inductive PriceRead where
  /-- There is no file of the price: the buffer is as it was, and no error is reported. -/
  | absent
  /-- The file does not reach to the height. -/
  | short
  /-- The smoothed price, the third entry of the buffer. -/
  | data (price : Int)
  deriving DecidableEq, Repr

/-- The stored prices of a height. -/
abbrev PriceTable : Type := Nat → PriceRead

/-- How the evaluation can fail. -/
inductive PriceFault where
  /-- The stack is touched outside of its entries. -/
  | stackOutOfBounds (depth : Nat)
  /-- A division by zero. -/
  | divisionByZero
  deriving DecidableEq, Repr

/-- The variables of `prices_syntheticprice`. -/
structure PriceMachine where
  /-- `pricedata[2]`. -/
  pricedata : Int
  /-- `pricestack`, the last entry first; its length is `depth`. -/
  pricestack : List Int
  /-- `mpzTotalPrice`. -/
  totalPrice : Int
  /-- `mpzDen`. -/
  den : Int
  deriving DecidableEq, Repr

/-- The variables before the loop. -/
def PriceMachine.start : PriceMachine where
  pricedata := 0
  pricestack := []
  totalPrice := 0
  den := 0

/-- `mpz_tdiv_q`. -/
def mpzTdivQ (n d : Int) : Except PriceFault Int :=
  if d = 0 then .error .divisionByZero else .ok (n.tdiv d)

/-- What an operator computes of its operands, in the order they were pushed. -/
def PriceOp.result : PriceOp → List Int → Except PriceFault Int
  | mult, [a, b] => mpzTdivQ (a * b) satoshiden
  | div, [a, b] => mpzTdivQ (a * satoshiden) b
  | inv, [a] => mpzTdivQ (satoshiden * satoshiden) a
  | mdd, [a, b, c] => do
    let q ← mpzTdivQ (a * satoshiden) b
    mpzTdivQ (q * satoshiden) c
  | mmd, [a, b, c] => mpzTdivQ (a * b) c
  | mmm, [a, b, c] => do
    let q ← mpzTdivQ (a * b) satoshiden
    mpzTdivQ (q * c) satoshiden
  | ddd, [a, b, c] => do
    let p ← mpzTdivQ (satoshiden * satoshiden) a
    let q ← mpzTdivQ (p * satoshiden) b
    mpzTdivQ (q * satoshiden) c
  | _, _ => .ok 0

namespace PriceMachine

/-- Push a price. A price that cannot be read is zero, and zero is an error. -/
def pushPrice (table : PriceTable) (ind : Nat) (m : PriceMachine) :
    Except PriceFault (PriceMachine × Int) :=
  if 4 ≤ m.pricestack.length then .error (.stackOutOfBounds m.pricestack.length)
  else match table ind with
    | .absent => .ok ({ m with pricestack := m.pricedata :: m.pricestack },
        if m.pricedata = 0 then -14 else 0)
    | .short => .ok ({ m with pricestack := 0 :: m.pricestack }, -14)
    | .data price => .ok ({ m with pricedata := price, pricestack := price :: m.pricestack },
        if price = 0 then -14 else 0)

/-- Take the only price off the stack and add it to the total. -/
def addWeight (value : Nat) (m : PriceMachine) : PriceMachine × Int :=
  match m.pricestack with
  | [price] => ({ m with pricestack := [], totalPrice := m.totalPrice + price * value
                         den := m.den + value }, 0)
  | _ => (m, -2)

/-- Apply an operator to the last operands. -/
def applyOp (op : PriceOp) (m : PriceMachine) : Except PriceFault (PriceMachine × Int) :=
  if op.need ≤ m.pricestack.length then do
    let result ← op.result (m.pricestack.take op.need).reverse
    return ({ m with pricestack := mpzGetSi result :: m.pricestack.drop op.need },
      if 2 ^ 63 - 1 < result then -13 else 0)
  else .ok (m, op.errcode)

/-- One iteration of the loop, with the error that ends it. -/
def step (table : PriceTable) (m : PriceMachine) (opcode : UInt16) :
    Except PriceFault (PriceMachine × Int) :=
  match priceCode opcode with
  | .index ind => m.pushPrice table ind
  | .weight value => .ok (m.addWeight value)
  | .op op => m.applyOp op
  | .invalid => .ok (m, -10)

/-- The loop of `prices_syntheticprice`. -/
def run (table : PriceTable) : List UInt16 → PriceMachine → Except PriceFault (PriceMachine × Int)
  | [], m => .ok (m, 0)
  | opcode :: rest, m => do
    let (m', errcode) ← m.step table opcode
    if errcode = 0 then run table rest m' else return (m', errcode)

/-- What is returned after the loop. -/
def retval (m : PriceMachine) (errcode : Int) : Int :=
  if errcode = -1 ∨ errcode = -13 ∨ errcode = -14 then errcode
  else if mpzGetSi m.den = 0 then -11
  else if m.pricestack ≠ [] then -12
  else if errcode ≠ 0 then errcode
  else mpzGetSi (m.totalPrice.tdiv m.den)

end PriceMachine

/-- `prices_syntheticprice`. -/
def pricesSyntheticprice (table : PriceTable) (vec : List UInt16) : Except PriceFault Int := do
  let (m, errcode) ← PriceMachine.run table vec PriceMachine.start
  return m.retval errcode

end IndexChain.Prices
