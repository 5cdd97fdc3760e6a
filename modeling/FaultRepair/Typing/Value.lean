/-
# Constant values

Values of constant expressions: exact integers, fractions, complex numbers, text
and truth values, with the operations of the language.
-/

import FaultRepair.Text.Quote
import FaultRepair.Typing.Type

namespace FaultRepair.Typing

open Source (Token)

inductive Value where
  | bool (b : Bool)
  | text (t : Text)
  | int (n : Int)
  | ratio (q : Rat)
  | complex (re im : Rat)

namespace Value

def ofRat (q : Rat) : Value := if q.den == 1 then .int q.num else .ratio q

def ofComplex (re im : Rat) : Value := if im == 0 then ofRat re else .complex re im

def parts? : Value → Option (Rat × Rat)
  | .int n => some (n, 0)
  | .ratio q => some (q, 0)
  | .complex re im => some (re, im)
  | _ => none

def toRat? (v : Value) : Option Rat := do
  let (re, im) ← v.parts?
  if im == 0 then some re else none

def toInt? (v : Value) : Option Int := do
  let q ← v.toRat?
  if q.den == 1 then some q.num else none

def digitsValue (base : Nat) (t : Text) : Nat :=
  t.foldl (fun v d => base * v + Text.hexValue d) 0

def withoutUnderscores (t : Text) : Text := t.filter (· != 95)

def ofIntLit? (lit : Text) : Option Value := do
  let t := withoutUnderscores lit
  let 48 :: b :: rest := t | some (.int (digitsValue 10 t))
  return .int <| match Text.lowerByte b with
    | 120 => digitsValue 16 rest
    | 98 => digitsValue 2 rest
    | 111 => digitsValue 8 rest
    | _ => digitsValue 8 (b :: rest)

def signed (t : Text) : Int :=
  match t with
  | 45 :: ds => -(digitsValue 10 ds : Int)
  | 43 :: ds | ds => digitsValue 10 ds

def power (base : Nat) (e : Int) : Rat :=
  match e with
  | .ofNat n => (Nat.pow base n : Rat)
  | .negSucc n => 1 / (Nat.pow base (n + 1) : Rat)

/-- Larger exponents than this are out of reach of every type. -/
def maxExponent : Nat := 20000

def ofFloatLit? (lit : Text) : Option Value :=
  let t := (withoutUnderscores lit).map Text.lowerByte
  let (base, t, mark) : Nat × Text × UInt8 := match t with
    | 48 :: 120 :: rest => (16, rest, 112)
    | _ => (10, t, 101)
  let (mantissa, exponent) := match Text.cutAt? mark t with
    | some (m, e) => (m, signed e)
    | none => (t, 0)
  let (whole, fraction) := (Text.cutAt? 46 mantissa).getD (mantissa, [])
  if maxExponent < exponent.natAbs then none
  else
    let m : Rat := digitsValue base (whole ++ fraction)
    let scale := if base == 16 then power 2 (exponent - 4 * fraction.length)
      else power 10 (exponent - fraction.length)
    some (ofRat (m * scale))

def ofLit? (kind : Token) (lit : Text) : Option Value :=
  match kind with
  | .int => ofIntLit? lit
  | .float => ofFloatLit? lit
  | .imag =>
    let t := lit.dropLast
    let isFloat := t.any fun b => b == 46 || b == 101 || b == 69 || b == 112 || b == 80
    let isHex := Text.startsWith (t.map Text.lowerByte) "0x"
    let v :=
      if isFloat && !(isHex && !t.any fun b => b == 46 || b == 112 || b == 80) then ofFloatLit? t
      else if isHex || Text.startsWith (t.map Text.lowerByte) "0b" ||
          Text.startsWith (t.map Text.lowerByte) "0o" then ofIntLit? t
      else some (.int (digitsValue 10 (withoutUnderscores t)))
    v.bind fun v => v.toRat?.map fun q => ofComplex 0 q
  | .char => (Text.unquoteChar? lit).map fun r => .int r
  | .string => (Text.unquote? lit).map .text
  | _ => none

def shiftRight (n : Int) (k : Nat) : Int := Int.fdiv n (Nat.pow 2 k)

def toTwos (n : Int) (bits : Nat) : Nat := (n % (Nat.pow 2 bits : Int)).toNat

def bitwise (f : Nat → Nat → Nat) (a b : Int) : Int :=
  let bits := max a.natAbs.log2 b.natAbs.log2 + 2
  let r : Int := f (toTwos a bits) (toTwos b bits)
  if r ≥ Nat.pow 2 (bits - 1) then r - Nat.pow 2 bits else r

def andNot (a b : Nat) : Nat := a ^^^ (a &&& b)

/-- A binary operation other than a comparison or a shift; with `whole`, division
is that of integers. -/
def binary? (op : Token) (whole : Bool) (x y : Value) : Option Value :=
  match x, y with
  | .bool a, .bool b =>
    match op with
    | .land => some (.bool (a && b))
    | .lor => some (.bool (a || b))
    | _ => none
  | .text a, .text b => if op == .add then some (.text (a ++ b)) else none
  | .int a, .int b =>
    match op with
    | .add => some (.int (a + b))
    | .sub => some (.int (a - b))
    | .mul => some (.int (a * b))
    | .quo =>
      if b == 0 then none
      else if whole then some (.int (Int.tdiv a b)) else some (ofRat ((a : Rat) / b))
    | .rem => if b == 0 then none else some (.int (Int.tmod a b))
    | .and => some (.int (bitwise (· &&& ·) a b))
    | .or => some (.int (bitwise (· ||| ·) a b))
    | .xor => some (.int (bitwise (· ^^^ ·) a b))
    | .andNot => some (.int (bitwise andNot a b))
    | _ => none
  | x, y => do
    let (a, b) ← parts? x
    let (c, d) ← parts? y
    match op with
    | .add => some (ofComplex (a + c) (b + d))
    | .sub => some (ofComplex (a - c) (b - d))
    | .mul => some (ofComplex (a * c - b * d) (a * d + b * c))
    | .quo =>
      let n := c * c + d * d
      if n == 0 then none else some (ofComplex ((a * c + b * d) / n) ((b * c - a * d) / n))
    | _ => none

def shift? (op : Token) (x : Value) (k : Nat) : Option Value := do
  let n ← x.toInt?
  match op with
  | .shl => some (.int (n * Nat.pow 2 k))
  | .shr => some (.int (shiftRight n k))
  | _ => none

/-- A unary operation; `unsigned` gives the width of an unsigned operand's type. -/
def unary? (op : Token) (unsigned : Option Nat) (x : Value) : Option Value := do
  match op, x with
  | .add, x => some x
  | .sub, .int n => some (.int (-n))
  | .sub, x => (parts? x).map fun (a, b) => ofComplex (-a) (-b)
  | .xor, .int n =>
    let some bits := unsigned | some (.int (-n - 1))
    some (.int (Nat.pow 2 bits - 1 - n))
  | .not, .bool b => some (.bool !b)
  | _, _ => none

def compare? (op : Token) (x y : Value) : Option Bool :=
  let ofOrdering (o : Ordering) : Option Bool :=
    match op with
    | .eql => some (o == .eq)
    | .neq => some (o != .eq)
    | .lss => some (o == .lt)
    | .leq => some (o != .gt)
    | .gtr => some (o == .gt)
    | .geq => some (o != .lt)
    | _ => none
  match x, y with
  | .bool a, .bool b =>
    match op with
    | .eql => some (a == b)
    | .neq => some (a != b)
    | _ => none
  | .text a, .text b => ofOrdering (Text.compare a b)
  | x, y => do
    let (a, b) ← parts? x
    let (c, d) ← parts? y
    if b == 0 && d == 0 then
      ofOrdering (if a < c then .lt else if a == c then .eq else .gt)
    else
      match op with
      | .eql => some (a == c && b == d)
      | .neq => some !(a == c && b == d)
      | _ => none

/-- Largest absolute value of the floating-point types, with half a unit to spare. -/
def maxFloat (b : Basic) : Rat :=
  match b with
  | .float32 | .complex64 => ((Nat.pow 2 128 - Nat.pow 2 103 : Nat) : Rat)
  | _ => ((Nat.pow 2 1024 - Nat.pow 2 970 : Nat) : Rat)

def fits (limit q : Rat) : Bool := q < limit && -limit < q

/-- The value as a constant of a basic type, if it can be one. -/
def represent? (b : Basic) (v : Value) : Option Value :=
  match v with
  | .bool _ => if b.isBoolean then some v else none
  | .text _ => if b.isString then some v else none
  | v =>
    if b.isInteger then do
      let n ← v.toInt?
      let some (lo, hi) := b.range? | some (.int n)
      if lo ≤ n && n ≤ hi then some (.int n) else none
    else if b.isFloat then do
      let q ← v.toRat?
      if b == .untypedFloat || fits (maxFloat b) q then some (ofRat q) else none
    else if b.isComplex then do
      let (re, im) ← parts? v
      if b == .untypedComplex || (fits (maxFloat b) re && fits (maxFloat b) im) then
        some (ofComplex re im)
      else none
    else none

end Value

end FaultRepair.Typing
