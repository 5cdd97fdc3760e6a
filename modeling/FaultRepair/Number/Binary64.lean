/-
# Double-precision numbers

Binary floating-point numbers of 64 bits, with exact rounding, and their shortest
decimal texts. All arithmetic is that of natural numbers on the decoded parts.
-/

import FaultRepair.Text.Basic

namespace FaultRepair.Number

/-- A double-precision number, as its bits. -/
structure Binary64 where
  bits : UInt64
  deriving DecidableEq

namespace Binary64

def zero : Binary64 := ⟨0⟩

def infinityBits : Nat := 0x7FF0000000000000
def signBit : Nat := 0x8000000000000000
/-- The leading bit of a mantissa, `2 ^ 52`; it is not stored. -/
def hiddenBit : Nat := 0x10000000000000

variable (x : Binary64)

def isNegative : Bool := x.bits.toNat ≥ signBit

def magnitude : Nat := x.bits.toNat % signBit

def isNaN : Bool := x.magnitude > infinityBits
def isInf : Bool := x.magnitude == infinityBits

def inf (negative : Bool) : Binary64 :=
  ⟨(infinityBits + (if negative then signBit else 0)).toUInt64⟩

def nan : Binary64 := ⟨0x7FF8000000000001⟩

/-- The mantissa and the exponent of two of a finite number: it is `m · 2 ^ e` apart
from its sign. -/
def parts : Nat × Int :=
  let field : Nat := x.magnitude / hiddenBit
  let fraction : Nat := x.magnitude % hiddenBit
  if field == 0 then (fraction, -1074) else (fraction + hiddenBit, (field : Int) - 1075)

/-- The number with these parts. A mantissa of `2 ^ 53` carries into the exponent,
and a large exponent gives infinity. -/
def ofParts (negative : Bool) (m : Nat) (e : Int) : Binary64 :=
  let sign := if negative then signBit else 0
  let body :=
    if m < hiddenBit then m
    else
      let field := (e + 1075).toNat
      (field - 1) * hiddenBit + m
  ⟨(sign + min body infinityBits).toUInt64⟩

/-- The quotient rounded to the nearest integer, a half to the even one. -/
def roundDiv (n d : Nat) : Nat :=
  let q := n / d
  let r := n % d
  if 2 * r < d then q
  else if 2 * r > d then q + 1
  else if q % 2 == 0 then q else q + 1

def ofRatio (negative : Bool) (num den : Nat) : Binary64 :=
  if num == 0 || den == 0 then ofParts negative 0 0
  else
    let guess : Int := (num.log2 : Int) - (den.log2 : Int)
    let scaled (e : Int) : Nat × Nat :=
      match e with
      | .ofNat k => (num, den * Nat.pow 2 k)
      | .negSucc k => (num * Nat.pow 2 (k + 1), den)
    -- The exponent puts the quotient between 2 ^ 52 and 2 ^ 53, or at the least one.
    let e0 : Int := guess - 53
    let (a, b) := scaled e0
    let e1 := if a / b ≥ 2 * hiddenBit then e0 + 1 else e0
    let e := max e1 (-1074)
    let (a, b) := scaled e
    ofParts negative (roundDiv a b) e

/-- Is one number less than another? Nothing is less or greater than no number. -/
def lt (x y : Binary64) : Bool :=
  if x.isNaN || y.isNaN then false
  else
    let key (z : Binary64) : Int := if z.isNegative then -(z.magnitude : Int) else z.magnitude
    key x < key y

def half : Binary64 :=
  if x.isNaN || x.isInf then x
  else
    let (m, e) := x.parts
    match e - 1 with
    | .ofNat k => ofRatio x.isNegative (m * Nat.pow 2 k) 1
    | .negSucc k => ofRatio x.isNegative m (Nat.pow 2 (k + 1))

def ofDecimal (negative : Bool) (digits : Nat) (exponent : Int) : Binary64 :=
  -- Beyond these exponents the result is zero or infinite whatever the digits.
  if digits == 0 then ofParts negative 0 0
  else
    let size : Int := (Nat.toDigits 10 digits).length
    if exponent + size > 400 then inf negative
    else if exponent + size < -400 then ofParts negative 0 0
    else
      match exponent with
      | .ofNat k => ofRatio negative (digits * Nat.pow 10 k) 1
      | .negSucc k => ofRatio negative digits (Nat.pow 10 (k + 1))

/-- The fewest decimal digits that read back as a finite positive number, and where
the point stands: the number is `0.d₁d₂… · 10 ^ point`. Of several such decimals the
nearest is taken. -/
def shortest : List Nat × Int :=
  let (m, e) := x.parts
  if m == 0 then ([0], 1)
  else
    -- The value as a quotient.
    let (n, d) : Nat × Nat := match e with
      | .ofNat k => (m * Nat.pow 2 k, 1)
      | .negSucc k => (m, Nat.pow 2 (k + 1))
    let power (p : Int) : Nat × Nat := match p with
      | .ofNat k => (Nat.pow 10 k, 1)
      | .negSucc k => (1, Nat.pow 10 (k + 1))
    -- The least power of ten above the value.
    let estimate : Int := (((Nat.log2 n : Int) - (Nat.log2 d : Int)) * 30103) / 100000
    let fitsBelow (p : Int) : Bool :=
      let (a, b) := power p
      n * b < a * d
    let point :=
      if fitsBelow (estimate - 1) then estimate - 1
      else if fitsBelow estimate then estimate
      else if fitsBelow (estimate + 1) then estimate + 1
      else estimate + 2
    let positive : Binary64 := ⟨x.magnitude.toUInt64⟩
    let tryDigits (count : Nat) : Option Nat :=
      -- The value on the grid with this many digits, rounded down and up.
      let (a, b) := power ((count : Int) - point)
      let num := n * a
      let den := d * b
      let low := num / den
      let reads (v : Nat) : Bool := ofDecimal false v (point - count) == positive
      let nearest := roundDiv num den
      if reads nearest then some nearest
      else if reads low then some low
      else if reads (low + 1) then some (low + 1)
      else none
    let digits := ((List.range 17).findSome? fun i => tryDigits (i + 1)).getD 0
    let ds := (Nat.toDigits 10 digits).map fun c => c.toNat - 48
    let trimmed := (ds.reverse.dropWhile (· == 0)).reverse
    -- A carry to one digit more moves the point.
    let count := ((List.range 17).find? fun i => (tryDigits (i + 1)).isSome).getD 0 + 1
    (trimmed, point + ((ds.length : Int) - count))

end Binary64

end FaultRepair.Number
