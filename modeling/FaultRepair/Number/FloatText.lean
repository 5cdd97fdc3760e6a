/-
# Floating-point numbers as text

Numbers are written with the fewest digits that read back, or with a fixed number of
places, and are read from decimal text.
-/

import FaultRepair.Number.Binary64

namespace FaultRepair.Number.Binary64

open Text

def digitText (ds : List Nat) : Text := ds.map fun d => (48 + d).toUInt8

/-- The fewest digits that read back. Numbers of at least a million and numbers below
a ten-thousandth have an exponent, of at least two digits. -/
def render (x : Binary64) : Text :=
  if x.isNaN then "NaN"
  else if x.isInf then (if x.isNegative then "-Inf" else "+Inf")
  else
    let sign : Text := if x.isNegative then "-" else ""
    if x.magnitude == 0 then sign ++ "0"
    else
      let (ds, point) := x.shortest
      let exponent := point - 1
      if exponent < -4 || exponent ≥ 6 then
        let mantissa := digitText (ds.take 1) ++
          (if ds.length > 1 then ofString "." ++ digitText (ds.drop 1) else [])
        let size := padLeft 48 2 (ofNat exponent.natAbs)
        sign ++ mantissa ++ "e" ++ (if exponent < 0 then "-" else "+") ++ size
      else if point ≤ 0 then
        sign ++ "0." ++ List.replicate (-point).toNat 48 ++ digitText ds
      else
        let whole := ds.take point.toNat
        let zeros := List.replicate (point.toNat - ds.length) 48
        let fraction := ds.drop point.toNat
        sign ++ digitText whole ++ zeros ++
          (if fraction.isEmpty then [] else ofString "." ++ digitText fraction)

/-- The number with a fixed count of decimal places; a tie of the exact value goes to
the even neighbour. -/
def fixed (places : Nat) (x : Binary64) : Text :=
  if x.isNaN then "NaN"
  else if x.isInf then (if x.isNegative then "-Inf" else "+Inf")
  else
    let sign : Text := if x.isNegative then "-" else ""
    let (m, e) := x.parts
    let scaled : Nat := match e with
      | .ofNat k => m * Nat.pow 2 k * Nat.pow 10 places
      | .negSucc k => roundDiv (m * Nat.pow 10 places) (Nat.pow 2 (k + 1))
    let digits := padLeft 48 (places + 1) (ofNat scaled)
    let cut := digits.length - places
    sign ++ digits.take cut ++ (if places == 0 then [] else ofString "." ++ digits.drop cut)

/-- A run of digits; it may be empty. -/
def digitsOf (t : Text) : Text × Text := (t.takeWhile isDigit, t.dropWhile isDigit)

/-- The number that a decimal text names: a sign, digits with a point among them, and
an exponent. `none` if it is no such text or the number is too large. -/
def parse? (t : Text) : Option Binary64 := do
  let (negative, body) := match t with
    | 45 :: rest => (true, rest)
    | 43 :: rest => (false, rest)
    | _ => (false, t)
  let (whole, rest) := digitsOf body
  let (fraction, rest) := match rest with
    | 46 :: rest => digitsOf rest
    | _ => ([], rest)
  if whole.isEmpty && fraction.isEmpty then none
  let exponent ← match rest with
    | [] => some (0 : Int)
    | e :: rest =>
      if lowerByte e != byte 'e' then none
      else
        let (down, ds) := match rest with
          | 45 :: ds => (true, ds)
          | 43 :: ds => (false, ds)
          | _ => (false, rest)
        (toNat? ds).map fun n => if down then -(n : Int) else n
  let digits ← toNat? (whole ++ fraction)
  let x := ofDecimal negative digits (exponent - fraction.length)
  if x.isInf then none else some x

def ofInt (n : Int) : Binary64 := ofRatio (n < 0) n.natAbs 1

/-- The integer towards zero from a number that is not above `2 ^ 63`; one that does
not fit 64 bits gives the least integer. -/
def truncate? (x : Binary64) : Option Int :=
  if x.isNaN then none
  else if x.isInf then (if x.isNegative then some (-0x8000000000000000) else none)
  else
    let (m, e) := x.parts
    let size : Nat := match e with
      | .ofNat k => m * Nat.pow 2 k
      | .negSucc k => m / Nat.pow 2 (k + 1)
    let exact := match e with
      | .ofNat _ => true
      | .negSucc k => m % Nat.pow 2 (k + 1) == 0
    if x.isNegative then
      some (if size > 0x8000000000000000 then -0x8000000000000000 else -(size : Int))
    else if size > 0x8000000000000000 || (size == 0x8000000000000000 && !exact) then none
    else if size == 0x8000000000000000 then some (-0x8000000000000000)
    else some size

end FaultRepair.Number.Binary64
