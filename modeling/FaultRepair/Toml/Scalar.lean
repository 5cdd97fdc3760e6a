/-
# TOML scalars

The texts of strings, numbers and moments. Every reader takes the text from its first
character on and gives the value with what follows it.
-/

import FaultRepair.Number.Integer
import FaultRepair.Number.Binary64
import FaultRepair.Toml.Builder

namespace FaultRepair.Toml

open Text

open Number Text

def isBlank (b : UInt8) : Bool := b == 32 || b == 9

def isKeyByte (b : UInt8) : Bool := isAlpha b || isDigit b || b == byte '_' || b == byte '-'

def hexNumber? (digits : Text) : Option Nat :=
  if digits.all isHexDigit then some (digits.foldl (fun n b => n * 16 + hexValue b) 0)
  else none

/-- The character a numeric escape names; surrogates are none. -/
def codePoint? (width : Nat) (t : Text) : Option (Text × Text) := do
  let digits := t.take width
  if digits.length < width then none
  let n ← hexNumber? digits
  if (0xD800 ≤ n && n < 0xE000) || n > maxRune then none
  some (ofRune n, t.drop width)

/-- What an escape stands for, read after its backslash. -/
def escape? : Text → Option (Text × Text)
  | [] => none
  | b :: rest =>
    match Char.ofNat b.toNat with
    | 'b' => some ([8], rest)
    | 't' => some ([9], rest)
    | 'n' => some ([10], rest)
    | 'f' => some ([12], rest)
    | 'r' => some ([13], rest)
    | '"' => some ([34], rest)
    | '\\' => some ([92], rest)
    | 'u' => codePoint? 4 rest
    | 'U' => codePoint? 8 rest
    | _ => none

/-- The rest of a string on one line, with escapes. -/
def basicFrom : Nat → Text → Text → Option (Text × Text)
  | 0, _, _ => none
  | fuel + 1, acc, t =>
    match t with
    | [] => none
    | 34 :: rest => some (acc.reverse, rest)
    | 92 :: rest => do
      let (c, rest) ← escape? rest
      basicFrom fuel (c.reverse ++ acc) rest
    | b :: rest => if b == 10 then none else basicFrom fuel (b :: acc) rest

/-- The rest of a string on one line, as it stands. -/
def literalFrom : Text → Text → Option (Text × Text)
  | _, [] => none
  | acc, b :: rest =>
    if b == 39 then some (acc.reverse, rest)
    else if b == 10 then none
    else literalFrom (b :: acc) rest

variable (t : Text)

/-- A backslash at the end of a line takes the white space up to the next text. -/
def lineJoin? : Option Text :=
  let blank (b : UInt8) : Bool := isBlank b || b == 10 || b == 13
  if (t.takeWhile blank).any (· == 10) then some (t.dropWhile blank) else none

/-- The end of a string over several lines: three quotes close it, and one or two more
in front of them belong to it. -/
def closing? (mark : UInt8) (acc t : Text) : Option (Option (Text × Text)) :=
  let run := (t.takeWhile (· == mark)).length
  if run < 3 then none
  else if run > 5 then some none
  else some (some ((List.replicate (run - 3) mark ++ acc).reverse, t.drop run))

def multiBasicFrom : Nat → Text → Text → Option (Text × Text)
  | 0, _, _ => none
  | fuel + 1, acc, t =>
    match t with
    | [] => none
    | b :: rest =>
      if b == 34 then (closing? 34 acc t).getD (multiBasicFrom fuel (b :: acc) rest)
      else if b == 92 then
        match lineJoin? rest with
        | some rest => multiBasicFrom fuel acc rest
        | none => do
          let (c, rest) ← escape? rest
          multiBasicFrom fuel (c.reverse ++ acc) rest
      else multiBasicFrom fuel (b :: acc) rest

def multiLiteralFrom : Text → Text → Option (Text × Text)
  | _, [] => none
  | acc, b :: rest =>
    if b == 39 then (closing? 39 acc (b :: rest)).getD (multiLiteralFrom (b :: acc) rest)
    else multiLiteralFrom (b :: acc) rest

/-- A line end right after the opening quotes does not belong to the string. -/
def dropFirstLineEnd : Text → Text
  | 10 :: rest | 13 :: 10 :: rest => rest
  | t => t

def lineString? : Text → Option (Text × Text)
  | 34 :: rest => basicFrom (rest.length + 1) [] rest
  | 39 :: rest => literalFrom [] rest
  | _ => none

def string? : Option (Text × Text) :=
  match t with
  | 34 :: 34 :: 34 :: rest => multiBasicFrom (rest.length + 1) [] (dropFirstLineEnd rest)
  | 39 :: 39 :: 39 :: rest => multiLiteralFrom [] (dropFirstLineEnd rest)
  | _ => lineString? t

def underscoresBetweenDigits : Text → Bool := go false
where
  go (afterDigit : Bool) : Text → Bool
    | [] => true
    | [b] => b != byte '_'
    | b :: c :: rest =>
      if b == byte '_' then afterDigit && isHexDigit c && go false (c :: rest)
      else go (isHexDigit b) (c :: rest)

def isSign (b : UInt8) : Bool := b == byte '+' || b == byte '-'

def withoutSign : Text := if t.head?.any isSign then t.drop 1 else t

def hasLeadingZero : Bool :=
  match withoutSign t with
  | 48 :: b :: _ => isDigit b || b == byte '_'
  | _ => false

def integer? : Option Value := do
  if !underscoresBetweenDigits (withoutSign t) || hasLeadingZero t then none
  let .ok n := literal t | none
  some (.integer n)

def isDigits : Bool :=
  !t.isEmpty && t.all (fun b => isDigit b || b == byte '_') && underscoresBetweenDigits t

/-- A number with a fraction or an exponent, from its whole text. -/
def float? : Option Value := do
  let body := withoutSign t
  let negative := t.head? == some (byte '-')
  if body == ofString "inf" || body == ofString "nan" then return .float t
  let (mantissa, exponent) :=
    match body.span fun b => lowerByte b != byte 'e' with
    | (m, _ :: e) => (m, some e)
    | (m, []) => (m, none)
  let (whole, fraction) :=
    match cutAt? (byte '.') mantissa with
    | some (w, f) => (w, some f)
    | none => (mantissa, none)
  if !isDigits whole || hasLeadingZero whole then none
  if !(fraction.all isDigits && exponent.all fun e => isDigits (withoutSign e)) then none
  if fraction.isNone && exponent.isNone then none
  let plain (d : Text) : Text := d.filter (· != byte '_')
  let frac := plain (fraction.getD [])
  let digits ← (plain whole ++ frac).toNat?
  let size := (plain (withoutSign (exponent.getD []))).toNat?.getD 0
  let e : Int := if (exponent.bind (·.head?)) == some (byte '-') then -(size : Int) else size
  if (Binary64.ofDecimal negative digits (e - frac.length)).isInf then none
  some (.float t)

def two? : Text → Option (Nat × Text)
  | a :: b :: rest => (toNat? [a, b]).map (·, rest)
  | _ => none

def isLeap (y : Nat) : Bool := y % 4 == 0 && (y % 100 != 0 || y % 400 == 0)

def daysIn (year month : Nat) : Nat :=
  if month == 2 then (if isLeap year then 29 else 28)
  else if month == 4 || month == 6 || month == 9 || month == 11 then 30
  else 31

def day? : Option Text := do
  let year ← toNat? (t.take 4)
  if (t.take 4).length < 4 then none
  let rest ← dropLead? "-" (t.drop 4)
  let (month, rest) ← two? rest
  let rest ← dropLead? "-" rest
  let (day, rest) ← two? rest
  if month == 0 || month > 12 || day == 0 || day > daysIn year month then none
  some rest

def timeOfDay? : Option Text := do
  let digits := (t.take 2).takeWhile isDigit
  let hour ← toNat? digits
  let rest ← dropLead? ":" (t.drop digits.length)
  let (minute, rest) ← two? rest
  let rest ← dropLead? ":" rest
  let (second, rest) ← two? rest
  if hour > 23 || minute > 59 || second > 59 then none
  let 46 :: more := rest | some rest
  let fraction := more.takeWhile isDigit
  if fraction.isEmpty then none else some (more.drop fraction.length)

def isZone : Bool :=
  t == [90] || t.head?.any isSign && ((do
    let (h, rest) ← two? (t.drop 1)
    let (m, rest) ← two? (← dropLead? ":" rest)
    some (h ≤ 24 && m ≤ 60 && rest.isEmpty)) : Option Bool).getD false

/-- A moment from its whole text: a day, a time, or both with an optional zone. -/
def moment? : Option Value :=
  let t := t.map fun b =>
    if b == 32 || b == byte 't' then byte 'T' else if b == byte 'z' then byte 'Z' else b
  let stands : Bool := match day? t with
    | some [] => true
    | some (84 :: rest) => (timeOfDay? rest).any fun zone => zone.isEmpty || isZone zone
    | some _ => false
    | none => timeOfDay? t == some []
  if stands then some (.moment t) else none

def isMomentByte (b : UInt8) : Bool :=
  isDigit b || ("-:TtZz.+ ".toUTF8.data.toList).contains b

def trimBlanks : Text := (t.reverse.dropWhile isBlank).reverse

/-- A number or a moment, from its first digit or sign. -/
def number? : Option (Value × Text) :=
  let digits := t.takeWhile isDigit
  let next := (t.drop digits.length).head?
  if !digits.isEmpty && (next == some (byte '-') || next == some (byte ':')) then
    let raw := t.takeWhile isMomentByte
    (moment? (trimBlanks raw)).map fun v => (v, t.drop raw.length)
  else
    let sign := t.head?.any isSign
    let body := if sign then t.drop 1 else t
    let lead := if sign then t.take 1 else []
    let based := !sign && body.head? == some 48 &&
      body[1]?.any fun x => x == byte 'x' || x == byte 'o' || x == byte 'b'
    let raw :=
      if based then body.takeWhile fun b => isHexDigit b || isAlpha b || b == byte '_'
      else body.takeWhile fun b =>
        isDigit b || isAlpha b || b == byte '_' || b == byte '.' || isSign b
    let whole := lead ++ raw
    let plain := based || raw.all fun b => isDigit b || b == byte '_'
    (if plain then integer? whole else float? whole).map fun v => (v, body.drop raw.length)

end FaultRepair.Toml
