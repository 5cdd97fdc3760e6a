/-
# Integers as text

Reading integers of 64 bits and truth values from text, with the reasons why a text is
refused. Digits are read from the left and reading stops at the first that cannot be
taken, so a number that is too large is reported even if something else follows it.
-/

import FaultRepair.Text.Quote

namespace FaultRepair.Number

open Text

inductive NumberFault where
  | form
  | range
  deriving DecidableEq

def NumberFault.message : NumberFault → Text
  | .form => "invalid syntax"
  | .range => "value out of range"

/-- The full wording: which reading failed, on what, and why. -/
def NumberFault.report (reading : Text) (input : Text) (f : NumberFault) : Text :=
  reading ++ ": parsing " ++ quote input ++ ": " ++ f.message

def digitValue? (b : UInt8) : Option Nat :=
  let l := lowerByte b
  if isDigit b then some (b.toNat - 48)
  else if 97 ≤ l && l ≤ 122 then some (l.toNat - 87)
  else none

/-- The value of digits in a base, below `2 ^ 64`; underscores are passed over if they
are allowed. -/
def magnitudeFrom (base : Nat) (underscores : Bool) (acc : Nat) :
    Text → Except NumberFault Nat
  | [] => .ok acc
  | b :: rest =>
    if underscores && b == byte '_' then magnitudeFrom base underscores acc rest
    else
      match digitValue? b with
      | none => .error .form
      | some d =>
        if d ≥ base then .error .form
        else if acc * base + d ≥ 0x10000000000000000 then .error .range
        else magnitudeFrom base underscores (acc * base + d) rest

def dropSign (t : Text) : Bool × Text :=
  match t with
  | b :: rest =>
    if b == byte '-' then (true, rest)
    else if b == byte '+' then (false, rest)
    else (false, t)
  | [] => (false, [])

def signed (negative : Bool) (n : Nat) : Except NumberFault Int :=
  if !negative && n ≥ 0x8000000000000000 then .error .range
  else if negative && n > 0x8000000000000000 then .error .range
  else .ok (if negative then -(n : Int) else n)

/-- A decimal integer of 64 bits with an optional sign. -/
def decimal (t : Text) : Except NumberFault Int := do
  let (negative, body) := dropSign t
  if body.isEmpty then throw .form
  let n ← magnitudeFrom 10 false 0 body
  signed negative n

/-- The base a literal announces, and the digits after the announcement. -/
def announcedBase (body : Text) : Nat × Text :=
  match body with
  | 48 :: rest =>
    match rest with
    | x :: digits =>
      if digits.isEmpty then (8, rest)
      else if lowerByte x == byte 'b' then (2, digits)
      else if lowerByte x == byte 'o' then (8, digits)
      else if lowerByte x == byte 'x' then (16, digits)
      else (8, rest)
    | [] => (8, [])
  | _ => (10, body)

/-- What an underscore stands after. -/
inductive Before where
  | start | digit | underscore | other
  deriving DecidableEq

def underscoresFrom (hex : Bool) (seen : Before) : Text → Bool
  | [] => seen != .underscore
  | b :: rest =>
    if isDigit b || (hex && isHexDigit b) then underscoresFrom hex .digit rest
    else if b == byte '_' then
      if seen != .digit then false else underscoresFrom hex .underscore rest
    else if seen == .underscore then false
    else underscoresFrom hex .other rest

/-- Does every underscore stand between digits? An announced base counts as one. -/
def underscoresStand (t : Text) : Bool :=
  let (_, body) := dropSign t
  match body with
  | 48 :: x :: rest =>
    let l := lowerByte x
    if l == byte 'b' || l == byte 'o' || l == byte 'x' then
      underscoresFrom (l == byte 'x') .digit rest
    else underscoresFrom false .start body
  | _ => underscoresFrom false .start body

/-- An integer of 64 bits as source code spells it: with a base announced by its first
characters, and with underscores between digits. -/
def literal (t : Text) : Except NumberFault Int := do
  let (negative, body) := dropSign t
  if body.isEmpty then throw .form
  let (base, digits) := announcedBase body
  let n ← magnitudeFrom base true 0 digits
  if t.any (· == byte '_') && !underscoresStand t then throw .form
  signed negative n

/-- A truth value; several spellings are known. -/
def truth (t : Text) : Except NumberFault Bool :=
  if (["1", "t", "T", "TRUE", "true", "True"].map ofString).contains t then .ok true
  else if (["0", "f", "F", "FALSE", "false", "False"].map ofString).contains t then .ok false
  else .error .form

end FaultRepair.Number
