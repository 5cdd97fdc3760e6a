/-
# The meaning of scalars

A scalar without quotes and without a tag may be a number, a truth value, nothing, a
moment in time, or text; its spelling decides.
-/

import FaultRepair.Text.Base64
import FaultRepair.Number.Integer
import FaultRepair.Number.FloatText
import FaultRepair.Yaml.Node

namespace FaultRepair.Yaml

open Number Text

inductive Meaning where
  | null
  | boolean (b : Bool)
  | integer (n : Int)
  | float (x : Binary64)
  | moment
  | text (t : Text)

variable (t : Text)

def shortTag : Text :=
  match dropLead? "tag:yaml.org,2002:" t with
  | some rest => "!!" ++ rest
  | none => t

def oneOf (words : List String) : Bool := words.any fun w => ofString w == t

def word? : Option Meaning :=
  if oneOf t ["true", "True", "TRUE"] then some (.boolean true)
  else if oneOf t ["false", "False", "FALSE"] then some (.boolean false)
  else if oneOf t ["", "~", "null", "Null", "NULL"] then some .null
  else if oneOf t [".nan", ".NaN", ".NAN"] then some (.float Binary64.nan)
  else if oneOf t [".inf", ".Inf", ".INF", "+.inf", "+.Inf", "+.INF"] then
    some (.float (Binary64.inf false))
  else if oneOf t ["-.inf", "-.Inf", "-.INF"] then some (.float (Binary64.inf true))
  else none

def short? : Option (Nat × Text) :=
  let ds := (t.take 2).takeWhile isDigit
  (toNat? ds).map fun n => (n, t.drop ds.length)

def dropByte? (b : UInt8) : Text → Option Text
  | c :: rest => if b == c then some rest else none
  | [] => none

def lengthOfMonth (year month : Nat) : Nat :=
  if month == 2 then (if year % 4 == 0 && (year % 100 != 0 || year % 400 == 0) then 29 else 28)
  else if month == 4 || month == 6 || month == 9 || month == 11 then 30
  else 31

def clock? : Option Text := do
  let (hour, rest) ← short? t
  let (minute, rest) ← short? (← dropByte? (byte ':') rest)
  let (second, rest) ← short? (← dropByte? (byte ':') rest)
  if hour > 23 || minute > 59 || second > 59 then none
  match rest with
  | p :: d :: _ =>
    if (p == byte '.' || p == byte ',') && isDigit d then some ((rest.drop 1).dropWhile isDigit)
    else some rest
  | _ => some rest

def isZone : Bool :=
  match t with
  | [90] => true
  | [s, a, b, 58, c, d] =>
    (s == byte '+' || s == byte '-') &&
      (match toNat? [a, b], toNat? [c, d] with
        | some h, some m => h ≤ 24 && m ≤ 60
        | _, _ => false)
  | _ => false

/-- Is the text a day, with or without a time of day? -/
def isMoment : Bool :=
  let found : Option Bool := do
    let year := t.takeWhile isDigit
    if year.length != 4 then none
    let y ← toNat? year
    let (month, rest) ← short? (← dropByte? (byte '-') (t.drop 4))
    let (day, rest) ← short? (← dropByte? (byte '-') rest)
    if month == 0 || month > 12 || day == 0 || day > lengthOfMonth y month then none
    match rest with
    | [] => some true
    | sep :: rest =>
      let rest ← clock? rest
      if sep == byte 'T' || sep == byte 't' then some (isZone rest)
      else if sep == 32 then some rest.isEmpty
      else none
  found.getD false

def isDecimalForm : Bool :=
  let body := match t with
    | b :: rest => if b == byte '+' || b == byte '-' then rest else t
    | [] => []
  (match body with
    | 46 :: d :: _ => isDigit d
    | d :: _ => isDigit d
    | [] => false)

/-- The integer that a text of digits names, if it fits 64 bits with or without a sign. -/
def integer? (plain : Text) : Option Int :=
  match literal plain with
  | .ok n => some n
  | .error .range =>
    match plain.head? with
    | some b => if isDigit b then unsigned? plain else none
    | none => none
  | .error .form => none
where
  /-- A number between `2 ^ 63` and `2 ^ 64`. -/
  unsigned? (t : Text) : Option Int :=
    let hex := startsWith (lower t) "0x"
    let octal := startsWith (lower t) "0o"
    let binary := startsWith (lower t) "0b"
    let base :=
      if hex then 16 else if octal then 8 else if binary then 2
      else if t.head? == some 48 then 8 else 10
    let digits := if hex || octal || binary then t.drop 2 else t
    let n := digits.foldl (fun (acc : Option Nat) b => acc.bind fun n =>
      if hexValue b < base then some (n * base + hexValue b) else none) (some 0)
    n.bind fun n => if n < 0x10000000000000000 then some (n : Int) else none

def underscoresFit : Text → Bool := go false
where
  go (afterDigit : Bool) : Text → Bool
    | [] => true
    | [b] => b != byte '_'
    | b :: c :: rest =>
      if b == byte '_' then afterDigit && isDigit c && go false (c :: rest)
      else go (isDigit b) (c :: rest)

/-- What a scalar without quotes means by its spelling. Moments are only recognised
where nothing else is asked for. -/
def meaningOf (moments : Bool) (t : Text) : Meaning :=
  let numeric (b : UInt8) : Bool := isDigit b || b == byte '+' || b == byte '-'
  let hinted := match t.head? with
    | none => true
    | some b => numeric b || b == byte '.' || "yYnNtTfFoO~".toUTF8.data.toList.contains b
  if !hinted then .text t
  else
    match word? t with
    | some m => m
    | none =>
      let plain := t.filter (· != byte '_')
      match t.head? with
      | some 46 =>
        if underscoresFit t then
          match Binary64.parse? plain with
          | some x => .float x
          | none => .text t
        else .text t
      | some b =>
        if !numeric b then .text t
        else if moments && isMoment t then .moment
        else
          match integer? plain with
          | some n => .integer n
          | none =>
            if isDecimalForm plain then
              match Binary64.parse? plain with
              | some x => .float x
              | none => .text t
            else .text t
      | none => .text t

/-- What a scalar node means; `none` if its tag does not fit its text. -/
def scalarMeaning? (tag value : Text) (style : Style) : Option Meaning :=
  let tag := if tag == ofString "!" then [] else shortTag tag
  if tag.isEmpty then
    if style != .plain then some (.text value) else some (meaningOf true value)
  else if tag == ofString "!!str" then some (.text value)
  else if tag == ofString "!!binary" then (Text.Base64.decode? value).map .text
  else
    match meaningOf (tag == ofString "!!timestamp") value with
    | .boolean b => if tag == ofString "!!bool" then some (.boolean b) else foreign tag
    | .integer n =>
      if tag == ofString "!!int" then some (.integer n)
      else if tag == ofString "!!float" then some (.float (Binary64.ofInt n))
      else foreign tag
    | .float x => if tag == ofString "!!float" then some (.float x) else foreign tag
    | .null => if tag == ofString "!!null" then some .null else foreign tag
    | .moment => if tag == ofString "!!timestamp" then some .moment else foreign tag
    | .text _ => foreign tag
where
  /-- Under a tag that says nothing about scalars the value is text. -/
  foreign (tag : Text) : Option Meaning :=
    if oneOf tag ["!!bool", "!!int", "!!float", "!!null", "!!timestamp"] then none
    else some (.text value)

end FaultRepair.Yaml
