/-
# Reading TOML

From the bytes of a file to its table. A file is refused as a whole: no setting of a
file with a mistake is used.
-/

import FaultRepair.Toml.Scalar

namespace FaultRepair.Toml

open Text

def skipBlanks (t : Text) : Text := t.dropWhile isBlank

def skipComment (t : Text) : Text :=
  if t.head? == some (byte '#') then t.dropWhile (· != 10) else t

def isSpaceOrEnd (b : UInt8) : Bool := isBlank b || b == 10 || b == 13

def skipLines : Nat → Text → Text
  | 0, t => t
  | fuel + 1, t =>
    let t := t.dropWhile isSpaceOrEnd
    if t.head? == some (byte '#') then skipLines fuel (skipComment t) else t

def keyPart? (t : Text) : Option (Text × Text) :=
  match t.head? with
  | some 34 | some 39 => lineString? t
  | _ =>
    let name := t.takeWhile isKeyByte
    if name.isEmpty then none else some (name, t.drop name.length)

/-- A dotted key; blanks may stand around its dots. -/
def key? : Nat → Text → Option (List Text × Text)
  | 0, _ => none
  | fuel + 1, t => do
    let (part, rest) ← keyPart? (skipBlanks t)
    let rest := skipBlanks rest
    let 46 :: rest := rest | some ([part], rest)
    let (parts, rest) ← key? fuel rest
    some (part :: parts, rest)

/-- The rules that the readers of nested values share. -/
structure Rules where
  value? : Text → Option (Value × Text)

/-- The items of a list after its bracket or a comma. -/
def itemsFrom (rules : Rules) : Nat → List Value → Text → Option (Value × Text)
  | 0, _, _ => none
  | fuel + 1, acc, t => do
    let t := skipLines t.length t
    if t.head? == some (byte ']') then return (.array acc.reverse, t.drop 1)
    let (v, rest) ← rules.value? t
    match skipLines rest.length rest with
    | 44 :: rest => itemsFrom rules fuel (v :: acc) rest
    | 93 :: rest => some (.array (v :: acc).reverse, rest)
    | _ => none

/-- The entries of an inline table, which stands on one line and has no comma after its
last entry. -/
def entriesFrom (rules : Rules) : Nat → Builder → Text → Option (Value × Text)
  | 0, _, _ => none
  | fuel + 1, b, t => do
    let (key, 61 :: rest) ← key? t.length t | none
    let (v, rest) ← rules.value? (skipBlanks rest)
    let b ← b.assign? key v
    match skipBlanks rest with
    | 44 :: rest => entriesFrom rules fuel b rest
    | 125 :: rest => some (.table b.root, rest)
    | _ => none

/-- Words stand for truth values and for numbers that are none. -/
def word? (t : Text) : Option (Value × Text) :=
  let word := t.takeWhile isAlpha
  let rest := t.drop word.length
  if word == ofString "true" then some (.boolean true, rest)
  else if word == ofString "false" then some (.boolean false, rest)
  else if word == ofString "inf" || word == ofString "nan" then some (.float word, rest)
  else none

def valueOfDepth : Nat → Text → Option (Value × Text)
  | 0, _ => none
  | depth + 1, t =>
    let rules : Rules := ⟨valueOfDepth depth⟩
    match t with
    | [] => none
    | b :: rest =>
      if b == 34 || b == 39 then (string? t).map fun (s, rest) => (.string s, rest)
      else if b == byte '[' then itemsFrom rules (rest.length + 1) [] rest
      else if b == 123 then
        match skipBlanks rest with
        | 125 :: rest => some (.table [], rest)
        | rest => entriesFrom rules (rest.length + 1) {} rest
      else if isDigit b || b == byte '+' || b == byte '-' then number? t
      else word? t

/-- What may follow a header or a binding on its line. -/
def lineEnd? (t : Text) : Option Text :=
  match skipComment (skipBlanks t) with
  | [] => some []
  | 10 :: rest | 13 :: 10 :: rest => some rest
  | _ => none

def linesFrom : Nat → Builder → Text → Option Builder
  | 0, b, t => if (skipLines t.length t).isEmpty then some b else none
  | fuel + 1, b, t => do
    let t := skipLines t.length t
    if t.isEmpty then return b
    let (b, rest) ← match t with
      | 91 :: 91 :: rest => do
        let (key, 93 :: 93 :: rest) ← key? rest.length rest | none
        pure (← b.openListed? key, rest)
      | 91 :: rest => do
        let (key, 93 :: rest) ← key? rest.length rest | none
        pure (← b.openTable? key, rest)
      | _ => do
        let (key, 61 :: rest) ← key? t.length t | none
        let rest := skipBlanks rest
        let (v, rest) ← valueOfDepth rest.length rest
        pure (← b.assign? key v, rest)
    linesFrom fuel b (← lineEnd? rest)

/-- A byte order mark in front of the text is passed over. -/
def withoutMark : Text → Text
  | 0xEF :: 0xBB :: 0xBF :: rest | 0xFF :: 0xFE :: rest | 0xFE :: 0xFF :: rest => rest
  | t => t

/-- A carriage return is allowed only in front of a line end. -/
def returnsStand : Text → Bool
  | [] => true
  | 13 :: rest => rest.head? == some 10 && returnsStand rest
  | _ :: rest => returnsStand rest

def isForbidden (b : UInt8) : Bool := (b < 32 && b != 9 && b != 10 && b != 13) || b == 127

/-- The table that a file spells out; `none` if it has a mistake. -/
def read? (source : Text) : Option Table :=
  let t := withoutMark source
  if t.any isForbidden || !returnsStand t || !isUtf8 t then none
  else (linesFrom (t.length + 1) {} t).map (·.root)

end FaultRepair.Toml
