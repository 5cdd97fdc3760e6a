/-
# Environment files

A file of variables, one per line: `NAME=value` or `NAME: value`, with an optional
`export` in front. Values may be quoted; the ones without quotes end at a comment, and
dollar signs name variables that the file has set before.
-/

import FaultRepair.Config.Environment

namespace FaultRepair.Config.EnvFile

open Text

def isInnerSpace (r : Text.Rune) : Bool :=
  r == 9 || r == 11 || r == 12 || r == 13 || r == 32 || r == 0x85 || r == 0xA0

def normalise : Text → Text
  | 13 :: 10 :: rest => 10 :: normalise rest
  | b :: rest => b :: normalise rest
  | [] => []

def dropRunes (p : Text.Rune → Bool) (t : Text) : Text :=
  (((readings t).dropWhile fun g => p g.rune).map (·.raw)).flatten

/-- The next statement; comments and empty lines are passed over. -/
def statement? : Nat → Text → Option Text
  | 0, _ => none
  | fuel + 1, t =>
    match dropRunes isSpaceRune t with
    | [] => none
    | b :: rest =>
      if b != byte '#' then some (b :: rest)
      else statement? fuel (rest.dropWhile (· != 10))

/-- An optional `export` in front of a name. -/
def withoutExport (t : Text) : Text :=
  match dropLead? "export" t with
  | some rest =>
    match readings rest with
    | g :: _ => if isInnerSpace g.rune then dropRunes isInnerSpace rest else t
    | [] => t
  | none => t

/-- A byte that stands for a number when it is taken for a character. -/
def isNumberByte (b : UInt8) : Bool :=
  isDigit b || b == 0xB2 || b == 0xB3 || b == 0xB9 || (0xBC ≤ b && b ≤ 0xBE)

/-- The bytes of a name up to its sign; `none` if a byte cannot stand in a name.
Without a sign the name is empty and all of the text is the value. -/
def nameEnd? (whole : Text) (acc : Text) : Text → Option (Text × Text)
  | [] => some ([], whole)
  | b :: rest =>
    if isInnerSpace b.toNat then nameEnd? whole (b :: acc) rest
    else if b == byte '=' || b == byte ':' then some (acc.reverse, rest)
    else if b == byte '_' || b == byte '.' || isLetterRune b.toNat
        || isNumberByte b then nameEnd? whole (b :: acc) rest
    else none

def isReferenceByte (b : UInt8) : Bool :=
  (65 ≤ b && b ≤ 90) || isDigit b || b == byte '_'

/-- References replaced by values. A reference behind a backslash stands for itself. -/
def expand (vars : Variables) : Nat → Text → Text
  | 0, t => t
  | fuel + 1, t =>
    match t with
    | [] => []
    | b :: rest =>
      let escaped := b == 92 && rest.head? == some 36
      if b != 36 && !escaped then b :: expand vars fuel rest
      else
        let body := if escaped then rest.drop 1 else rest
        let paren := body.head? == some (byte '(')
        let inner := if paren then body.drop 1 else body
        let inner := if inner.head? == some 123 then inner.drop 1 else inner
        let name := inner.takeWhile isReferenceByte
        let after := inner.drop name.length
        let after := if after.head? == some 125 then after.drop 1 else after
        let whole := t.take (t.length - after.length)
        let shown :=
          if escaped then whole.drop 1
          else if !name.isEmpty then (vars.get? name).getD []
          else whole
        shown ++ expand vars fuel after

/-- Escapes of a quoted value: line ends are spelled out, and a backslash in front of
anything but a dollar sign goes. -/
def unescape (t : Text) : Text := second (first t)
where
  first : Text → Text
    | 92 :: c :: rest =>
      if c == byte 'n' then 10 :: first rest
      else if c == byte 'r' then 13 :: first rest
      else if c == 10 then 92 :: first (c :: rest)
      else 92 :: c :: first rest
    | b :: rest => b :: first rest
    | [] => []
  second : Text → Text
    | 92 :: c :: rest => if c == 36 then 92 :: second (c :: rest) else c :: second rest
    | b :: rest => b :: second rest
    | [] => []

/-- The end of a quoted value: the next quote without a backslash in front. -/
def quotedEnd? (mark : UInt8) (previous : UInt8) (acc : Text) : Text → Option (Text × Text)
  | [] => none
  | b :: rest =>
    if b == mark && previous != 92 then some (acc.reverse, rest)
    else quotedEnd? mark b (b :: acc) rest

def withoutComment (line : List Text.Reading) : List Text.Reading :=
  let cut := (line.zipIdx.reverse.find? fun (g, i) =>
    g.rune == 35 && i > 0 && ((line.getD (i - 1) default).rune |> isInnerSpace))
  match cut with
  | some (_, i) => line.take i
  | none => line

def value? (vars : Variables) (t : Text) : Option (Text × Text) :=
  match t with
  | [] => some ([], [])
  | b :: rest =>
    if b == 34 || b == 39 then do
      let (inner, rest) ← quotedEnd? b b [] rest
      let trimmed := ((inner.dropWhile (· == b)).reverse.dropWhile (· == b)).reverse
      let v := if b == 34 then
          let u := unescape trimmed
          expand vars u.length u
        else trimmed
      some (v, rest)
    else
      let line := t.takeWhile fun b => b != 10 && b != 13
      let kept := withoutComment (readings line)
      let strip := List.dropWhile fun (g : Text.Reading) => isInnerSpace g.rune
      let trimmed := (strip (strip kept).reverse).reverse
      let v : Text := trimmed.flatMap fun g => ofRune g.rune
      some (expand vars v.length v, t.drop line.length)

/-- The variables of a file from the given statement on; the latest value of a name
comes first. -/
def statements? : Nat → Variables → Text → Option Variables
  | 0, vars, _ => some vars
  | fuel + 1, vars, t =>
    match statement? (t.length + 1) t with
    | none => some vars
    | some t => do
      let t := withoutExport (dropRunes isInnerSpace t)
      let (name, rest) ← nameEnd? t [] t
      let (v, rest) ← value? vars (dropRunes isInnerSpace rest)
      statements? fuel ((trimSpaceRight name, v) :: vars) rest

/-- The variables that a file sets; `none` if it has a mistake. A variable that is set
more than once has its last value. -/
def read? (source : Text) : Option Variables :=
  let t := normalise source
  statements? (t.length + 1) [] t

end FaultRepair.Config.EnvFile
