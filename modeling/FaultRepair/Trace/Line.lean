/-
# Lines of traces

Qualified names of functions, with the one segment of them that names a candidate, and the forms of
lines that carry information: headers and locations of frames, and headers, functions and locations
in the stacks of goroutines. Only white space may have line feeds in it.
-/

import FaultRepair.Text.Rune

namespace FaultRepair.Trace

open Text

/-- Which segment of a symbol is used. -/
inductive Convention where
  | first | last

def isLowerHex (b : UInt8) : Bool := Text.isDigit b || (97 ≤ b && b ≤ 102)

/-- A symbol without the hash that some compilers append to it. -/
def withoutHash (s : Text) : Text :=
  let hash := s.drop (s.length - 19)
  if s.length ≥ 19 && hash.take 3 == Text.ofString "::h" && (hash.drop 3).all isLowerHex then
    s.take (s.length - 19)
  else s

/-- The text without the marks of type arguments, which stand as `[...]`. -/
def withoutTypeArgs : Text → Text
  | 91 :: 46 :: 46 :: 46 :: 93 :: rest => withoutTypeArgs rest
  | b :: rest => b :: withoutTypeArgs rest
  | [] => []

def splitColons (s : Text) : List Text := go [] s
where
  go (acc : Text) : Text → List Text
    | 58 :: 58 :: rest => acc.reverse :: go [] rest
    | b :: rest => go (b :: acc) rest
    | [] => [acc.reverse]

def isDecoration (b : UInt8) : Bool :=
  b == 40 || b == 42 || b == 41 || b == 60 || b == 62 || b == 32

def stripDecoration (s : Text) : Text :=
  ((s.dropWhile isDecoration).reverse.dropWhile isDecoration).reverse

/-- The segment of a symbol that names a candidate. Symbols are taken apart at double
colons if there are any; else at dots, after the last slash. -/
def identOf (c : Convention) (symbol : Text) : Text :=
  let s := withoutTypeArgs (withoutHash (Text.trimSpace symbol))
  let (s, parts) :=
    if s.contains "::" then (s, splitColons s)
    else
      let s := match Text.cutLastAt? 47 s with
        | some (_, rest) => rest
        | none => s
      (s, Text.splitAt 46 s)
  let segments := (parts.map stripDecoration).filter (!·.isEmpty)
  match c with
  | .first => segments.head?.getD s
  | .last => segments.getLast?.getD s

def isBlank (b : UInt8) : Bool := b == 9 || b == 10 || b == 12 || b == 13 || b == 32

def trimEnd (t : Text) : Text := (t.reverse.dropWhile isBlank).reverse

/-- A run of digits at the start, at least one, and the rest. -/
def digits? (t : Text) : Option (Text × Text) :=
  let ds := t.takeWhile isDigit
  if ds.isEmpty then none else some (ds, t.dropWhile isDigit)

/-- The number that digits write, if it fits into 64 bits with a sign. -/
def number? (ds : Text) : Option Int :=
  (toNat? ds).bind fun n => if n < 0x8000000000000000 then some (n : Int) else none

variable (line : Text)

def hasLineFeed (t : Text) : Bool := t.any (· == 10)

/-- A header: depth, address and symbol. White space after the symbol is dropped,
but the symbol keeps at least one character. -/
def header? : Option (Text × Text) := do
  let (depth, rest) ← digits? (line.dropWhile isBlank)
  let rest ← dropLead? ":" rest
  if (rest.takeWhile isBlank).isEmpty then none
  let rest ← dropLead? "0x" (rest.dropWhile isBlank)
  if (rest.takeWhile isHexDigit).isEmpty then none
  let rest ← dropLead? " - " (rest.dropWhile isHexDigit)
  let symbol := if (trimEnd rest).isEmpty then rest.take 1 else trimEnd rest
  if symbol.isEmpty || hasLineFeed symbol then none
  some (depth, symbol)

/-- Digits at the end, after a colon, and what stands before it. The text is given
backwards. -/
def colonDigits? (back : Text) : Option (Text × Text) := do
  let ds := back.takeWhile isDigit
  if ds.isEmpty then none
  match back.dropWhile isDigit with
  | 58 :: rest => some (ds.reverse, rest)
  | _ => none

def rooted? (path : Text) : Option Text :=
  match path with
  | 47 :: _ :: _ => if hasLineFeed path then none else some path
  | _ => none

/-- The location of a frame: path, line and column. -/
def location? : Option (Text × Text × Text) := do
  let rest ← dropLead? "at " (line.dropWhile isBlank)
  let back := (rest.reverse.dropWhile isBlank)
  let (col, back) ← colonDigits? back
  let (num, back) ← colonDigits? back
  let path ← rooted? back.reverse
  some (path, num, col)

def isGoroutine : Bool :=
  match (dropLead? "goroutine " (trimEnd line)).bind digits? with
  | some (_, rest) =>
    match dropLead? " [" rest with
    | some rest => rest.endsWith "]:" && !hasLineFeed rest
    | none => false
  | none => false

/-- Is this nothing, or the remark that names the creating goroutine? -/
def isCreator (t : Text) : Bool :=
  match t with
  | [] => true
  | 32 :: _ =>
    match (dropLead? " in goroutine " t).bind digits? with
    | some (_, []) => true
    | _ => false
  | _ => false

def isParen (b : UInt8) : Bool := b == 40 || b == 41

/-- Is this what may follow the name of a function: arguments, and the remark on its
creation? -/
def isCallEnd (t : Text) : Bool :=
  match t with
  | 40 :: rest =>
    match rest.dropWhile (!isParen ·) with
    | 41 :: rest => isCreator rest
    | _ => false
  | t => isCreator t

def untilCallEnd (acc : Text) : Text → Option Text
  | [] => some acc.reverse
  | b :: rest =>
    if isCallEnd (b :: rest) then some acc.reverse
    else if b == 10 then none
    else untilCallEnd (b :: acc) rest

def startsInk : Text → Bool
  | [] => false
  | b :: _ => !isBlank b

def function? : Option Text :=
  let line := trimEnd line
  let body := match dropLead? "created by " line with
    | some rest => if startsInk rest then rest else line
    | none => line
  if startsInk body then
    let n := (firstRune body).2
    untilCallEnd (body.take n).reverse (body.drop n)
  else none

/-- The offset that may end a location, taken off. The text is given backwards. -/
def withoutOffset (back : Text) : Text :=
  let ds := back.takeWhile isHexDigit
  match back.dropWhile isHexDigit with
  | 120 :: 48 :: 43 :: 32 :: rest => if ds.isEmpty then back else rest
  | _ => back

def stackLocation? : Option (Text × Text) := do
  if (line.takeWhile isBlank).isEmpty then none
  let back := (line.dropWhile isBlank).reverse.dropWhile isBlank
  let (num, back) ← colonDigits? (withoutOffset back)
  let path ← rooted? back.reverse
  some (path, num)

end FaultRepair.Trace
