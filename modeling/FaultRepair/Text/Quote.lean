/-
# Quoted text

Messages show user text between quotes with everything that would not print spelled out,
so that a message always stays on one line. A literal of Go source is read back to the
text that it stands for.
-/

import FaultRepair.Text.Letter

namespace FaultRepair.Text

def escapeRune (quoteMark : Char) (g : Reading) : Text :=
  if !g.valid then ofString "\\x" ++ (g.raw.map fun b => hex 2 b.toNat).flatten
  else if g.rune == quoteMark.toNat then [byte '\\', byte quoteMark]
  else if g.rune == 92 then "\\\\"
  else if isPrintRune g.rune then g.raw
  else if g.rune == 7 then "\\a"
  else if g.rune == 8 then "\\b"
  else if g.rune == 12 then "\\f"
  else if g.rune == 10 then "\\n"
  else if g.rune == 13 then "\\r"
  else if g.rune == 9 then "\\t"
  else if g.rune == 11 then "\\v"
  else if g.rune < 32 || g.rune == 127 then ofString "\\x" ++ hex 2 g.rune
  else if g.rune < 0x10000 then ofString "\\u" ++ hex 4 g.rune
  else ofString "\\U" ++ hex 8 g.rune

/-- A text between double quotes, with escapes for what does not print. -/
def quote (t : Text) : Text :=
  [byte '"'] ++ ((readings t).map (escapeRune '"')).flatten ++ [byte '"']

/-- A code point between single quotes, with escapes for what does not print. -/
def quoteRune (r : Rune) : Text :=
  let raw := ofRune r
  let r := if raw == [0xEF, 0xBF, 0xBD] then replacement else r
  [byte '\''] ++ escapeRune '\'' { rune := r, raw, valid := true } ++ [byte '\'']

/-- A code point by its number, followed by the character itself if it prints. -/
def describeRune (r : Rune) : Text :=
  ofString "U+" ++ hexUpper 4 r ++
    (if isPrintRune r then ofString " '" ++ ofRune r ++ ofString "'" else [])

/-- The number written by `n` hexadecimal digits, and what follows them. -/
def hexDigits? (n : Nat) (t : Text) : Option (Nat × Text) :=
  let ds := t.take n
  if ds.length == n && ds.all isHexDigit then
    some (ds.foldl (fun v d => 16 * v + hexValue d) 0, t.drop n)
  else none

def isScalar (r : Nat) : Bool := r ≤ maxRune && !(0xD800 ≤ r && r ≤ 0xDFFF)

/-- A character of a literal: a code point, or a byte that an escape gives. -/
inductive LitChar where
  | rune (r : Rune)
  | byte (b : Nat)

/-- The character that an escape stands for, and what follows. `mark` is the quote
mark that may be escaped. -/
def escape? (mark : UInt8) : Text → Option (LitChar × Text)
  | [] => none
  | c :: rest =>
    if c == mark || c == 92 then some (.rune c.toNat, rest)
    else if c == 97 then some (.rune 7, rest)
    else if c == 98 then some (.rune 8, rest)
    else if c == 102 then some (.rune 12, rest)
    else if c == 110 then some (.rune 10, rest)
    else if c == 114 then some (.rune 13, rest)
    else if c == 116 then some (.rune 9, rest)
    else if c == 118 then some (.rune 11, rest)
    else if c == 120 then (hexDigits? 2 rest).map fun (v, r) => (.byte v, r)
    else if c == 117 then
      (hexDigits? 4 rest).bind fun (v, r) => if isScalar v then some (.rune v, r) else none
    else if c == 85 then
      (hexDigits? 8 rest).bind fun (v, r) => if isScalar v then some (.rune v, r) else none
    else
      let ds := (c :: rest).take 3
      let v := ds.foldl (fun v d => 8 * v + (d.toNat - 48)) 0
      if ds.length == 3 && ds.all (fun d => 48 ≤ d && d ≤ 55) && v ≤ 255 then
        some (.byte v, (c :: rest).drop 3)
      else none

def litChar? (mark : UInt8) : Text → Option (LitChar × Text)
  | [] => none
  | c :: rest =>
    if c == mark || c == 10 then none
    else if c == 92 then escape? mark rest
    else
      let (r, n) := firstRune (c :: rest)
      some (.rune r, (c :: rest).drop n)

def litChars? (mark : UInt8) : Nat → Text → Option Text
  | 0, _ => none
  | fuel + 1, t =>
    if t.isEmpty then some []
    else do
      let (c, rest) ← litChar? mark t
      let bytes := match c with
        | .rune r => ofRune r
        | .byte b => [b.toUInt8]
      (bytes ++ ·) <$> litChars? mark fuel rest

/-- The value of a string literal, quoted by double quotes or back quotes. -/
def unquote? (lit : Text) : Option Text :=
  match lit with
  | q :: rest =>
    if 2 ≤ lit.length && lit.getLast? == some q then
      let inner := rest.dropLast
      if q == 96 then
        if inner.any (· == 96) then none else some (inner.filter (· != 13))
      else if q == 34 then litChars? 34 (inner.length + 1) inner
      else none
    else none
  | [] => none

def unquoteChar? (lit : Text) : Option Rune :=
  match lit with
  | 39 :: rest =>
    match litChar? 39 rest with
    | some (c, [39]) => some (match c with | .rune r => r | .byte b => b)
    | _ => none
  | _ => none

end FaultRepair.Text
