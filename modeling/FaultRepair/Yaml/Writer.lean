/-
# Writing YAML

Documents made of records, lists and scalars, in block form. Nested blocks are indented
by four, except that an entry of a list is aligned behind its dash.

Text is written without quotes where that reads back as the same text, in single quotes
where it would otherwise be taken for something else, and with escapes where it holds
what cannot stand in a file. Text with line ends becomes a literal block.
-/

import FaultRepair.Yaml.Meaning

namespace FaultRepair.Yaml

open Text

/-- A document to write. `word` is a number or a truth value, which needs no quotes. -/
inductive Document where
  | text (t : Text)
  | word (t : Text)
  | list (items : List Document)
  | record (fields : List (Text × Document))

/-- The indentation inside of a block that is indented by `n`. -/
def nested (n : Nat) : Nat := 4 * ((n + 4) / 4)

def spaces (n : Nat) : List Rune := List.replicate n 32

def chars (s : String) : List Rune := s.toList.map Char.toNat

/-- Can the character stand in a file as it is? Characters outside of the basic plane
are escaped. -/
def isPrintable (r : Rune) : Bool :=
  r == 10 || (0x20 ≤ r && r ≤ 0x7E) ||
    (0xA0 ≤ r && r ≤ 0xFFFD && r != 0xFEFF && !(0xD800 ≤ r && r ≤ 0xDFFF))

/-- What decides how a text can be written. -/
structure Shape where
  /-- It could be taken for something else. -/
  indicators : Bool := false
  breaks : Bool := false
  special : Bool := false
  tabs : Bool := false
  leadingSpace : Bool := false
  leadingBreak : Bool := false
  trailingSpace : Bool := false
  trailingBreak : Bool := false
  breakSpace : Bool := false
  spaceBreak : Bool := false

/-- The indicator that a character is at its place: `first` tells the first place,
`spaced` whether white space stands before it, and `followed` whether white space or
the end follows. -/
def isIndicator (r : Rune) (first spaced followed : Bool) : Bool :=
  let c := Char.ofNat r
  if first then
    (",#[]&*!|>'\"%@`".toList.contains c || r == 123 || r == 125) ||
      ((c == '?' || c == ':' || c == '-') && followed)
  else (c == ':' && followed) || (c == '#' && spaced)

/-- Does the place after a character count as the start of a word? -/
def spacedAfter : Option Rune → Bool
  | none => true
  | some p => isBlank p || isBreak p || p == 0

def followedBy : List Rune → Bool
  | [] => true
  | n :: _ => isBlank n

def shapeAt (first : Bool) (before : Option Rune) (r : Rune) (rest : List Rune) : Shape where
  indicators := isIndicator r first (spacedAfter before) (followedBy rest)
  breaks := isBreak r
  special := r != 9 && !isPrintable r
  tabs := r == 9
  leadingSpace := r == 32 && first
  leadingBreak := isBreak r && first
  trailingSpace := r == 32 && rest.isEmpty
  trailingBreak := isBreak r && rest.isEmpty
  breakSpace := r == 32 && (before.map isBreak).getD false
  spaceBreak := isBreak r && before == some 32

def Shape.or (a b : Shape) : Shape where
  indicators := a.indicators || b.indicators
  breaks := a.breaks || b.breaks
  special := a.special || b.special
  tabs := a.tabs || b.tabs
  leadingSpace := a.leadingSpace || b.leadingSpace
  leadingBreak := a.leadingBreak || b.leadingBreak
  trailingSpace := a.trailingSpace || b.trailingSpace
  trailingBreak := a.trailingBreak || b.trailingBreak
  breakSpace := a.breakSpace || b.breakSpace
  spaceBreak := a.spaceBreak || b.spaceBreak

def shapeFrom (first : Bool) (before : Option Rune) (s : Shape) : List Rune → Shape
  | [] => s
  | r :: rest => shapeFrom false (some r) (s.or (shapeAt first before r rest)) rest

def shapeOf (rs : List Rune) : Shape :=
  let mark := rs.take 3 == [45, 45, 45] || rs.take 3 == [46, 46, 46]
  shapeFrom true none { indicators := mark } rs

namespace Shape

def plainAllowed (s : Shape) : Bool :=
  !(s.leadingSpace || s.leadingBreak || s.trailingSpace || s.trailingBreak || s.breakSpace ||
    s.spaceBreak || s.tabs || s.special || s.breaks || s.indicators)

def singleAllowed (s : Shape) : Bool := !(s.breakSpace || s.spaceBreak || s.tabs || s.special)

def blockAllowed (s : Shape) : Bool := !(s.trailingSpace || s.spaceBreak || s.special)

end Shape

/-- Would older readers take the text for a truth value? -/
def isOldTruth (t : Text) : Bool :=
  (["y", "Y", "yes", "Yes", "YES", "on", "On", "ON",
    "n", "N", "no", "No", "NO", "off", "Off", "OFF"].map ofString).contains t

def isSexagesimalTail : Nat → Text → Bool
  | 0, _ => false
  | n + 1, t =>
    match t with
    | 58 :: rest =>
      let two := match rest with
        | a :: b :: _ => isDigit a && a < 54 && isDigit b
        | _ => false
      let ends (rest : Text) : Bool :=
        match rest with
        | [] => true
        | 46 :: more => more.all fun b => isDigit b || b == 95
        | _ => isSexagesimalTail n rest
      (two && ends (rest.drop 2)) ||
        ((rest.head?.map isDigit).getD false && ends (rest.drop 1))
    | _ => false

/-- Would older readers take the text for a number in base sixty? -/
def isSexagesimal (t : Text) : Bool :=
  let body := match t with
    | b :: rest => if b == 43 || b == 45 then rest else t
    | [] => []
  match body with
  | d :: _ =>
    isDigit d && isSexagesimalTail body.length (body.dropWhile fun b => isDigit b || b == 95)
  | [] => false

def readsAsText (t : Text) : Bool :=
  (match meaningOf true t with
    | .text _ => true
    | _ => false) && !isOldTruth t && !isSexagesimal t

def singleQuoted (indent : Nat) : Bool → List Rune → List Rune
  | _, [] => []
  | broken, r :: rest =>
    if isBreak r then r :: singleQuoted indent true rest
    else
      (if broken && r != 32 then spaces indent else []) ++ (if r == 39 then [39] else []) ++
        r :: singleQuoted indent (broken && r == 32) rest

def escapeLetters : List (Rune × Char) :=
  [(0, '0'), (7, 'a'), (8, 'b'), (9, 't'), (10, 'n'), (11, 'v'), (12, 'f'), (13, 'r'), (27, 'e'),
    (34, '"'), (92, '\\'), (0x85, 'N'), (0xA0, '_'), (0x2028, 'L'), (0x2029, 'P')]

def escaped (r : Rune) : List Rune :=
  match escapeLetters.find? (·.1 == r) with
  | some (_, c) => [92, c.toNat]
  | none =>
    if r ≤ 0xFF then 92 :: 'x'.toNat :: (Text.hexUpper 2 r).map (·.toNat)
    else if r ≤ 0xFFFF then 92 :: 'u'.toNat :: (Text.hexUpper 4 r).map (·.toNat)
    else 92 :: 'U'.toNat :: (Text.hexUpper 8 r).map (·.toNat)

def doubleCode (all : Bool) (r : Rune) : List Rune :=
  if all || !isPrintable r || isBreak r || r == 34 || r == 92 then escaped r else [r]

/-- The text with escapes. After a byte order mark at the start everything is escaped. -/
def doubleQuoted (rs : List Rune) : List Rune := rs.flatMap (doubleCode (rs.head? == some 0xFEFF))

def literalLines (indent : Nat) : Bool → List Rune → List Rune
  | _, [] => []
  | atStart, r :: rest =>
    if isBreak r then r :: literalLines indent true rest
    else (if atStart then spaces indent else []) ++ r :: literalLines indent false rest

/-- The mark that tells what becomes of the line ends after a literal block. -/
def chompMark (rs : List Rune) : List Rune :=
  match rs.reverse with
  | [] => ['-'.toNat]
  | last :: more =>
    if !isBreak last then ['-'.toNat]
    else
      match more with
      | [] => ['+'.toNat]
      | previous :: _ => if isBreak previous then ['+'.toNat] else []

/-- A literal block: its header tells the indentation where the text itself does not
show it, and what becomes of the line ends after it. -/
def literal (indent : Nat) (rs : List Rune) : List Rune :=
  let hint := match rs with
    | r :: _ => if r == 32 || isBreak r then ['4'.toNat] else []
    | [] => []
  let start := match rs with
    | r :: _ => if isBreak r then [] else [10]
    | [] => []
  '|'.toNat :: hint ++ chompMark rs ++ start ++ literalLines indent true rs

/-- The style that a text is written in. Encoded bytes have no other meaning without
quotes. -/
def styleOf (binary : Bool) (body : Text) : Style :=
  let shape := shapeOf (Text.runes body)
  let multi := body.any (· == 10)
  if multi && shape.blockAllowed then .literal
  else if !multi && (binary || readsAsText body) then
    if shape.plainAllowed then .plain
    else if shape.singleAllowed then .singleQuoted
    else .doubleQuoted
  else .doubleQuoted

/-- Characters in a style, inside of a block of the given indentation. -/
def writeStyled (indent : Nat) (rs : List Rune) : Style → List Rune
  | .plain => rs
  | .singleQuoted => 39 :: singleQuoted indent false rs ++ [39]
  | .doubleQuoted => 34 :: doubleQuoted rs ++ [34]
  | .literal | .folded => literal indent rs

def base64Chunks : Nat → Text → Text
  | 0, _ => []
  | n + 1, t => if t.isEmpty then [] else t.take 70 ++ "\n" ++ base64Chunks n (t.drop 70)

/-- Encoded bytes in lines of 70 letters; a single short line has no end. -/
def base64Lines (t : Text) : Text := if t.length < 70 then t else base64Chunks t.length t

/-- A text as written, inside of a block of the given indentation, and whether a line
end is still to come. -/
def writeText (indent : Nat) (t : Text) : List Rune × Bool :=
  let binary := !Text.isUtf8 t
  let body := if binary then base64Lines (Text.Base64.encode t) else t
  let rs := Text.runes body
  let style := styleOf binary body
  let lead := if binary then chars "!!binary " else []
  let stops := style == .literal && (rs.getLast?.map isBreak).getD false
  (lead ++ writeStyled (nested indent) rs style, !stops)

def writeLine (indent : Nat) (t : Text) : List Rune :=
  let (written, open_) := writeText indent t
  32 :: written ++ (if open_ then [10] else [])

mutual

def writeValue (indent : Nat) : Document → List Rune
  | .text t => writeLine indent t
  | .word t => 32 :: Text.runes t ++ [10]
  | .list items =>
    if items.isEmpty then chars " []\n" else 10 :: writeItems (nested indent) items
  | .record fields =>
    if fields.isEmpty then chars " \x7b\x7d\n"
    else 10 :: spaces (nested indent) ++ writeFields (nested indent) true fields

def writeItems (indent : Nat) : List Document → List Rune
  | [] => []
  | item :: rest => spaces indent ++ '-'.toNat :: writeItem indent item ++ writeItems indent rest

def writeItem (indent : Nat) : Document → List Rune
  | .text t => writeLine indent t
  | .word t => 32 :: Text.runes t ++ [10]
  | .list items => if items.isEmpty then chars " []\n" else 32 :: writeItems (indent + 2) items
  | .record fields =>
    if fields.isEmpty then chars " \x7b\x7d\n" else 32 :: writeFields (indent + 2) true fields

/-- The fields of a record; the first one stands where the writer is. -/
def writeFields (indent : Nat) (first : Bool) : List (Text × Document) → List Rune
  | [] => []
  | (name, v) :: rest =>
    (if first then [] else spaces indent) ++ runes name ++ ':'.toNat :: writeValue indent v ++
      writeFields indent false rest

end

def Document.characters : Document → List Rune
  | .record fields => writeFields 0 true fields
  | .list items => writeItems 0 items
  | .text t => (writeText 0 t).1 ++ [10]
  | .word t => runes t ++ [10]

def Document.render (d : Document) : Text := ofRunes d.characters

end FaultRepair.Yaml
