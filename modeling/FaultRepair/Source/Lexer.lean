/-
# From bytes to lexemes

Source is read code point by code point with one code point of look-ahead. Each
lexeme remembers the faults that were noticed while it was read, so that whoever
consumes lexemes one at a time learns of them in reading order. Semicolons that
the language lets the author leave out are supplied here.

Besides the lexemes the reading yields the file's line table, including its line
directives.
-/

import FaultRepair.Source.Token
import FaultRepair.Source.Position
import FaultRepair.Text.Quote

namespace FaultRepair.Source

open Text

/-- A fault with the offset at which it is reported. -/
structure LexFault where
  offset : Nat
  message : Text

/-- A code point at its offset, with the fault its bytes amount to, if any. -/
structure Glyph where
  rune : Rune
  raw : Text
  offset : Nat
  fault : Option Text := none
  deriving Inhabited

/-- A lexeme: class, position, text (for classes with many spellings), and the
faults noticed while reading it. -/
structure Lexeme where
  token : Token := .eof
  pos : Pos := noPos
  lit : Text := []
  faults : List LexFault := []
  deriving Inhabited

namespace Lexer

def byteOrderMark : Rune := 0xFEFF

/-- What is wrong with a code point that takes `width` bytes at the front of a text. -/
def glyphFault (offset : Nat) (rest : Text) (r : Rune) (width : Nat) : Option Text :=
  if r == 0 then some "illegal character NUL"
  else if width == 1 && r == replacement then
    if offset == 0 && (rest.take 2 == [0xFF, 0xFE] || rest.take 2 == [0xFE, 0xFF]) then
      some "illegal UTF-8 encoding (got UTF-16)"
    else some "illegal UTF-8 encoding"
  else if r == byteOrderMark && offset != 0 then some "illegal byte order mark"
  else none

def glyphsFrom : Nat → Nat → Text → List Glyph
  | 0, _, _ => []
  | _, _, [] => []
  | fuel + 1, offset, t@(_ :: _) =>
    let (r, w) := firstRune t
    let g : Glyph := { rune := r, raw := t.take w, offset, fault := glyphFault offset t r w }
    if g.fault == some (ofString "illegal UTF-8 encoding (got UTF-16)") then [{ g with raw := t }]
    else g :: glyphsFrom fuel (offset + w) (t.drop w)

def glyphs (src : Text) : List Glyph := glyphsFrom src.length 0 src

def lineStarts (size : Nat) (gs : List Glyph) : Array Nat :=
  gs.foldl (fun acc g =>
    if g.rune == 10 && g.offset + 1 < size then acc.push (g.offset + 1) else acc) #[0]

/-- The reader: what is left (its head is the current code point), where the
current line starts, and what has been noticed so far. -/
structure Reader where
  rest : List Glyph
  size : Nat
  lineOffset : Nat := 0
  faults : List LexFault := []
  dir : Text := []
  name : Text := []
  directives : Array LineDirective := #[]
  starts : Array Nat := #[0]

namespace Reader

variable (s : Reader)

@[inline] def cur? : Option Rune := s.rest.head?.map (·.rune)

@[inline] def sees (c : Char) : Bool := s.cur? == some c.toNat

def offset (s : Reader) : Nat := (s.rest.head?.map (·.offset)).getD s.size

def report (offset : Nat) (message : Text) : Reader :=
  { s with faults := ⟨offset, message⟩ :: s.faults }

def noteHead : Reader :=
  match s.rest with
  | { offset, fault := some message, .. } :: _ => s.report offset message
  | _ => s

/-- Move to the next code point, noting what is wrong with it. -/
def advance : Reader :=
  match s.rest with
  | [] => s
  | g :: rest =>
    let s := { s with rest }
    let s := if g.rune == 10 then { s with lineOffset := s.offset } else s
    s.noteHead

def advanceWhile (p : Rune → Bool) : Nat → Reader → Reader
  | 0, s => s
  | fuel + 1, s =>
    match s.cur? with
    | some r => if p r then advanceWhile p fuel s.advance else s
    | none => s

def skip (p : Rune → Bool) : Reader := s.advanceWhile p (s.rest.length + 1)

/-- The bytes read between an earlier reader and this one. -/
def since (s start : Reader) : Text :=
  let stop := s.offset
  ((start.rest.takeWhile (·.offset < stop)).map (·.raw)).flatten

def table : LineTable :=
  { name := s.name, size := s.size, starts := s.starts, directives := s.directives }

end Reader

def lowerRune (r : Rune) : Rune := if 65 ≤ r && r ≤ 90 then r + 32 else r

def isDecimal (r : Rune) : Bool := 48 ≤ r && r ≤ 57

def isHex (r : Rune) : Bool := isDecimal r || (97 ≤ lowerRune r && lowerRune r ≤ 102)

def digitValue (r : Option Rune) : Nat :=
  match r with
  | some r => if isDecimal r then r - 48 else if isHex r then lowerRune r - 87 else 16
  | none => 16

def isLetter (r : Rune) : Bool := r == 95 || isLetterRune r

def isLetterOrDigit (r : Rune) : Bool := isLetter r || isDigitRune r

/-! ### Line directives -/

def trailingDigits (t : Text) : Option (Text × Text × Option Nat) :=
  (cutLastAt? (byte ':') t).map fun (before, digits) =>
    (before, digits, (toNat? digits).bind fun n => if n < 0x10000000000000000 then some n else none)

def lineLimit : Nat := 0x40000000

/-- Take up the line directive in a comment's text after its leading `line `.
`next` is the offset that follows the comment and `start` the one where it starts. -/
def lineDirective (s : Reader) (next start : Nat) (t : Text) : Reader :=
  match trailingDigits t with
  | none => s
  | some (before, digits, none) =>
    s.report (start + before.length + 1) (ofString "invalid line number: " ++ digits)
  | some (before, digits, some n) =>
    let finish (file : Text) (lineAt : Nat) (lineText : Text) (line column : Nat)
        (hasColumn : Bool) : Reader :=
      if line == 0 || lineLimit < line then
        s.report (start + lineAt) (ofString "invalid line number: " ++ lineText)
      else
        let file := if file.isEmpty && hasColumn then (s.table.place (start + 1)).file else file
        let file :=
          if file.isEmpty then file
          else if Path.isAbs (Path.clean file) then Path.clean file
          else Path.joinTwo s.dir (Path.clean file)
        if s.directives.back?.all (·.offset < next) && next < s.size then
          { s with directives := s.directives.push ⟨next, file, line, column⟩ }
        else s
    match trailingDigits before with
    | some (file, lineText, some line) =>
      if n == 0 || lineLimit < n then
        s.report (start + before.length + 1) (ofString "invalid column number: " ++ digits)
      else finish file (file.length + 1) lineText line n true
    | _ => finish before (before.length + 1) digits n 0 false

def dropCarriageReturns (comment : Bool) : (kept : List UInt8) → Text → Text
  | kept, [] => kept.reverse
  | kept, b :: rest =>
    let keeps := b != 13 || (comment && 2 < kept.length && kept.head? == some (byte '*')
      && rest.head? == some (byte '/'))
    dropCarriageReturns comment (if keeps then b :: kept else kept) rest

/-- The text of a raw literal or comment without its carriage returns. -/
def stripCarriageReturns (comment : Bool) (t : Text) : Text := dropCarriageReturns comment [] t

def blockCommentEnd : Nat → Option Nat → Reader → Bool × Option Nat × Reader
  | 0, nl, s => (false, nl, s)
  | fuel + 1, nl, s =>
    match s.cur? with
    | none => (false, nl, s)
    | some r =>
      let nl := if r == 10 && nl.isNone then some s.offset else nl
      let s' := s.advance
      if r == 42 && s'.sees '/' then (true, nl, s'.advance)
      else blockCommentEnd fuel nl s'

/-- Read a comment whose first slash has been passed; `start` still stands on it.
Returns its text and the offset of the first newline inside a block comment. -/
def scanComment (start s : Reader) : Text × Option Nat × Reader :=
  let offs := start.offset
  let (closed, nl, s, next) :=
    if s.sees '/' then
      let s := s.advance.skip (· != 10)
      (true, none, s, if s.sees '\n' then s.offset + 1 else s.offset)
    else
      let (closed, nl, s) := blockCommentEnd (s.rest.length + 1) none s.advance
      (closed, nl, if closed then s else s.report offs "comment not terminated", s.offset)
  let lit := s.since start
  let isBlock := lit.getD 1 0 == byte '*'
  let lit := if !isBlock then trimTail lit [13] else lit
  let s :=
    if closed && (isBlock || offs == start.lineOffset) then
      match dropLead? "line " (lit.drop 2) with
      | some body =>
        lineDirective s next offs (if isBlock then body.take (body.length - 2) else body)
      | none => s
    else s
  (stripCarriageReturns isBlock lit, nl, s)

/-! ### Numbers -/

def litName (mark : Option Char) : Text :=
  match mark with
  | some 'x' => "hexadecimal literal"
  | some 'o' | some '0' => "octal literal"
  | some 'b' => "binary literal"
  | _ => "decimal literal"

/-- Digits read: was there a digit, was there a separator, and the first digit too
large for the base. -/
structure DigitRun where
  digit : Bool := false
  separator : Bool := false
  invalid : Option (Nat × Rune) := none

def scanDigits (base : Nat) : Nat → DigitRun → Reader → DigitRun × Reader
  | 0, run, s => (run, s)
  | fuel + 1, run, s =>
    match s.cur? with
    | none => (run, s)
    | some r =>
      if r == 95 then scanDigits base fuel { run with separator := true } s.advance
      else if isDecimal r || (10 < base && isHex r) then
        let invalid := if base ≤ 10 && 48 + base ≤ r then run.invalid <|> some (s.offset, r)
          else run.invalid
        scanDigits base fuel { run with digit := true, invalid } s.advance
      else (run, s)

def digits (base : Nat) (run : DigitRun) (s : Reader) : DigitRun × Reader :=
  scanDigits base (s.rest.length + 1) run s

/-- Class of the byte before: a separator, a digit, or anything else. -/
inductive SepState where
  | separator | digit | other
  deriving DecidableEq

def badSeparatorFrom (hex : Bool) : Nat → SepState → Text → Option Nat
  | i, prev, [] => if prev == .separator then some (i - 1) else none
  | i, prev, b :: rest =>
    if b == byte '_' then
      if prev != .digit then some i else badSeparatorFrom hex (i + 1) .separator rest
    else if Text.isDigit b || (hex && Text.isHexDigit b) then
      badSeparatorFrom hex (i + 1) .digit rest
    else if prev == .separator then some (i - 1)
    else badSeparatorFrom hex (i + 1) .other rest

/-- The index of the first digit separator that does not stand between digits. -/
def badSeparator? (lit : Text) : Option Nat := do
  let a :: b :: rest := lit | badSeparatorFrom false 0 .other lit
  let mark := lowerByte b
  if a == byte '0' && (mark == byte 'x' || mark == byte 'o' || mark == byte 'b') then
    badSeparatorFrom (mark == byte 'x') 2 .digit rest
  else badSeparatorFrom false 0 .other lit

def scanNumber (start : Reader) : Token × Text × Reader :=
  let s := start
  let isInt := !s.sees '.'
  let (base, mark, run, s) :=
    if isInt && s.sees '0' then
      let s := s.advance
      match s.cur?.map lowerRune with
      | some 120 => (16, some 'x', ({} : DigitRun), s.advance)
      | some 111 => (8, some 'o', {}, s.advance)
      | some 98 => (2, some 'b', {}, s.advance)
      | _ => (8, some '0', { digit := true }, s)
    else (10, none, {}, s)
  let (run, s) := if isInt then digits base run s else (run, s)
  let (tok, run, s) :=
    if s.sees '.' then
      let s := if mark == some 'o' || mark == some 'b' then
        s.report s.offset (ofString "invalid radix point in " ++ litName mark) else s
      let (run, s) := digits base run s.advance
      (Token.float, run, s)
    else (if isInt then Token.int else .illegal, run, s)
  let s := if run.digit then s else s.report s.offset (litName mark ++ " has no digits")
  let (tok, run, s) :=
    let r := s.cur?.getD 0
    let e := lowerRune r
    if e == 101 || e == 112 then
      let s :=
        if e == 101 && mark.isSome && mark != some '0' then
          s.report s.offset (quoteRune r ++ " exponent requires decimal mantissa")
        else if e == 112 && mark != some 'x' then
          s.report s.offset (quoteRune r ++ " exponent requires hexadecimal mantissa")
        else s
      let s := s.advance
      let s := if s.sees '+' || s.sees '-' then s.advance else s
      let (exp, s) := digits 10 { invalid := some (0, 0) } s
      let run := { run with digit := run.digit || exp.digit
                            separator := run.separator || exp.separator }
      let s := if exp.digit then s else s.report s.offset "exponent has no digits"
      (Token.float, run, s)
    else if mark == some 'x' && tok == Token.float then
      (tok, run, s.report s.offset "hexadecimal mantissa requires a 'p' exponent")
    else (tok, run, s)
  let (tok, s) := if s.sees 'i' then (Token.imag, s.advance) else (tok, s)
  let lit := s.since start
  let s := match tok, run.invalid with
    | .int, some (offs, r) =>
      s.report offs (ofString "invalid digit " ++ quoteRune r ++ " in " ++ litName mark)
    | _, _ => s
  let s := if run.separator then
      match badSeparator? lit with
      | some i => s.report (start.offset + i) "'_' must separate successive digits"
      | none => s
    else s
  (tok, lit, s)

/-! ### Rune and string literals -/

def escapeDigits (base : Nat) : Nat → Nat → Reader → Option Nat × Reader
  | 0, x, s => (some x, s)
  | n + 1, x, s =>
    let d := digitValue s.cur?
    if base ≤ d then
      match s.cur? with
      | some r =>
        (none, s.report s.offset
          (ofString "illegal character " ++ describeRune r ++ " in escape sequence"))
      | none => (none, s.report s.offset "escape sequence not terminated")
    else escapeDigits base n (x * base + d) s.advance

/-- Read what follows a backslash; the flag tells whether it was well-formed. -/
def scanEscape (mark : Char) (s : Reader) : Bool × Reader :=
  let offs := s.offset
  let numeric (count base max : Nat) (s : Reader) : Bool × Reader :=
    match escapeDigits base count 0 s with
    | (none, s) => (false, s)
    | (some x, s) =>
      if max < x || (0xD800 ≤ x && x < 0xE000) then
        (false, s.report offs "escape sequence is invalid Unicode code point")
      else (true, s)
  match s.cur? with
  | none => (false, s.report offs "escape sequence not terminated")
  | some r =>
    if r == mark.toNat || [97, 98, 102, 110, 114, 116, 118, 92].contains r then (true, s.advance)
    else if 48 ≤ r && r ≤ 55 then numeric 3 8 255 s
    else if r == 120 then numeric 2 16 255 s.advance
    else if r == 117 then numeric 4 16 maxRune s.advance
    else if r == 85 then numeric 8 16 maxRune s.advance
    else (false, s.report offs "unknown escape sequence")

def runeBody (offs : Nat) : Nat → Bool → Nat → Reader → Bool × Nat × Reader
  | 0, valid, n, s => (valid, n, s)
  | fuel + 1, valid, n, s =>
    match s.cur? with
    | none | some 10 =>
      (false, n, if valid then s.report offs "rune literal not terminated" else s)
    | some r =>
      let s := s.advance
      if r == 39 then (valid, n, s)
      else
        let (ok, s) := if r == 92 then scanEscape '\'' s else (true, s)
        runeBody offs fuel (valid && ok) (n + 1) s

def scanRune (start s : Reader) : Text × Reader :=
  let offs := start.offset
  let (valid, n, s) := runeBody offs (s.rest.length + 2) true 0 s
  let s := if valid && n != 1 then s.report offs "illegal rune literal" else s
  (s.since start, s)

def stringBody (offs : Nat) : Nat → Reader → Reader
  | 0, s => s
  | fuel + 1, s =>
    match s.cur? with
    | none | some 10 => s.report offs "string literal not terminated"
    | some r =>
      let s := s.advance
      if r == 34 then s else stringBody offs fuel (if r == 92 then (scanEscape '"' s).2 else s)

def scanString (start s : Reader) : Text × Reader :=
  let s := stringBody start.offset (s.rest.length + 2) s
  (s.since start, s)

def scanRawString (start s : Reader) : Text × Reader :=
  let s := s.skip (· != 96)
  let s := if s.rest.isEmpty then s.report start.offset "raw string literal not terminated"
    else s.advance
  (stripCarriageReturns false (s.since start), s)

/-! ### One lexeme at a time -/

/-- The lexer between two lexemes: would a newline end a statement here, and is a
semicolon owed for a newline inside a block comment? -/
structure State where
  reader : Reader
  endsStatement : Bool := false
  owed : Option Pos := none

/-- The alternative with an equals sign, if one follows. -/
def orAssign (plain withEq : Token) (s : Reader) : Token × Reader :=
  if s.sees '=' then (withEq, s.advance) else (plain, s)

def orDouble (plain withEq : Token) (c : Char) (double : Token) (s : Reader) :
    Token × Reader :=
  if s.sees '=' then (withEq, s.advance) else if s.sees c then (double, s.advance) else (plain, s)

def orShift (plain withEq : Token) (c : Char) (double doubleAssign : Token)
    (s : Reader) : Token × Reader :=
  if s.sees '=' then (withEq, s.advance)
  else if s.sees c then orAssign double doubleAssign s.advance
  else (plain, s)

def operator? (c : Char) (s : Reader) : Option (Token × Bool × Reader) :=
  let plain (t : Token) := some (t, false, s)
  let closing (t : Token) := some (t, true, s)
  let step (r : Token × Reader) := some (r.1, r.1 == .inc || r.1 == .dec, r.2)
  match c with
  | ':' => step (orAssign .colon .define s)
  | '.' =>
    if s.sees '.' && s.advance.sees '.' then some (.ellipsis, false, s.advance.advance)
    else plain .period
  | ',' => plain .comma
  | '(' => plain .lparen
  | ')' => closing .rparen
  | '[' => plain .lbrack
  | ']' => closing .rbrack
  | '\x7b' => plain .lbrace
  | '\x7d' => closing .rbrace
  | '+' => step (orDouble .add .addAssign '+' .inc s)
  | '-' => step (orDouble .sub .subAssign '-' .dec s)
  | '*' => step (orAssign .mul .mulAssign s)
  | '/' => step (orAssign .quo .quoAssign s)
  | '%' => step (orAssign .rem .remAssign s)
  | '^' => step (orAssign .xor .xorAssign s)
  | '<' =>
    if s.sees '-' then some (.arrow, false, s.advance)
    else step (orShift .lss .leq '<' .shl .shlAssign s)
  | '>' => step (orShift .gtr .geq '>' .shr .shrAssign s)
  | '=' => step (orAssign .assign .eql s)
  | '!' => step (orAssign .not .neq s)
  | '&' =>
    if s.sees '^' then step (orAssign .andNot .andNotAssign s.advance)
    else step (orDouble .and .andAssign '&' .land s)
  | '|' => step (orDouble .or .orAssign '|' .lor s)
  | '~' => plain .tilde
  | _ => none

def finish (token : Token) (pos : Pos) (lit : Text) (endsStatement : Bool) (s : Reader)
    (owed : Option Pos := none) : Lexeme × State :=
  ({ token, pos, lit, faults := s.faults.reverse },
   { reader := { s with faults := [] }, endsStatement, owed })

def isBlank (endsStatement : Bool) (r : Rune) : Bool :=
  r == 32 || r == 9 || r == 13 || (r == 10 && !endsStatement)

def next (st : State) : Lexeme × State :=
  match st.owed with
  | some pos => finish .semicolon pos "\n" st.endsStatement st.reader
  | none =>
    let s := st.reader.skip (isBlank st.endsStatement)
    let pos := s.offset + 1
    match s.cur? with
    | none =>
      if st.endsStatement then finish .semicolon pos "\n" false s else finish .eof pos [] false s
    | some r =>
      if isLetter r then
        let stop := s.skip isLetterOrDigit
        let word := stop.since s
        let token := if 1 < word.length then Token.ofWord word else .ident
        let ends := [Token.ident, .kwBreak, .kwContinue, .kwFallthrough, .kwReturn].contains token
        finish token pos word ends stop
      else if isDecimal r || (r == 46 && isDecimal (s.rest.getD 1 default).rune) then
        let (token, lit, stop) := scanNumber s
        finish token pos lit true stop
      else
        let s' := s.advance
        let literal (token : Token) (scanned : Text × Reader) : Lexeme × State :=
          finish token pos scanned.1 true scanned.2
        if r == 10 then finish .semicolon pos "\n" false s'
        else if r == 34 then literal .string (scanString s s')
        else if r == 39 then literal .char (scanRune s s')
        else if r == 96 then literal .string (scanRawString s s')
        else if r == 59 then finish .semicolon pos ";" false s'
        else if r == 47 && (s'.sees '/' || s'.sees '*') then
          let (lit, nl, stop) := scanComment s s'
          let owed := if st.endsStatement then nl.map (· + 1) else none
          finish .comment pos lit (st.endsStatement && owed.isNone) stop owed
        else
          match operator? (Char.ofNat r) s' with
          | some (token, ends, stop) => finish token pos [] ends stop
          | none =>
            let s' :=
              if r == byteOrderMark then s'
              else if r == 0x201C || r == 0x201D then
                s'.report (pos - 1) (ofString "curly quotation mark " ++ quoteRune r ++
                  " (use neutral " ++ quoteRune 34 ++ ")")
              else s'.report (pos - 1) (ofString "illegal character " ++ describeRune r)
            finish .illegal pos (ofRune r) st.endsStatement s'

def lexemesFrom : Nat → State → Array Lexeme → Array Lexeme × State
  | 0, st, acc => (acc, st)
  | fuel + 1, st, acc =>
    let (lexeme, st) := next st
    if lexeme.token == .eof then (acc.push lexeme, st)
    else lexemesFrom fuel st (acc.push lexeme)

/-- The reader at the start of a file, past a byte order mark. -/
def start (name src : Text) : State :=
  let gs := glyphs src
  let s : Reader :=
    { rest := gs, size := src.length, dir := Path.dir name, name
      starts := lineStarts src.length gs }
  let s := s.noteHead
  { reader := if s.cur? == some byteOrderMark then s.advance else s }

end Lexer

/-- All lexemes of a file, the end marker last, and its line table. -/
def lexemes (name src : Text) : Array Lexeme × LineTable :=
  let (ls, st) := Lexer.lexemesFrom (2 * src.length + 8) (Lexer.start name src) #[]
  (ls, st.reader.table)

end FaultRepair.Source
