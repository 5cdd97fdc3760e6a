/-
# Scanning YAML

From characters to tokens. Outside of brackets, indentation opens and closes blocks, which are
tokens of their own. A key without a mark is recognised only when the colon after it is found, on
the same line and not too far away; its tokens are then put in front of what was scanned since.

The scanner runs over the whole text. If it fails, the tokens found before are kept,
since a reader of the first document may not need the rest.
-/

import FaultRepair.Text.Rune

namespace FaultRepair.Yaml

open Text

/-- How a scalar is written. -/
inductive Style where
  | plain | singleQuoted | doubleQuoted | literal | folded
  deriving DecidableEq

inductive Token where
  | streamStart | streamEnd
  | version (major minor : Nat)
  | tagDirective (handle lead : Text)
  | documentStart | documentEnd
  | blockSequenceStart | blockMappingStart | blockEnd
  | flowSequenceStart | flowSequenceEnd | flowMappingStart | flowMappingEnd
  | blockEntry | flowEntry | key | value
  | alias (name : Text)
  | anchor (name : Text)
  | tag (handle suffix : Text)
  | scalar (value : Text) (style : Style)
  deriving DecidableEq

def isBreak (r : Rune) : Bool := r == 10 || r == 13 || r == 0x85 || r == 0x2028 || r == 0x2029

def isBlank (r : Rune) : Bool := r == 32 || r == 9

def breakHere : List Rune → Bool
  | [] => false
  | r :: _ => isBreak r

def breakOrEnd : List Rune → Bool
  | [] => true
  | r :: _ => isBreak r

def blankOrEnd : List Rune → Bool
  | [] => true
  | r :: _ => isBlank r || isBreak r

def isWordRune (r : Rune) : Bool :=
  (48 ≤ r && r ≤ 57) || (65 ≤ r && r ≤ 90) || (97 ≤ r && r ≤ 122) || r == 95 || r == 45

def isTagRune (r : Rune) : Bool :=
  isWordRune r || ";/?:@&=+$,.!~*'()[]%".toList.any (·.toNat == r)

/-- May a text hold the character? Control characters are excluded. -/
def isAllowed (r : Rune) : Bool :=
  r == 9 || r == 10 || r == 13 || (0x20 ≤ r && r ≤ 0x7E) || r == 0x85
    || (0xA0 ≤ r && r ≤ 0xD7FF) || (0xE000 ≤ r && r ≤ 0xFFFD) || (0x10000 ≤ r && r ≤ 0x10FFFF)

def ofRunes (rs : List Rune) : Text := rs.flatMap Text.ofRune

/-- A place where a key without a mark may start. It is required where nothing else
can stand. -/
structure SimpleKey where
  possible : Bool := false
  required : Bool := false
  token : Nat := 0
  index : Nat := 0
  line : Nat := 0
  column : Nat := 0

/-- The state of the scanner. `indent` is the column of the innermost open block and
`indents` are those around it; `keys` has an entry for each open bracket and one for
the text outside, the innermost first. -/
structure Scanner where
  rest : List Rune
  index : Nat := 0
  line : Nat := 0
  column : Nat := 0
  flow : Nat := 0
  indent : Int := -1
  indents : List Int := []
  tokens : Array Token := #[]
  keyAllowed : Bool := true
  keys : List SimpleKey := [{}]
  done : Bool := false

namespace Scanner

variable (s : Scanner)

def peek? : Option Rune := s.rest.head?

/-- The character at a distance; zero at the end of the text. -/
def ahead (n : Nat) : Rune := (s.rest.drop n).headD 0

def skip : Scanner :=
  { s with rest := s.rest.drop 1, index := s.index + 1, column := s.column + 1 }

def skipMany (s : Scanner) : Nat → Scanner
  | 0 => s
  | n + 1 => s.skip.skipMany n

/-- Passes over a line end and gives the text it stands for: a newline, except for the
two Unicode separators, which stand for themselves. -/
def readLine : List Rune × Scanner :=
  match s.rest with
  | 13 :: 10 :: rest =>
    ([10], { s with rest, index := s.index + 2, line := s.line + 1, column := 0 })
  | r :: rest =>
    if r == 10 || r == 13 || r == 0x85 then
      ([10], { s with rest, index := s.index + 1, line := s.line + 1, column := 0 })
    else if isBreak r then
      ([r], { s with rest, index := s.index + 1, line := s.line + 1, column := 0 })
    else ([], s)
  | [] => ([], s)

def skipWhile (p : Rune → Bool) : Nat → Scanner → Scanner
  | 0, s => s
  | n + 1, s =>
    match s.rest with
    | r :: _ => if p r then skipWhile p n s.skip else s
    | [] => s

def takeWhile (p : Rune → Bool) (s : Scanner) : List Rune × Scanner :=
  let taken := s.rest.takeWhile p
  (taken, s.skipMany taken.length)

def push (s : Scanner) (t : Token) : Scanner := { s with tokens := s.tokens.push t }

/-- Puts a token in front of the ones from the given number on. -/
def insert (at_ : Nat) (t : Token) : Scanner :=
  { s with tokens := s.tokens.insertIdxIfInBounds at_ t }

/-- Closes the blocks that are indented more than a column. -/
def unroll : Nat → Int → Scanner → Scanner
  | 0, _, s => s
  | n + 1, column, s =>
    if s.flow > 0 || s.indent ≤ column then s
    else
      match s.indents with
      | outer :: more => unroll n column { s.push .blockEnd with indent := outer, indents := more }
      | [] => { s with indent := -1 }

def unrollTo (column : Int) : Scanner := unroll (s.indents.length + 1) column s

/-- Opens a block at a column if it is indented more than the innermost one. Its token
goes in front of the given number, or to the end. -/
def roll (column : Nat) (at_ : Option Nat) (t : Token) : Scanner :=
  if s.flow > 0 || (column : Int) ≤ s.indent then s
  else
    let s := { s with indents := s.indent :: s.indents, indent := column }
    match at_ with
    | some n => s.insert n t
    | none => s.push t

/-- Gives up the key that may have started; fails if it was required. -/
def removeKey? : Option Scanner :=
  match s.keys with
  | k :: more =>
    if k.possible && k.required then none
    else some { s with keys := { k with possible := false } :: more }
  | [] => some s

def saveKey? : Option Scanner :=
  if !s.keyAllowed then some s
  else do
    let s ← s.removeKey?
    let k : SimpleKey :=
      { possible := true, required := s.flow == 0 && s.indent == (s.column : Int)
        token := s.tokens.size, index := s.index, line := s.line, column := s.column }
    some { s with keys := k :: s.keys.drop 1 }

/-- Is the key still possible here? It must be on this line and near; the outer `none`
is the failure of a required one that is not. -/
def keyStands? (k : SimpleKey) : Option Bool :=
  if !k.possible then some false
  else if k.line < s.line || k.index + 1024 < s.index then
    if k.required then none else some false
  else some true

/-- Is there a document mark of three equal characters? -/
def marksDocument (r : Rune) : Bool :=
  s.column == 0 && s.ahead 0 == r && s.ahead 1 == r && s.ahead 2 == r && blankOrEnd (s.rest.drop 3)

/-- Passes over blanks, comments and line ends up to the next token. Tabs only count
as blanks where they cannot be indentation. -/
def toNextToken : Nat → Scanner → Scanner
  | 0, s => s
  | n + 1, s =>
    let tabs := s.flow > 0 || !s.keyAllowed
    let s := skipWhile (fun r => r == 32 || (tabs && r == 9)) s.rest.length s
    let s := if s.peek? == some 35 then skipWhile (!isBreak ·) s.rest.length s else s
    if breakHere s.rest then
      let s := s.readLine.2
      toNextToken n (if s.flow == 0 then { s with keyAllowed := true } else s)
    else s

/-- A token of `width` characters. -/
def indicator (width : Nat) (t : Token) : Scanner := (s.skipMany width).push t

def streamEnd? : Option Scanner := do
  let s := if s.column != 0 then { s with column := 0, line := s.line + 1 } else s
  let s ← (s.unrollTo (-1)).removeKey?
  some { s.push .streamEnd with keyAllowed := false, done := true }

def documentMark? (t : Token) : Option Scanner := do
  let s ← (s.unrollTo (-1)).removeKey?
  some ({ s with keyAllowed := false }.indicator 3 t)

def flowStart? (t : Token) : Option Scanner := do
  let s ← s.saveKey?
  if s.flow ≥ 10000 then none
  some ({ s with keys := {} :: s.keys, flow := s.flow + 1, keyAllowed := true }.indicator 1 t)

def flowEnd? (t : Token) : Option Scanner := do
  let s ← s.removeKey?
  let s := if s.flow > 0 then { s with flow := s.flow - 1, keys := s.keys.drop 1 } else s
  some ({ s with keyAllowed := false }.indicator 1 t)

def flowEntry? : Option Scanner := do
  let s ← s.removeKey?
  some ({ s with keyAllowed := true }.indicator 1 .flowEntry)

def blockEntry? : Option Scanner := do
  if s.flow == 0 && !s.keyAllowed then none
  let s ← (s.roll s.column none .blockSequenceStart).removeKey?
  some ({ s with keyAllowed := true }.indicator 1 .blockEntry)

def keyMark? : Option Scanner := do
  if s.flow == 0 && !s.keyAllowed then none
  let s ← (s.roll s.column none .blockMappingStart).removeKey?
  some ({ s with keyAllowed := s.flow == 0 }.indicator 1 .key)

def valueMark? : Option Scanner := do
  let k := s.keys.headD {}
  let stands ← s.keyStands? k
  if stands then
    let s := (s.insert k.token .key).roll k.column (some k.token) .blockMappingStart
    let s := { s with keys := { k with possible := false } :: s.keys.drop 1, keyAllowed := false }
    some (s.indicator 1 .value)
  else
    if s.flow == 0 && !s.keyAllowed then none
    let s := { s with keys := { k with possible := false } :: s.keys.drop 1 }
    let s := s.roll s.column none .blockMappingStart
    some ({ s with keyAllowed := s.flow == 0 }.indicator 1 .value)

def anchor? (make : Text → Token) : Option Scanner := do
  let s ← s.saveKey?
  let (name, s) := ({ s with keyAllowed := false }.skip).takeWhile isWordRune
  let ends := blankOrEnd s.rest || "?:,]\x7d%@`".toList.any (·.toNat == s.ahead 0)
  if name.isEmpty || !ends then none
  some (s.push (make (ofRunes name)))

def hexDigits? (ds : List Rune) : Option Nat :=
  ds.foldlM (fun n r =>
    if r < 128 && isHexDigit r.toUInt8 then some (n * 16 + hexValue r.toUInt8) else none) 0

def tagText? : Nat → List Rune → Option Text
  | 0, _ => some []
  | _, [] => some []
  | n + 1, 37 :: rest => do
    if (rest.take 2).length < 2 then none
    let b ← hexDigits? (rest.take 2)
    let more ← tagText? n (rest.drop 2)
    some (b.toUInt8 :: more)
  | n + 1, r :: rest => do
    let more ← tagText? n rest
    some (ofRune r ++ more)

def tag? : Option Scanner := do
  let s ← s.saveKey?
  let s := { s with keyAllowed := false }
  let finish (s : Scanner) (handle suffix : Text) : Option Scanner :=
    if blankOrEnd s.rest then some (s.push (.tag handle suffix)) else none
  if s.ahead 1 == 60 then
    let (uri, s) := (s.skipMany 2).takeWhile isTagRune
    let text ← tagText? uri.length uri
    if uri.isEmpty || !isUtf8 text || s.ahead 0 != 62 then none
    finish s.skip [] text
  else
    let (word, after) := s.skip.takeWhile isWordRune
    if after.ahead 0 == 33 then
      let (uri, s) := after.skip.takeWhile isTagRune
      let text ← tagText? uri.length uri
      if uri.isEmpty || !isUtf8 text then none
      finish s ("!" ++ ofRunes word ++ "!") text
    else
      let (uri, s) := after.takeWhile isTagRune
      let text ← tagText? uri.length uri
      if !isUtf8 text then none
      let suffix := ofRunes word ++ text
      if suffix.isEmpty then finish s [] "!" else finish s "!" suffix

def digits : List Rune × Scanner := s.takeWhile fun r => 48 ≤ r && r ≤ 57

def decimalOf (ds : List Rune) : Nat := ds.foldl (fun n r => n * 10 + (r - 48)) 0

def blanks : Scanner := skipWhile isBlank s.rest.length s

def directive? : Option Scanner := do
  let s ← (s.unrollTo (-1)).removeKey?
  let (name, s) := ({ s with keyAllowed := false }.skip).takeWhile isWordRune
  if name.isEmpty || !blankOrEnd s.rest then none
  let s ←
    if ofRunes name == ofString "YAML" then do
      let (major, s) := s.blanks.digits
      if major.isEmpty || major.length > 2 || s.ahead 0 != 46 then none
      let (minor, s) := s.skip.digits
      if minor.isEmpty || minor.length > 2 then none
      some (s.push (.version (decimalOf major) (decimalOf minor)))
    else if ofRunes name == ofString "TAG" then do
      let s := s.blanks
      if s.ahead 0 != 33 then none
      let (word, s) := s.skip.takeWhile isWordRune
      let (handle, s) ←
        if s.ahead 0 == 33 then some ("!" ++ ofRunes word ++ "!", s.skip)
        else if word.isEmpty then some (ofString "!", s)
        else none
      match s.rest with
      | r :: _ => if !isBlank r then none
      | [] => none
      let (uri, s) := s.blanks.takeWhile isTagRune
      let text ← tagText? uri.length uri
      if uri.isEmpty || !isUtf8 text || !blankOrEnd s.rest then none
      some (s.push (.tagDirective handle text))
    else none
  let s := s.blanks
  let s := if s.peek? == some 35 then skipWhile (!isBreak ·) s.rest.length s else s
  if !breakOrEnd s.rest then none
  some s.readLine.2

/-- Line ends and indentation in front of a line of a block scalar. Without a known
indentation it becomes that of the deepest of these lines. -/
def blockBreaks? (indent : Nat) : Nat → List Rune → Nat → Scanner →
    Option (List Rune × Nat × Scanner)
  | 0, breaks, deepest, s => some (breaks, deepest, s)
  | n + 1, breaks, deepest, s =>
    let inside (s : Scanner) : Bool := indent == 0 || s.column < indent
    let room := if indent == 0 then s.rest.length else indent - s.column
    let s := skipWhile (· == 32) room s
    let deepest := max deepest s.column
    if inside s && s.peek? == some 9 then none
    else if breakHere s.rest then
      let (b, s) := s.readLine
      blockBreaks? indent n (breaks ++ b) deepest s
    else some (breaks, deepest, s)

def blockBreaks (indent : Nat) (breaks : List Rune) :
    Option (List Rune × Nat × Scanner) := do
  let (breaks, deepest, s') ← blockBreaks? indent (s.rest.length + 1) breaks 0 s
  let indent := if indent != 0 then indent else max (max deepest (s.indent + 1).toNat) 1
  some (breaks, indent, s')

/-- The lines of a block scalar: its text so far, the last line end, the ones after it,
and whether the last line started with a blank. -/
def blockLines (isLiteral : Bool) (indent : Nat) :
    Nat → List Rune → List Rune → List Rune → Bool → Scanner →
      Option (List Rune × List Rune × List Rune × Scanner)
  | 0, text, lead, trail, _, s => some (text, lead, trail, s)
  | n + 1, text, lead, trail, blankBefore, s =>
    if s.column != indent || s.rest.isEmpty then some (text, lead, trail, s)
    else do
      let blank := (s.peek?.map isBlank).getD false
      let joined :=
        if !isLiteral && !blankBefore && !blank && lead.head? == some 10 then
          (if trail.isEmpty then [32] else [])
        else lead
      let (content, s) := s.takeWhile (!isBreak ·)
      let text := text ++ joined ++ trail ++ content
      let (lead, s) := s.readLine
      let (trail, _, s) ← s.blockBreaks indent []
      blockLines isLiteral indent n text lead trail blank s

/-- How the line ends after a block scalar count. -/
inductive Chomping where
  | strip | clip | keep

def chomping? : Option (Chomping × Scanner) :=
  if s.peek? == some 43 then some (.keep, s.skip)
  else if s.peek? == some 45 then some (.strip, s.skip)
  else none

/-- A digit that tells the indentation; zero is refused. -/
def increment? : Option (Nat × Scanner) :=
  match s.peek? with
  | some r =>
    if 48 ≤ r && r ≤ 57 then (if r == 48 then none else some (r - 48, s.skip)) else some (0, s)
  | none => some (0, s)

/-- The header of a block scalar: how line ends after it count, and the indentation that it
tells, or zero. -/
def blockHeader? : Option (Chomping × Nat × Scanner) :=
  match s.chomping? with
  | some (c, s) => do
    let (i, s) ← s.increment?
    some (c, i, s)
  | none => do
    let (i, s) ← s.increment?
    match (if i > 0 then s.chomping? else none) with
    | some (c, s) => some (c, i, s)
    | none => some (Chomping.clip, i, s)

/-- The text of a block scalar, with the line ends after it as far as they count. -/
def Chomping.text (chomp : Chomping) (text lead trail : List Rune) : List Rune :=
  match chomp with
  | .strip => text
  | .clip => text ++ lead
  | .keep => text ++ lead ++ trail

def blockScalar? (isLiteral : Bool) : Option Scanner := do
  let s ← s.removeKey?
  let (chomp, increment, s) ← ({ s with keyAllowed := true }.skip).blockHeader?
  let s := s.blanks
  let s := if s.peek? == some 35 then skipWhile (!isBreak ·) s.rest.length s else s
  if !breakOrEnd s.rest then none
  let s := s.readLine.2
  let indent := if increment == 0 then 0 else (max s.indent 0).toNat + increment
  let (trail, indent, s) ← s.blockBreaks indent []
  let (text, lead, trail, s) ← blockLines isLiteral indent (s.rest.length + 1) [] [] trail false s
  some (s.push (.scalar (ofRunes (chomp.text text lead trail))
    (if isLiteral then .literal else .folded)))

/-- Blanks and line ends between the words of a scalar in quotes or without. -/
structure Gap where
  blanks : List Rune := []
  lead : List Rune := []
  trail : List Rune := []
  broken : Bool := false

/-- The text that a gap stands for: a single line end becomes a space. -/
def Gap.text (g : Gap) : List Rune :=
  if !g.broken then g.blanks
  else if g.lead.head? == some 10 then (if g.trail.isEmpty then [32] else g.trail)
  else g.lead ++ g.trail

/-- Takes blanks and line ends. Where a column is given, a tab to the left of it after
a line end is refused. -/
def gap? (tabLimit : Int) : Nat → Gap → Scanner → Option (Gap × Scanner)
  | 0, g, s => some (g, s)
  | n + 1, g, s =>
    match s.rest with
    | [] => some (g, s)
    | r :: _ =>
      if isBlank r then
        if g.broken && (s.column : Int) < tabLimit && r == 9 then none
        else if g.broken then gap? tabLimit n g s.skip
        else gap? tabLimit n { g with blanks := g.blanks ++ [r] } s.skip
      else if isBreak r then
        let (b, s) := s.readLine
        if g.broken then gap? tabLimit n { g with trail := g.trail ++ b } s
        else gap? tabLimit n { g with blanks := [], lead := b, broken := true } s
      else some (g, s)

/-- The character that an escape of one letter stands for. -/
def escapeOf? (r : Rune) : Option Rune :=
  match Char.ofNat r with
  | '0' => some 0
  | 'a' => some 7
  | 'b' => some 8
  | 't' | '\t' => some 9
  | 'n' => some 10
  | 'v' => some 11
  | 'f' => some 12
  | 'r' => some 13
  | 'e' => some 27
  | ' ' => some 32
  | '"' => some 34
  | '\'' => some 39
  | '\\' => some 92
  | 'N' => some 0x85
  | '_' => some 0xA0
  | 'L' => some 0x2028
  | 'P' => some 0x2029
  | _ => none

def escapeWidth? (r : Rune) : Option Nat :=
  if r == 120 then some 2 else if r == 117 then some 4 else if r == 85 then some 8 else none

/-- The text of a quoted scalar up to the next blank, line end or closing quote. The
flag tells that an escaped line end was the last. -/
def quotedWord? (single : Bool) : Nat → List Rune → Scanner → Option (List Rune × Bool × Scanner)
  | 0, acc, s => some (acc.reverse, false, s)
  | n + 1, acc, s =>
    match s.rest with
    | [] => some (acc.reverse, false, s)
    | r :: more =>
      if isBlank r || isBreak r then some (acc.reverse, false, s)
      else if single then
        if r == 39 then
          if more.head? == some 39 then quotedWord? single n (39 :: acc) (s.skipMany 2)
          else some (acc.reverse, false, s)
        else quotedWord? single n (r :: acc) s.skip
      else if r == 34 then some (acc.reverse, false, s)
      else if r == 92 then
        if breakHere more then some (acc.reverse, true, s.skip.readLine.2)
        else
          match more with
          | [] => none
          | e :: digits =>
            match escapeWidth? e with
            | some w => do
              if (digits.take w).length < w then none
              let v ← hexDigits? (digits.take w)
              if (0xD800 ≤ v && v ≤ 0xDFFF) || v > 0x10FFFF then none
              quotedWord? single n (v :: acc) (s.skipMany (2 + w))
            | none => do
              let v ← escapeOf? e
              quotedWord? single n (v :: acc) (s.skipMany 2)
      else quotedWord? single n (r :: acc) s.skip

/-- The rest of a quoted scalar and the scanner after its closing quote. -/
def quotedFrom? (single : Bool) : Nat → List Rune → Scanner → Option (List Rune × Scanner)
  | 0, _, _ => none
  | n + 1, text, s => do
    if s.marksDocument 45 || s.marksDocument 46 then none
    if s.rest.isEmpty then none
    let (word, joined, s) ← quotedWord? single (s.rest.length + 1) [] s
    let text := text ++ word
    if s.peek? == some (if single then 39 else 34) then some (text, s.skip)
    else
      let (g, s) ← gap? (-1) (s.rest.length + 1) { broken := joined } s
      quotedFrom? single n (text ++ g.text) s

def quotedScalar? (single : Bool) : Option Scanner := do
  let s ← s.saveKey?
  let s := { s with keyAllowed := false }.skip
  let (text, s) ← quotedFrom? single (s.rest.length + 1) [] s
  some (s.push (.scalar (ofRunes text) (if single then .singleQuoted else .doubleQuoted)))

/-- The text of a plain scalar up to the next blank, line end or indicator. -/
def plainWord (inFlow : Bool) : List Rune → List Rune
  | [] => []
  | r :: rest =>
    if isBlank r || isBreak r then []
    else if r == 58 && blankOrEnd rest then []
    else if inFlow && ",?[]\x7b\x7d".toList.any (·.toNat == r) then []
    else r :: plainWord inFlow rest

/-- The rest of a plain scalar. The gap is what stands before the next word and the
flag tells whether a line end was passed since the last. -/
def plainFrom? : Nat → List Rune → Gap → Scanner → Option (List Rune × Bool × Scanner)
  | 0, text, g, s => some (text, g.broken, s)
  | n + 1, text, g, s =>
    if s.marksDocument 45 || s.marksDocument 46 || s.peek? == some 35 then some (text, g.broken, s)
    else
      let word := plainWord (s.flow > 0) s.rest
      let s' := s.skipMany word.length
      let (text, g) := if word.isEmpty then (text, g) else (text ++ g.text ++ word, {})
      match s'.rest with
      | [] => some (text, g.broken, s')
      | r :: _ =>
        if !(isBlank r || isBreak r) then some (text, g.broken, s')
        else do
          let (g, s'') ← gap? (s.indent + 1) (s'.rest.length + 1) g s'
          if s''.flow == 0 && (s''.column : Int) < s.indent + 1 then some (text, g.broken, s'')
          else plainFrom? n text g s''

def plainScalar? : Option Scanner := do
  let s ← s.saveKey?
  let s := { s with keyAllowed := false }
  let (text, broken, s) ← plainFrom? (s.rest.length + 1) [] {} s
  let s := if broken then { s with keyAllowed := true } else s
  some (s.push (.scalar (ofRunes text) .plain))

def startsPlain : Bool :=
  match s.rest with
  | [] => false
  | r :: rest =>
    let indicator :=
      isBlank r || isBreak r || "-?:,[]\x7b\x7d#&*!|>'\"%@`".toList.any (·.toNat == r)
    !indicator || (r == 45 && !(rest.head?.map isBlank).getD false) ||
      (s.flow == 0 && (r == 63 || r == 58) && !blankOrEnd rest)

/-- The token that starts here, and those it opens. -/
def token? : Option Scanner :=
  match s.rest with
  | [] => s.streamEnd?
  | r :: rest =>
    let c := Char.ofNat r
    if s.column == 0 && c == '%' then s.directive?
    else if s.marksDocument 45 then s.documentMark? .documentStart
    else if s.marksDocument 46 then s.documentMark? .documentEnd
    else if c == '[' then s.flowStart? .flowSequenceStart
    else if r == 123 then s.flowStart? .flowMappingStart
    else if c == ']' then s.flowEnd? .flowSequenceEnd
    else if r == 125 then s.flowEnd? .flowMappingEnd
    else if c == ',' then s.flowEntry?
    else if c == '-' && blankOrEnd rest then s.blockEntry?
    else if c == '?' && (s.flow > 0 || blankOrEnd rest) then s.keyMark?
    else if c == ':' && (s.flow > 0 || blankOrEnd rest) then s.valueMark?
    else if c == '*' then s.anchor? .alias
    else if c == '&' then s.anchor? .anchor
    else if c == '!' then s.tag?
    else if c == '|' && s.flow == 0 then s.blockScalar? true
    else if c == '>' && s.flow == 0 then s.blockScalar? false
    else if c == '\'' then s.quotedScalar? true
    else if c == '"' then s.quotedScalar? false
    else if s.startsPlain then s.plainScalar?
    else none

def settle : Scanner := toNextToken (s.rest.length + 1) s

def step? : Option Scanner := (s.settle.unrollTo s.settle.column).token?

def run : Nat → Scanner → Array Token × Bool
  | 0, s => (s.tokens, s.done)
  | n + 1, s =>
    if s.done then (s.tokens, true)
    else
      match s.step? with
      | some s => run n s
      | none => (s.tokens, false)

end Scanner

def Token.scan (rs : List Rune) : Array Token × Bool :=
  Scanner.run (rs.length + 2) { rest := rs, tokens := #[.streamStart] }

end FaultRepair.Yaml
