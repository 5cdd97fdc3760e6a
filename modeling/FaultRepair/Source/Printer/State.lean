/-
# The printer's output

Printing writes tokens and remembers the white space due before the next one.
Comments of the file are put in where their positions fall, and then the pending
white space decides how they are set off. The author's line breaks are kept, up
to one empty line.
-/

import FaultRepair.Source.DocComment
import FaultRepair.Source.Span
import FaultRepair.Source.Printer.BuildLines

namespace FaultRepair.Source

namespace Printer

open Text

/-- Where something stands: byte offset, line and column. A line of zero means
that it stands nowhere. -/
structure Spot where
  offset : Nat := 0
  line : Nat := 0
  column : Nat := 0
  deriving DecidableEq

def Spot.right (p : Spot) (n : Nat) : Spot :=
  { p with offset := p.offset + n, column := p.column + n }

/-- White space that is due before the next token. -/
inductive White where
  | ignore | blank | vtab | newline | formFeed | indent | unindent
  deriving DecidableEq

/-- The comment group to be printed next, where it starts, and whether printing it
ends the line. -/
structure Pending where
  group : CommentGroup
  offset : Nat
  breaksLine : Bool

/-- The state of printing. `pos` is where we are in the source, `out` where in
the output, `last` the source position after the last token. With `ownComments`
the comments attached to nodes are printed, else those of the file. -/
structure State where
  table : LineTable
  normalize : Bool := true
  output : Array UInt8 := #[]
  indent : Nat := 0
  level : Nat := 0
  noExtraBlank : Bool := false
  noExtraLinebreak : Bool := false
  endAlignment : Bool := false
  impliedSemi : Bool := false
  lastTok : Option Token := none
  prevOpen : Option Token := none
  white : List White := []
  pos : Spot := { line := 1, column := 1 }
  out : Spot := { line := 1, column := 1 }
  last : Spot := {}
  marks : Array Nat := #[]
  openMark : Option Nat := none
  comments : List CommentGroup := []
  pending : Option Pending := none
  ownComments : Bool := false
  /-- Where in the output conditions on builds stand, in both notations. -/
  conditions : List Nat := []
  oldConditions : List Nat := []

end Printer

abbrev Print := StateM Printer.State

namespace Printer

open Text

def infinity : Nat := 1073741824

def maxNewlines : Nat := 2

def spot (p : Pos) : Print Spot := do
  let t := (← get).table
  return { offset := p - 1, line := t.physicalLine p, column := t.physicalColumn p }

def line (p : Pos) : Print Nat := do return (← get).table.physicalLine p

def setPos (p : Pos) : Print Unit := do
  if p != noPos then
    let s ← spot p
    modify ({ · with pos := s })

def atStart : Print Bool := do return (← get).output.isEmpty

def writeIndent : Print Unit := modify fun s =>
  let n := s.indent
  { s with
    output := s.output ++ Array.replicate n 9
    pos := s.pos.right n
    out := s.out.right n }

/-- Write a white space byte `n` times. After a literal that spans lines the rest
of its line is not aligned. -/
def writeByte (b : UInt8) (n : Nat) : Print Unit := do
  let s ← get
  let isBreak := b == 10 || b == Printer.formFeed
  let b :=
    if s.endAlignment then
      if b == 9 || b == Printer.vtab then 32 else if isBreak then Printer.formFeed else b
    else b
  modify fun s => { s with endAlignment := s.endAlignment && !isBreak }
  if (← get).out.column == 1 then writeIndent
  modify fun s =>
    let move (p : Spot) : Spot :=
      if isBreak then { offset := p.offset + n, line := p.line + n, column := 1 } else p.right n
    { s with output := s.output ++ Array.replicate n b, pos := move s.pos, out := move s.out }

/-- Write text that stands at a spot. A literal is protected from alignment. -/
def writeText (at_ : Spot) (text : Text) (literal : Bool) : Print Unit := do
  if (← get).out.column == 1 then writeIndent
  let breaks := text.countP fun b => b == 10 || b == Printer.formFeed
  let tail := (text.reverse.takeWhile fun b => b != 10 && b != Printer.formFeed).length
  modify fun s =>
    let s := if at_.line != 0 then { s with pos := at_ } else s
    let around : Text := if literal then [escape] else []
    let move (p : Spot) : Spot :=
      { offset := p.offset + text.length
        line := p.line + breaks
        column := if 0 < breaks then tail + 1 else p.column + text.length }
    let pos := move s.pos
    { s with
      output := s.output.appendList (around ++ text ++ around)
      endAlignment := s.endAlignment || 0 < breaks
      pos
      out := move s.out
      last := pos }

def breaksLine (group : CommentGroup) : Print Bool := do
  let first ← line group.pos
  let lines ← group.mapM fun c => line c.pos
  return lines.any (· != first) ||
    group.any fun c => c.text[1]? == some (byte '/') || c.text.any (· == 10)

def nextComment : Print Unit := do
  match (← get).comments.dropWhile (·.isEmpty) with
  | [] => modify ({ · with comments := [], pending := none })
  | g :: rest =>
    let b ← breaksLine g
    modify ({ · with comments := rest, pending := some ⟨g, g.pos - 1, b⟩ })

variable (next : Spot)

/-- Does the pending comment group go before a spot, without ending a line where
that would end a statement? -/
def commentBefore : Print Bool := do
  let s ← get
  let some p := s.pending | return false
  return p.offset < next.offset && (!s.impliedSemi || !p.breaksLine)

def commentSizeLoop (next : Spot) : Nat → Nat → Print Nat
  | 0, size => return size
  | fuel + 1, size => do
    let some p := (← get).pending | return size
    if !(← commentBefore next) then return size
    nextComment
    commentSizeLoop next fuel (p.group.foldl (fun n c => n + c.text.length) size)

def commentSizeBefore : Print Nat := do
  let s ← get
  let size ← commentSizeLoop next (s.comments.length + 1) 0
  modify ({ · with comments := s.comments, pending := s.pending })
  return size

/-- Write pending white space. A line break directly before an unindent changes
places with it, so that labels stand to the left. -/
def writeWhites : Nat → List White → Print Unit
  | 0, _ => return
  | _, [] => return
  | fuel + 1, w :: ws => do
    match w, ws with
    | .newline, .unindent :: rest | .formFeed, .unindent :: rest =>
      return ← writeWhites fuel (.unindent :: .formFeed :: rest)
    | .ignore, _ => pure ()
    | .indent, _ => modify fun s => { s with indent := s.indent + 1 }
    | .unindent, _ => modify fun s => { s with indent := s.indent - 1 }
    | .newline, _ => writeByte 10 1
    | .formFeed, _ => writeByte Printer.formFeed 1
    | .blank, _ => writeByte 32 1
    | .vtab, _ => writeByte Printer.vtab 1
    writeWhites fuel ws

def writeWhite (n : Nat) : Print Unit := do
  let ws := (← get).white
  let due := ws.take n
  modify ({ · with white := ws.drop n })
  writeWhites (due.length * due.length + due.length + 1) due

def isBlockComment (c : Comment) : Bool := c.text[1]? == some (byte '*')
def isLineComment (c : Comment) : Bool := c.text[1]? == some (byte '/')

/-- For a comment on the line of the last token: pass over blanks (dropped), tabs
and indentation. The result is the white space, how many entries were passed
before another kind (zero if there is none), and whether a tab was seen. -/
def passSameLine : Nat → Bool → List White → List White × Nat × Bool
  | _, tab, [] => ([], 0, tab)
  | i, tab, w :: ws =>
    let go (w : White) (tab : Bool) :=
      let (rest, j, tab) := passSameLine (i + 1) tab ws
      (w :: rest, j, tab)
    match w with
    | .blank => go .ignore tab
    | .vtab => go .vtab true
    | .indent => go .indent tab
    | w => (w :: ws, i, tab)

/-- For a comment on another line: pass over horizontal space (dropped) and
indentation, up to the first line break, which is dropped. An unindent is passed
only if it does not close the block the comment belongs to. -/
def passOtherLine (aligned : Bool) : Nat → List White → List White × Nat × Bool
  | _, [] => ([], 0, false)
  | i, w :: ws =>
    let go (w : White) :=
      let (rest, j, dropped) := passOtherLine aligned (i + 1) ws
      (w :: rest, j, dropped)
    match w with
    | .blank | .vtab => go .ignore
    | .indent => go .indent
    | .unindent =>
      if ws.head? == some .unindent || aligned then go .unindent else (w :: ws, i, false)
    | .newline | .formFeed => (.ignore :: ws, i, true)
    | .ignore => (w :: ws, i, false)

/-- The white space before a comment at `pos`, where `next` is the next token's
spot and `prev` the comment before it in the run. -/
def writeCommentLead (pos next : Spot) (prev : Option Comment) (tok : Token) :
    Print Unit := do
  let s ← get
  let afterLine := prev.any isLineComment
  if s.output.isEmpty then return
  if pos.line == s.last.line && !afterLine then
    let (white, j, tabbed) :=
      if prev.isNone then passSameLine 0 false s.white else (s.white, 0, false)
    modify ({ · with white })
    writeWhite j
    if !tabbed then writeByte (if pos.line == next.line then 32 else 9) 1
  else
    let aligned := tok != .rbrace && pos.column == next.column
    let (white, j, dropped) := passOtherLine aligned 0 s.white
    modify ({ · with white })
    writeWhite j
    let s ← get
    let n := if pos.line != 0 && s.last.line != 0 then pos.line - s.last.line else 0
    let n := if s.indent == 0 && dropped && prev.isNone then n + 1 else n
    let n := if n == 0 && afterLine then 1 else n
    if 0 < n then writeByte Printer.formFeed (min n maxNewlines)

def isBlankText (t : Text) : Bool := t.all (· ≤ 32)

def commonSpace : Text → Text → Text
  | a :: s, b :: t => if a == b && (a ≤ 32 || a == 42) then a :: commonSpace s t else []
  | _, _ => []

/-- The indentation to remove from a block comment without a line of stars: part of
it stands for the comment's opening on the first line. -/
def withoutOpening (lead first : Text) : Text :=
  let afterOpening := first.drop 2
  if isBlankText afterOpening then
    let blanks := min 3 (lead.reverse.takeWhile (· == 32)).length
    if 0 < blanks then lead.take (lead.length - blanks)
    else if lead.getLast? == some 9 then lead.dropLast
    else lead
  else
    let space := afterOpening.takeWhile (· ≤ 32)
    if space.head? == some 9 then trimTail lead space else trimTail lead ("  " ++ space)

/-- The lines of a block comment with the indentation removed that they share. -/
def stripIndent : List Text → List Text
  | [] => []
  | [l] => [l]
  | first :: rest =>
    let inner := rest.dropLast.map fun l => if isBlankText l then [] else l
    let last := rest.getLastD []
    let lead := match inner.filter (!·.isEmpty) with
      | [] => commonSpace last last
      | l :: ls => ls.foldl commonSpace (commonSpace l l)
    let (lead, stars) := match cutAt? 42 lead with
      | some (before, _) => (trimTail before " ", true)
      | none => (withoutOpening lead first, false)
    let closing : Text := "*/"
    let beforeClose := ((cut? closing last).map (·.1)).getD last
    let (last, lead) :=
      if isBlankText beforeClose then
        (lead ++ (if stars then Text.ofString " */" else closing), lead)
      else (last, commonSpace lead last)
    first :: (inner ++ [last]).map fun l => if l.isEmpty then l else l.drop lead.length

def writeLines (pos : Spot) (lines : List Text) : Print Unit := do
  for (l, i) in lines.zipIdx do
    if 0 < i then writeByte Printer.formFeed 1
    let current := (← get).pos
    if !l.isEmpty then writeText (if i == 0 then pos else current) (trimSpaceRight l) true

/-- Write a comment. A line directive in the first column stays there. -/
def writeComment (c : Comment) : Print Unit := do
  let pos ← spot c.pos
  let indent := (← get).indent
  let directive := startsWith c.text "//line " && (pos.line == 0 || pos.column == 1)
  if directive then modify ({ · with indent := 0 })
  if isLineComment c then
    if (Condition.textIn? c.text).isSome then
      modify fun s => { s with conditions := s.conditions ++ [s.output.size] }
    else if (Condition.oldTextIn? c.text).isSome then
      modify fun s => { s with oldConditions := s.oldConditions ++ [s.output.size] }
    writeText pos (trimSpaceRight c.text) true
  else
    let lines := splitAt 10 c.text
    let lines :=
      if pos.line != 0 && pos.column == 1 && 0 < indent then
        lines.take 1 ++ (lines.drop 1).map fun l : Text => "   " ++ l
      else lines
    writeLines pos (stripIndent lines)
  if directive then modify ({ · with indent })

/-- Keep at most the one line break that is needed among the pending white space.
The result is the white space and whether a line break was kept, is still needed,
and whether a form feed was dropped. -/
def passAfterComment : (needed kept droppedFF : Bool) → List White →
    List White × Bool × Bool × Bool
  | needed, kept, ff, [] => ([], kept, needed, ff)
  | needed, kept, ff, w :: ws =>
    let go (w : White) (needed kept ff : Bool) :=
      let (rest, r) := passAfterComment needed kept ff ws
      (w :: rest, r)
    match w with
    | .blank | .vtab => go .ignore needed kept ff
    | .newline | .formFeed =>
      if needed then go w false true ff else go .ignore false kept (ff || w == .formFeed)
    | w => go w needed kept ff

/-- The white space after comments; the result says whether a line break was
written and whether a form feed was dropped. -/
def writeCommentTail (needsLinebreak : Bool) : Print (Bool × Bool) := do
  let (white, kept, needed, ff) := passAfterComment needsLinebreak false false (← get).white
  modify ({ · with white })
  writeWhite white.length
  if needed then writeByte 10 1
  return (kept || needed, ff)

def writeGroup (tok : Token) (last : Option Comment) (group : List Comment) :
    Print (Option Comment) :=
  group.foldlM (fun last c => do
    writeCommentLead (← spot c.pos) next last tok
    writeComment c
    return some c) last

/-- Print comments up to a spot. The result is the last comment, or the outcome if
printing is over since a documentation comment vanished. -/
def writeGroups (next : Spot) (tok : Token) :
    Nat → Option Comment → Print (Option Comment ⊕ (Bool × Bool))
  | 0, last => return .inl last
  | fuel + 1, last => do
    if !(← commentBefore next) then return .inl last
    let some p := (← get).pending | return .inl last
    let start ← spot p.group.pos
    let after ← spot (p.group.stop + 1)
    if (← get).lastTok != some .kwImport && start.column == 1 && after == next then
      let group := DocComment.standard p.group
      if group.isEmpty then
        writeCommentLead start next last tok
        modify ({ · with pos := next, last := next })
        nextComment
        return .inr (← writeCommentTail false)
      let _ ← writeGroup next tok last group
      let stop ← spot p.group.stop
      modify ({ · with pos := stop, last := stop })
      nextComment
      writeGroups next tok fuel p.group.getLast?
    else
      let last ← writeGroup next tok last p.group
      nextComment
      writeGroups next tok fuel last

def isBreak (w : White) : Bool := w == .newline || w == .formFeed

/-- Print the comments that go before the next token, and the pending white space. -/
def intersperse (tok : Token) : Print (Bool × Bool) := do
  match ← writeGroups next tok ((← get).comments.length + 2) none with
  | .inr outcome => return outcome
  | .inl none => return (false, false)
  | .inl (some last) =>
    let s ← get
    let lastLine ← line last.pos
    let setsOff := !s.noExtraBlank && isBlockComment last && lastLine == next.line &&
      tok != .comma && (tok != .rparen || s.prevOpen == some .lparen) &&
      (tok != .rbrack || s.prevOpen == some .lbrack)
    let breaks := s.white.any isBreak && !s.noExtraLinebreak && s.level == 0
    if setsOff && !breaks then writeByte 32 1
    writeCommentTail (setsOff && breaks || isLineComment last || tok == .eof ||
      (tok == .rbrace && !s.noExtraLinebreak))

/-- Print what is due before the next token: comments, then white space. The
result says whether a line break was written and whether a form feed was dropped. -/
def flush (tok : Token) : Print (Bool × Bool) := do
  if ← commentBefore next then intersperse next tok
  else
    writeWhite (← get).white.length
    return (false, false)

def notePrevious : Print Unit := modify fun s =>
  if s.lastTok.isNone then s
  else { s with prevOpen := s.lastTok.filter (· matches .lparen | .lbrack) }

def white (w : White) : Print Unit := do
  notePrevious
  if w != .ignore then
    if 16 ≤ (← get).white.length then writeWhite (← get).white.length
    modify fun s =>
      { s with
        white := s.white ++ [w]
        impliedSemi := s.impliedSemi && !isBreak w
        lastTok := none }

/-- Print an item: what is due before it, the author's empty line, its text. -/
def item (tok : Token) (text : Text) (literal impliedSemi : Bool) : Print Unit := do
  notePrevious
  modify ({ · with lastTok := some tok })
  let next := (← get).pos
  let (wroteNewline, droppedFF) ← flush next tok
  let mut implied := impliedSemi
  let s ← get
  if !s.impliedSemi then
    let n := min (next.line - s.pos.line) maxNewlines
    let n := if wroteNewline && n == maxNewlines then maxNewlines - 1 else n
    if 0 < n then
      writeByte (if droppedFF then Printer.formFeed else 10) n
      implied := false
  modify fun s =>
    match s.openMark with
    | some k => { s with marks := s.marks.setIfInBounds k s.out.line, openMark := none }
    | none => s
  writeText next text literal
  modify ({ · with impliedSemi := implied })

def name (id : Ident) : Print Unit := item .ident id.name false true

def literal (l : BasicLit) : Print Unit := item l.kind l.value true true

/-- Print a stand-in for source that could not be read. -/
def standIn (t : Text) : Print Unit := item .string t true true

def combines (previous : Option Token) (b : UInt8) : Bool :=
  match previous with
  | some .int => b == byte '.'
  | some .add => b == byte '+'
  | some .sub => b == byte '-'
  | some .quo => b == byte '*'
  | some .lss => b == byte '-' || b == byte '<'
  | some .and => b == byte '&' || b == byte '^'
  | _ => false

def impliesSemi (t : Token) : Bool :=
  t matches .kwBreak | .kwContinue | .kwFallthrough | .kwReturn | .inc | .dec
    | .rparen | .rbrack | .rbrace

/-- Print a token; a blank keeps it apart from one it would combine with. -/
def token (t : Token) : Print Unit := do
  if combines (← get).lastTok (t.text.headD 0) then modify ({ · with white := [.blank] })
  item t t.text false (impliesSemi t)

def tokenAt (p : Pos) (t : Token) : Print Unit := do
  setPos p
  token t

def spaced (t : Token) : Print Unit := do
  token t
  white .blank

def newMark : Print Nat := modifyGet fun s => (s.marks.size, { s with marks := s.marks.push 0 })

def mark (k : Nat) : Print Unit := modify ({ · with openMark := some k })

def movedSince (k : Nat) : Print Bool := do
  let s ← get
  return s.marks.getD k 0 < s.out.line

def bumpMark (k : Nat) : Print Unit := modify fun s => { s with marks := s.marks.modify k (· + 1) }

/-- Print the line breaks that lead to a line, at least `least`. `w` goes before
the first of them, which is a form feed in a new section. The result is how many
there were, a form feed counting for two. -/
def linebreak (toLine least : Nat) (w : White) (newSection : Bool) : Print Nat := do
  let n := max (min (toLine - (← get).pos.line) maxNewlines) least
  if n == 0 then return 0
  white w
  if newSection then white .formFeed
  for _ in [newSection.toNat:n] do white .newline
  return n + newSection.toNat

/-- Print items on one line, with a separator and a blank between two of them. -/
def inLine (sep item : α → Print Unit) : List α → Print Unit
  | [] => return
  | x :: xs => do
    item x
    for y in xs do
      sep y
      white .blank
      item y

/-- Print items on lines of their own; one that spans lines ends a section. -/
def onLines (pos : α → Pos) (item : α → Print Unit) (xs : List α) : Print Unit := do
  let k ← newMark
  for (x, i) in xs.zipIdx do
    if 0 < i then
      let _ ← linebreak (← line (pos x)) 1 .ignore (← movedSince k)
    mark k
    item x

/-- Make the comment of a node the next to be printed, when nodes' own comments
are printed. -/
def ownComment (g : Option CommentGroup) : Print Unit := do
  let some g := g | return
  if (← get).ownComments then
    if !(← get).comments.isEmpty then
      let _ ← flush (← spot g.pos) .illegal
    modify ({ · with comments := [g] })
    if (← get).pending.isNone then nextComment

end Printer

end FaultRepair.Source
