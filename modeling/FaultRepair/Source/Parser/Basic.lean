/-
# Reading lexemes

The state a parser threads through the grammar: the lexeme it looks at, the
comments it has passed, and the errors it has reported. After more than ten
errors parsing is given up; an error on the line of the one before is dropped as
a likely consequence of it.

A comment group ends at a blank line or at another token. The group directly
above the current token is its lead comment; a group on the line of the token
before, with nothing after it, is the line comment.
-/

import FaultRepair.Source.Lexer
import FaultRepair.Source.Span

namespace FaultRepair.Source

open Text

structure ParseIssue where
  place : Place
  message : Text

namespace Parser

structure State where
  lexemes : Array Lexeme
  index : Nat := 0
  table : LineTable
  pos : Pos := noPos
  tok : Token := .illegal
  lit : Text := []
  comments : Array CommentGroup := #[]
  leadComment : Option CommentGroup := none
  lineComment : Option CommentGroup := none
  issues : Array ParseIssue := #[]
  syncPos : Pos := noPos
  syncCount : Nat := 0
  /-- Negative inside the header of a control statement, where a brace opens a
  block rather than a composite literal. -/
  exprLevel : Int := 0
  inRhs : Bool := false

end Parser

/-- A parser step; it fails when parsing is given up. -/
abbrev Parse := EStateM Unit Parser.State

namespace Parser

/-- An amount of steps that no loop over what is left can exceed. -/
def fuel : Parse Nat := do return 16 * (← get).lexemes.size + 64

@[inline] def tok : Parse Token := do return (← get).tok

@[inline] def pos : Parse Pos := do return (← get).pos

@[inline] def at? (t : Token) : Parse Bool := do return (← get).tok == t

/-- Is the current lexeme a semicolon that stands for a newline? -/
def atNewline : Parse Bool := do
  let s ← get
  return s.tok == .semicolon && s.lit == [10]

def readRaw : Parse Unit := modify fun s =>
  let l := s.lexemes.getD s.index (s.lexemes.back?.getD default)
  { s with
    index := s.index + 1
    pos := l.pos, tok := l.token, lit := l.lit
    issues := if s.index < s.lexemes.size then
        l.faults.foldl (fun acc f => acc.push ⟨s.table.place (f.offset + 1), f.message⟩) s.issues
      else s.issues }

def commentLines (lit : Text) : Nat :=
  if lit.getD 1 0 == byte '*' then lit.count 10 else 0

def commentGroup (gap : Nat) : Nat → Int → List Comment → Parse (CommentGroup × Int)
  | 0, endLine, acc => return (acc.reverse, endLine)
  | n + 1, endLine, acc => do
    let s ← get
    if s.tok == .comment && s.table.line s.pos ≤ endLine + gap then
      readRaw
      commentGroup gap n (s.table.line s.pos + commentLines s.lit) (⟨s.pos, s.lit⟩ :: acc)
    else return (acc.reverse, endLine)

def readGroup (gap : Nat) : Parse (CommentGroup × Int) := do
  let s ← get
  let (group, endLine) ← commentGroup gap (s.lexemes.size + 1) (s.table.line s.pos) []
  modify fun s => { s with comments := s.comments.push group }
  return (group, endLine)

def readGroups : Nat → CommentGroup → Int → Parse (CommentGroup × Int)
  | 0, group, endLine => return (group, endLine)
  | n + 1, group, endLine => do
    if ← at? .comment then
      let (group, endLine) ← readGroup 1
      readGroups n group endLine
    else return (group, endLine)

/-- Move to the next lexeme that is no comment, filing the comments passed. -/
def next : Parse Unit := do
  let before := (← get).pos
  modify fun s => { s with leadComment := none, lineComment := none }
  readRaw
  if ← at? .comment then
    let s ← get
    let mut group : CommentGroup := []
    if s.table.line s.pos == s.table.line before then
      let (first, endLine) ← readGroup 0
      group := first
      let s ← get
      if s.table.line s.pos != endLine || s.tok == .semicolon || s.tok == .eof then
        modify fun s => { s with lineComment := some first }
    let (last, endLine) ← readGroups ((← get).lexemes.size + 1) group (-1)
    let s ← get
    if endLine + 1 == s.table.line s.pos then
      modify fun s => { s with leadComment := some last }

/-- Report an error; give up after too many. -/
def report (p : Pos) (message : Text) : Parse Unit := do
  let s ← get
  let place := s.table.place p
  let some last := s.issues.back? | set { s with issues := s.issues.push ⟨place, message⟩ }
  if last.place.line == place.line then return ()
  else if 10 < s.issues.size then throw ()
  else set { s with issues := s.issues.push ⟨place, message⟩ }

/-- Report that something else was expected, and say what was found instead if
that is the current lexeme. -/
def reportExpected (p : Pos) (what : Text) : Parse Unit := do
  let s ← get
  let found : Text :=
    if p != s.pos then []
    else if s.tok == .semicolon && s.lit == [10] then ", found newline"
    else if s.tok.isLiteral then ", found " ++ s.lit
    else ", found '" ++ s.tok.text ++ "'"
  report p ("expected " ++ what ++ found)

def take : Parse Pos := do
  let p ← pos
  next
  return p

def pass? (t : Token) : Parse Bool := do
  let found ← at? t
  if found then next
  return found

/-- Pass a lexeme of the class, or report that it is missing and pass what stands
there. Returns the position. -/
def expect (t : Token) : Parse Pos := do
  unless ← at? t do reportExpected (← pos) ("'" ++ t.text ++ "'")
  take

/-- Like `expect`, with no position if the lexeme is missing. -/
def expectOrNone (t : Token) : Parse Pos := do
  let found ← at? t
  let p ← expect t
  return if found then p else noPos

/-- Like `expect`, with a clearer message for a comma left out before a newline. -/
def expectClosing (t : Token) (context : Text) : Parse Pos := do
  if !(← at? t) && (← atNewline) then
    report (← pos) ("missing ',' before newline in " ++ context)
    next
  expect t

def advanceLoop (stops : List Token) : Nat → Parse Unit
  | 0 => return ()
  | n + 1 => do
    let s ← get
    if s.tok == .eof then return ()
    else if stops.contains s.tok && s.pos == s.syncPos && s.syncCount < 10 then
      set { s with syncCount := s.syncCount + 1 }
    else if stops.contains s.tok && s.syncPos < s.pos then
      set { s with syncPos := s.pos, syncCount := 0 }
    else
      next
      advanceLoop stops n

/-- Skip to one of the given classes, making sure that parsing moves on. -/
def advance (stops : List Token) : Parse Unit := do advanceLoop stops (← fuel)

def stmtStart : List Token :=
  [.kwBreak, .kwConst, .kwContinue, .kwDefer, .kwFallthrough, .kwFor, .kwGo, .kwGoto, .kwIf,
   .kwReturn, .kwSelect, .kwSwitch, .kwType, .kwVar]

def declStart : List Token := [.kwImport, .kwConst, .kwType, .kwVar]

def exprEnd : List Token := [.comma, .colon, .semicolon, .rparen, .rbrack, .rbrace]

/-- Pass the end of a statement and return the comment that follows it. -/
def expectSemi : Parse (Option CommentGroup) := do
  let s ← get
  if s.tok == .rparen || s.tok == .rbrace then return none
  else if s.tok == .comma || s.tok == .semicolon then
    if s.tok == .comma then reportExpected s.pos "';'"
    next
    let after := (← get).lineComment
    return if s.tok == .semicolon && s.lit == ofString ";" then after else s.lineComment
  else
    reportExpected s.pos "';'"
    advance stmtStart
    return none

/-- Report that something is missing, skip what stands there, and return its span. -/
def skip (what : Text) (stops : List Token) : Parse (Pos × Pos) := do
  let p ← pos
  reportExpected p what
  advance stops
  return (p, ← pos)

/-- Pass a comma, or what stands in its place if that does not close the list. -/
def passComma (context : Text) (follow : Token) : Parse Bool := do
  let s ← get
  if s.tok == follow then return false
  if s.tok != .comma then
    let newline : Text := if ← atNewline then " before newline" else []
    report s.pos ("missing ','" ++ newline ++ " in " ++ context)
  next
  return true

def before? (closing : Token) : Parse Bool := do
  let t ← tok
  return t != closing && t != .eof

/-- What has been read already, or what is read now. -/
def given (a : Option α) (p : Parse α) : Parse α :=
  match a with
  | some a => pure a
  | none => p

def collectLoop (more : Parse Bool) (item : Parse α) (goOn : Parse Bool) :
    Nat → Array α → Parse (Array α)
  | 0, acc => return acc
  | n + 1, acc => do
    if ← more then
      let a ← item
      if ← goOn then collectLoop more item goOn n (acc.push a) else return acc.push a
    else return acc

def collect (more : Parse Bool) (item : Parse α) : Parse (List α) := do
  return (← collectLoop more item (return true) (← fuel) #[]).toList

def collectSeparated (more : Parse Bool) (item : Parse α) (separator : Parse Bool) :
    Parse (List α) := do
  return (← collectLoop more item separator (← fuel) #[]).toList

/-- Run a step with composite literals allowed, as inside brackets. -/
def nested (p : Parse α) : Parse α := do
  modify fun s => { s with exprLevel := s.exprLevel + 1 }
  let a ← p
  modify fun s => { s with exprLevel := s.exprLevel - 1 }
  return a

/-- Run a step as the header of a control statement. -/
def header (p : Parse α) : Parse α := do
  let before := (← get).exprLevel
  modify fun s => { s with exprLevel := -1 }
  let a ← p
  modify fun s => { s with exprLevel := before }
  return a

/-- Run a step on the right-hand side of an assignment or not. -/
def withRhs (rhs : Bool) (p : Parse α) : Parse α := do
  let before := (← get).inRhs
  modify fun s => { s with inRhs := rhs }
  let a ← p
  modify fun s => { s with inRhs := before }
  return a

/-- A name; a blank one where it is missing. -/
def ident : Parse Ident := do
  let s ← get
  let p ← expect .ident
  return ⟨p, if s.tok == .ident then s.lit else "_"⟩

def identList : Parse (List Ident) := do
  return (← ident) :: (← collect (pass? .comma) ident)

end Parser

end FaultRepair.Source
