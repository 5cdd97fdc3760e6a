/-
# Documentation comments

The comment that stands directly above a top-level declaration is text with a
simple structure: paragraphs, headings, lists, indented code and link targets.
Printing puts that structure into its standard form.
-/

import FaultRepair.Text.Letter
import FaultRepair.Source.Tree

namespace FaultRepair.Source.DocComment

open Text

/-- An item of a list: its number (empty for a bullet) and its paragraphs. -/
structure Item where
  number : Text
  paragraphs : List Text

/-- A part of a comment. A list says whether a blank line is due before it and
between its items. -/
inductive Part where
  | paragraph (text : Text)
  | heading (text : Text)
  | code (lines : List Text)
  | list (items : List Item) (blankBefore blankBetween : Bool)

/-- A link target: `[text]: url`. -/
structure Link where
  text : Text
  url : Text

def isBlankLine (l : Text) : Bool := (trimSpace l).isEmpty

def isGap (b : UInt8) : Bool := b == 32 || b == 9

def isIndented (l : Text) : Bool := l.head?.any isGap

def leadingSpace (l : Text) : Text := l.takeWhile isGap

def commonLead : Text → Text → Text
  | a :: s, b :: t => if a == b then a :: commonLead s t else []
  | _, _ => []

variable (lines : List Text)

def dropBlankEnds : List Text :=
  ((lines.dropWhile isBlankLine).reverse.dropWhile isBlankLine).reverse

/-- Lines without their common indentation, without blank lines at both ends; a
line of blanks becomes empty. -/
def unindent : List Text :=
  match dropBlankEnds lines with
  | [] => []
  | first :: rest =>
    let lead := rest.foldl
      (fun p l => if isBlankLine l then p else commonLead p (leadingSpace l)) (leadingSpace first)
    dropBlankEnds <| (first :: rest).map fun l =>
      let l := trimLead l lead
      if isBlankLine l then [] else l

/-- The marker of a list item: its number (empty for a bullet) and what follows. -/
def listMarker? (line : Text) : Option (Text × Text) := do
  let line := trimSpace line
  let (r, n) := firstRune line
  let marked ←
    if line.isEmpty then none
    else if r == 0x2022 || r == 42 || r == 43 || r == 45 then some ([], line.drop n)
    else
      let digits := line.takeWhile isDigit
      let (_ :: _, b :: rest) := (digits, line.drop digits.length) | none
      if b == 46 || b == 41 then some (digits, rest) else none
  if isIndented marked.2 && !isBlankLine marked.2 then some marked else none

def isListLine (line : Text) : Bool := (listMarker? line).isSome

def isHeadingLine (line : Text) : Bool :=
  match line with
  | h :: b :: rest => h == 35 && isGap b && !isBlankLine rest
  | _ => false

/-- Does what follows each occurrence of a byte pass a test? -/
def followed (b : UInt8) (ok : Text → Bool) : Nat → Text → Bool
  | 0, _ => true
  | fuel + 1, t => (cutAt? b t).all fun (_, after) => ok after && followed b ok fuel after

/-- A line that older comments used as a heading: it stands alone, starts with a
capital, ends in a letter or digit, and has little punctuation. -/
def isPlainHeading (lines : Array Text) (i : Nat) : Bool :=
  let line := trimSpace (lines.getD i [])
  let forbidden : Text := ";:!?+*/=[]\x7b\x7d_^°&§~%#@<\">\\"
  0 < i && (lines.getD (i - 1) []).isEmpty && i + 2 < lines.size &&
    (lines.getD (i + 1) []).isEmpty && (leadingSpace (lines.getD (i + 2) [])).isEmpty &&
    isUpperRune (firstRune line).1 && isLetterRune (firstRune line).1 &&
    ((runes line).getLast?.any fun r => isLetterRune r || isDigitRune r) &&
    !(runes line).any ((runes forbidden).contains ·) &&
    followed (byte '\'') (fun t => t == [byte 's'] || startsWith t "s ") line.length line &&
    followed (byte '.') (·.head?.any (· != 32)) line.length line

inductive Run where
  | code | heading | list | plainHeading | paragraph

/-- Split lines into runs `(first, end, kind)`. Lines before `forced` count as
indented: they were taken off a paragraph whose last lines belong to the indented
lines after it. -/
def runs (lines : Array Text) : Nat → (i forced : Nat) → List (Nat × Nat × Run)
  | 0, _, _ => []
  | fuel + 1, i, forced =>
    let line (k : Nat) : Text := lines.getD k []
    let from_ (p : Nat → Bool) (k : Nat) : Nat :=
      k + ((List.range (lines.size - k)).takeWhile fun j => p (k + j)).length
    let start := from_ (fun k => (line k).isEmpty) i
    if lines.size ≤ start then []
    else if start < forced || isIndented (line start) then
      let loose := isListLine (line start) && start < forced
      let firstBlank := from_ (fun k => !(line k).isEmpty) (start + 1)
      let inside (k : Nat) : Bool :=
        (line k).isEmpty || k < forced || isIndented (line k) ||
          (loose && k < firstBlank && isListLine (line k))
      let stop := from_ inside (start + 1)
      let trailing :=
        ((List.range (stop - start)).takeWhile fun j => (line (stop - 1 - j)).isEmpty).length
      let stop := stop - trailing
      let stop :=
        if stop < lines.size && startsWith (line stop) "\x7d" then stop + 1 else stop
      let kind := if isListLine (line start) then Run.list else Run.code
      (start, stop, kind) :: runs lines fuel stop forced
    else
      let stop := from_ (fun k => !(line k).isEmpty && !isIndented (line k)) (start + 1)
      let last := line (stop - 1)
      let abuts := stop < lines.size && !(line stop).isEmpty && !isListLine (line stop)
      let (stop, forced) :=
        if abuts && isListLine last then
          let back :=
            ((List.range (stop - start)).takeWhile fun j => isListLine (line (stop - 1 - j))).length
          (stop - back, stop)
        else if abuts && (endsWith last "\x7b" || endsWith last "\\") then (stop - 1, stop)
        else (stop, forced)
      if start == stop then runs lines fuel start forced
      else
        let kind :=
          if stop == start + 1 && isHeadingLine (line start) then Run.heading
          else if stop == start + 1 && isPlainHeading lines start then Run.plainHeading
          else Run.paragraph
        (start, stop, kind) :: runs lines fuel stop forced

def isScheme (s : Text) : Bool :=
  !s.isEmpty && s.all fun b => isAlpha b || isDigit b || b == 43 || b == 45 || b == 46

def link? (line : Text) : Option Link := do
  guard (line.head? == some (byte '['))
  let (before, after) ← cut? "]:" line
  let b :: url := after | none
  guard (isGap b && !url.isEmpty)
  let url := trimSpace url
  let (scheme, _) ← cut? "://" url
  guard (isScheme scheme)
  some { text := before.drop 1, url }

/-- A paragraph in which every line is a link target holds no text. -/
def paragraphOf : List Link × Option Text :=
  match lines.mapM link? with
  | some links => (links, none)
  | none => ([], some (join [10] lines))

/-- Doubled quote marks become curly ones; three or more backquotes stay. -/
def curlyQuotes : Nat → Text → Text
  | 0, t => t
  | fuel + 1, t =>
    let bq : UInt8 := 96
    match t with
    | [] => []
    | a :: rest =>
      if startsWith t [bq, bq, bq] then
        t.takeWhile (· == bq) ++ curlyQuotes fuel (t.dropWhile (· == bq))
      else if startsWith t [bq, bq] then
        Text.ofString "“" ++ curlyQuotes fuel (t.drop 2)
      else if startsWith t "''" then Text.ofString "”" ++ curlyQuotes fuel (t.drop 2)
      else a :: curlyQuotes fuel rest

def plain (t : Text) : Text := curlyQuotes t.length t

/-- Collect the items of a list: `(items, paragraphs, lines)` under construction,
each last first. -/
structure ListState where
  items : List Item := []
  lines : List Text := []
  links : List Link := []
  blank : Bool := false

def ListState.flush (s : ListState) : ListState :=
  match s.items with
  | [] => { s with lines := [] }
  | item :: items =>
    let (links, text) := paragraphOf s.lines.reverse
    let item := { item with paragraphs := item.paragraphs ++ text.toList }
    { s with items := item :: items, lines := [], links := s.links ++ links }

def listStep (numbered : Bool) (s : ListState) (line : Text) : ListState :=
  let (s, line) := match (listMarker? line).filter (!·.1.isEmpty == numbered) with
    | some (number, after) =>
      let s := s.flush
      ({ s with items := ⟨number, []⟩ :: s.items }, after)
    | none => (s, line)
  let line := trimSpace line
  if line.isEmpty then { s.flush with blank := true } else { s with lines := line :: s.lines }

def listOf (blankBefore : Bool) : List Link × Part :=
  let numbered := (listMarker? (lines.headD [])).any (!·.1.isEmpty)
  let s := (lines.foldl (listStep numbered) {}).flush
  let items := s.items.reverse
  let between := s.blank || items.any (·.paragraphs.length != 1)
  (s.links, .list items (blankBefore || between) between)

def parse (text : Text) : List Part × List Link :=
  let lines := (unindent (splitAt 10 text)).toArray
  let step (acc : List Part × List Link × Nat) (run : Nat × Nat × Run) :=
    let (parts, links, previous) := acc
    let (start, stop, kind) := run
    let part := (lines.extract start stop).toList
    match kind with
    | .list =>
      let (ls, p) := listOf part (previous < start)
      (parts ++ [p], links ++ ls, stop)
    | .code => (parts ++ [.code (unindent part)], links, stop)
    | .heading =>
      (parts ++ [.heading (trimSpace ((lines.getD start []).drop 1))], links, stop)
    | .plainHeading => (parts ++ [.heading (trimSpace (lines.getD start []))], links, stop)
    | .paragraph =>
      match paragraphOf part with
      | (_, some text) => (parts ++ [.paragraph text], links, stop)
      | (ls, none) => (parts, links ++ ls, stop)
  let (parts, links, _) := (runs lines (2 * lines.size + 2) 0 0).foldl step ([], [], 0)
  (parts, links)

def renderItem (item : Item) : Text :=
  let indent : Text := "    "
  let mark := if item.number.isEmpty then Text.ofString "  - " else " " ++ item.number ++ ". "
  mark ++ join ("\n" ++ indent)
    (item.paragraphs.map fun p => replaceByte 10 ("\n" ++ indent) (plain p) ++ "\n")

def Part.render : Part → Text
  | .paragraph t => plain t ++ "\n"
  | .heading t => "# " ++ t ++ "\n"
  | .code lines => lines.flatMap fun l => if l.isEmpty then [10] else 9 :: (l ++ "\n")
  | .list items _ between => join (if between then [10] else []) (items.map renderItem)

def Part.texts : Part → List Text
  | .paragraph t => [t]
  | .list items _ _ => items.flatMap (·.paragraphs)
  | _ => []

def Part.blankBefore : Part → Bool
  | .list _ b _ => b
  | _ => true

def renderLinks (links : List Link) : Text :=
  if links.isEmpty then []
  else 10 :: links.flatMap fun l => "[" ++ l.text ++ "]: " ++ l.url ++ "\n"

/-- The standard form of a comment's text. Link targets that the text uses come
after it, then the others. -/
def standardText (text : Text) : Text :=
  let (parts, links) := parse text
  let body := parts.zipIdx.flatMap fun (p, i) =>
    (if 0 < i && p.blankBefore then [10] else []) ++ p.render
  let used (l : Link) : Bool :=
    parts.any fun p => p.texts.any fun t => contains t ("[" ++ l.text ++ "]")
  body ++ renderLinks (links.filter used) ++ renderLinks (links.filter fun l => !used l)

def isTagByte (b : UInt8) : Bool := (97 ≤ b && b ≤ 122) || isDigit b

/-- Is the text after `//` an instruction to a tool, such as `go:embed`? -/
def isDirective (t : Text) : Bool :=
  startsWith t "line " || startsWith t "extern " || startsWith t "export " ||
    match cutAt? (byte ':') t with
    | some (tool, name :: _) => !tool.isEmpty && tool.all isTagByte && isTagByte name
    | _ => false

/-- Does every line but the first of a block comment start with a star? -/
def allStars (text : Text) : Bool :=
  ((splitAt 10 text).drop 1).all fun l => (l.dropWhile isGap).head?.all (· == 42)

def lineComment (pos : Pos) (line : Text) : Comment :=
  { pos
    text := if line.isEmpty then Text.ofString "//" else if line.head? == some 9 then "//" ++ line
      else "// " ++ line }

/-- The standard form of a documentation comment. Its comments all carry the
position of the first one. -/
def standard (group : CommentGroup) : CommentGroup :=
  match group, group.mapM fun c => dropLead? "//" c.text with
  | _, some bodies =>
    let text := (bodies.filter (!isDirective ·)).flatMap fun b => trimLead b " " ++ "\n"
    if text.isEmpty then group
    else
      let pos := group.pos
      let lines := (splitAt 10 (standardText text)).dropLast
      let directives := (group.filter fun c => isDirective (c.text.drop 2)).map
        fun c => { pos, text := c.text : Comment }
      lines.map (lineComment pos) ++
        (if directives.isEmpty then [] else { pos, text := "//" } :: directives)
  | [c], none =>
    if !startsWith c.text "/*" || !c.text.any (· == 10) || allStars c.text then group
    else
      let inner := (c.text.drop 2).take (c.text.length - 4)
      [{ pos := c.pos, text := "/*\n" ++ standardText inner ++ "*/" }]
  | _, none => group

end FaultRepair.Source.DocComment
