/-
# Positions in a source file

A position is a byte offset into one file, counted from one so that zero can mean
"no position". A line table turns it into a line and a column. Files may carry
line directives; from the directive on, the reported file name and line follow
it, and the column is only known where the directive states one.
-/

import FaultRepair.Text.Path

namespace FaultRepair.Source

/-- A position in a file: byte offset plus one, or zero for none. -/
abbrev Pos := Nat

def noPos : Pos := 0

/-- What a line directive says from `offset` on. A column of zero is unknown. -/
structure LineDirective where
  offset : Nat
  file : Text
  line : Nat
  column : Nat

/-- The lines of a file: its name, size, the offsets at which lines start, and its
line directives in order. -/
structure LineTable where
  name : Text := []
  size : Nat := 0
  starts : Array Nat := #[0]
  directives : Array LineDirective := #[]
  deriving Inhabited

/-- A position for people: file name, line and column, counted from one. A column
of zero is unknown. -/
structure Place where
  file : Text
  line : Int
  column : Int

namespace LineTable

def searchLine (starts : Array Nat) (offset : Nat) : Nat → Nat → Nat → Nat
  | 0, lo, _ => lo
  | fuel + 1, lo, hi =>
    if hi ≤ lo then lo
    else
      let mid := (lo + hi) / 2
      if starts.getD mid 0 ≤ offset then searchLine starts offset fuel (mid + 1) hi
      else searchLine starts offset fuel lo mid

variable (t : LineTable)

/-- The number of lines that start at or before `offset`, which is the number of
the line it lies on. -/
def lineOfOffset (offset : Nat) : Nat :=
  searchLine t.starts offset (t.starts.size + 1) 0 t.starts.size

/-- The line of a position as counted in the file itself. -/
def physicalLine (p : Pos) : Nat :=
  if p == noPos then 0 else t.lineOfOffset (min (p - 1) t.size)

def physicalColumn (p : Pos) : Nat :=
  if p == noPos then 0
  else
    let offset := min (p - 1) t.size
    offset - t.starts.getD (t.lineOfOffset offset - 1) 0 + 1

def directiveAt? (offset : Nat) : Option LineDirective :=
  t.directives.toList.reverse.find? (·.offset ≤ offset)

/-- The place of a position, as the file's line directives have it. -/
def place (p : Pos) : Place :=
  if p == noPos then { file := [], line := 0, column := 0 }
  else
    let offset := min (p - 1) t.size
    let line := t.lineOfOffset offset
    let column := offset - t.starts.getD (line - 1) 0 + 1
    match t.directiveAt? offset with
    | none => { file := t.name, line, column }
    | some d =>
      let distance : Int := line - t.lineOfOffset d.offset
      { file := d.file
        line := d.line + distance
        column :=
          if d.column == 0 then 0
          else if distance == 0 then d.column + (offset - d.offset)
          else column }

def line (t : LineTable) (p : Pos) : Int := (t.place p).line

def lineCount : Nat := t.starts.size

end LineTable

/-- A place as messages show it: file, line and column with colons between. -/
def Place.render (p : Place) : Text :=
  if p.line == 0 then (if p.file.isEmpty then "-" else p.file)
  else
    (if p.file.isEmpty then [] else p.file ++ ":") ++ Text.ofInt p.line ++
      (if p.column == 0 then [] else Text.ofString ":" ++ Text.ofInt p.column)

end FaultRepair.Source
