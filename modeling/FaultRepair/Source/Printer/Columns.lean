/-
# Aligning columns

Printed source is first written with cells: a cell ends at a tab, a line at a
newline or form feed. Cells that stand in the same column of adjacent lines are
padded to a common width; a form feed ends all columns. Text between two escape
bytes is never taken apart. Leading empty cells are indentation and stay tabs.

Afterwards blanks at the ends of lines and the escape bytes are removed.
-/

import FaultRepair.Text.Rune

namespace FaultRepair.Source.Printer

open Text

/-- The byte that brackets literal text; it never occurs in UTF-8. -/
def escape : UInt8 := 0xFF

def vtab : UInt8 := 11

def formFeed : UInt8 := 12

namespace Columns

/-- A cell: its text (escape bytes included), its width in code points, and
whether a plain tab ended it. -/
structure Cell where
  text : Text
  width : Nat
  tabbed : Bool
  deriving Inhabited

/-- A line: the cells that were ended, and the text after the last of them. -/
abbrev Line := Array Cell

/-- The width of a column that holds these cells; a column of cells that are
empty and were not ended by a plain tab has none. -/
def columnWidth (cells : List Cell) : Nat :=
  if cells.all fun c => c.width == 0 && !c.tabbed then 0
  else cells.foldl (fun w c => max w (c.width + 1)) 0

def tabWidth : Nat := 8

def padding (textWidth cellWidth : Nat) (useTabs : Bool) : Text :=
  if useTabs then
    let cellWidth := (cellWidth + tabWidth - 1) / tabWidth * tabWidth
    List.replicate ((cellWidth - textWidth + tabWidth - 1) / tabWidth) 9
  else List.replicate (cellWidth - textWidth) 32

def writeCells : (widths : List Nat) → (useTabs : Bool) → List Cell → Text
  | _, _, [] => []
  | w :: ws, useTabs, c :: cs =>
    if c.text.isEmpty then padding c.width w useTabs ++ writeCells ws useTabs cs
    else c.text ++ padding c.width w false ++ writeCells ws false cs
  | [], useTabs, c :: cs => c.text ++ writeCells [] (useTabs && c.text.isEmpty) cs

/-- Lay out lines whose first columns have the given widths (outermost first).
Runs of lines that have a cell in the next column are laid out together. -/
def format : Nat → (widths : List Nat) → List Line → List Text
  | 0, widths, lines => lines.map fun l => writeCells widths true l.toList
  | fuel + 1, widths, lines =>
    let column := widths.length
    let hasCell (l : Line) : Bool := column + 1 < l.size
    match lines with
    | [] => []
    | l :: rest =>
      if hasCell l then
        let block := l :: rest.takeWhile hasCell
        let width := columnWidth (block.map fun l => l.getD column default)
        format fuel (widths ++ [width]) block ++ format fuel widths (rest.dropWhile hasCell)
      else writeCells widths true l.toList :: format fuel widths rest

def runeCount (t : Text) : Nat := (readings t).length

/-- The state while cells are collected: finished output (last piece first), the
lines of the current section, the cells of the current line, and the current
cell's text (last byte first). -/
structure Collect where
  output : List Text := []
  section_ : List Line := []
  line : Line := #[]
  cell : List UInt8 := []
  inEscape : Bool := false

def cellOf (bytes : List UInt8) (tabbed : Bool) : Cell :=
  let text := bytes.reverse
  { text, width := runeCount (text.filter (· != escape)), tabbed }

def layoutSection (lines : List Line) : Text :=
  let cells := lines.foldl (fun n l => n + l.size) 0
  join [10] (format (cells + lines.length + 1) [] lines)

def step (s : Collect) (b : UInt8) : Collect :=
  if s.inEscape then
    { s with cell := b :: s.cell, inEscape := b != escape }
  else if b == escape then { s with cell := b :: s.cell, inEscape := true }
  else if b == 9 || b == vtab then
    { s with line := s.line.push (cellOf s.cell (b == 9)), cell := [] }
  else if b == 10 || b == formFeed then
    let line := s.line.push (cellOf s.cell false)
    let s := { s with section_ := line :: s.section_, line := #[], cell := [] }
    if b == formFeed || line.size == 1 then
      { s with output := [10] :: layoutSection s.section_.reverse :: s.output, section_ := [] }
    else s
  else { s with cell := b :: s.cell }

def align (written : Text) : Text :=
  let s := written.foldl step {}
  let last := if s.cell.isEmpty then s.line else s.line.push (cellOf s.cell false)
  (layoutSection (last :: s.section_).reverse :: s.output).reverse.flatten

/-- The state while blanks are trimmed: are we inside literal text, the output
(last byte first), and the blanks not yet written (last first). -/
structure Trim where
  inEscape : Bool := false
  output : List UInt8 := []
  blanks : List UInt8 := []

def trimStep (s : Trim) (b : UInt8) : Trim :=
  if s.inEscape then
    if b == escape then { s with inEscape := false } else { s with output := b :: s.output }
  else
    let b := if b == vtab then 9 else b
    if b == 9 || b == 32 then { s with blanks := b :: s.blanks }
    else if b == 10 || b == formFeed then { s with output := 10 :: s.output, blanks := [] }
    else if b == escape then
      { s with inEscape := true, output := s.blanks ++ s.output, blanks := [] }
    else { s with output := b :: (s.blanks ++ s.output), blanks := [] }

/-- Text without blanks at the ends of lines and without escape bytes. -/
def trim (t : Text) : Text := (t.foldl trimStep {}).output.reverse

end Columns

end FaultRepair.Source.Printer
