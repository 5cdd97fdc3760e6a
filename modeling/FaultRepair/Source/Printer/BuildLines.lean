/-
# Build conditions in printed source

Conditions on builds stand together, before the package clause and with an empty line
after them. Where the condition can be read, it is written in its standard form, and the
lines in the older notation follow from it.

All this is done on printed source before its columns are aligned: comments stand between
escape bytes, and lines end in newlines or form feeds.
-/

import FaultRepair.Source.Condition
import FaultRepair.Source.Printer.Columns

namespace FaultRepair.Source.Printer.BuildLines

open Text

def isBreak (b : UInt8) : Bool := b == 10 || b == formFeed

def firstLine (t : Text) : Text :=
  t.take ((t.takeWhile (!isBreak ·)).length + 1)

def commentText (t : Text) : Text :=
  let t := if t.head? == some escape then t.drop 1 else t
  t.takeWhile fun b => b != escape && !isBreak b

/-- The offset after the last empty line before something that is no line comment. -/
def headerEnd : Nat → (pos insert : Nat) → Text → Nat
  | 0, _, insert, _ => insert
  | fuel + 1, pos, insert, t =>
    let body := t.dropWhile fun b => b == 32 || b == 9
    let isComment := body.take 3 == [escape, 47, 47] && 3 < body.length
    let rest := if isComment then body.dropWhile (!isBreak ·) else body
    match rest with
    | [] => insert
    | b :: after =>
      if isBreak b then
        let pos := pos + (t.length - after.length)
        headerEnd fuel pos (if isComment then insert else pos) after
      else insert

def endsInEmptyLine (t : Text) : Bool :=
  match t.reverse with
  | a :: b :: _ => isBreak a && isBreak b
  | _ => false

/-- Adds lines to others without doubling an empty line. -/
def appendLines (x y : Text) : Text :=
  if y.head?.any isBreak && (x.isEmpty || endsInEmptyLine x) then x ++ y.drop 1 else x ++ y

/-- The text from an offset on without the lines at the given offsets. -/
def without (output : Text) : (start : Nat) → (after : Text) → List Nat → Text
  | start, after, [] => appendLines after (output.drop start)
  | start, after, stop :: rest =>
    if stop < start then without output start after rest
    else
      let after := appendLines after ((output.take stop).drop start)
      without output (stop + (firstLine (output.drop stop)).length) after rest

def escaped (t : Text) : Text := escape :: t ++ [escape, 10]

/-- The condition that the comments at some offsets state together. -/
def condition? (output : Text) (marks oldMarks : List Nat) : Option Condition :=
  match marks with
  | [] => do
    let cs ← oldMarks.mapM fun m => Condition.ofComment? (commentText (output.drop m))
    let c :: cs := cs | none
    some (cs.foldl .and c)
  | [m] => Condition.ofComment? (commentText (output.drop m))
  | _ => none

def block (output : Text) (marks oldMarks : List Nat) : Text :=
  (match condition? output marks oldMarks with
    | none => (marks ++ oldMarks).flatMap fun m => firstLine (output.drop m)
    | some c =>
      let old := if oldMarks.isEmpty then [] else
        (c.oldLines?).getD ["// +build error: expression too complex for // +build lines"]
      escaped ("//go:build " ++ c.render) ++ old.flatMap escaped) ++ [10]

/-- Printed source with its conditions put together. `marks` are the offsets of the
comments that state one, `oldMarks` of those that do so in the older notation. -/
def gather (output : Text) (marks oldMarks : List Nat) : Text :=
  if marks.isEmpty && oldMarks.isEmpty then output
  else
    let latest := headerEnd (output.length + 1) 0 0 output
    let early (marks : List Nat) : Option Nat := marks.head?.filter (· < latest)
    let insert := (early marks <|> early oldMarks).getD latest
    let after := without output insert [] ((marks ++ oldMarks).mergeSort (· ≤ ·))
    let after := if endsInEmptyLine after then after.dropLast else after
    output.take insert ++ block output marks oldMarks ++ after

end FaultRepair.Source.Printer.BuildLines
