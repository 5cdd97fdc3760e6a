/-
# Records of comma-separated fields

One line of fields with commas between them. A field may stand in double quotes, and a
quote in it is then written twice; such a field may hold commas and line ends.
-/

import FaultRepair.Text.Basic

namespace FaultRepair.Text.Record

/-- Why a text is no record. Lines and columns count from one. -/
inductive RecordFault where
  | bareQuote (line col : Nat)
  | quote (startLine line col : Nat)
  | empty

def RecordFault.message : RecordFault → Text
  | .bareQuote l c => "parse error on line " ++ ofNat l ++ ", column " ++ ofNat c ++
      ": bare \" in non-quoted-field"
  | .quote s l c =>
    (if s != l then "record on line " ++ ofNat s ++ "; " else "") ++
      "parse error on line " ++ ofNat l ++ ", column " ++ ofNat c ++
      ": extraneous or missing \" in quoted-field"
  | .empty => "EOF"

/-- The first line of a text, with its end as a newline, and the rest. A carriage
return before a line end, or at the very end, belongs to the line end. -/
def firstLine (t : Text) : Text × Text :=
  let body := t.takeWhile (· != 10)
  let rest := t.drop body.length
  let stripped := if body.getLast? == some 13 then body.dropLast else body
  match rest with
  | _ :: rest => (stripped ++ [10], rest)
  | [] => (stripped, [])

/-- A place in the record: the rest of the line, the lines after it, and the line and
column of the place. -/
structure Cursor where
  line : Text
  later : Text
  row : Nat
  col : Nat

def isLineEnd (t : Text) : Bool := t.isEmpty || t == [10]

/-- The rest of a quoted field and the cursor after its closing quote. -/
def quotedField (start : Nat) : Nat → Text → Cursor → Except RecordFault (Text × Cursor)
  | 0, _, c => .error (.quote start c.row c.col)
  | fuel + 1, acc, c =>
    match cutAt? 34 c.line with
    | some (before, after) =>
      let acc := acc ++ before
      let col := c.col + before.length + 1
      match after with
      | 34 :: after => quotedField start fuel (acc ++ [34]) { c with line := after, col := col + 1 }
      | 44 :: _ => .ok (acc, { c with line := after, col })
      | _ =>
        if isLineEnd after then .ok (acc, { c with line := after, col })
        else .error (.quote start c.row (col - 1))
    | none =>
      if c.line.isEmpty then .error (.quote start c.row c.col)
      else
        let (line, later) := firstLine c.later
        if line.isEmpty then
          quotedField start fuel (acc ++ c.line)
            { c with line := [], later, col := c.col + c.line.length }
        else quotedField start fuel (acc ++ c.line) { line, later, row := c.row + 1, col := 1 }

def fieldsFrom (start : Nat) : Nat → Cursor → Except RecordFault (List Text)
  | 0, _ => .ok []
  | fuel + 1, c =>
    match c.line with
    | 34 :: rest => do
      let (field, c) ← quotedField start (rest.length + c.later.length + 2) []
          { c with line := rest, col := c.col + 1 }
      match c.line with
      | 44 :: rest =>
        let more ← fieldsFrom start fuel { c with line := rest, col := c.col + 1 }
        return field :: more
      | _ => return [field]
    | line =>
      let field := line.takeWhile fun b => b != 44 && b != 10
      match field.findIdx? (· == 34) with
      | some i => .error (.bareQuote c.row (c.col + i))
      | none =>
        match line.drop field.length with
        | 44 :: rest => do
          let more ← fieldsFrom start fuel { c with line := rest, col := c.col + field.length + 1 }
          return field :: more
        | _ => return [field]

/-- The first line that is not empty, with its number and what follows it. -/
def firstFilled : Nat → Nat → Text → Option Cursor
  | 0, _, _ => none
  | fuel + 1, row, t =>
    if t.isEmpty then none
    else
      let (line, later) := firstLine t
      if line == [10] then firstFilled fuel (row + 1) later
      else some { line, later, row, col := 1 }

def read (t : Text) : Except RecordFault (List Text) :=
  match firstFilled (t.length + 1) 1 t with
  | none => .error .empty
  | some c => fieldsFrom c.row (t.length + 1) c

end FaultRepair.Text.Record
