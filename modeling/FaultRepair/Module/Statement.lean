/-
# Statements of a module file

A module file is a list of statements, one on a line. Several statements with the same
first word may be written as a block between parentheses. A comment starts with two
slashes and ends with its line.
-/

import FaultRepair.Text.Letter

namespace FaultRepair.Module

open Text

/-- A statement: words on a line, or a block with a line for each of its entries. -/
inductive Statement where
  | line (words : List Text)
  | block (head : List Text) (lines : List (List Text))

/-- A token. `ending` ends a line, with or without a comment. -/
inductive StatementToken where
  | word (t : Text)
  | opening
  | closing
  | ending
  /-- A comment that has its line to itself. -/
  | remark

namespace StatementToken

def isPunctuation (b : UInt8) : Bool := (ofString "()[],\x7b\x7d").any (· == b)

def isBlank (b : UInt8) : Bool := b == 32 || b == 9 || b == 13

/-- The characters of a word without quotes, and what follows it; `none` if it runs into
a comment of the wrong kind. -/
def takeWord : Nat → Text → Option (Text × Text)
  | 0, t => some ([], t)
  | fuel + 1, t =>
    if t.isEmpty || startsWith t "//" then some ([], t)
    else if startsWith t "/*" then none
    else
      let (r, width) := firstRune t
      if r == 32 || (r < 128 && isPunctuation r.toUInt8) || isSpaceRune r || !isPrintRune r then
        some ([], t)
      else (takeWord fuel (t.drop width)).map fun (w, rest) => (t.take width ++ w, rest)

/-- The rest of a quoted text and what follows it; `none` if it does not end on its
line. -/
def takeQuoted (mark : UInt8) : Text → Option (Text × Text)
  | [] => none
  | c :: rest =>
    if c == 10 then none
    else if c == mark then some ([c], rest)
    else if c == 92 && mark != byte '`' then
      match rest with
      | d :: rest => (takeQuoted mark rest).map fun (q, rest) => (c :: d :: q, rest)
      | [] => none
    else (takeQuoted mark rest).map fun (q, rest) => (c :: q, rest)

/-- The tokens of a file; `started` tells whether the line has any yet. `none` if there is
something that is no token. -/
def scanFrom : Nat → (started : Bool) → Text → Option (List StatementToken)
  | 0, _, _ => some []
  | _, _, [] => some []
  | fuel + 1, started, c :: rest =>
    if isBlank c then scanFrom fuel started rest
    else if startsWith (c :: rest) "//" then
      let after := (rest.dropWhile (· != 10)).drop 1
      (scanFrom fuel false after).map ((if started then ending else remark) :: ·)
    else if startsWith (c :: rest) "/*" then none
    else if c == 10 then (scanFrom fuel false rest).map (ending :: ·)
    else if isPunctuation c then
      let t := if c == byte '(' then opening else if c == byte ')' then closing else word [c]
      (scanFrom fuel true rest).map (t :: ·)
    else if c == byte '"' || c == Text.byte '`' then do
      let (q, rest) ← takeQuoted c rest
      let ts ← scanFrom fuel true rest
      some (word (c :: q) :: ts)
    else do
      let (w, rest) ← takeWord (rest.length + 1) (c :: rest)
      if w.isEmpty then none
      let ts ← scanFrom fuel true rest
      some (word w :: ts)

def scan? (t : Text) : Option (List StatementToken) := scanFrom (t.length + 1) false t

def text : StatementToken → Text
  | .word t => t
  | .opening => "("
  | .closing => ")"
  | _ => []

end StatementToken

namespace Statement

/-- Where reading stands: between statements, on a line, in a block, or on a line of a
block. Lists are kept in reverse. -/
inductive Progress where
  | outside
  | line (words : List Text)
  | block (head : List Text) (lines : List (List Text))
  | entry (head : List Text) (lines : List (List Text)) (words : List Text)

open StatementToken in
/-- Reads tokens. Parentheses stand for themselves unless the opening one ends its
line. -/
def readFrom (done : List Statement) : Progress → List StatementToken → Option (List Statement)
  | .outside, [] => some done.reverse
  | .line ws, [] => some (line ws.reverse :: done).reverse
  | .block .., [] | .entry .., [] => none
  | .outside, t :: rest =>
    match t with
    | .ending | .remark => readFrom done .outside rest
    | t => readFrom done (.line [t.text]) rest
  | .line ws, opening :: closing :: ending :: rest =>
    readFrom (block ws.reverse [] :: done) .outside rest
  | .line ws, [opening, closing] => some (block ws.reverse [] :: done).reverse
  | .line ws, opening :: ending :: rest => readFrom done (.block ws.reverse []) rest
  | .line _, [opening] => none
  | .line ws, t :: rest =>
    match t with
    | .ending | .remark => readFrom (line ws.reverse :: done) .outside rest
    | t => readFrom done (.line (t.text :: ws)) rest
  | .block head ls, closing :: ending :: rest =>
    readFrom (block head ls.reverse :: done) .outside rest
  | .block head ls, [closing] => some (block head ls.reverse :: done).reverse
  | .block head ls, t :: rest =>
    match t with
    | .ending | .remark => readFrom done (.block head ls) rest
    | .closing => none
    | t => readFrom done (.entry head ls [t.text]) rest
  | .entry head ls ws, t :: rest =>
    match t with
    | .ending | .remark => readFrom done (.block head (ws.reverse :: ls)) rest
    | t => readFrom done (.entry head ls (t.text :: ws)) rest

/-- The statements of a module file; `none` if it is malformed. -/
def readAll? (t : Text) :
    Option (List Statement) := do readFrom [] .outside (← StatementToken.scan? t)

end Statement

end FaultRepair.Module
