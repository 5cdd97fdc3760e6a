/-
# Parsing a file

A file is parsed as far as it goes: with errors the tree is partial, and it is
empty when not even the package clause can be read.
-/

import FaultRepair.Source.Parser.Stmts

namespace FaultRepair.Source

open Text

/-- A file as parsed, with its line table and errors in the order of their
places. -/
structure Parsed where
  file : File
  table : LineTable
  issues : List ParseIssue

namespace Parser

def fileLoop (g : Grammar) : Nat → Bool → Array Decl → Parse (Array Decl)
  | 0, _, acc => return acc
  | n + 1, onlyImports, acc => do
    let t ← tok
    if t == .eof then return acc
    else
      if t == .kwImport && !onlyImports then
        report (← pos) "imports must appear before other declarations"
      fileLoop g n (t == .kwImport) (acc.push (← g.decl))

def file (g : Grammar) : Parse (Option File) := do
  next
  if !(← get).issues.isEmpty then return none
  let doc := (← get).leadComment
  let package ← expect .kwPackage
  let name ← ident
  let _ ← expectSemi
  if !(← get).issues.isEmpty then return none
  let decls ← fileLoop g (← fuel) true #[]
  return some { doc, package, name, decls := decls.toList
                comments := (← get).comments.toList }

/-- Order of errors in a report: by file, line, column and text. -/
def issueBefore (a b : ParseIssue) : Bool :=
  if a.place.file != b.place.file then Text.before a.place.file b.place.file
  else if a.place.line != b.place.line then a.place.line < b.place.line
  else if a.place.column != b.place.column then a.place.column < b.place.column
  else !(Text.before b.message a.message)

end Parser

def parse (name src : Text) : Parsed :=
  let (ls, table) := lexemes name src
  let start : Parser.State := { lexemes := ls, table }
  let grammar := Parser.Grammar.ofDepth (16 * ls.size + 64)
  let (file, final) := match (Parser.file grammar).run start with
    | .ok f s => (f, s)
    | .error _ s => (none, s)
  { file := file.getD {}
    table := table
    issues := final.issues.toList.mergeSort Parser.issueBefore }

/-- One line for a list of errors: the first one, and how many more there are. -/
def describeIssues : List ParseIssue → Text
  | [] => "no errors"
  | [i] => i.place.render ++ ": " ++ i.message
  | i :: rest =>
    i.place.render ++ ": " ++ i.message ++ " (and " ++ Text.ofNat rest.length ++ " more errors)"

end FaultRepair.Source
