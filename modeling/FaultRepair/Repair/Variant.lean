/-
# Variants of a file

A pattern is applied to a fresh tree of a file, at the nodes whose lines cover a
given line. Each tree it changed, printed in standard layout, is a variant.
-/

import FaultRepair.Repair.Pattern
import FaultRepair.Repair.Weight
import FaultRepair.Source.Imports

namespace FaultRepair.Repair

open Source

/-- A walk notes whether it has changed anything. -/
abbrev Visit := StateM Bool

namespace Pattern

/-- Do the lines from one position to another cover the line? -/
def covers (table : LineTable) (line : Int) (start stop : Pos) : Bool :=
  table.line start ≤ line && line ≤ table.line stop

def isTypeLiteral : Expr → Bool
  | .arrayType .. | .mapType .. | .chanType .. | .funcType _ | .structType ..
  | .interfaceType .. => true
  | _ => false

def markChanged : Visit Unit := set true

/-- The rules of a walk that applies a pattern on a line. A node that does not
cover the line is not changed, but its parts are visited. -/
def visitor (p : Pattern) (table : LineTable) (line : Int) : Nat → Visitor Visit
  | 0 =>
    { expr := fun _ x => return x, stmt := fun s => return s
      funcType := fun t => return t, fields := fun _ l => return l }
  | n + 1 =>
    let covers (start stop : Pos) : Bool := covers table line start stop
    { expr := fun role x => do
        let v := visitor p table line n
        if covers x.pos x.stop then
          if p.skipsTypes && (role == .type || isTypeLiteral x) then return x
          match p.onExpr role x with
          | some (.replace y) =>
            markChanged
            return y
          | some (.revise y) =>
            markChanged
            v.exprParts y
          | some (.wrap operand build) =>
            markChanged
            return build (← v.exprParts operand)
          | none => v.exprParts x
        else v.exprParts x
      stmt := fun s => do
        let v := visitor p table line n
        match (if covers s.pos s.stop then p.onStmt s else none) with
        | some t =>
          markChanged
          return t
        | none => v.stmtParts s
      funcType := fun t => do
        let v := visitor p table line n
        if p.skipsTypes && covers t.start t.stop then return t else v.funcTypeParts t
      fields := fun role l => do
        let v := visitor p table line n
        if p.skipsTypes && role == .type && covers l.pos l.stop then return l
        else v.fieldsOf l }

/-- The file with the pattern applied on a line, if that changed it. The walk goes no
deeper than the weight of the file. -/
def edit? (p : Pattern) (f : File) (table : LineTable) (line : Int) : Option File :=
  let v := p.visitor table line (declsWeight f.decls)
  let (decls, changed) := (f.decls.mapM v.decl).run false
  if changed then
    let f := { f with decls }
    some (if p.adds.isEmpty then f else f.addImport table p.adds)
  else none

end Pattern

/-- A file as a pattern leaves it. -/
structure Variant where
  pattern : Text
  source : Text

inductive VariantError where
  /-- The file cannot be read. -/
  | parse (file message : Text)
  /-- What a pattern made of the file cannot be printed. -/
  | format (file pattern : Text)

/-- The variants so far, and that of one more pattern if it changes its tree. -/
def addVariant (file : Text) (parsed : Parsed) (line : Int) (done : List Variant) (p : Pattern) :
    Except VariantError (List Variant) :=
  match p.edit? parsed.file parsed.table line with
  | none => .ok done
  | some f =>
    match f.format? parsed.table with
    | some text => .ok (done ++ [{ pattern := p.name, source := text }])
    | none => .error (.format file p.name)

/-- Apply each pattern to its own tree of a file, on one line. The result has a
variant for each pattern that changed its tree. -/
def variants (file src : Text) (line : Int) (patterns : List Pattern) :
    Except VariantError (List Variant) :=
  if patterns.isEmpty then .ok []
  else
    let parsed := parse file src
    if !parsed.issues.isEmpty then .error (.parse file (describeIssues parsed.issues))
    else patterns.foldlM (addVariant file parsed line) []

end FaultRepair.Repair
