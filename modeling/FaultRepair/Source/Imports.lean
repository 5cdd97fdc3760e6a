/-
# Imports of a source file

Adding an import next to the one it has most in common with, sorting the imports
of a group, and the standard form of a file, in which groups of imports are
sorted.
-/

import FaultRepair.Source.Parser
import FaultRepair.Source.Printer.Stmts

namespace FaultRepair.Source

open Text

namespace Spec

/-- The path an import names; empty if its literal is broken. -/
def importPath : Spec → Text
  | .imports _ _ path _ _ => (unquote? path.value).getD []
  | _ => []

/-- The name an import gives to its package; empty if it gives none. -/
def importName : Spec → Text
  | .imports _ (some name) _ _ _ => name.name
  | _ => []

def importComment : Spec → Option CommentGroup
  | .imports _ _ _ comment _ => comment
  | _ => none

def moveTo (start stop : Pos) : Spec → Spec
  | .imports doc name path comment _ =>
    .imports doc (name.map ({ · with pos := start })) { path with pos := start } comment stop
  | s => s

def movePath (p : Pos) : Spec → Spec
  | .imports doc name path comment stop => .imports doc name { path with pos := p } comment stop
  | s => s

end Spec

namespace GenDecl

def isImport (d : GenDecl) : Bool := d.tok == .kwImport

def importsPath (d : GenDecl) (path : Text) : Bool :=
  d.isImport && d.specs.any (·.importPath == path)

end GenDecl

namespace File

def imports (f : File) : List Spec :=
  f.decls.flatMap fun
    | .gen d => if d.isImport then d.specs else []
    | _ => []

def sharedSlashes : Text → Text → Nat
  | a :: s, b :: t => if a == b then sharedSlashes s t + (if a == byte '/' then 1 else 0) else 0
  | _, _ => 0

def isThirdParty (path : Text) : Bool := path.any (· == byte '.')

/-- The best place so far: how much its path shares, the declaration's index and
the specification's. -/
structure Best where
  shared : Int := -1
  decl : Option Nat := none
  spec : Option Nat := none
  last : Option Nat := none

def scanSpecs (path : Text) (declIndex : Nat) :
    (seenThird : Bool) → Nat → List Spec → Best → Best
  | _, _, [], b => b
  | seen, j, s :: ss, b =>
    let p := s.importPath
    let n : Int := sharedSlashes p path
    let b :=
      if b.shared < n || (b.shared == 0 && !seen && isThirdParty path) then
        { b with shared := n, decl := some declIndex, spec := some j }
      else b
    scanSpecs path declIndex (seen || isThirdParty p) (j + 1) ss b

def scanDecls (path : Text) : Nat → List Decl → Best → Best
  | _, [], b => b
  | i, d :: ds, b =>
    let b := match d with
      | .gen g =>
        if g.isImport then
          let b := { b with last := some i }
          if g.importsPath "C" then b
          else
            let b := if g.specs.isEmpty && b.shared == -1 then { b with decl := some i } else b
            scanSpecs path i false 0 g.specs b
        else b
      | _ => b
    scanDecls path (i + 1) ds b

/-- The position of a first import: after the package clause and the comments on
its line. -/
def firstImportPos (f : File) (table : LineTable) : Pos :=
  let packageLine := table.line f.package
  (f.comments.takeWhile fun g => table.line g.pos ≤ packageLine).foldl
    (fun _ g => g.stop + 2) f.package

def insertSpec (path : Text) (g : GenDecl) (after : Option Nat) : GenDecl :=
  let at_ := (after.map (· + 1)).getD 0
  let pos := match at_, g.specs[at_ - 1]? with
    | 0, _ => g.pos
    | _, some s =>
      match s.importComment with
      | some c => CommentGroup.stop c
      | none => s.pos
    | _, none => g.pos
  let new : Spec :=
    .imports none none { pos, kind := .string, value := quote path } none pos
  let specs := g.specs.take at_ ++ [new] ++ g.specs.drop at_
  let lparen :=
    if specs.length == 1 then noPos
    else if g.lparen != noPos then g.lparen
    else ((specs.head?).map Spec.pos).getD noPos
  .mk g.doc g.pos g.tok lparen specs g.rparen

def isMergeable : Decl → Bool
  | .gen d => d.isImport && !d.importsPath "C"
  | _ => false

def specsAt (p : Pos) : Decl → List Spec
  | .gen d => d.specs.map (Spec.movePath p)
  | _ => []

/-- Move the imports of all later declarations into the first one. -/
def mergeImports (decls : List Decl) : List Decl :=
  match decls.findIdx? isMergeable with
  | none => decls
  | some i =>
    match decls[i]? with
    | some (.gen first) =>
      let later := decls.drop (i + 1)
      let moved := (later.filter isMergeable).flatMap (specsAt first.pos)
      let merged :=
        if moved.isEmpty then first
        else .mk first.doc first.pos first.tok first.pos (first.specs ++ moved) first.rparen
      decls.take i ++ [.gen merged] ++ later.filter (!isMergeable ·)
    | _ => decls

/-- The declarations with an import of a path after the one whose path shares most with it. -/
def insertImport (f : File) (table : LineTable) (path : Text) : List Decl :=
  let best := scanDecls path 0 f.decls {}
  match best.decl with
  | some i =>
    f.decls.zipIdx.map fun (d, k) =>
      match d with
      | .gen g => if k == i then .gen (insertSpec path g best.spec) else d
      | _ => d
  | none =>
    let (pos, i) := match best.last with
      | some i => (((f.decls[i]?).map Decl.stop).getD noPos, i + 1)
      | none => (f.firstImportPos table, 0)
    let new := insertSpec path (.mk none pos .kwImport noPos [] noPos) none
    f.decls.take i ++ [.gen new] ++ f.decls.drop i

/-- Add an import of a path, unless the file has it already without a name, and gather all imports
in one declaration. -/
def addImport (f : File) (table : LineTable) (path : Text) : File :=
  if f.imports.any fun s => s.importName.isEmpty && s.importPath == path then f
  else
    let decls := f.insertImport table path
    { f with decls := if decls.length ≤ 1 then decls else mergeImports decls }

end File

namespace LineTable

def mergeLine (t : LineTable) (line : Nat) : LineTable :=
  { t with starts := t.starts.extract 0 line ++ t.starts.extract (line + 1) t.starts.size }

def lineStart (t : LineTable) (line : Nat) : Pos := t.starts.getD (line - 1) 0 + 1

end LineTable

namespace ImportOrder

/-- Imports are ordered by path, then name, then comment. -/
def before (a b : Spec) : Bool :=
  let comment (s : Spec) : Text := (s.importComment.getD []).flatMap (·.text)
  (Text.compare a.importPath b.importPath).then
    ((Text.compare a.importName b.importName).then (Text.compare (comment a) (comment b))) != .gt

/-- The comments among imports, each with the index of its import in source order
and whether it stands to its left. -/
def assign (table : LineTable) (spans : Array (Pos × Pos)) :
    Nat → List CommentGroup → List (CommentGroup × Nat × Bool)
  | _, [] => []
  | i, g :: gs =>
    let start (k : Nat) : Pos := (spans.getD k (0, 0)).1
    let i := i + ((List.range (spans.size - 1 - i)).takeWhile fun j =>
      start (i + 1 + j) ≤ CommentGroup.pos g).length
    let left0 := i == 0 && CommentGroup.pos g < start 0
    let leftNext := !left0 && i + 1 < spans.size &&
      table.physicalLine (start i) + 1 == table.physicalLine (CommentGroup.pos g)
    let i := if leftNext then i + 1 else i
    (g, i, left0 || leftNext) :: assign table spans i gs

def insertSorted (s : Spec × Nat) : List (Spec × Nat) → List (Spec × Nat)
  | [] => [s]
  | t :: ts => if before s.1 t.1 && !before t.1 s.1 then s :: t :: ts else t :: insertSorted s ts

def sorted (specs : List (Spec × Nat)) : List (Spec × Nat) :=
  specs.foldl (fun acc s => insertSorted s acc) []

/-- Drop an import that the next one repeats, if it has no comment; its line is
joined with the next. -/
def dedup : LineTable → List (Spec × Nat) → LineTable × List (Spec × Nat)
  | table, [] => (table, [])
  | table, [s] => (table, [s])
  | table, s :: t :: rest =>
    if s.1.importPath == t.1.importPath && s.1.importName == t.1.importName &&
        s.1.importComment.isNone then
      dedup (table.mergeLine (table.physicalLine s.1.pos)) (t :: rest)
    else
      let (table, rest) := dedup table (t :: rest)
      (table, s :: rest)

def insertGroup (g : CommentGroup) : List CommentGroup → List CommentGroup
  | [] => [g]
  | h :: hs =>
    if CommentGroup.pos g < CommentGroup.pos h then g :: h :: hs else h :: insertGroup g hs

/-- Sort a run of imports on successive lines. The sorted imports take the spans of
the run in order, and comments follow their import. -/
def sortRun (table : LineTable) (comments : List CommentGroup) (specs : List Spec) :
    LineTable × List CommentGroup × List Spec :=
  match specs with
  | [] => (table, comments, [])
  | [s] => (table, comments, [s])
  | first :: _ =>
    let spans := (specs.map fun s => (s.pos, s.stop)).toArray
    let begin_ := table.lineStart (table.physicalLine first.pos)
    let endPos := (spans.back?.map (·.2)).getD noPos
    let endLine := table.physicalLine endPos
    let limit := if endLine == table.lineCount then endPos else table.lineStart (endLine + 1)
    let early := comments.takeWhile fun g => CommentGroup.stop g < limit
    let (before_, among) := early.span fun g => CommentGroup.pos g < begin_
    let after := comments.drop early.length
    let placed := assign table spans 0 among
    let (table, kept) := dedup table (sorted specs.zipIdx)
    let indexed := kept.zipIdx
    let moved := placed.map fun (g, i, left) =>
      match indexed.find? fun ((_, k), _) => k == i with
      | some (_, slot) =>
        let (start, stop) := spans.getD slot (0, 0)
        g.map fun c => { c with pos := if left then start - 1 else stop }
      | none => g
    let specs := indexed.map fun ((s, _), slot) =>
      let (start, stop) := spans.getD slot (0, 0)
      s.moveTo start stop
    (table, before_ ++ moved.foldl (fun acc g => insertGroup g acc) [] ++ after, specs)

def runs (table : LineTable) : List Spec → List (List Spec)
  | [] => []
  | s :: ss =>
    match runs table ss with
    | (t :: run) :: rest =>
      if table.physicalLine s.stop + 1 < table.physicalLine t.pos then [s] :: (t :: run) :: rest
      else (s :: t :: run) :: rest
    | rest => [s] :: rest

def closeGap (rparen lastPos : Pos) : Nat → LineTable → LineTable
  | 0, table => table
  | fuel + 1, table =>
    let last := table.physicalLine lastPos
    let close := table.physicalLine rparen
    if last + 1 < close then closeGap rparen lastPos fuel (table.mergeLine (close - 1)) else table

def sortDecl (table : LineTable) (comments : List CommentGroup) (d : GenDecl) :
    LineTable × List CommentGroup × GenDecl :=
  let (table, comments, specs) := (runs table d.specs).foldl
    (fun (table, comments, done) run =>
      let (table, comments, specs) := sortRun table comments run
      (table, comments, done ++ specs))
    (table, comments, [])
  let table := match specs.getLast? with
    | some s => closeGap d.rparen s.pos (table.lineCount + 1) table
    | none => table
  (table, comments, .mk d.doc d.pos d.tok d.lparen specs d.rparen)

def sortDecls : LineTable → List CommentGroup → List Decl →
    LineTable × List CommentGroup × List Decl
  | table, comments, .gen g :: ds =>
    if g.isImport then
      let (table, comments, g) :=
        if g.lparen != noPos then sortDecl table comments g else (table, comments, g)
      let (table, comments, ds) := sortDecls table comments ds
      (table, comments, .gen g :: ds)
    else (table, comments, .gen g :: ds)
  | table, comments, ds => (table, comments, ds)

def sort (f : File) (table : LineTable) : File × LineTable :=
  let (table, comments, decls) := sortDecls table f.comments f.decls
  ({ f with comments, decls }, table)

end ImportOrder

namespace File

def groupsImports : List Decl → Bool
  | .gen d :: ds => d.isImport && (d.lparen != noPos || groupsImports ds)
  | _ => false

/-- The standard form of a file, or nothing if its printed form cannot be read
back. -/
def format? (f : File) (table : LineTable) : Option Text :=
  let text := f.print table
  if groupsImports f.decls then
    let again := parse [] text
    if again.issues.isEmpty then
      let (sorted, table) := ImportOrder.sort again.file again.table
      some (sorted.print table)
    else none
  else some text

end File

end FaultRepair.Source
