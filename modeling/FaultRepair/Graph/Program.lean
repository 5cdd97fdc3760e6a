/-
# Programs

Parsed and type-checked packages, ready for analysis.
-/

import FaultRepair.Source.Constraint
import FaultRepair.Typing.Package

namespace FaultRepair.Graph

open Source Typing

structure SourceFile where
  name : Text
  text : Text

/-- A package as given. One that is `imported` only serves the others. -/
structure PackageInput where
  path : Text
  files : List SourceFile
  imported : Bool := false
  /-- Is something wrong with it that its files do not show? -/
  broken : Bool := false
  language : Nat := newestLanguage

structure LoadedFile where
  number : Nat
  tree : Source.File
  table : LineTable

structure LoadedPackage where
  path : Text
  files : List LoadedFile
  imported : Bool
  faulty : Bool
  /-- Is it free of errors, and so are all it imports? -/
  sound : Bool

/-- Parsed and checked packages. -/
structure Program where
  packages : List LoadedPackage
  checked : Checked
  tables : Array LineTable
  /-- More than the depth to which the sources are nested. -/
  depth : Nat

namespace Program

def parseAll (ps : List PackageInput) : List (PackageInput × List (Parsed × Nat)) :=
  go ps 0
where
  go : List PackageInput → Nat → List (PackageInput × List (Parsed × Nat))
    | [], _ => []
    | p :: rest, n =>
      (p, p.files.zipIdx.map fun (f, i) => (Source.parse f.name f.text, n + i)) ::
        go rest (n + p.files.length)

def load (ps : List PackageInput) : Program :=
  let parsed := parseAll ps
  let size := (ps.flatMap fun p => p.files.map (·.text.length)).foldl (· + ·) 0
  let units := parsed.map fun (p, files) =>
    { path := p.path, files := files.map fun (f, n) => (n, f.file)
      broken := p.broken || files.any fun (f, _) => !f.issues.isEmpty
      language := p.language : SourcePackage }
  let checked := checkUnits (size + 64) units
  { packages := parsed.map fun (p, files) =>
      { path := p.path, imported := p.imported
        files := files.map fun (f, n) => { number := n, tree := f.file, table := f.table }
        faulty := (checked.package? p.path).any (·.faulty)
        sound := (checked.package? p.path).any (·.sound) }
    checked
    depth := size + 64
    tables := (parsed.flatMap fun (_, files) => files.map fun (f, _) => f.table).toArray }

def loaded (p : Program) : List LoadedPackage := p.packages.filter (!·.imported)

def place (p : Program) (file : Nat) (pos : Pos) : Place := (p.tables.getD file default).place pos

def size (p : Program) (o : FileFilter) : Nat × Nat :=
  let files := (p.loaded.flatMap (·.files)).filter fun f =>
    f.tree.package != noPos && !o.skips f.table.name (some f.tree)
  (files.length, (files.map (·.table.lineCount)).foldl (· + ·) 0)

end Program

end FaultRepair.Graph
