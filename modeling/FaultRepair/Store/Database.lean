/-
# The graph database

Three tables: locations, dependencies between them by number, and the fingerprints of
the files that were analysed. Rows of the first two are numbered in the order of their
insertion, and no number is given twice until the database is cleared.

Nothing is promised about coordinates: several rows may have the same ones, and an edge
may name a number that no row has.
-/

import FaultRepair.Graph.DepGraph

namespace FaultRepair.Store

open FaultRepair.Graph

structure StoredLocation where
  id : Int
  location : Location
  deriving DecidableEq

/-- The value at `lhs` is computed from `rhs`. -/
structure Dependency where
  id : Int
  lhs : Int
  rhs : Int
  deriving DecidableEq

structure SourceFile where
  path : Text
  hash : Text
  revision : Text

/-- Numbered rows in the order of insertion, and the greatest number given so far. -/
structure Numbered (α : Type) where
  rows : List α := []
  last : Nat := 0

namespace Numbered

/-- The table with one more row, which is made from its number. -/
def push (t : Numbered α) (row : Int → α) : Int × Numbered α :=
  let id := t.last + 1
  (id, { rows := t.rows ++ [row id], last := id })

end Numbered

inductive TableName where
  | locations | dependencies | sources

def TableName.ofText? (t : Text) : Option TableName :=
  if t == Text.ofString "loc_info" then some .locations
  else if t == Text.ofString "dependencies" then some .dependencies
  else if t == Text.ofString "source_files" then some .sources
  else none

/-- A database. A table that was never created, or was removed, is absent. `version`
counts the changes that were committed. -/
structure Database where
  locations : Option (Numbered StoredLocation) := none
  dependencies : Option (Numbered Dependency) := none
  sources : Option (List SourceFile) := none
  version : Nat := 0

namespace Database

def blank : Database := {}

variable (d : Database)

def init : Database :=
  if d.locations.isSome && d.dependencies.isSome && d.sources.isSome then d
  else
    { locations := some (d.locations.getD {})
      dependencies := some (d.dependencies.getD {})
      sources := some (d.sources.getD [])
      version := d.version + 1 }

/-- All rows are removed and numbers start again at one. -/
def reset : Database where
  locations := some {}
  dependencies := some {}
  sources := some []
  version := d.version + 1

/-- A table is removed with its rows and its numbering; `none` if it is absent. -/
def drop? : TableName → Option Database
  | .locations => d.locations.map fun _ => { d with locations := none, version := d.version + 1 }
  | .dependencies =>
    d.dependencies.map fun _ => { d with dependencies := none, version := d.version + 1 }
  | .sources => d.sources.map fun _ => { d with sources := none, version := d.version + 1 }

/-- A new location row and its number; `none` if the table is absent. -/
def insertLocation? (l : Location) : Option (Int × Database) :=
  d.locations.map fun t =>
    let (id, t) := t.push fun id => ⟨id, l⟩
    (id, { d with locations := some t, version := d.version + 1 })

/-- A new edge; `none` if the table is absent. -/
def insertEdge? (lhs rhs : Int) : Option Database :=
  d.dependencies.map fun t =>
    let (_, t) := t.push fun id => ⟨id, lhs, rhs⟩
    { d with dependencies := some t, version := d.version + 1 }

/-- The fingerprints with that of one file replaced or added. -/
def upsert (sources : List SourceFile) (s : SourceFile) : List SourceFile :=
  if sources.any (·.path == s.path) then sources.map fun o => if o.path == s.path then s else o
  else sources ++ [s]

/-- Records the fingerprint of a file; `none` if the table is absent. -/
def recordSource? (s : SourceFile) : Option Database :=
  d.sources.map fun t => { d with sources := some (upsert t s), version := d.version + 1 }

/-- The oldest row at exact coordinates; the outer `none` means that the table is
absent. -/
def findLocation? (file : Text) (line col : Int) : Option (Option StoredLocation) :=
  d.locations.map fun t => t.rows.find? fun r =>
    r.location.file == file && r.location.line == line && r.location.col == col

def findById? (id : Int) : Option (Option StoredLocation) :=
  d.locations.map fun t => t.rows.find? (·.id == id)

def columnOrder (a b : StoredLocation) : Bool :=
  a.location.col < b.location.col || (a.location.col == b.location.col && a.id ≤ b.id)

/-- The rows on a line, by column and then by number. -/
def onLine? (file : Text) (line : Int) : Option (List StoredLocation) :=
  d.locations.map fun t =>
    (t.rows.filter fun r => r.location.file == file && r.location.line == line).mergeSort
      columnOrder

/-- The edges that start at a number, in the order of insertion. -/
def edgesFrom? (id : Int) : Option (List Dependency) :=
  d.dependencies.map fun t => t.rows.filter (·.lhs == id)

def sourceHash? (file : Text) : Option (Option SourceFile) :=
  d.sources.map fun t => t.find? (·.path == file)

end Database

end FaultRepair.Store
