/-
# Writing a graph

A built graph is kept as one location row for every position, one edge row for every
pair, and the fingerprint of every analysed file. A database file takes all of it in
one transaction; a server takes it row by row, as any store may, and then keeps the rows
written before a failure.
-/

import FaultRepair.Store.Access
import FaultRepair.Fingerprint.HighwayHash
import FaultRepair.Report.Notice

namespace FaultRepair.Store

open FaultRepair.Graph Files Report

inductive PersistFault where
  | unreadable (path : Text) (fault : ReadFault)
  | store (fault : StoreFault)

def PersistFault.message : PersistFault → Text
  | .unreadable path f => "fingerprint " ++ path ++ ": " ++ f.message path
  | .store f => f.message

def fingerprint (files : Tree) (revision path : Text) : Except PersistFault SourceFile :=
  match files.read path with
  | .error f => .error (.unreadable path f)
  | .ok data => .ok ⟨path, Fingerprint.render (Fingerprint.ofSource data), revision⟩

/-- The fingerprints of some files; the first that cannot be read is reported. -/
def fingerprints (files : Tree) (revision : Text) (paths : List Text) :
    Except PersistFault (List SourceFile) :=
  paths.mapM (fingerprint files revision)

/-- How many rows were written. -/
structure GraphCounts where
  locations : Nat := 0
  edges : Nat := 0
  sources : Nat := 0

def GraphCounts.notice (c : GraphCounts) : Notice :=
  .log ("Inserted " ++ Text.ofNat c.locations ++ " locations, " ++ Text.ofNat c.edges ++
    " dependencies, " ++ Text.ofNat c.sources ++ " source fingerprints")

/-- The number that every position was given, each position once. -/
abbrev Numbering := List (Position × Int)

def Numbering.of (n : Numbering) (l : Location) : Int := (n.lookup l.position).getD 0

/-- The numbering with the number of a position, in place of one that it had. -/
def Numbering.set (n : Numbering) (p : Position) (id : Int) : Numbering :=
  if n.any (·.1 == p) then n.map fun e => if e.1 == p then (p, id) else e else n ++ [(p, id)]

/-- The pairs of a graph in the order in which they are written. -/
def edgeOrder (g : DepGraph) : List (Location × Location) :=
  g.targets.flatMap fun t => (g.deps t).map fun d => (t, d)

/-- A row of a graph. -/
inductive Row where
  | location (l : Location)
  | pair (pair : Location × Location)
  | source (file : SourceFile)

/-- All rows of a graph in the order in which they are written. -/
def rowsOf (g : DepGraph) (sources : List SourceFile) : List Row :=
  g.locations.map .location ++ (edgeOrder g).map .pair ++ sources.map .source

/-- What is remembered of the rows that were written: the numbers that positions were given,
and how many rows there are. -/
structure Tally where
  numbers : Numbering := []
  counts : GraphCounts := {}

/-- The tally with one more row, where a location was given a number. -/
def Tally.add (t : Tally) (id : Int) : Row → Tally
  | .location l =>
    ⟨t.numbers.set l.position id, { t.counts with locations := t.counts.locations + 1 }⟩
  | .pair _ => { t with counts := { t.counts with edges := t.counts.edges + 1 } }
  | .source _ => { t with counts := { t.counts with sources := t.counts.sources + 1 } }

namespace Database

/-- One more row, and its number if it is a location; `none` if its table is absent. -/
def put? (d : Database) (n : Numbering) : Row → Option (Int × Database)
  | .location l => d.insertLocation? l
  | .pair (l, r) => (d.insertEdge? (n.of l) (n.of r)).map fun d => (0, d)
  | .source f => (d.recordSource? f).map fun d => (0, d)

def step? : Tally × Database → Row → Option (Tally × Database)
  | (t, d), row => (d.put? t.numbers row).map fun (id, d) => (t.add id row, d)

/-- A whole graph in one transaction; `none` if a table that is needed is absent. The
tables of locations and edges are needed even for an empty graph. -/
def writeGraph? (d : Database) (g : DepGraph) (sources : List SourceFile) :
    Option (GraphCounts × Database) := do
  if d.locations.isNone || d.dependencies.isNone then none
  let (t, d) ← (rowsOf g sources).foldlM step? ({}, d)
  some ({ t.counts with locations := t.numbers.length }, d)

end Database

/-- Takes steps until one fails, and says where that left. -/
def advance (step : σ → α → Except StoreFault σ) (s : σ) : List α → σ × Option StoreFault
  | [] => (s, none)
  | a :: rest =>
    match step s a with
    | .error f => (s, some f)
    | .ok s => advance step s rest

def noticeInterval : Nat := 10000

/-- The notices while `total` locations are written one by one. -/
def rowNotices (total : Nat) : List Notice :=
  (List.range (total / noticeInterval)).map fun i =>
    .verbose ("  inserted " ++ Text.ofNat ((i + 1) * noticeInterval) ++ "/" ++ Text.ofNat total ++
      " locations")

/-- The statements of a graph that is written as a whole: one for the transaction, and one for
each row. -/
def wholeStatements (g : DepGraph) (sources : List SourceFile) : Nat :=
  1 + (rowsOf g sources).length

namespace Store

def put (s : Store) (n : Numbering) : Row → Except StoreFault (Int × Store)
  | .location l => s.insertLocation l
  | .pair (l, r) => (s.insertEdge (n.of l) (n.of r)).map fun s => (0, s)
  | .source f => (s.recordSource f).map fun s => (0, s)

def step : Tally × Store → Row → Except StoreFault (Tally × Store)
  | (t, s), row => (s.put t.numbers row).map fun (id, s) => (t.add id row, s)

def writeRows (s : Store) (g : DepGraph) (sources : List SourceFile) :
    Store × Except StoreFault GraphCounts :=
  match advance step ({}, s) (rowsOf g sources) with
  | ((_, s), some f) => (s, .error f)
  | ((t, s), none) => (s, .ok t.counts)

def writeWhole (b : Backing) (g : DepGraph) (sources : List SourceFile) :
    Store × Except StoreFault GraphCounts :=
  match b.change (some .writeGraph) true (wholeStatements g sources) (·.writeGraph? g sources) with
  | .error f => (.file b, .error f)
  | .ok (counts, b) => (.file b, .ok counts)

/-- Writes a graph in the way of the store; `rows` asks for single rows in any case. -/
def writeGraph (s : Store) (rows : Bool) (g : DepGraph) (sources : List SourceFile) :
    Store × Except StoreFault GraphCounts :=
  match s, rows with
  | .file b, false => writeWhole b g sources
  | _, _ => s.writeRows g sources

end Store

structure Persisted where
  store : Store
  notices : List Notice := []
  outcome : Except PersistFault GraphCounts

/-- Fingerprints the analysed files and writes the graph; `rows` asks for single rows even
where the store could take the whole. -/
def persist (files : Tree) (s : Store) (rows : Bool) (g : DepGraph) (paths : List Text)
    (revision : Text) : Persisted :=
  match fingerprints files revision paths with
  | .error f => { store := s, outcome := .error f }
  | .ok sources =>
    let details := match s, rows with
      | .file _, false => []
      | _, _ => rowNotices g.locations.length
    match s.writeGraph rows g sources with
    | (s, .error f) => { store := s, outcome := .error (.store f) }
    | (s, .ok counts) =>
      { store := s, notices := details ++ [counts.notice], outcome := .ok counts }

end FaultRepair.Store
