/-
# Dependency slices

The slice of a location is what its value depends on, directly or through others, up to
a number of steps. Steps may pass through numbers that no row has. Slices are capped in
depth and in size, nearest locations first.
-/

import FaultRepair.Store.Database

namespace FaultRepair.Store

def maxSliceDepth : Nat := 20
def maxSliceLocations : Nat := 500
def maxSliceEdges : Nat := 2000

/-- A row of a slice with the length of the shortest walk to it. -/
structure SliceLocation where
  row : StoredLocation
  distance : Nat
  deriving DecidableEq

structure Slice where
  root : Int
  depth : Nat
  locations : List SliceLocation
  edges : List Dependency
  deriving DecidableEq

/-- The depth that a request stands for: one out of range means the greatest. -/
def sliceDepth (requested : Int) : Nat :=
  if requested ≤ 0 || requested > maxSliceDepth then maxSliceDepth else requested.toNat

/-! ## The recursive query

It unites rows of a number and a depth, the length of a walk that leads there. A number may
have rows of several depths; the least of them is its distance. -/

abbrev WalkRow := Int × Nat

/-- One turn: every row of the last one above the bound is joined with the edges of its number. -/
def joinRows (edges : List Dependency) (bound : Nat) (last : List WalkRow) : List WalkRow :=
  (last.filter (·.2 < bound)).flatMap fun (id, depth) =>
    (edges.filter (·.lhs == id)).map fun e => (e.rhs, depth + 1)

/-- The rows so far, united with those of further turns until one adds nothing. A row that is
there already is not added again. -/
def unionRows (edges : List Dependency) (bound : Nat) :
    (turns : Nat) → (last all : List WalkRow) → List WalkRow
  | 0, _, all => all
  | turns + 1, last, all =>
    match (joinRows edges bound last).eraseDups.filter (!all.contains ·) with
    | [] => all
    | new => unionRows edges bound turns new (all ++ new)

/-- All rows of the query. The bound leaves nothing to join in the last turn. -/
def walkRows (edges : List Dependency) (root : Int) (bound : Nat) : List WalkRow :=
  unionRows edges bound (bound + 1) [(root, 0)] [(root, 0)]

/-- The least depth among the rows of a number. -/
def leastDepth? (rows : List WalkRow) (id : Int) : Option Nat :=
  ((rows.filter (·.1 == id)).map (·.2)).min?

def sliceOrder (a b : SliceLocation) : Bool :=
  a.distance < b.distance || (a.distance == b.distance && a.row.id ≤ b.row.id)

namespace Database

/-- The rows of a slice; `none` if a table is absent. -/
def sliceLocations? (d : Database) (root : Int) (depth : Nat) : Option (List SliceLocation) := do
  let locations ← d.locations
  let dependencies ← d.dependencies
  let walks := walkRows dependencies.rows root depth
  let rows := locations.rows.filterMap fun r => (leastDepth? walks r.id).map fun n => ⟨r, n⟩
  some ((rows.mergeSort sliceOrder).take maxSliceLocations)

/-- The edges between the rows of a slice; `none` if the table is absent. -/
def sliceEdges? (d : Database) (rows : List SliceLocation) : Option (List Dependency) :=
  let ids := rows.map (·.row.id)
  d.dependencies.map fun t =>
    (t.rows.filter fun e => ids.contains e.lhs && ids.contains e.rhs).take maxSliceEdges

/-- A slice; the outer `none` means that a table is absent, the inner one that nothing
was found. -/
def slice? (d : Database) (root : Int) (requested : Int) : Option (Option Slice) := do
  let depth := sliceDepth requested
  let rows ← d.sliceLocations? root depth
  if rows.isEmpty then return none
  let edges ← d.sliceEdges? rows
  return some ⟨root, depth, rows, edges⟩

end Database

end FaultRepair.Store
