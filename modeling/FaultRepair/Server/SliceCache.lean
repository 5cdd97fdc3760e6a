/-
# The slice cache

Slices that were asked for lately are kept. Before every use the version of the
database is read, and all entries are dropped if it is not the one they were computed
under; so a request is answered as if there were no cache.

A request is a sequence of small steps: synchronise, look up, query the locations, query
the edges, keep the result.
-/

import FaultRepair.Store.Slice

namespace FaultRepair.Server

open Store

/-- What a slice is kept under. -/
structure SliceKey where
  root : Int
  depth : Nat
  deriving DecidableEq

/-- At most `capacity` slices, the one used last in front, and the version of the database
they are from. -/
structure SliceCache where
  capacity : Nat
  entries : List (SliceKey × Slice) := []
  version : Option Nat := none

def defaultCapacity : Nat := 256

namespace SliceCache

/-- An empty cache; a size that is not positive means the default. -/
def ofSize (size : Int) : SliceCache :=
  { capacity := if size ≤ 0 then defaultCapacity else size.toNat }

variable (c : SliceCache)

/-- Drops everything if the database has another version. -/
def sync (version : Nat) : SliceCache :=
  if c.version == some version then c else { c with entries := [], version := some version }

def erase (key : SliceKey) : List (SliceKey × Slice) := c.entries.filter (·.1 != key)

/-- A kept slice, which becomes the one used last. -/
def get? (key : SliceKey) : Option (Slice × SliceCache) :=
  (c.entries.lookup key).map fun s => (s, { c with entries := (key, s) :: c.erase key })

/-- Keeps a slice; the one that was not used for longest makes room. -/
def add (key : SliceKey) (s : Slice) : SliceCache :=
  { c with entries := ((key, s) :: c.erase key).take c.capacity }

/-- The slice of a location, from the cache if it is there. The outer `none` means that a
table is absent, the inner one that nothing was found. -/
def slice? (d : Database) (root requested : Int) :
    Option (Option Slice) × SliceCache :=
  let depth := sliceDepth requested
  let key : SliceKey := ⟨root, depth⟩
  let c := c.sync d.version
  match c.get? key with
  | some (s, c) => (some (some s), c)
  | none =>
    match d.sliceLocations? root depth with
    | none => (none, c)
    | some [] => (some none, c)
    | some rows =>
      match d.sliceEdges? rows with
      | none => (none, c)
      | some edges =>
        let s : Slice := ⟨root, depth, rows, edges⟩
        (some (some s), c.add key s)

end SliceCache

end FaultRepair.Server
