/-
# Dependency graphs

Points in source code, and which of them the value at another one is computed from. The
identity of a location is its position; the identifier there is descriptive only. A graph
is the list of its pairs in the order of their discovery, each pair once; at every position
the identifier seen first is kept. While it grows it may be kept as tables, so that a further
pair needs no search.
-/

import FaultRepair.Text.Basic
import Std.Data.HashMap
import Std.Data.HashSet

namespace FaultRepair.Graph

/-- A point in source code and the identifier found there. -/
structure Location where
  ident : Text
  file : Text
  line : Int
  col : Int
  deriving DecidableEq, Inhabited

/-- The identity of a location. -/
structure Position where
  file : Text
  line : Int
  col : Int
  deriving DecidableEq, Hashable

namespace Location

def position (l : Location) : Position := ⟨l.file, l.line, l.col⟩

def same (l r : Location) : Bool := l.position == r.position

def render (l : Location) : Text :=
  l.ident ++ "@" ++ l.file ++ ":" ++ Text.ofInt l.line ++ ":" ++ Text.ofInt l.col

end Location

/-- A dependency graph: pairs of a target and a location it is computed from. -/
structure DepGraph where
  pairs : List (Location × Location) := []

namespace DepGraph

def empty : DepGraph := {}

variable (g : DepGraph)

/-- All ends of pairs, targets before what they are computed from. -/
def ends : List Location := g.pairs.flatMap fun (l, r) => [l, r]

/-- The first of some locations at the position of another; else that other one. -/
def known (ls : List Location) (l : Location) : Location :=
  (ls.find? (·.same l)).getD l

def hasPair (lhs rhs : Location) : Bool :=
  g.pairs.any fun (l, r) => l.same lhs && r.same rhs

/-- Record that `lhs` is computed from `rhs`. -/
def add (lhs rhs : Location) : DepGraph :=
  if g.hasPair lhs rhs then g
  else
    let l := known g.ends lhs
    let r := known (g.ends ++ [l]) rhs
    { pairs := g.pairs ++ [(l, r)] }

/-- Locations with only the first one at each position. -/
def distinct : List Location → List Location
  | [] => []
  | l :: rest => l :: (distinct rest).filter (!·.same l)

def targets : List Location := distinct (g.pairs.map (·.1))

def deps (target : Location) : List Location :=
  (g.pairs.filter fun (l, _) => l.same target).map (·.2)

def size : Nat := g.pairs.length

/-- Every location of the graph once: each target followed by what it is computed
from. -/
def locations : List Location :=
  distinct (g.targets.flatMap fun t => t :: g.deps t)

end DepGraph

/-- A graph that grows: five tables, each with a test of its own. -/
structure Ledger where
  /-- The targets, in the order of their discovery. -/
  targets : List Location := []
  /-- What every target is computed from. -/
  sources : Std.HashMap Position (List Location) := {}
  /-- The location that was first seen at a position. -/
  known : Std.HashMap Position Location := {}
  /-- The keys of the pairs. -/
  seen : Std.HashSet (Position × Position) := {}
  size : Nat := 0

namespace Ledger

variable (g : Ledger)

/-- Record that `lhs` is computed from `rhs`; a pair that was seen changes nothing. -/
def add (lhs rhs : Location) : Ledger :=
  if g.seen.contains (lhs.position, rhs.position) then g
  else
    let known := g.known.insertIfNew lhs.position lhs
    let target := known.getD lhs.position lhs
    let known := known.insertIfNew rhs.position rhs
    let sources := g.sources.getD lhs.position [] ++ [known.getD rhs.position rhs]
    { targets := if g.sources.contains lhs.position then g.targets else g.targets ++ [target]
      sources := g.sources.insert lhs.position sources
      known := known
      seen := g.seen.insert (lhs.position, rhs.position)
      size := g.size + 1 }

def deps (target : Location) : List Location := g.sources.getD target.position []

/-- Every location once: each target followed by what it is computed from. -/
def locations : List Location :=
  DepGraph.distinct (g.targets.flatMap fun t => t :: g.deps t)

end Ledger

end FaultRepair.Graph
