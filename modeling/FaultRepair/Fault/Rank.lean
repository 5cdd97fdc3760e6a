/-
# Ranking

Locations that may be at fault, and the order of suspicion. Depths are renumbered from one
in their own order; the score of a candidate is its depth divided by the number of
candidates in its file, and half of that for one found by following dependencies. The
lowest score comes first.
-/

import FaultRepair.Graph.DepGraph
import FaultRepair.Number.Binary64

namespace FaultRepair.Fault

open Number FaultRepair.Graph

/-- A location that may be at fault. `isDep` tells one that was found by following
dependencies. -/
structure Candidate where
  ident : Text
  line : Int
  col : Int
  file : Text
  isDep : Bool := false
  depth : Int := 0
  score : Binary64 := Binary64.zero
  deriving DecidableEq

def Candidate.location (c : Candidate) : Location := ⟨c.ident, c.file, c.line, c.col⟩

variable (cs : List Candidate)

/-- The candidates by depth, with depths from one on; equal depths keep their order. -/
def renumber : List Candidate :=
  (cs.mergeSort fun a b => a.depth ≤ b.depth).zipIdx.map fun (c, i) =>
    { c with depth := (i : Int) + 1 }

def countInFile (file : Text) : Nat := (cs.filter (·.file == file)).length

def scoreOf (c : Candidate) : Binary64 :=
  let s := Binary64.ofRatio false c.depth.toNat (countInFile cs c.file)
  if c.isDep then s.half else s

/-- The candidates in the order of suspicion; equal scores keep the order of depth. -/
def rank : List Candidate :=
  let numbered := renumber cs
  (numbered.map fun c => { c with score := scoreOf numbered c }).mergeSort fun a b =>
    !b.score.lt a.score

end FaultRepair.Fault
