/-
# Localizing a failure

Every frame of a trace is a direct candidate. From the locations stored for a frame the
dependency edges are followed breadth first, and every location they reach is a further
candidate. A position is a candidate at most once, and the first reason wins.
-/

import FaultRepair.Fault.Rank
import FaultRepair.Trace.Parse
import FaultRepair.Store.Persist

namespace FaultRepair.Fault

open FaultRepair.Graph Store Files Report Trace

/-- A walk along the edges: numbers that were reached, positions that are candidates
already, the rows reached in this round, and the new candidates so far. -/
structure Walk where
  visited : List Int
  seen : List Position
  next : List StoredLocation := []
  found : List StoredLocation := []

namespace Walk

/-- Reaches a number. One without a row is passed over. -/
def visit (s : Store) (w : Walk) (id : Int) : Except StoreFault Walk :=
  if w.visited.contains id then .ok w
  else
    let w := { w with visited := id :: w.visited }
    match s.findById id with
    | .error .notFound => .ok w
    | .error f => .error f
    | .ok row =>
      let w := { w with next := w.next ++ [row] }
      let p := row.location.position
      .ok (if w.seen.contains p then w
        else { w with seen := p :: w.seen, found := w.found ++ [row] })

def follow (s : Store) (w : Walk) (row : StoredLocation) : Except StoreFault Walk := do
  let edges ← s.edgesFrom row.id
  edges.foldlM (fun w e => w.visit s e.rhs) w

/-- Walks at most `depth` rounds from the rows of a level. -/
def rounds (s : Store) :
    (depth : Nat) → (level : List StoredLocation) → Walk → Except StoreFault Walk
  | 0, _, w => .ok w
  | _ + 1, [], w => .ok w
  | depth + 1, row :: level, w => do
    let w ← (row :: level).foldlM (follow s) { w with next := [] }
    rounds s depth w.next w

end Walk

/-- The rows within `depth` edges of the roots whose positions are not yet seen, nearest
first, and the positions seen after them. -/
def expand (s : Store) (depth : Nat) (roots : List StoredLocation) (seen : List Position) :
    Except StoreFault (List StoredLocation × List Position) := do
  let w ← Walk.rounds s depth roots { visited := roots.map (·.id), seen }
  .ok (w.found, w.seen)

/-- The rows a frame is expanded from. A frame without a column stands for its whole
line. -/
def rootsOf (s : Store) (f : Frame) : Except StoreFault (List StoredLocation × List Notice) :=
  if f.col == 0 then (s.findOnLine f.file f.line).map fun rows => (rows, [])
  else
    match s.findLocation f.file f.line f.col with
    | .ok row => .ok ([row], [])
    | .error .notFound =>
      .ok ([], [.verbose ("  no stored location for " ++ f.file ++ ":" ++
        Text.ofInt f.line ++ ":" ++
        Text.ofInt f.col)])
    | .error e => .error e

/-- A warning if a file is not what it was when the graph was built. -/
def staleness (files : Tree) (s : Store) (file : Text) : List Notice :=
  match s.sourceHash file with
  | .error .notFound => []
  | .error f => [.verbose ("  source hash lookup for " ++ file ++ ": " ++ f.message)]
  | .ok recorded =>
    match files.read file with
    | .error _ => []
    | .ok data =>
      if Fingerprint.render (Fingerprint.ofSource data) == recorded.hash then []
      else [.warning (file ++ " changed since the graph was built (revision " ++
        recorded.revision ++
        "); locations may be stale")]

structure Localizing where
  candidates : List Candidate := []
  seen : List Position := []
  checked : List Text := []
  direct : Nat := 0
  dependent : Nat := 0
  notices : List Notice := []

def Localizing.check (files : Tree) (s : Store) (l : Localizing) (file : Text) : Localizing :=
  if l.checked.contains file then l
  else { l with checked := file :: l.checked, notices := l.notices ++ staleness files s file }

def Localizing.frame (s : Store) (depth : Nat) (l : Localizing) (f : Frame) :
    Except StoreFault Localizing := do
  let p := f.location.position
  if l.seen.contains p then return l
  let own : Candidate :=
    { ident := f.ident, line := f.line, col := f.col, file := f.file, depth := f.depth }
  let (roots, notes) ← rootsOf s f
  let (rows, seen) ← expand s depth roots (p :: l.seen)
  let further := rows.map fun r : StoredLocation =>
    { ident := r.location.ident, line := r.location.line, col := r.location.col
      file := r.location.file, isDep := true, depth := f.depth : Candidate }
  return { l with
    candidates := l.candidates ++ own :: further, seen, direct := l.direct + 1
    dependent := l.dependent + rows.length, notices := l.notices ++ notes }

/-- The frames of a trace in turn; a fault comes with what was reported before it. -/
def Localizing.frames (files : Tree) (s : Store) (depth : Nat) :
    Localizing → List Frame → Except (List Notice × StoreFault) Localizing
  | l, [] => .ok l
  | l, f :: rest =>
    let l := l.check files s f.file
    match l.frame s depth f with
    | .error e => .error (l.notices, e)
    | .ok l => l.frames files s depth rest

/-- The candidates for the frames of a trace, and what there is to report. -/
def localize (files : Tree) (s : Store) (depth : Int) (frames : List Frame) :
    Except (List Notice × StoreFault) (List Candidate × List Notice) :=
  let opening : Notice :=
    .log ("Localizing " ++ Text.ofNat frames.length ++ " frames (expansion depth " ++
    Text.ofInt depth ++ ")...")
  match Localizing.frames files s depth.toNat {} frames with
  | .error (notices, e) => .error (opening :: notices, e)
  | .ok l =>
    let closing : Notice := .log ("Localized " ++ Text.ofNat l.direct ++ " direct and " ++
      Text.ofNat l.dependent ++ " dependency candidates")
    .ok (l.candidates, opening :: l.notices ++ [closing])

end FaultRepair.Fault
