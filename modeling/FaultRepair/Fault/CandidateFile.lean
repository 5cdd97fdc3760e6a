/-
# The file of candidates

Ranked candidates are handed from localization to repair in a YAML document: the
revision they belong to, if it is known, and the candidates in order.

Fields that are not known are passed over; a field of the wrong kind makes the whole file
unreadable.
-/

import FaultRepair.Fault.Rank
import FaultRepair.Yaml.Writer

namespace FaultRepair.Fault

open Yaml Number Text

structure CandidateFile where
  revision : Text := []
  candidates : List Candidate := []
  deriving DecidableEq

def numberWord (n : Int) : Document := .word (ofInt n)

def truthWord (b : Bool) : Document := .word (if b then "true" else "false")

def scoreWord (x : Binary64) : Text :=
  if x.isNaN then ".nan"
  else if x.isInf then (if x.isNegative then "-.inf" else ".inf")
  else x.render

def Candidate.document (c : Candidate) : Document :=
  .record
    [("ident", .text c.ident), ("line", numberWord c.line), ("col", numberWord c.col),
     ("file", .text c.file), ("is_dep", truthWord c.isDep), ("depth", numberWord c.depth),
     ("score", .word (scoreWord c.score))]

/-- The file as a document; a revision that is not known is left out. -/
def CandidateFile.document (f : CandidateFile) : Document :=
  .record ((if f.revision.isEmpty then [] else [(ofString "revision", Document.text f.revision)]) ++
    [(ofString "candidates", .list (f.candidates.map Candidate.document))])

def CandidateFile.render (f : CandidateFile) : Text := f.document.render

def follow? : Node → Option Node
  | .alias _ target => target
  | n => some n

def scalar? (n : Node) : Option (Meaning × Text) := do
  match ← follow? n with
  | .scalar tag v style => some (← scalarMeaning? tag v style, v)
  | _ => none

/-- What a scalar says to a field of text: the outer `none` is a failure, the inner one
means that the field is left as it is. -/
def textIn (n : Node) : Option (Option Text) := do
  match ← scalar? n with
  | (.null, _) => some none
  | (.text t, _) => some (some t)
  | (_, v) => some (some v)

def intIn (n : Node) : Option (Option Int) := do
  match ← scalar? n with
  | (.null, _) => some none
  | (.integer i, _) => if i < 0x8000000000000000 then some (some i) else none
  | (.float x, _) => (x.truncate?).map some
  | _ => none

def truthIn (n : Node) : Option (Option Bool) := do
  match ← scalar? n with
  | (.null, _) => some none
  | (.boolean b, _) => some (some b)
  | (.text t, _) =>
    if (["y", "Y", "yes", "on"].map ofString).contains t then some (some true)
    else if (["n", "N", "no", "off"].map ofString).contains t then some (some false)
    else none
  | _ => none

def scoreIn (n : Node) : Option (Option Binary64) := do
  match ← scalar? n with
  | (.null, _) => some none
  | (.integer i, _) => some (some (Binary64.ofInt i))
  | (.float x, _) => some (some x)
  | _ => none

/-- Sets a field; a name that is no field changes nothing. The flag tells whether it is
one. -/
def setField (name : Text) (n : Node) (c : Candidate) : Option (Candidate × Bool) :=
  if name == ofString "ident" then (textIn n).map fun v =>
    ({ c with ident := v.getD c.ident }, true)
  else if name == ofString "line" then (intIn n).map fun v =>
    ({ c with line := v.getD c.line }, true)
  else if name == ofString "col" then (intIn n).map fun v => ({ c with col := v.getD c.col }, true)
  else if name == ofString "file" then (textIn n).map fun v =>
    ({ c with file := v.getD c.file }, true)
  else if name == ofString "is_dep" then (truthIn n).map fun v =>
    ({ c with isDep := v.getD c.isDep }, true)
  else if name == ofString "depth" then (intIn n).map fun v =>
    ({ c with depth := v.getD c.depth }, true)
  else if name == ofString "score" then (scoreIn n).map fun v =>
    ({ c with score := v.getD c.score }, true)
  else some (c, false)

/-- Are two keys spelled the same? Collections are not told apart. -/
def sameKey : Node → Node → Bool
  | .scalar _ v _, .scalar _ w _ => v == w
  | .sequence _, .sequence _ => true
  | .mapping _, .mapping _ => true
  | .alias v _, .alias w _ => v == w
  | _, _ => false

def hasRepeatedKey : List (Node × Node) → Bool
  | [] => false
  | (k, _) :: rest => rest.any (fun e => sameKey k e.1) || hasRepeatedKey rest

/-- Does the key ask for the entries of another mapping? -/
def isMerge : Node → Bool
  | .scalar tag v style =>
    v == ofString "<<" &&
      (((tag.isEmpty || tag == ofString "!") && style == .plain) ||
        shortTag tag == ofString "!!merge")
  | _ => false

/-- One entry of a mapping, with the names that are taken and those that were given so far.
A name that is taken is passed over; a field that is given twice is a failure. -/
def setEntry (set : Text → Node → α → Option (α × Bool)) (acc : α × Option (List Text) × List Text)
    (e : Node × Node) : Option (α × Option (List Text) × List Text) := do
  let (a, taken, given) := acc
  match ← textIn e.1 with
  | none => some acc
  | some name =>
    if (taken.getD []).contains name then some acc
    else
      let (a, known) ← set name e.2 a
      if known && given.contains name then none
      some (a, taken.map (name :: ·), name :: given)

/-- Fills a record from the entries of a mapping; `set` gives a field its value and
tells whether there is such a field. Entries of other mappings that are asked for come
last and only count for names that are not `taken`; `taken` is `none` in a mapping that
no other one asked for. -/
def fill (set : Text → Node → α → Option (α × Bool)) :
    Nat → Option (List Text) → List (Node × Node) → α → Option (α × List Text)
  | 0, _, _, _ => none
  | fuel + 1, taken, entries, a => do
    if hasRepeatedKey entries then none
    let plain := entries.filter (!isMerge ·.1)
    let (a, taken', _) ← plain.foldlM (setEntry set) (a, taken, [])
    match (entries.find? (isMerge ·.1)).map (·.2) with
    | none => some (a, taken'.getD [])
    | some source =>
      let names ← match taken' with
        | some t => some t
        | none => (plain.filterMapM fun e => textIn e.1)
      let mergeOne (acc : α × List Text) (n : Node) : Option (α × List Text) := do
        match ← follow? n with
        | .mapping inner => fill set fuel (some acc.2) inner acc.1
        | _ => none
      match source with
      | .sequence items => items.foldlM mergeOne (a, names)
      | n => mergeOne (a, names) n

/-- A candidate of a list; `none` inside for an entry that is left out. -/
def candidateIn (fuel : Nat) (n : Node) : Option (Option Candidate) := do
  match ← follow? n with
  | .mapping entries =>
    let (c, _) ← fill setField fuel none entries { ident := [], line := 0, col := 0, file := [] }
    some (some c)
  | .scalar tag v style =>
    match ← scalarMeaning? tag v style with
    | .null => some none
    | _ => none
  | _ => none

def candidatesIn (fuel : Nat) (n : Node) : Option (Option (List Candidate)) := do
  match ← follow? n with
  | .sequence items => (items.filterMapM (candidateIn fuel)).map some
  | .scalar tag v style =>
    match ← scalarMeaning? tag v style with
    | .null => some (some [])
    | _ => none
  | _ => none

def setPart (fuel : Nat) (name : Text) (n : Node) (f : CandidateFile) :
    Option (CandidateFile × Bool) :=
  if name == ofString "revision" then
    (textIn n).map fun v => ({ f with revision := v.getD f.revision }, true)
  else if name == ofString "candidates" then
    (candidatesIn fuel n).map fun v => ({ f with candidates := v.getD f.candidates }, true)
  else some (f, false)

/-- The content of a file; `none` if it cannot be understood. -/
def CandidateFile.read? (t : Text) : Option CandidateFile := do
  let fuel := t.length + 1
  match ← Node.read? t with
  | none => some {}
  | some (.mapping entries) => (fill (setPart fuel) fuel none entries {}).map (·.1)
  | some (.scalar tag v style) =>
    match ← scalarMeaning? tag v style with
    | .null => some {}
    | _ => none
  | some _ => none

end FaultRepair.Fault
