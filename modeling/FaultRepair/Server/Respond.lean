/-
# Answering requests

The read-only interface to a graph database: counts of its rows, locations by position
or number, edges, and slices. A malformed request is answered with what is wrong with
it, an unknown location with "not found", and a database that cannot answer with a
general error.
-/

import FaultRepair.Server.SliceCache
import FaultRepair.Server.Target
import FaultRepair.Number.Integer
import FaultRepair.Text.Path

namespace FaultRepair.Server

open Store Text

/-! ## Answers as text: characters that mean something to a browser are escaped -/

inductive Document where
  | number (n : Int)
  | text (t : Text)
  | list (items : List Document)
  | record (fields : List (Text × Document))

def escapeReading (g : Text.Reading) : Text :=
  let r := g.rune
  if !g.valid then "\\ufffd"
  else if r == 34 then "\\\""
  else if r == 92 then "\\\\"
  else if r == 8 then "\\b"
  else if r == 9 then "\\t"
  else if r == 10 then "\\n"
  else if r == 12 then "\\f"
  else if r == 13 then "\\r"
  else if r < 32 || r == 60 || r == 62 || r == 38 || r == 0x2028 || r == 0x2029 then
    ofString "\\u" ++ hex 4 r
  else g.raw

def quoteJson (t : Text) : Text :=
  ofString "\"" ++ ((Text.readings t).map escapeReading).flatten ++ "\""

def newLine (level : Nat) : Text := ofString "\n" ++ copies level "  "

namespace Document

mutual

/-- The text of a value whose line starts at a level. -/
def renderAt (level : Nat) : Document → Text
  | .number n => ofInt n
  | .text t => quoteJson t
  | .list [] => "[]"
  | .list (d :: ds) => ofString "[" ++ renderItems (level + 1) (d :: ds) ++ newLine level ++ "]"
  | .record [] => "\x7b\x7d"
  | .record (f :: fs) =>
    ofString "\x7b" ++ renderFields (level + 1) (f :: fs) ++ newLine level ++ "\x7d"

def renderItems (level : Nat) : List Document → Text
  | [] => []
  | [d] => newLine level ++ renderAt level d
  | d :: ds => newLine level ++ renderAt level d ++ "," ++ renderItems level ds

def renderFields (level : Nat) : List (Text × Document) → Text
  | [] => []
  | [(name, d)] => newLine level ++ quoteJson name ++ ": " ++ renderAt level d
  | (name, d) :: fs =>
    newLine level ++ quoteJson name ++ ": " ++ renderAt level d ++ "," ++ renderFields level fs

end

def render (d : Document) : Text := renderAt 0 d ++ "\n"

end Document

/-! ## Answers -/

structure Response where
  status : Nat
  headers : List (Text × Text)
  body : Text

/-- What a path leads to. Numbers in paths are kept as written. -/
inductive Route where
  | stats
  | locations
  | location (id : Text)
  | edges (id : Text)
  | slice

/-- The route of a path, if it has one. A number may be missing before `/edges`, but not
at the end. -/
def Route.ofPath? (path : Text) : Option Route := do
  let rest ← dropLead? "/api/" path
  if rest == ofString "stats" then return .stats
  if rest == ofString "locations" then return .locations
  if rest == ofString "slice" then return .slice
  let rest ← dropLead? "locations/" rest
  match splitAt Path.slash rest with
  | [id] => if id.isEmpty then none else some (.location id)
  | [id, last] => if last == ofString "edges" then some (.edges id) else none
  | _ => none

/-- The methods that the interface knows, though it serves only the first. -/
def knownMethods : List Text :=
  ["GET", "CONNECT", "DELETE", "HEAD", "OPTIONS", "PATCH", "POST", "PUT", "TRACE"]

/-- The headers of every answer: pages from anywhere may read it. -/
def openHeaders : List (Text × Text) :=
  [("Access-Control-Allow-Origin", "*"), ("Access-Control-Allow-Methods", "GET, OPTIONS"),
   ("Access-Control-Allow-Headers", "Accept, Content-Type")]

def contentType (t : Text) : Text × Text := ("Content-Type", t)

namespace Response

def plain (status : Nat) (t : Text) : Response :=
  ⟨status, openHeaders ++ [contentType "text/plain; charset=utf-8"], t ++ "\n"⟩

def json (d : Document) : Response :=
  ⟨200, openHeaders ++ [contentType "application/json; charset=utf-8"], d.render⟩

def badRequest (t : Text) : Response := plain 400 t
def unknownLocation : Response := plain 404 "location not found"
def unknownPage : Response := plain 404 "404 page not found"
def internalError : Response := plain 500 "internal error"

/-- The method does not fit; `allowed` are those that would. -/
def wrongMethod (allowed : List Text) : Response :=
  ⟨405, openHeaders ++ allowed.map fun m => (ofString "Allow", m), []⟩

def noContent : Response := ⟨204, openHeaders, []⟩

end Response

/-- A location as it is shown. The distance from the root of a slice is left out where it
is zero. -/
def locationDocument (r : StoredLocation) (distance : Nat) : Document :=
  let near : List (Text × Document) :=
    [("id", .number r.id), ("ident", .text r.location.ident), ("file", .text r.location.file),
     ("line", .number r.location.line), ("col", .number r.location.col)]
  .record (if distance == 0 then near else near ++ [(ofString "depth", .number distance)])

def dependencyDocument (e : Dependency) : Document :=
  .record [("id", .number e.id), ("lhs", .number e.lhs), ("rhs", .number e.rhs)]

def sliceDocument (s : Slice) : Document :=
  .record
    [("root", .number s.root), ("depth", .number s.depth),
     ("locations", .list (s.locations.map fun l => locationDocument l.row l.distance)),
     ("edges", .list (s.edges.map dependencyDocument))]

/-- The numbers of rows; `none` if a table is absent. -/
def statsDocument? (d : Database) : Option Document := do
  let locations ← d.locations
  let dependencies ← d.dependencies
  let sources ← d.sources
  some <| .record
    [("locations", .number locations.rows.length),
      ("dependencies", .number dependencies.rows.length),
     ("sources", .number sources.length)]

def maxLineRows : Nat := 200

/-- The rows at exact coordinates, oldest first, or the first ones on a line if the column
is zero. -/
def locationsAt? (d : Database) (file : Text) (line col : Int) : Option (List StoredLocation) :=
  if col == 0 then (d.onLine? file line).map (·.take maxLineRows)
  else
    d.locations.map fun t => t.rows.filter fun r =>
      r.location.file == file && r.location.line == line && r.location.col == col

/-- A parameter that is a number no smaller than `least`. A missing one is zero unless it
is needed. -/
def numberParameter (t : Target) (name : Text) (least : Int) (needed : Bool) :
    Except Response Int := do
  let written := t.parameter name
  if written.isEmpty && !needed then .ok 0
  else
    let .ok n := Number.decimal written | .error refusal
    if n < least then .error refusal else .ok n
where
  refusal : Response := .badRequest ("invalid query parameter " ++ name)

def answer (r : Option Document) : Response := (r.map .json).getD .internalError

def respondLocations (d? : Option Database) (t : Target) : Except Response Response := do
  let file := t.parameter "file"
  if file.isEmpty then throw (.badRequest "missing query parameter file")
  let line ← numberParameter t "line" 1 true
  let col ← numberParameter t "col" 0 false
  return answer do
    let rows ← locationsAt? (← d?) file line col
    some (.list (rows.map (locationDocument · 0)))

def pathNumber (t : Text) : Except Response Int := do
  let .ok n := Number.decimal t | .error (.badRequest "invalid location id")
  .ok n

def respondLocation (d? : Option Database) (id : Text) : Except Response Response := do
  let id ← pathNumber id
  match d?.bind (·.findById? id) with
  | none => return .internalError
  | some none => return .unknownLocation
  | some (some r) => return .json (locationDocument r 0)

def respondEdges (d? : Option Database) (id : Text) : Except Response Response := do
  let id ← pathNumber id
  return answer do
    let edges ← (← d?).edgesFrom? id
    some (.list (edges.map dependencyDocument))

/-- The number of the slice's root and its depth. A depth that is no number counts as
missing, one that does not fit as the limit it exceeds; both mean the greatest. -/
def sliceRequest (t : Target) : Except Response (Int × Int) := do
  let written := t.parameter "id"
  if written.isEmpty then throw (.badRequest "missing query parameter id")
  let .ok id := Number.decimal written | throw (.badRequest "invalid query parameter id")
  let .ok depth := Number.decimal (t.parameter "depth") | return (id, 0)
  return (id, depth)

def respondSlice (d? : Option Database) (c : SliceCache) (t : Target) : Response × SliceCache :=
  match sliceRequest t, d? with
  | .error r, _ => (r, c)
  | .ok _, none => (.internalError, c)
  | .ok (id, depth), some d =>
    match c.slice? d id depth with
    | (none, c) => (.internalError, c)
    | (some none, c) => (.unknownLocation, c)
    | (some (some s), c) => (.json (sliceDocument s), c)

def serve (d? : Option Database) (c : SliceCache) (t : Target) : Route → Response × SliceCache
  | .stats => (answer (d?.bind statsDocument?), c)
  | .locations => (whole (respondLocations d? t), c)
  | .location id => (whole (respondLocation d? id), c)
  | .edges id => (whole (respondEdges d? id), c)
  | .slice => respondSlice d? c t
where
  whole : Except Response Response → Response
    | .ok r => r
    | .error r => r

/-- The answer to a request, and the cache after it. There is no database where its file
cannot be opened. -/
def respond (d? : Option Database) (c : SliceCache) (method : Text) (t : Target) :
    Response × SliceCache :=
  if method == ofString "OPTIONS" then (.noContent, c)
  else if !knownMethods.contains method then (.wrongMethod [], c)
  else
    match Route.ofPath? t.path with
    | none => (.unknownPage, c)
    | some r => if method == ofString "GET" then serve d? c t r else (.wrongMethod ["GET"], c)

end FaultRepair.Server
