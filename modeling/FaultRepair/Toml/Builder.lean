/-
# TOML documents

What a configuration file says, and how it is put together. Numbers with a fraction and
moments in time keep their text, as no setting takes them.

Headers and dotted keys open tables on the way to the value they name. A table that
was only opened on the way may be defined later, once; anything else that is defined
twice is refused. A key that holds a list is the exception: it may be bound again.
-/

import FaultRepair.Text.Basic

namespace FaultRepair.Toml

/-- A value. A table keeps its entries in the order of the file; `tables` is a list of
tables that headers extend. -/
inductive Value where
  | string (t : Text)
  | integer (n : Int)
  | float (t : Text)
  | boolean (b : Bool)
  | moment (t : Text)
  | array (items : List Value)
  | table (entries : List (Text × Value))
  | tables (items : List (List (Text × Value)))

abbrev Table := List (Text × Value)

namespace Table

def get? (t : Table) (key : Text) : Option Value := (t.find? (·.1 == key)).map (·.2)

/-- The table with a key bound to a value, in the place of its former one if it had
one. -/
def set (t : Table) (key : Text) (v : Value) : Table :=
  if t.any (·.1 == key) then t.map fun e => if e.1 == key then (key, v) else e
  else t ++ [(key, v)]

/-- The table with the table at a path changed. On the way, a list of tables stands
for its last one; anything else that is no table fails. -/
def edit? (f : Table → Option Table) : (path : List Text) → Table → Option Table
  | [], t => f t
  | key :: path, t =>
    match t.get? key with
    | some (.table inner) => (edit? f path inner).map fun e => t.set key (.table e)
    | some (.tables items) =>
      (items.getLast?.bind (edit? f path)).map fun e => t.set key (.tables (items.dropLast ++ [e]))
    | _ => none

end Table

/-- A document in the making. `implicit` are the tables that were only opened on the
way, `arrays` the keys bound to lists, and `context` is the table that headers and
dotted keys have led to. -/
structure Builder where
  root : Table := []
  implicit : List (List Text) := []
  arrays : List (List Text) := []
  context : List Text := []

namespace Builder

variable (b : Builder)

variable (path : List Text)

def markImplicit : Builder :=
  { b with implicit := path :: b.implicit }

def clearImplicit : Builder :=
  { b with implicit := b.implicit.filter (· != path) }

def noteKind (isArray : Bool) : Builder :=
  { b with arrays := if isArray then path :: b.arrays else b.arrays.filter (· != path) }

def contextTable? : List Text → Table → Option Table
  | [], t => some t
  | key :: path, t =>
    match t.get? key with
    | some (.table inner) => contextTable? path inner
    | some (.tables items) => items.getLast?.bind (contextTable? path)
    | _ => none

def put? (key : Text) (v : Value) : Option Builder :=
  (Table.edit? (fun t => some (t.set key v)) path b.root).map ({ b with root := · })

/-- Binds a key in the context. A key that is bound already is refused, unless it
holds a list, or names a table that was only opened on the way, which stays. -/
def bind? (key : Text) (v : Value) : Option Builder := do
  let path := b.context ++ [key]
  let here ← contextTable? b.context b.root
  let taken := (here.get? key).isSome
  if !taken || b.arrays.contains path then
    let b ← b.put? b.context key v
    some (if taken then b.clearImplicit path else b)
  else if b.implicit.contains path then some (b.clearImplicit path)
  else none

/-- Opens the tables on the way to a path, one key after the other. -/
def openWay? (b : Builder) (done : List Text) : List Text → Option Builder
  | [] => some { b with context := done }
  | key :: rest => do
    let here ← contextTable? done b.root
    match here.get? key with
    | none =>
      openWay? (← (b.markImplicit (done ++ [key])).put? done key (.table [])) (done ++ [key]) rest
    | some (.table _) | some (.tables _) => openWay? b (done ++ [key]) rest
    | some _ => none

/-- Makes the table at a path the context, defining it. -/
def openTable? : Option Builder := do
  let last ← path.getLast?
  let b ← openWay? b [] path.dropLast
  let b ← b.bind? last (.table [])
  some { b with context := path }

/-- Makes a new last table of the list at a path the context. -/
def openListed? : Option Builder := do
  let last ← path.getLast?
  let b ← openWay? b [] path.dropLast
  let here ← contextTable? b.context b.root
  let items ← match here.get? last with
    | none => some []
    | some (.tables items) => some items
    | some _ => none
  let b ← b.put? b.context last (.tables (items ++ [[]]))
  some { b with context := path }

/-- Binds a dotted key below the context and comes back to it. -/
def assign? (key : List Text) (v : Value) : Option Builder := do
  let outer := b.context
  let last ← key.getLast?
  let b ← key.dropLast.foldlM (fun (b : Builder) k =>
    let path := b.context ++ [k]
    (b.markImplicit path).openTable? path) b
  let path := b.context ++ [last]
  let isArray := v matches .array _
  -- A list may take the place of any value, an inline table of none.
  let b := if isArray then b.noteKind path true else b
  let taken := ((contextTable? b.context b.root).bind (·.get? last)).isSome
  if v matches .table _ && taken && !b.arrays.contains path then none
  let b ← b.bind? last v
  some { b.noteKind path isArray with context := outer }

end Builder

end FaultRepair.Toml
