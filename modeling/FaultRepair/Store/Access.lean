/-
# Access to a store

A store is a database file or a remote server. Every operation opens it anew, does its
work in one transaction and closes it again, so an operation is a function from the
store to its answer and, if it writes, to the store it leaves behind. An operation that
fails leaves the store as it was. Its fault names the task that failed, where the store knows it,
and the cause below it.

What keeps a write from being done is not only the store's own refusal. A file may be
locked, a disk full, a connection lost, and the caller may give up: after any number of
statements, and also within a transaction.
-/

import FaultRepair.Files.Tree

namespace FaultRepair.Store

open FaultRepair.Graph Text

inductive Axis where
  | line | col
  deriving DecidableEq

def Axis.name : Axis → Text
  | .line => "line"
  | .col => "col"

/-- A coordinate that a column of 32 bits cannot hold. -/
structure RangeFault where
  axis : Axis
  value : Int
  deriving DecidableEq

def RangeFault.message (f : RangeFault) : Text :=
  f.axis.name ++ " " ++ ofInt f.value ++ ": out of range"

/-- Does a number fit into 32 bits, sign included? -/
def fitsColumn (n : Int) : Bool := -2147483648 ≤ n && n ≤ 2147483647

/-- Coordinates that fit the columns of a remote store; the line is looked at first. -/
def narrow (line col : Int) : Except RangeFault (Int × Int) :=
  if !fitsColumn line then .error ⟨.line, line⟩
  else if !fitsColumn col then .error ⟨.col, col⟩
  else .ok (line, col)

inductive Task where
  | insertLocation (l : Location)
  | insertEdge (lhs rhs : Int)
  | findLocation (file : Text) (line col : Int)
  | findById (id : Int)
  | findOnLine (file : Text) (line : Int)
  | edgesFrom (id : Int)
  | recordSource (path : Text)
  | sourceHash (path : Text)
  | writeGraph
  deriving DecidableEq

def Task.render : Task → Text
  | .insertLocation l => "insert location " ++ l.render
  | .insertEdge lhs rhs => "insert edge " ++ ofInt lhs ++ " -> " ++ ofInt rhs
  | .findLocation file line col =>
    "find location " ++ file ++ ":" ++ ofInt line ++ ":" ++ ofInt col
  | .findById id => "find location " ++ ofInt id
  | .findOnLine file line => "find locations on " ++ file ++ ":" ++ ofInt line
  | .edgesFrom id => "edges from " ++ ofInt id
  | .recordSource path => "record source " ++ path
  | .sourceHash path => "source hash " ++ path
  | .writeGraph => "write graph"

/-- What stands in the way of a task. -/
inductive Cause where
  /-- The server of a remote store cannot be reached. -/
  | unreachable
  /-- The database file cannot be opened. -/
  | unopenable
  /-- The database refuses a statement: a table is absent, or the caller has given up. -/
  | refused
  deriving DecidableEq

def Cause.message : Cause → Text
  | .unreachable => "connect postgres"
  | .unopenable => "open sqlite"
  | .refused => "sqlite"

inductive StoreFault where
  | notFound
  | outOfRange (l : Location) (fault : RangeFault)
  | failed (task : Option Task) (cause : Cause)
  deriving DecidableEq

/-- The message of a fault. What a database engine adds is left out, and writing a graph
says nothing of its cause. -/
def StoreFault.message : StoreFault → Text
  | .notFound => "not found"
  | .outOfRange l f => (Task.insertLocation l).render ++ ": " ++ f.message
  | .failed none c => c.message
  | .failed (some .writeGraph) _ => Task.writeGraph.render
  | .failed (some t) .refused => t.render
  | .failed (some t) c => t.render ++ ": " ++ c.message

/-- Something from outside that makes a statement fail, after some that are still carried
out. -/
structure Trouble where
  after : Nat
  cause : Cause

/-- The trouble that is ahead when some statements were carried out. -/
def Trouble.later (t : Trouble) (statements : Nat) : Trouble :=
  { t with after := t.after - statements }

/-- Is there trouble within some statements? -/
def cutShort (t : Option Trouble) (statements : Nat) : Bool := t.any (·.after < statements)

/-- What stands behind a store: its database, or why there is none. A file without a name
lasts only as long as one operation. -/
structure Backing where
  database : Except Cause Database
  kept : Bool := true
  trouble : Option Trouble := none

inductive Store where
  | file (b : Backing)
  | remote (b : Backing)

namespace Backing

def commit (b : Backing) (d : Database) : Backing :=
  if b.kept then { b with database := .ok d } else b

/-- Carries out the statements of a transaction, unless one of them meets with trouble. -/
def spend (b : Backing) (statements : Nat) : Except Cause Backing :=
  match b.trouble with
  | none => .ok b
  | some t =>
    if t.after < statements then .error t.cause
    else .ok { b with trouble := some (t.later statements) }

/-- Writes to the database in a transaction of some statements. All of it is done, or
nothing. A failure to open the database names the task if `named` says so. -/
def change (b : Backing) (t : Option Task) (named : Bool) (statements : Nat)
    (step : Database → Option (α × Database)) : Except StoreFault (α × Backing) :=
  match b.database with
  | .error c => .error (.failed (if named then t else none) c)
  | .ok d =>
    match step d with
    | none => .error (.failed t .refused)
    | some (a, d) =>
      match b.spend statements with
      | .error c => .error (.failed t c)
      | .ok b => .ok (a, b.commit d)

/-- Reads from the database; a failure to open it names the task if `named` says so. -/
def ask (b : Backing) (t : Task) (named : Bool) (query : Database → Option α) :
    Except StoreFault α :=
  match b.database with
  | .error c => .error (.failed (if named then some t else none) c)
  | .ok d =>
    match query d with
    | none => .error (.failed (some t) .refused)
    | some a => .ok a

end Backing

namespace Store

def backing : Store → Backing
  | .file b => b
  | .remote b => b

def isRemote : Store → Bool
  | .file _ => false
  | .remote _ => true

/-- The same store with something else behind it. -/
def withBacking : Store → Backing → Store
  | .file _, b => .file b
  | .remote _, b => .remote b

def database? (s : Store) : Option Database := s.backing.database.toOption

/-- The store while there is trouble ahead, or none. -/
def meeting (s : Store) (t : Option Trouble) : Store :=
  s.withBacking { s.backing with trouble := t }

/-- The store for a caller who has given up: the first statement is refused. -/
def abandoned (s : Store) : Store :=
  s.withBacking { s.backing with database := s.backing.database.bind fun _ => .error .refused }

/-- The store of a server that cannot be reached. -/
def unreachable : Store := .remote { database := .error .unreachable }

def found : Option α → Except StoreFault α
  | some a => .ok a
  | none => .error .notFound

/-- A write of one statement. Only a server names the task where it cannot be reached. -/
def write (s : Store) (t : Option Task) (step : Database → Option (α × Database)) :
    Except StoreFault (α × Store) :=
  (s.backing.change t s.isRemote 1 step).map fun (a, b) => (a, s.withBacking b)

def alter (s : Store) (t : Option Task) (step : Database → Option Database) :
    Except StoreFault Store :=
  (s.write t fun d => (step d).map fun d => ((), d)).map (·.2)

def init (s : Store) : Except StoreFault Store := s.alter none fun d => some d.init

def reset (s : Store) : Except StoreFault Store := s.alter none fun d => some d.reset

def drop (s : Store) (table : TableName) : Except StoreFault Store := s.alter none (·.drop? table)

/-- A server has no room for coordinates that its columns cannot hold. -/
def insertLocation (s : Store) (l : Location) : Except StoreFault (Int × Store) :=
  match s, narrow l.line l.col with
  | .remote _, .error r => .error (.outOfRange l r)
  | _, _ => s.write (some (.insertLocation l)) (·.insertLocation? l)

def insertEdge (s : Store) (lhs rhs : Int) : Except StoreFault Store :=
  s.alter (some (.insertEdge lhs rhs)) (·.insertEdge? lhs rhs)

def recordSource (s : Store) (source : SourceFile) : Except StoreFault Store :=
  s.alter (some (.recordSource source.path)) (·.recordSource? source)

/-- The oldest row at exact coordinates. No row of a remote store has coordinates that
its columns cannot hold. -/
def findLocation (s : Store) (file : Text) (line col : Int) : Except StoreFault StoredLocation := do
  match s, narrow line col with
  | .remote _, .error _ => .error .notFound
  | _, _ =>
    found (← s.backing.ask (.findLocation file line col) true (·.findLocation? file line col))

def findById (s : Store) (id : Int) : Except StoreFault StoredLocation := do
  found (← s.backing.ask (.findById id) true (·.findById? id))

def findOnLine (s : Store) (file : Text) (line : Int) : Except StoreFault (List StoredLocation) :=
  match s, fitsColumn line with
  | .remote _, false => .ok []
  | _, _ => s.backing.ask (.findOnLine file line) true (·.onLine? file line)

def edgesFrom (s : Store) (id : Int) : Except StoreFault (List Dependency) :=
  s.backing.ask (.edgesFrom id) false (·.edgesFrom? id)

def sourceHash (s : Store) (path : Text) : Except StoreFault SourceFile := do
  found (← s.backing.ask (.sourceHash path) false (·.sourceHash? path))

end Store

/-! ## Opening

A name that starts as the address of a server does is a remote store, any other is the path of a
database file. A file that does not exist is made; an empty one is a database without tables. What
a server holds is kept beside the files, under its address; one that is not there cannot be
reached. -/

open Files

def isServerName (name : Text) : Bool :=
  Text.startsWith name "postgres://" || Text.startsWith name "postgresql://"

/-- Names of databases that vanish when they are closed. -/
def isFleeting (path : Text) : Bool := path.isEmpty || path == Text.ofString ":memory:"

variable (files : Tree)

def fileDatabase (path : Text) : Except Cause Database :=
  let place := files.absolute path
  match files.node? place with
  | some (.database d) => .ok d
  | some (.file []) => .ok .blank
  | some _ => .error .unopenable
  | none => if files.isDirectory (Text.Path.dir place) then .ok .blank else .error .unopenable

def serverDatabase (address : Text) : Except Cause Database :=
  match files.node? address with
  | some (.database d) => .ok d
  | _ => .error .unreachable

def Store.ofFile (path : Text) : Store :=
  if isFleeting path then .file { database := .ok .blank, kept := false }
  else .file { database := fileDatabase files path }

def Store.ofName (name : Text) : Store :=
  if isServerName name then .remote { database := serverDatabase files name }
  else .ofFile files name

def Store.save (name : Text) : Store → Tree
  | .file ⟨.ok d, true, _⟩ => files.set (files.absolute name) (.database d)
  | .remote ⟨.ok d, _, _⟩ => files.set name (.database d)
  | _ => files

/-- Opens the store of a name and sees to it that it has its tables. -/
def Store.connect (name : Text) : Except StoreFault Store := (Store.ofName files name).init

end FaultRepair.Store
