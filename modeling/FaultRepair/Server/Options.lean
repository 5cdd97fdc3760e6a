/-
# Starting the server

The server is told by flags, or else by the environment, which database it serves, on
which port, and how many slices it keeps.
-/

import FaultRepair.Config.Environment
import FaultRepair.Server.SliceCache
import FaultRepair.Store.Access

namespace FaultRepair.Server

open Config Files Text

structure Options where
  db : Text
  port : Text
  cache : Int

inductive OptionsFault where
  | unknown (name : Text)
  | noArgument (name : Text)
  | malformed (argument : Text)
  | help
  | cacheSize (written : Text)
  | noDatabase

def OptionsFault.message : OptionsFault → Text
  | .unknown n => "flag provided but not defined: -" ++ n
  | .noArgument n => "flag needs an argument: -" ++ n
  | .malformed a => "bad flag syntax: " ++ a
  | .help => "flag: help requested"
  | .cacheSize w => "invalid slice cache size " ++ quote w
  | .noDatabase => "database path required: set -db or FAULTFIX_DB"

/-- The flags as written, each with the last value that was given. -/
structure Written where
  db : Text
  port : Text
  cache : Text

namespace Written

/-- A flag set to a value; `none` if there is no such flag. -/
def set? (w : Written) (name value : Text) : Option Written :=
  if name == ofString "db" then some { w with db := value }
  else if name == ofString "port" then some { w with port := value }
  else if name == ofString "cache" then some { w with cache := value }
  else none

def dash : UInt8 := byte '-'
def equals : UInt8 := byte '='

/-- The name of a flag, without one or two dashes. `none` if the argument is no flag; then
it and all after it are left alone. -/
def flagBody? : Text → Option Text
  | a :: b :: rest =>
    if a != dash then none
    else if b != dash then some (b :: rest)
    else if rest.isEmpty then none
    else some rest
  | _ => none

def splitValue : Text → Text × Option Text
  | [] => ([], none)
  | first :: rest =>
    match cutAt? equals rest with
    | some (name, value) => (first :: name, some value)
    | none => (first :: rest, none)

/-- Reads flags up to the first argument that is none. -/
def read (w : Written) : List Text → Except OptionsFault Written
  | [] => .ok w
  | argument :: rest =>
    match flagBody? argument with
    | none => .ok w
    | some body =>
      if body.head? == some dash || body.head? == some equals then .error (.malformed argument)
      else
        let (name, value) := splitValue body
        if (w.set? name []).isNone then
          .error (if name == ofString "help" || name == ofString "h" then .help else .unknown name)
        else
          match value with
          | some v => read ((w.set? name v).getD w) rest
          | none =>
            match rest with
            | v :: rest => read ((w.set? name v).getD w) rest
            | [] => .error (.noArgument name)

end Written

/-- A variable that is set to something, or else another value. -/
def variableOr (env : Variables) (name other : Text) : Text :=
  let v := (env.get? name).getD []
  if v.isEmpty then other else v

def Options.read (env : Variables) (arguments : List Text) : Except OptionsFault Options := do
  let w ← Written.read
    { db := (env.get? "FAULTFIX_DB").getD [], port := variableOr env "PORT" "8080"
      cache := variableOr env "SLICE_CACHE" (ofNat defaultCapacity) } arguments
  let .ok n := Number.decimal w.cache | throw (.cacheSize w.cache)
  if n ≤ 0 then throw (.cacheSize w.cache)
  if w.db.isEmpty then throw .noDatabase
  return ⟨w.db, w.port, n⟩

inductive PortFault where
  | invalid (port : Text)
  | unknown (port : Text)
  | colons (port : Text)
  | bracket (port : Text) (mark : Text)

def PortFault.message : PortFault → Text
  | .invalid p => "listen tcp: address " ++ p ++ ": invalid port"
  | .unknown p => "listen tcp: lookup tcp/" ++ p ++ ": unknown port"
  | .colons p => "listen tcp: address :" ++ p ++ ": too many colons in address"
  | .bracket p mark => "listen tcp: address :" ++ p ++ ": unexpected '" ++ mark ++ "' in address"

/-- What is wrong with a port, if anything. It is a number from 0 to 65535, which may have
a sign. -/
def portFault? (port : Text) : Option PortFault :=
  if port.any (· == byte ':') then some (.colons port)
  else if port.any (· == byte '[') then some (.bracket port "[")
  else if port.any (· == byte ']') then some (.bracket port "]")
  else
    let (negative, digits) := match port with
      | b :: rest => if b == byte '-' then (true, rest) else if b == byte '+' then (false,
        rest) else (false, port)
      | [] => (false, [])
    if !digits.all isDigit then some (.unknown port)
    else
      let n := (toNat? digits).getD 0
      if n > 65535 || (negative && n > 0) then some (.invalid port) else none

inductive StartFault where
  | options (fault : OptionsFault)
  | database (path : Text)
  | port (fault : PortFault)

def StartFault.message : StartFault → Text
  | .options f => f.message
  | .database path => "open " ++ path
  | .port f => "server: " ++ f.message

/-- Can a database file be opened? What it holds does not matter before the first
query. -/
def canOpen (files : Tree) (path : Text) : Bool :=
  let place := files.absolute path
  Store.isFleeting path || (files.node? place).isSome && !files.isDirectory place ||
    (files.node? place).isNone && files.isDirectory (Path.dir place)

/-- The options under which the server starts to serve. -/
def start (files : Tree) (env : Variables) (arguments : List Text) : Except StartFault Options := do
  let o ← (Options.read env arguments).mapError .options
  if !canOpen files o.db then throw (.database o.db)
  let some f := portFault? o.port | return o
  throw (.port f)

end FaultRepair.Server
