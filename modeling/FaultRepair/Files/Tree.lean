/-
# Trees of files

The files that a run of the tool sees and leaves behind, by their absolute paths. A
file holds bytes or a graph database. Traces, candidates and patches are named by a path
or by an address with the scheme `file`; other schemes lead out of the tree.
-/

import FaultRepair.Text.Path
import FaultRepair.Store.Database

namespace FaultRepair.Files

open Text

/-- What a path names. -/
inductive Node where
  | file (data : Text)
  | directory
  | database (db : Store.Database)

inductive ReadFault where
  | missing
  /-- A file stands where a directory is needed. -/
  | belowFile
  | directory
  /-- The path holds a zero byte. -/
  | malformed
  /-- A component of the path is too long. -/
  | tooLong

/-- The fault as the operating system words it, with the path it is about. -/
def ReadFault.message (path : Text) : ReadFault → Text
  | .missing => "open " ++ path ++ ": no such file or directory"
  | .belowFile => "open " ++ path ++ ": not a directory"
  | .directory => "read " ++ path ++ ": is a directory"
  | .malformed => "open " ++ path ++ ": invalid argument"
  | .tooLong => "open " ++ path ++ ": file name too long"

/-- A tree of files and the working directory in it. Above every node its directories
are nodes too; the root always is one. -/
structure Tree where
  nodes : List (Text × Node) := []
  workDir : Text := "/"
  /-- Where the toolchain is installed, as the tool learns it when it starts: from its
  environment, or else from its build. Empty if neither says. -/
  goRoot : Text := "/usr/local/go"

namespace Tree

variable (t : Tree)

variable (path : Text)

def absolute : Text :=
  if Path.isAbs path then Path.clean path else Path.joinTwo t.workDir path

def node? : Option Node :=
  if path == ofString "/" then some .directory else (t.nodes.find? (·.1 == path)).map (·.2)

def isDirectory : Bool :=
  match t.node? path with
  | some .directory => true
  | _ => false

def nameLimit : Nat := 255

/-- The absolute path that some components lead to from a directory. All but the last
must be directories; the last may be absent. -/
def walk (t : Tree) (place : Text) : List Text → Except ReadFault Text
  | [] => .ok place
  | name :: rest =>
    match t.node? place with
    | none => .error .missing
    | some .directory =>
      if name.isEmpty || name == ofString "." then t.walk place rest
      else if name == ofString ".." then t.walk (Path.dir place) rest
      else if name.length > nameLimit then .error .tooLong
      else t.walk (Path.joinTwo place name) rest
    | some _ => .error .belowFile

def locate : Except ReadFault Text :=
  if path.isEmpty then .error .missing
  else if path.any (· == 0) then .error .malformed
  else t.walk (if Path.isAbs path then "/" else t.workDir) (splitAt Path.slash path)

def read : Except ReadFault Text := do
  match t.node? (← t.locate path) with
  | none => .error .missing
  | some .directory => .error .directory
  | some (.file data) => .ok data
  | some (.database _) => .ok "SQLite format 3\x00"

def read? : Option Text := (t.read path).toOption

/-- The tree with a node at an absolute path, in place of the former one. -/
def set (n : Node) : Tree :=
  if t.nodes.any (·.1 == path) then
    { t with nodes := t.nodes.map fun e => if e.1 == path then (path, n) else e }
  else { t with nodes := t.nodes ++ [(path, n)] }

/-- The directories from the root down to an absolute path, the path itself included. -/
def way : List Text :=
  let parts := Path.components path
  (List.range parts.length).map fun i => "/" ++ join "/" (parts.take (i + 1))

/-- The tree with a directory at an absolute path; `none` if a file stands there. -/
def makeDirectory? : Option Tree :=
  match t.node? path with
  | none => some (t.set path .directory)
  | some .directory => some t
  | some _ => none

/-- The tree with all directories down to an absolute path; `none` if one of them is
a file. -/
def makeDirectories? : Option Tree := (way path).foldlM makeDirectory? t

def children (dir : Text) : List (Text × Node) :=
  let lead := if dir == ofString "/" then dir else dir ++ "/"
  let below := t.nodes.filterMap fun (p, n) =>
    match dropLead? lead p with
    | some name => if name.isEmpty || name.any (· == Path.slash) then none else some (name, n)
    | none => none
  below.mergeSort fun a b => !before b.1 a.1

/-- Writes a file. Missing directories are made; a file or an empty directory of that
name is replaced. It fails where the name is empty, malformed, too long or that of a
directory with something in it, or where a file stands in the way. -/
def write? (path data : Text) : Option Tree := do
  if path.isEmpty || path.any (· == 0) then none
  let p := t.absolute path
  if (Path.components p).any (·.length > nameLimit) then none
  let t ← t.makeDirectories? (Path.dir p)
  match t.node? p with
  | some .directory =>
  if (t.children p).isEmpty && p != ofString "/" then some (t.set p (.file data)) else none
  | _ => some (t.set p (.file data))

/-- The files of a tree below a directory that another tree does not have like this, by
their paths from there. -/
def changes (t before : Tree) (dir : Text) : List (Text × Text) :=
  t.nodes.filterMap fun (p, n) =>
    match dropLead? (dir ++ "/") p, n with
    | some name, .file data =>
      match before.node? p with
      | some (.file old) => if old == data then none else some (name, data)
      | _ => some (name, data)
    | _, _ => none

/-- The tree with a file, or with a directory if the path ends in a slash. -/
def place (path data : Text) : Tree :=
  let p := t.absolute path
  if path.getLast? == some Path.slash then (t.makeDirectories? p).getD t
  else ((t.makeDirectories? (Path.dir p)).getD t).set p (.file data)

end Tree

/-- The path that an address names. Other schemes than that of files lead to services, none of
which is taken to answer: what is read from there or stored there fails. -/
def pathOf? (address : Text) : Option Text :=
  match Text.cut? "://" address with
  | none => some address
  | some (scheme, rest) =>
    if Text.lower scheme == Text.ofString "file" then some (rest.dropWhile (· != Path.slash))
    else if scheme.any (· == Path.slash) then some address
    else none

namespace Tree

def fetch? (t : Tree) (address : Text) : Option Text := (pathOf? address).bind t.read?

/-- The tree after bytes were stored at an address. Storing is taken to be all or nothing:
where it fails, the tree is as it was, without the directories that were made on the way. -/
def store? (t : Tree) (address data : Text) : Option Tree :=
  (pathOf? address).bind fun p => t.write? p data

end Tree

end FaultRepair.Files
