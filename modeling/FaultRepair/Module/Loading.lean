/-
# Loading a workspace

The modules whose packages a workspace can see: its members, and the modules they require,
each of which must be replaced by a directory. A workspace with a module file that cannot
be read, with a member in a newer language than its own, or with two members of one path
cannot be loaded.
-/

import FaultRepair.Module.Workspace

namespace FaultRepair.Module

open Files Text

def isPathByte (b : UInt8) : Bool :=
  isDigit b || isAlpha b || (ofString "-._~+").any (· == b)

def deviceNames : List Text :=
  let numbered : List Text := ["com", "lpt"]
  (["con", "prn", "aux", "nul"] : List Text) ++
    numbered.flatMap fun n => (List.range 9).map fun i => n ++ ofNat (i + 1)

/-- Does the name end in a tilde and digits, as shortened names do? -/
def isShortened (t : Text) : Bool :=
  let digits := (t.reverse.takeWhile (· != byte '~')).reverse
  digits.length < t.length && !digits.isEmpty && digits.all isDigit

def isPathElement (t : Text) : Bool :=
  let stem := t.takeWhile (· != byte '.')
  !t.isEmpty && t.getLast? != some (byte '.') && t.all isPathByte &&
    !deviceNames.contains (lower stem) &&
    !isShortened stem

def isImportPath (t : Text) : Bool :=
  t.head? != some (byte '-') && (splitAt Path.slash t).all isPathElement

/-- A module that can be seen, as its file declares it. -/
structure Seen where
  path : Text
  dir : Text
  version : Option GoVersion

def undeclared : GoVersion := ⟨1, 16, none, [], 0⟩

/-- From this version on, no member may be newer than its workspace. -/
def firstStrict : GoVersion := ⟨1, 21, none, [], 0⟩

/-- The first version that is too new for any workspace. -/
def firstUnknown : GoVersion := ⟨1, 26, none, [], 0⟩

def GoVersion.admits (workspace member : GoVersion) : Bool :=
  !member.newerThan workspace || firstStrict.newerThan member

def fileIn? (files : Tree) (r : Reading) (dir : Text) : Option ModFile := do
  ModFile.read? r (← files.read? (Path.joinTwo dir modFileName))

def member? (files : Tree) (workspace : GoVersion) (dir : Text) : Option (Seen × ModFile) := do
  let f ← fileIn? files .strict dir
  let path ← f.path
  let version := f.version.bind GoVersion.read?
  if isImportPath path && workspace.admits (version.getD undeclared) then some (⟨path, dir,
    version⟩, f) else none

/-- Where a required module is, by the replacements of the members. -/
def replaced? (files : Tree) (members : List (Seen × ModFile)) (path : Text) :
    Option (Seen × ModFile) :=
  members.findSome? fun (m, f) =>
    (f.replaces.find? fun x => x.path == path && x.isDirectory).bind fun x => do
    let dir := if Path.isAbs x.target then Path.clean x.target else Path.joinTwo m.dir x.target
    let g ← fileIn? files .lenient dir
    if g.path == some path then some (⟨path, dir, g.version.bind GoVersion.read?⟩, g) else none

/-- The modules with those that are required of them, and those that these require. -/
def withRequired? (files : Tree) (members : List (Seen × ModFile)) :
    Nat → List Seen → List Text → Option (List Seen)
  | 0, seen, _ => some seen
  | _, seen, [] => some seen
  | fuel + 1, seen, path :: rest =>
    if seen.any (·.path == path) then withRequired? files members fuel seen rest
    else do
      let (m, f) ← replaced? files members path
      withRequired? files members fuel (seen ++ [m]) (f.requires ++ rest)

/-- The modules that the workspace of some modules sees; `none` if it cannot be loaded. -/
def seenModules? (files : Tree) (s : ModuleSet) : Option (List Seen) := do
  let workspace ← GoVersion.read? (workspaceVersion files s)
  if !firstUnknown.newerThan workspace then none
  let ms ← (workspaceMembers files s).mapM (member? files workspace)
  let own := ms.map (·.1)
  if own.any fun m => (own.filter (·.path == m.path)).length > 1 then none
  let required := ms.flatMap (·.2.requires)
  let targets := ms.flatMap (·.2.replaces)
  withRequired? files ms
    (required.length + files.nodes.length * (targets.length + 1) + 1) own required

end FaultRepair.Module
