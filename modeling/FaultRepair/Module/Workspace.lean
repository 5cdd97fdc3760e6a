/-
# Workspaces

The modules under analysis share one workspace, so that they see each other's packages.
It has the modules of the set and the modules in directories below them, each directory
and each module path once.
-/

import FaultRepair.Module.Set
import FaultRepair.Module.ModFile
import FaultRepair.Files.Tree
import FaultRepair.Report.Notice

namespace FaultRepair.Module

open Files Report Text

def modFileName : Text := "go.mod"

variable (files : Tree)

/-- The module path declared in a directory; empty if there is none. -/
def declaredPath (dir : Text) : Text :=
  ((files.read? (Path.joinTwo dir modFileName)).map modulePath).getD []

/-- The language version declared in a directory; empty if there is none. -/
def declaredVersion (dir : Text) : Text :=
  match (files.read? (Path.joinTwo dir modFileName)).bind (ModFile.read? .lenient) with
  | some f => f.version.getD []
  | none => []

structure NoModule where
  dir : Text

def NoModule.message (f : NoModule) : Text := "no module path in " ++ Path.joinTwo f.dir modFileName

def primaryModule (dir : Text) : Except NoModule Module :=
  let dir := files.absolute dir
  let path := declaredPath files dir
  if path.isEmpty then .error ⟨dir⟩ else .ok { path, dir }

/-- One further module, as a directory, a module path and a name with colons between them.
An empty path is read from the directory. -/
def furtherModule (spec : Text) : Except Notice Module :=
  match splitAtMost (byte ':') 3 (trimSpace spec) with
  | [dir, path, name] =>
    let dir := files.absolute dir
    let path := if path.isEmpty then declaredPath files dir else path
    if path.isEmpty then .error (.warning ("module " ++ dir ++ " has no module path, skipping"))
    else .ok ⟨path, dir, name⟩
  | _ => .error (.warning ("invalid module spec " ++ quote spec ++ " (want dir:modpath:name)"))

def furtherModules (specs : List Text) : List Module × List Notice :=
  let read := specs.map (furtherModule files)
  (read.filterMap (·.toOption), read.filterMap fun
    | .error n => some n
    | .ok _ => none)

def isHidden (name : Text) : Bool :=
  name == ofString "vendor" || name == ofString "testdata" || name.head? == some (byte '.')

/-- The directories at or below one that hold a module file, except `root` itself, in the
order of a walk by names. The walk is at `place` in the tree and calls it `dir`. -/
def searchModules (files : Tree) (root : Text) : Nat → (place dir : Text) → List Text
  | 0, _, _ => []
  | fuel + 1, place, dir =>
    (files.children place).flatMap fun (name, node) =>
      match node with
      | .directory =>
        if isHidden name then []
        else searchModules files root fuel (Path.joinTwo place name) (Path.joinTwo dir name)
      | _ =>
        let holder := Path.dir (Path.joinTwo dir name)
        if name == modFileName && holder != root then [holder] else []

/-- The directories below a root that hold a module file of their own, by the paths that a
walk from the root finds them at. If the root is a module file itself, its directory counts; a
directory that is not called by its clean path counts as well. -/
def nestedModules (root : Text) : List Text :=
  -- Only a path that is not absolute and clean leads to another place than itself.
  let place := if (files.node? root).isSome then root else (files.locate root).toOption.getD root
  match files.node? place with
  | none => []
  | some .directory => searchModules files root (files.nodes.length + 1) place root
  | some _ => if Path.base root == modFileName then [Path.dir root] else []

/-- A member that is being considered: its directory and its module path, if it has one. -/
structure Member where
  dir : Text
  path : Text

/-- The members with one more, unless its directory or its path is there already. -/
def addMember (ms : List Member) (m : Member) : List Member :=
  if ms.any fun o => o.dir == m.dir || (!m.path.isEmpty && o.path == m.path) then ms else ms ++ [m]

/-- The members of the workspace of some modules: these, then those below them. -/
def members (s : ModuleSet) : List Member :=
  let own :=
    s.modules.map fun m => ⟨m.dir, if m.path.isEmpty then declaredPath files m.dir else m.path⟩
  let nested :=
    (s.modules.flatMap fun m => nestedModules files m.dir).map fun d => ⟨d, declaredPath files d⟩
  (own ++ nested).foldl addMember []

def workspaceMembers (s : ModuleSet) : List Text := (members files s).map (·.dir)

def defaultVersion : Text := "1.21"

def workspaceVersion (s : ModuleSet) : Text :=
  let v := declaredVersion files s.primary.dir
  if v.isEmpty then defaultVersion else v

def needsQuotes (t : Text) : Bool :=
  t.isEmpty || contains t "//" || contains t "/*" ||
    (runes t).any fun r =>
      r == 32 || r == 34 || r == 39 || r == 96 ||
        (t.length > 1 && r < 128 && (ofString "()[],\x7b\x7d").any (·.toNat == r)) || !isPrintRune r

def quoteWord (t : Text) : Text := if needsQuotes t then quote t else t

def workspaceText (version : Text) (dirs : List Text) : Text :=
  let uses : Text := match dirs with
    | [] => []
    | [d] => "\nuse " ++ quoteWord d ++ "\n"
    | ds => "\nuse (\n" ++ (ds.map fun d => "\t" ++ quoteWord d ++ "\n").flatten ++ ")\n"
  "go " ++ version ++ "\n" ++ uses

def workspaceFile (s : ModuleSet) : Text :=
  workspaceText (workspaceVersion files s) (workspaceMembers files s)

end FaultRepair.Module
