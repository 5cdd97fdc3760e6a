/-
# The packages of a workspace

Which packages the modules under analysis have, and in what order they are loaded: each
after the packages it imports, imports by name, packages by path.
-/

import FaultRepair.Module.Loading
import FaultRepair.Graph.Program

namespace FaultRepair.Graph

open Files FaultRepair.Module Source Text

variable (files : Tree)

/-- The files of a directory that take part in a build. -/
def buildFiles (dir : Text) : List SourceFile :=
  (files.children dir).filterMap fun (name, node) =>
    match node with
    | .file text => if takesPart name text then some ⟨Path.joinTwo dir name, text⟩ else none
    | _ => none

def isModuleRoot (dir : Text) : Bool :=
  match files.node? (Path.joinTwo dir modFileName) with
  | some .directory => false
  | some _ => true
  | none => false

/-- Directories whose packages no pattern matches. -/
def isPassedOver (name : Text) : Bool := isHidden name || name.head? == some (byte '_')

/-- The paths of the packages at and below a directory of a module. -/
def searchPackages (files : Tree) : Nat → (dir path : Text) → List Text
  | 0, _, _ => []
  | fuel + 1, dir, path =>
    (if (buildFiles files dir).isEmpty then [] else [path]) ++
      (files.children dir).flatMap fun (name, node) =>
        let below := Path.joinTwo dir name
        match node with
        | .directory =>
          if isPassedOver name || isModuleRoot files below then []
          else searchPackages files fuel below (path ++ "/" ++ name)
        | _ => []

/-- The packages of the modules under analysis: module by module, those at or below its
path, wherever they are. -/
def matchedPackages (seen : List Seen) (ms : ModuleSet) : List Text :=
  let all := seen.flatMap fun m => searchPackages files (files.nodes.length + 1) m.dir m.path
  (ms.modules.flatMap fun m =>
    let own := all.filter fun p => p == m.path || startsWith p (m.path ++ "/")
    (own.mergeSort fun a b => !before b a)).eraseDups

/-- Is there a module file in a directory strictly below a module's, down to a package of
it? -/
def crossesModule (files : Tree) (root : Text) : Nat → Text → Bool
  | 0, _ => false
  | fuel + 1, dir =>
    dir.length > root.length &&
      (isModuleRoot files dir || crossesModule files root fuel (Path.dir dir))

def directoryIn? (path : Text) (m : Seen) : Option Text := do
  let dir? := if path == m.path then some m.dir
    else (dropLead? (m.path ++ "/") path).map (Path.joinTwo m.dir)
  let some dir := dir? | none
  if crossesModule files m.dir dir.length dir || (buildFiles files dir).isEmpty then none
  else some dir

/-- A package as it lies in its directory. -/
structure PackageSource where
  path : Text
  name : Text
  files : List SourceFile
  imports : List Text
  language : Nat

def isTestFile (f : SourceFile) : Bool := endsWith f.name "_test.go"

/-- The package of a path; its tests are left aside. -/
def packageAt? (seen : List Seen) (path : Text) : Option PackageSource :=
  seen.findSome? fun m => (directoryIn? files path m).map fun dir =>
    let parsed :=
      ((buildFiles files dir).filter (!isTestFile ·)).map fun f =>
        (f, (Source.parse f.name f.text).file)
    let parsed := parsed.filter fun (_, t) => t.name.name != ofString "documentation"
    let imports := (parsed.flatMap fun (_, t) => t.imports.map Spec.importPath).eraseDups
    { path
      name := (parsed.head?.map fun (_, t) => t.name.name).getD []
      files := parsed.map (·.1)
      imports := imports.mergeSort fun a b => !before b a
      language := (m.version.map (·.minor)).getD Typing.newestLanguage }

/-- The path above the innermost element `internal`, to which the package is restricted. -/
def internalParent? (path : Text) : Option Text :=
  let rec go : List Text → Option (List Text)
    | [] => none
    | e :: rest => if e == ofString "internal" then some rest else go rest
  (go (splitAt Path.slash path).reverse).map fun es => join "/" es.reverse

/-- May a package import another one? A program cannot be imported, and a restricted
package only from where it is restricted to. -/
def mayImport (importer : Text) (p : PackageSource) : Bool :=
  p.name != ofString "main" &&
    match internalParent? p.path with
    | none => true
    | some parent => parent.isEmpty || importer == parent || startsWith importer (parent ++ "/")

/-- Packages in the order in which they were loaded, and those that were met again while
they were being loaded. -/
structure Loading where
  loaded : List (PackageSource × Bool) := []
  circular : List Text := []

/-- Loads a package after those it imports; `active` are the packages being loaded. -/
def loadPackage (files : Tree) (seen : List Seen) :
    Nat → List Text → Loading → Text → Loading
  | 0, _, l, _ => l
  | fuel + 1, active, l, path =>
    if l.loaded.any (·.1.path == path) then l
    else if active.contains path then { l with circular := path :: l.circular }
    else
      match packageAt? files seen path with
      | none => l
      | some p =>
        let l := p.imports.foldl (loadPackage files seen fuel (path :: active)) l
        let refused := p.imports.any fun i => i != path &&
          ((packageAt? files seen i).any fun q => !mayImport path q)
        { l with loaded := l.loaded ++ [(p, refused)] }

def loadedPackages (seen : List Seen) (ms : ModuleSet) : List PackageInput :=
  let matched := matchedPackages files seen ms
  let l := matched.foldl (loadPackage files seen (files.nodes.length + 1) []) {}
  l.loaded.map fun (p, refused) =>
    { path := p.path, files := p.files, imported := !matched.contains p.path
      broken := refused || l.circular.contains p.path, language := p.language }

end FaultRepair.Graph
