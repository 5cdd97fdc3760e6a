/-
# Sets of modules

The modules under analysis. What is declared outside of them never takes part in a
dependency.
-/

import FaultRepair.Text.Path

namespace FaultRepair.Module

/-- A module: its path, its directory and a name to show; the primary module has no
name. -/
structure Module where
  path : Text
  dir : Text
  name : Text := []
  deriving DecidableEq, Inhabited

/-- Does a module's directory contain the path? Whatever starts with two dots, seen
from the directory, counts as outside. -/
def Module.containsFile (m : Module) (path : Text) : Bool :=
  match Text.Path.relative? m.dir path with
  | some rel => !rel.startsWith ".."
  | none => false

structure ModuleSet where
  primary : Module
  extras : List Module := []
  deriving Inhabited

namespace ModuleSet

def modules (ms : ModuleSet) : List Module := ms.primary :: ms.extras

def knowsPackage (ms : ModuleSet) (path : Text) : Bool :=
  ms.modules.any fun m => path == m.path || path.startsWith (m.path ++ "/")

def containsFile (ms : ModuleSet) (path : Text) : Bool :=
  ms.modules.any (·.containsFile path)

def patterns (ms : ModuleSet) : List Text := ms.modules.map fun m => m.path ++ "/..."

def names (ms : ModuleSet) : Text :=
  Text.join ", " (ms.modules.map fun m => if m.name.isEmpty then m.path ++ " (primary)" else m.name)

end ModuleSet

end FaultRepair.Module
