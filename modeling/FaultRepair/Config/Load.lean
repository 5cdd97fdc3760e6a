/-
# Loading settings

Settings come from four layers above the defaults, each over the ones before it: the
configuration file, the environment file, the environment and the flags. A variable of
the environment file only counts where the environment does not set it. The settings
must make sense before flags are looked at, and again after.
-/

import FaultRepair.Config.EnvFile
import FaultRepair.Config.Flags
import FaultRepair.Toml.Reader

namespace FaultRepair.Config

open Toml Files
open Text (Rune)

/-- The configuration file that is looked for when none is named. -/
def defaultFile : Text := "faultfix.toml"

def envFile : Text := ".env"

inductive LoadFault where
  | envFile
  | file (path : Text)
  | depth (f : DepthFault)
  | settings (f : SettingsFault)
  deriving DecidableEq

def LoadFault.message : LoadFault → Text
  | .envFile => "load .env"
  | .file p => "read config " ++ p
  | .depth f => f.message
  | .settings f => f.message

/-- A letter without regard to case. The long s and the kelvin sign are forms of letters
too. -/
def foldRune (r : Rune) : Rune :=
  if 65 ≤ r && r ≤ 90 then r + 32 else if r == 0x17F then 115 else if r == 0x212A then 107 else r

/-- Does a key stand for the setting with this name? -/
def standsFor (name key : Text) : Bool := (Text.runes key).map foldRune == Text.runes name

/-- The value of a setting in a table. Of several keys that stand for it, the one that is
spelled exactly goes first; the decoder itself promises no order. -/
def settingOf? (t : Table) (name : Text) : Option Value :=
  match t.get? name with
  | some v => some v
  | none => (t.find? fun e => standsFor name e.1).map (·.2)

def textOf? : Value → Option Text
  | .string t => some t
  | _ => none

def textsOf? : Value → Option (List Text)
  | .array items => items.mapM textOf?
  | .tables [] => some []
  | _ => none

def integerOf? : Value → Option Int
  | .integer n => some n
  | _ => none

def booleanOf? : Value → Option Bool
  | .boolean b => some b
  | _ => none

/-- A setting if the table has it. Every key that stands for it is decoded; the outer
`none` means that the value of one is of the wrong kind. -/
def taken? (t : Table) (of? : Value → Option α) (name : String) : Option (Option α) :=
  if t.all fun e => !standsFor name e.1 || (of? e.2).isSome then some ((settingOf? t name).bind of?)
  else none

/-- The settings that a table gives; `none` if one of them is of the wrong kind. -/
def Layer.ofTable? (t : Table) : Option Layer := do
  return {
    db := ← taken? t textOf? "db"
    trace := ← taken? t textOf? "trace"
    traceFormat := ← taken? t textOf? "trace_format"
    output := ← taken? t textOf? "output"
    candidates := ← taken? t textOf? "candidates"
    ident := ← taken? t textOf? "ident"
    exclude := ← taken? t textsOf? "exclude"
    expandDepth := ← taken? t integerOf? "expand_depth"
    patterns := ← taken? t textsOf? "patterns"
    modules := ← taken? t textsOf? "modules"
    skipTests := ← taken? t booleanOf? "skip_tests"
    skipGenerated := ← taken? t booleanOf? "skip_generated"
    verbose := ← taken? t booleanOf? "verbose" }

def Layer.ofArguments (a : Arguments) : Layer where
  db := a.text? "db"
  trace := a.text? "trace"
  traceFormat := a.text? "trace-format"
  output := a.text? "output"
  candidates := a.text? "candidates"
  ident := a.text? "ident"
  exclude := a.texts? "exclude"
  expandDepth := a.number? "depth"
  patterns := a.texts? "patterns"
  modules := a.texts? "modules"
  skipTests := a.switch? "skip-tests"
  skipGenerated := a.switch? "skip-generated"
  verbose := a.switch? "verbose"

/-- The variables of the environment file; none if there is no such file. A value with a
zero byte cannot be set. -/
def envFileVariables (files : Tree) : Except LoadFault Variables :=
  match files.read envFile with
  | .error .missing => .ok []
  | .error _ => .error .envFile
  | .ok source =>
    match EnvFile.read? source with
    | some vs => .ok (vs.filter fun v => !((vs.get? v.1).getD []).any (· == 0))
    | none => .error .envFile

/-- The layer of the configuration file. Only the one that nobody named may be
missing. -/
def fileLayer (files : Tree) (path : Text) : Except LoadFault Layer :=
  let name := if path.isEmpty then defaultFile else path
  match files.read name with
  | .error .missing => if path.isEmpty then .ok {} else .error (.file name)
  | .error _ => .error (.file name)
  | .ok source =>
    match (Toml.read? source).bind Layer.ofTable? with
    | some l => .ok l
    | none => .error (.file name)

def Settings.checked (s : Settings) : Except LoadFault Settings :=
  match s.fault? with
  | some f => .error (.settings f)
  | none => .ok s

def load (files : Tree) (env : Variables) (path : Text) : Except LoadFault Settings := do
  let fromFile ← envFileVariables files
  let toml ← fileLayer files path
  let vars ← (Layer.ofVariables (env.orElse fromFile)).mapError .depth
  (((Settings.defaults files.goRoot).override toml).override vars).checked

/-- The settings of a command: those from files and the environment, with its flags in
front. -/
def loadWithFlags (files : Tree) (env : Variables) (a : Arguments) : Except LoadFault Settings := do
  let base ← load files env ((a.text? "config").getD [])
  (base.override (Layer.ofArguments a)).checked

def commonFlags : List FlagSpec := [⟨"config", .text⟩, ⟨"db", .text⟩, ⟨"verbose", .switch⟩]

def buildFlags : List FlagSpec :=
  [⟨"modules", .texts⟩, ⟨"skip-tests", .switch⟩, ⟨"skip-generated", .switch⟩]

def localizeFlags : List FlagSpec :=
  [⟨"trace", .text⟩, ⟨"trace-format", .text⟩, ⟨"ident", .text⟩, ⟨"exclude", .texts⟩,
    ⟨"depth", .number⟩]

/-- The flags that tell which repairs are written. -/
def patchFlags : List FlagSpec := [⟨"output", .text⟩, ⟨"patterns", .texts⟩]

def candidatesFlags : List FlagSpec := [⟨"candidates", .text⟩]

def allFlags : List FlagSpec :=
  commonFlags ++ buildFlags ++ localizeFlags ++ patchFlags ++ candidatesFlags

end FaultRepair.Config
