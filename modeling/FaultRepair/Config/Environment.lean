/-
# Settings from the environment

Variables override the settings of files. Values are taken without the white space
around them. A variable that is set to nothing counts as given.
-/

import FaultRepair.Config.Settings
import FaultRepair.Number.Integer

namespace FaultRepair.Config

abbrev Variables := List (Text × Text)

def Variables.get? (vs : Variables) (name : Text) : Option Text :=
  (vs.find? (·.1 == name)).map (·.2)

/-- The variables of `vs`, then those of `others` that `vs` does not set. -/
def Variables.orElse (vs others : Variables) : Variables :=
  vs ++ others.filter fun o => (vs.get? o.1).isNone

structure DepthFault where
  given : Text
  fault : Number.NumberFault
  deriving DecidableEq

def DepthFault.message (f : DepthFault) : Text :=
  "FAULTFIX_EXPAND_DEPTH: " ++ f.fault.report "strconv.Atoi" f.given

def depthIn (vs : Variables) : Except DepthFault (Option Int) :=
  match (vs.get? "FAULTFIX_EXPAND_DEPTH").map Text.trimSpace with
  | none => .ok none
  | some t =>
    match Number.decimal t with
    | .ok n => .ok (some n)
    | .error f => .error ⟨t, f⟩

def Layer.ofVariables (vs : Variables) : Except DepthFault Layer := do
  let text (name : String) : Option Text := (vs.get? name).map Text.trimSpace
  let depth ← depthIn vs
  return {
    db := text "FAULTFIX_DB"
    trace := text "FAULTFIX_TRACE"
    traceFormat := text "FAULTFIX_TRACE_FORMAT"
    output := text "FAULTFIX_OUTPUT"
    candidates := text "FAULTFIX_CANDIDATES"
    ident := text "FAULTFIX_IDENT"
    expandDepth := depth
    exclude := (vs.get? "FAULTFIX_EXCLUDE").map splitList
    patterns := (vs.get? "FAULTFIX_PATTERNS").map splitList }

/-- A list of `NAME=value` entries with a variable bound exactly once, at the end. -/
def bindEntry (entries : List Text) (name value : Text) : List Text :=
  entries.filter (fun e => !e.startsWith (name ++ "=")) ++ [name ++ "=" ++ value]

end FaultRepair.Config
