/-
# Flags

The options of a command line. Flags start with two dashes; their value follows a sign
of equality or is the next argument, except that a switch alone is on. Everything else
is a word; words and flags may be mixed.
-/

import FaultRepair.Text.Record
import FaultRepair.Number.Integer

namespace FaultRepair.Config

open Text

/-- What a flag takes. -/
inductive FlagKind where
  | text
  /-- Fields with commas between them; the flag may be given again for more. -/
  | texts
  | number
  | switch
  deriving DecidableEq

structure FlagSpec where
  name : Text
  kind : FlagKind

inductive FlagValue where
  | text (t : Text)
  | texts (ts : List Text)
  | number (n : Int)
  | switch (b : Bool)

inductive FlagFault where
  | unknown (name : Text)
  | unknownShort (letter : UInt8) (cluster : Text)
  | needsArgument (name : Text)
  | badForm (argument : Text)
  | invalid (value name reason : Text)
  | helpRequested

def FlagFault.message : FlagFault → Text
  | .unknown n => "unknown flag: --" ++ n
  | .unknownShort c s => "unknown shorthand flag: " ++ quoteRune c.toNat ++ " in -" ++ s
  | .needsArgument n => "flag needs an argument: --" ++ n
  | .badForm a => "bad flag syntax: " ++ a
  | .invalid v n r =>
    "invalid argument " ++ quote v ++ " for " ++ quote ("--" ++ n) ++ " flag: " ++ r
  | .helpRequested => "pflag: help requested"

/-- The flags that were set, the latest first, and the words between them. -/
structure Arguments where
  flags : List (Text × FlagValue) := []
  words : List Text := []

namespace Arguments

variable (a : Arguments)

variable (name : Text)

def get? : Option FlagValue := (a.flags.find? (·.1 == name)).map (·.2)

def text? : Option Text :=
  match a.get? name with
  | some (.text t) => some t
  | _ => none

def texts? : Option (List Text) :=
  match a.get? name with
  | some (.texts t) => some t
  | _ => none

def number? : Option Int :=
  match a.get? name with
  | some (.number n) => some n
  | _ => none

def switch? : Option Bool :=
  match a.get? name with
  | some (.switch b) => some b
  | _ => none

end Arguments

/-- The value that a flag takes from its text. A flag with several fields adds to
those it has. -/
def FlagSpec.value (s : FlagSpec) (old : Option FlagValue) (t : Text) :
    Except FlagFault FlagValue :=
  match s.kind with
  | .text => .ok (.text t)
  | .texts =>
    let former := match old with
      | some (.texts ts) => ts
      | _ => []
    if t.isEmpty then .ok (.texts former)
    else
      match Text.Record.read t with
      | .ok ts => .ok (.texts (former ++ ts))
      | .error f => .error (.invalid t s.name f.message)
  | .number =>
    match Number.literal t with
    | .ok n => .ok (.number n)
    | .error f => .error (.invalid t s.name (f.report "strconv.ParseInt" t))
  | .switch =>
    match Number.truth t with
    | .ok b => .ok (.switch b)
    | .error f => .error (.invalid t s.name (f.report "strconv.ParseBool" t))

def Arguments.set (a : Arguments) (s : FlagSpec) (t : Text) : Except FlagFault Arguments := do
  let v ← s.value (a.get? s.name) t
  return { a with flags := (s.name, v) :: a.flags }

def Arguments.parse (specs : List FlagSpec) (acc : Arguments) :
    List Text → Except FlagFault Arguments
  | [] => .ok acc
  | arg :: rest =>
    match arg with
    | 45 :: 45 :: name =>
      if name.isEmpty then .ok { acc with words := acc.words ++ rest }
      else if name.head? == some 45 || name.head? == some 61 then .error (.badForm arg)
      else
        let (name, given) := match cutAt? 61 name with
          | some (n, v) => (n, some v)
          | none => (name, none)
        match specs.find? (·.name == name) with
        | none => .error (if name == ofString "help" then .helpRequested else .unknown name)
        | some s =>
          match given with
          | some v => do parse specs (← acc.set s v) rest
          | none =>
            if s.kind == .switch then do parse specs (← acc.set s "true") rest
            else
              match rest with
              | v :: rest => do parse specs (← acc.set s v) rest
              | [] => .error (.needsArgument name)
    | 45 :: c :: cluster =>
      if startsWith (c :: cluster) "test." then parse specs acc rest
      else if c == byte 'h' then
        match specs.find? (·.name == ofString "help"), cluster.dropWhile (· == byte 'h') with
        | none, _ => .error .helpRequested
        | some s, [] => do parse specs (← acc.set s "true") rest
        | some s, d :: after =>
          if d == byte '=' && !after.isEmpty then do parse specs (← acc.set s after) rest
          else .error (.unknownShort d (d :: after))
      else .error (.unknownShort c (c :: cluster))
    | _ => parse specs { acc with words := acc.words ++ [arg] } rest

end FaultRepair.Config
