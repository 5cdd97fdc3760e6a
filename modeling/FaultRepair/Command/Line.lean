/-
# Command lines

The commands there are, with the flags and words each takes. The first word of a command
line that is not the value of a flag names the command.
-/

import FaultRepair.Config.Load

namespace FaultRepair.Command

open Config Text

def toolName : Text := "faultfix"

/-- What the tool can be told to do. -/
inductive Verb where
  | build | localize | patch | run

namespace Verb

def all : List Verb := [.build, .localize, .patch, .run]

def name : Verb → Text
  | .build => "build"
  | .localize => "localize"
  | .patch => "patch"
  | .run => "run"

/-- The flags a command takes beside those that all take. -/
def flags : Verb → List FlagSpec
  | .build => buildFlags
  | .localize => localizeFlags ++ candidatesFlags ++ [⟨"print", .switch⟩]
  | .patch => patchFlags ++ candidatesFlags ++ [⟨"top", .number⟩]
  | .run => buildFlags ++ localizeFlags ++ patchFlags ++ candidatesFlags

def takesDirectory : Verb → Bool
  | .build | .run => true
  | .localize | .patch => false

end Verb

/-- A command with what it is given. -/
inductive Command where
  | build (dir : Text)
  /-- Candidates are printed if `shown`. -/
  | localize (shown : Bool)
  /-- Only the best candidates are patched if `top` is positive. -/
  | patch (top : Int)
  | run (dir : Text)

inductive UsageFault where
  | unknownCommand (word parent : Text) (similar : List Text)
  | wordCount (wanted given : Nat)
  | flag (fault : FlagFault)

def UsageFault.message : UsageFault → Text
  | .unknownCommand w p similar =>
    "unknown command " ++ quote w ++ " for " ++ quote p ++
      if similar.isEmpty then [] else ofString "\n\nDid you mean this?\n" ++
        similar.flatMap fun s => ofString "\t" ++ s ++ "\n"
  | .wordCount n m => "accepts " ++ ofNat n ++ " arg(s), received " ++ ofNat m
  | .flag f => f.message

/-- One row of the table of edit distances, from the row above it. -/
def editRow (c : UInt8) : (left : Nat) → List Nat → Text → List Nat
  | left, diagonal :: above :: row, d :: t =>
    let cell := if c == d then diagonal else 1 + min diagonal (min above left)
    cell :: editRow c cell (above :: row) t
  | _, _, _ => []

/-- How many bytes must be added, removed or changed to turn one text into another. -/
def editDistance (s t : Text) : Nat :=
  let first := List.range (t.length + 1)
  let last := s.foldl (fun row c =>
    let left := row.headD 0 + 1
    left :: editRow c left row t) first
  last.getLastD 0

/-- Names that are at most this far from a word are suggested. -/
def nearby : Nat := 2

/-- The commands that someone may have meant by a word. -/
def similarNames (word : Text) : List Text :=
  let word := lower word
  (Verb.all.map Verb.name ++ [ofString "completion"]).filter fun n => editDistance word n ≤
    nearby || startsWith n word

/-- Does an argument take the next one as its value, as far as one can tell by these
flags? -/
def takesNext (specs : List FlagSpec) (arg : Text) : Bool :=
  !arg.any (· == byte '=') &&
    match arg with
    | 45 :: 45 :: name => !specs.any fun s => s.name == name && s.kind == .switch
    | 45 :: _ => arg.length == 2
    | _ => false

/-- The words among arguments. A flag without a value may be the last argument but one. -/
def wordsOf (specs : List FlagSpec) : List Text → List Text
  | [] => []
  | arg :: rest =>
    if arg == ofString "--" then []
    else if takesNext specs arg then
      match rest with
      | _ :: v :: after => wordsOf specs (v :: after)
      | _ => []
    else if arg.isEmpty || arg.head? == some 45 then wordsOf specs rest
    else arg :: wordsOf specs rest

def without (specs : List FlagSpec) (word : Text) : List Text → List Text
  | [] => []
  | arg :: rest =>
    if arg == ofString "--" then arg :: rest
    else if takesNext specs arg then
      match rest with
      | v :: rest => arg :: v :: without specs word rest
      | [] => [arg]
    else if arg == word then rest
    else arg :: without specs word rest

/-- What a command line asks for: nothing but help, or a command and its flags. -/
structure Request where
  command : Command
  flags : Arguments

def helpFlag : FlagSpec := ⟨"help", .switch⟩

/-- Reads the flags a command takes; `none` asks for help. -/
def readFlags (specs : List FlagSpec) (args : List Text) : Except UsageFault (Option Arguments) :=
  match Arguments.parse (specs ++ commonFlags ++ [helpFlag]) {} args with
  | .error .helpRequested => .ok none
  | .error f => .error (.flag f)
  | .ok a => .ok (if a.switch? "help" == some true then none else some a)

def requestOf (v : Verb) (a : Arguments) : Except UsageFault Request :=
  match v, a.words with
  | .build, [dir] => .ok ⟨.build dir, a⟩
  | .run, [dir] => .ok ⟨.run dir, a⟩
  | .localize, [] => .ok ⟨.localize ((a.switch? "print").getD true), a⟩
  | .patch, [] => .ok ⟨.patch ((a.number? "top").getD 0), a⟩
  | v, ws =>
    if v.takesDirectory then .error (.wordCount 1 ws.length)
    else .error (.unknownCommand (ws.headD []) (toolName ++ " " ++ v.name) [])

/-- Reads a command line; `none` asks for help. -/
def Request.read (args : List Text) : Except UsageFault (Option Request) :=
  match wordsOf commonFlags args with
  | [] => (readFlags [] args).map fun _ => none
  | word :: _ =>
    match Verb.all.find? (·.name == word) with
    | some v => do
      match ← readFlags v.flags (without commonFlags word args) with
      | none => .ok none
      | some a => (requestOf v a).map some
    | none =>
      if word == ofString "help" || word == ofString "completion" then .ok none
      else .error (.unknownCommand word toolName (similarNames word))

end FaultRepair.Command
