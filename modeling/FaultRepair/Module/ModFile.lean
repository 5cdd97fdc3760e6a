/-
# Module files

What the statements of a module file declare. A file is read in one of two ways: leniently,
where only a few directives are looked at and versions may be shortened, or strictly, as
the build does with the modules it works on.
-/

import FaultRepair.Module.Statement
import FaultRepair.Module.Version
import FaultRepair.Text.Path
import FaultRepair.Text.Quote

namespace FaultRepair.Module

open Text

/-- The module path of a file, by a quick look at its lines; empty if there is none. The
rest of the file does not matter. -/
def modulePath (source : Text) : Text :=
  go (splitAt 10 source)
where
  go : List Text → Text
    | [] => []
    | line :: rest =>
      let line := ((cut? "//" line).map (·.1)).getD line
      match dropLead? "module" (trimSpace line) with
      | none => go rest
      | some after =>
        let path := trimSpace after
        if path.length == after.length || path.isEmpty then go rest
        else if path.head? == some (byte '"') || path.head? == some (byte '`') then
          (unquote? path).getD []
        else path

/-- Another module, or a directory, in place of a module. -/
structure Replacement where
  path : Text
  target : Text
  isDirectory : Bool

structure ModFile where
  path : Option Text := none
  version : Option Text := none
  toolchain : Option Text := none
  requires : List Text := []
  replaces : List Replacement := []

/-- How closely a file is looked at. -/
inductive Reading where
  | lenient | strict
  deriving DecidableEq

/-- A word without its quotes; quotes may not stand elsewhere in it. -/
def wordText? (w : Text) : Option Text :=
  if w.head? == some (byte '"') then unquote? w
  else if w.any fun b => b == byte '"' || b == byte '\'' || b == byte '`' then none
  else some w

/-- A version for a module path. The strict reading takes only its usual form. -/
def versionFor? (r : Reading) (path w : Text) : Option ModVersion := do
  let v ← ModVersion.read? (← wordText? w)
  let major ← pathMajor? path
  if r == .strict && !v.isCanonical then none
  if v.fits major then some v else none

/-- Is a path that of a directory: rooted, or starting at this or the parent one? -/
def isDirectoryPath (p : Text) : Bool :=
  p == ofString "." || p == ofString ".." || startsWith p "./" || startsWith p "../" ||
    startsWith p "/"

def replacement? (words : List Text) : Option Replacement := do
  let arrow := ofString "=>"
  let (left, right) := (words.takeWhile (· != arrow), words.dropWhile (· != arrow))
  let path ← wordText? (← left.head?)
  let _ ← pathMajor? path
  match left.drop 1 with
  | [] => pure ()
  | [v] => let _ ← versionFor? .strict path v
  | _ => none
  match right with
  | [_, target] =>
    let target ← wordText? target
    if !isDirectoryPath target || target.any (· == byte '\\') then none
    return ⟨path, target, true⟩
  | [_, target, v] =>
    let target ← wordText? target
    let _ ← versionFor? .strict target v
    if isDirectoryPath target then none
    return ⟨path, target, false⟩
  | _ => none

/-- Is this a retracted version or an interval of them? -/
def isRetraction : List Text → Bool
  | [v] => isVersion v
  | [opening, low, comma, high, closing] =>
    opening == ofString "[" && comma == ofString "," && closing == ofString "]" &&
      isVersion low && isVersion high
  | _ => false
where
  isVersion (w : Text) : Bool := ((wordText? w).bind ModVersion.read?).any (·.isCanonical)

namespace ModFile

def key (s : String) : Text := ofString s

/-- The file with one more directive; `none` if it is not allowed. -/
def directive? (r : Reading) (f : ModFile) (verb : Text) (args : List Text) : Option ModFile := do
  let word? : Option Text := do
    let [p] := args | none
    wordText? p
  let versioned? : Option Text := do
    let [p, v] := args | none
    let path ← wordText? p
    let _ ← versionFor? r path v
    some path
  if verb == key "go" then
    let (none, [v]) := (f.version, args) | none
    if (GoVersion.read? v).isSome then some { f with version := some v }
    else if r == .lenient then (GoVersion.lenient? v).map fun v => { f with version := some v }
    else none
  else if verb == key "module" then
    if f.path.isSome then none else word?.map fun p => { f with path := some p }
  else if verb == key "require" then
    versioned?.map fun p => { f with requires := f.requires ++ [p] }
  else if verb == key "ignore" then word?.map fun _ => f
  else if r == .lenient then some f
  else if verb == key "toolchain" then
    let (none, [t]) := (f.toolchain, args) | none
    if t == key "default" || t == key "go1" || startsWith t "go1." then
      some { f with toolchain := some t }
    else none
  else if verb == key "exclude" then versioned?.map fun _ => f
  else if verb == key "replace" then
    (replacement? args).map fun x => { f with replaces := f.replaces ++ [x] }
  else if verb == key "retract" then if isRetraction args then some f else none
  else if verb == key "tool" then word?.map fun _ => f
  else if verb == key "godebug" then
    let [p] := args | none
    let quoted := p.any fun b => b == byte '"' || b == byte '`' || b == byte '\'' || b == byte ','
    if quoted || (cutAt? (byte '=') p).isNone then none else some f
  else none

def blockVerbs : List Text :=
  ["module", "godebug", "require", "exclude", "replace", "retract", "tool", "ignore"]

def statement? (r : Reading) (f : ModFile) : Statement → Option ModFile
  | .line (verb :: args) => f.directive? r verb args
  | .line [] => some f
  | .block [verb] lines =>
    if blockVerbs.contains verb then lines.foldlM (fun f args => f.directive? r verb args) f
    else if r == .strict then none
    else some f
  | .block _ _ => if r == .strict then none else some f

/-- Reads a module file; `none` if something in it is not allowed. -/
def read? (r : Reading) (source : Text) : Option ModFile := do
  (← Statement.readAll? source).foldlM (statement? r) {}

end ModFile

end FaultRepair.Module
