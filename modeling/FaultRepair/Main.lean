/-
# The command line

Reads the files below the working directory and those named by arguments, runs the tool on
them, and writes back what it changed. The exit code tells whether it failed.
-/

import FaultRepair.Command.Execute
import FaultRepair.Store.Image

namespace FaultRepair

open Command Config Files Store

def nodeOf (data : ByteArray) : Node :=
  let t : Text := data.toList
  match Database.ofImage? t with
  | some d => .database d
  | none => .file t

/-- Adds an entry of a directory and everything below it. -/
partial def gather (t : Tree) (e : IO.FS.DirEntry) : IO Tree := do
  let place : Text := Text.ofString e.path.toString
  try
    if ← e.path.isDir then
      let t := (t.makeDirectories? place).getD t
      (← e.path.readDir).foldlM gather t
    else return t.set place (nodeOf (← IO.FS.readBinFile e.path))
  catch _ => return t

def variableNames : List String :=
  ["FAULTFIX_DB", "FAULTFIX_TRACE", "FAULTFIX_TRACE_FORMAT", "FAULTFIX_OUTPUT",
    "FAULTFIX_CANDIDATES",
   "FAULTFIX_IDENT", "FAULTFIX_EXPAND_DEPTH", "FAULTFIX_EXCLUDE", "FAULTFIX_PATTERNS"]

def surroundings : IO Variables := do
  let found ← variableNames.mapM fun n => do return (← IO.getEnv n).map fun v =>
    (Text.ofString n, Text.ofString v)
  return found.filterMap id

/-- Writes a file; missing directories are made. -/
def save (place data : Text) : IO Unit := do
  IO.FS.createDirAll (Text.toStringLossy (Text.Path.dir place))
  IO.FS.writeBinFile (Text.toStringLossy place) ⟨data.toArray⟩

/-- Writes the files of a tree that an earlier one has not like this. -/
def saveChanges (before after : Tree) : IO Unit := do
  for (name, data) in after.changes before [] do
    save ("/" ++ name) data
  for (place, node) in after.nodes do
    if let .database d := node then save place d.image

/-- The words of a command line that may name files: its arguments, and the values in
them. -/
def namedPlaces (args : List String) : List String :=
  args.flatMap fun a => a :: (a.splitOn "=").drop 1

end FaultRepair

open FaultRepair Command

def main (args : List String) : IO UInt32 := do
  let start ← IO.monoMsNow
  let here ← IO.currentDir
  let root : Files.Tree := { workDir := Text.ofString here.toString }
  let root := match (← IO.getEnv "GOROOT").filter (!·.isEmpty) with
    | some goRoot => { root with goRoot := Text.ofString goRoot }
    | none => root
  let root := (root.makeDirectories? root.workDir).getD root
  let mut files ← (← here.readDir).foldlM gather root
  for name in namedPlaces args do
    let place := root.absolute (Text.ofString name)
    if (files.node? place).isNone then
      let above := Text.Path.dir place
      files := (files.makeDirectories? above).getD files
      files ← gather files ⟨Text.toStringLossy above, Text.toStringLossy (Text.Path.base place)⟩
  let effect := execute false files (← surroundings) (args.map Text.ofString)
  saveChanges files effect.files
  let seconds := ((← IO.monoMsNow) - start) / 1000
  (← IO.getStderr).write ⟨(Report.render seconds effect.verbose false effect.notices).toArray⟩
  (← IO.getStdout).write ⟨effect.output.toArray⟩
  match effect.fault with
  | none => return 0
  | some f =>
    (← IO.getStderr).write ⟨("error: " ++ f.message ++ "\n" : Text).toArray⟩
    return 1
