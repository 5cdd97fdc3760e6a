/-
# Files that take part

Which files of a directory take part in a build, and which of them in the analysis. A file
name may end in the name of an operating system or of a processor, and the comments before
the package clause may hold a condition on tags, or say that the file is generated. Builds
here are for Linux on amd64.
-/

import FaultRepair.Source.Condition
import FaultRepair.Source.Tree

namespace FaultRepair.Source

open Text

def systems : List Text :=
  ["aix", "android", "darwin", "dragonfly", "freebsd", "hurd", "illumos", "ios", "js",
    "linux", "nacl",
   "netbsd", "openbsd", "plan9", "solaris", "wasip1", "windows", "zos"]

def processors : List Text :=
  ["386", "amd64", "amd64p32", "arm", "armbe", "arm64", "arm64be", "loong64", "mips", "mipsle",
    "mips64",
   "mips64le", "mips64p32", "mips64p32le", "ppc", "ppc64", "ppc64le", "riscv", "riscv64",
     "s390", "s390x",
   "sparc", "sparc64", "wasm"]

/-- The newest language version there is a tag for. -/
def newestRelease : Nat := 25

def isSetTag (t : Text) : Bool :=
  ["linux", "amd64", "gc", "unix", "cgo", "amd64.v1"].any (fun s => t == ofString s) ||
    (dropLead? "go1." t).any fun n => (List.range newestRelease).any fun i => n == ofNat (i + 1)

def nameFits (name : Text) : Bool :=
  let stem := name.takeWhile (· != byte '.')
  match cutAt? (byte '_') stem with
  | none => true
  | some (_, rest) =>
    let parts := splitAt (byte '_') rest
    let parts := if parts.getLast? == some (ofString "test") then parts.dropLast else parts
    match parts.reverse with
    | last :: rest =>
      if processors.contains last && rest.head?.any systems.contains then
        isSetTag last && rest.head?.all isSetTag
      else isSetTag last || !(systems.contains last || processors.contains last)
    | [] => true

/-- What the lines before the package clause hold. -/
structure Header where
  /-- Lines up to the last blank one. -/
  accepted : List Text := []
  pending : List Text := []
  condition : Option Text := none
  repeated : Bool := false

/-- The rest of a line after the comments in it; a comment may go on. `none` if there is
something else on the line. -/
def skipComments : Nat → (inComment : Bool) → Text → Option Bool
  | 0, inComment, _ => some inComment
  | fuel + 1, inComment, line =>
    if line.isEmpty then some inComment
    else if inComment then
      match cut? "*/" line with
      | some (_, rest) => skipComments fuel false (trimSpace rest)
      | none => some true
    else if startsWith line "//" then some false
    else
      match dropLead? "/*" line with
      | some rest => skipComments fuel true (trimSpace rest)
      | none => none

def headerFrom (h : Header) (ended inComment : Bool) : List Text → Header
  | [] => h
  | line :: rest =>
    let line := trimSpace line
    if line.isEmpty && !ended then
      headerFrom { h with accepted := h.accepted ++ h.pending, pending := [] } false inComment rest
    else
      let ended := ended || !startsWith line "//"
      let h := match inComment, Condition.textIn? line with
        | false, some c =>
          { h with condition := some c, repeated := h.repeated || h.condition.isSome }
        | _, _ => h
      let h := if ended then h else { h with pending := h.pending ++ [line] }
      match skipComments (line.length + 1) inComment line with
      | some inComment => headerFrom h ended inComment rest
      | none => h

/-- Do the conditions in a source hold? One that cannot be read never does. -/
def conditionHolds (source : Text) : Bool :=
  let h := headerFrom {} false false (splitAt 10 source)
  !h.repeated &&
    match h.condition with
    | some c => (Condition.read? c).any (·.holds isSetTag)
    | none =>
      (h.accepted.filterMap Condition.oldTextIn?).all fun c => (Condition.readOld c).holds isSetTag

def takesPart (name source : Text) : Bool :=
  endsWith name ".go" && name.head? != some (byte '_') && name.head? != some (byte '.') &&
    nameFits name && conditionHolds source

def isMark (line : Text) : Bool :=
  match Text.dropLead? "// Code generated " line with
  | some rest => rest.endsWith " DO NOT EDIT."
  | none => false

/-- Does a comment before the package clause mark the file as generated? -/
def File.isGenerated (f : File) : Bool :=
  f.comments.any fun group =>
    (group.takeWhile fun c => c.pos ≤ f.package).any fun c =>
      (Text.splitAt 10 c.text).any isMark

structure FileFilter where
  skipTests : Bool := false
  skipGenerated : Bool := false

/-- Is a file left out? Without a tree only its name counts. -/
def FileFilter.skips (o : FileFilter) (path : Text) (file : Option File) : Bool :=
  let base := Path.base path
  if o.skipTests && base.endsWith "_test.go" then true
  else if !o.skipGenerated then false
  else
    base.endsWith ".pb.go" || base.endsWith "_generated.go" ||
      match file with
      | some f => f.isGenerated
      | none => false

end FaultRepair.Source
