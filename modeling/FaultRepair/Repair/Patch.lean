/-
# Patches

Every pattern is tried on every candidate, and each variant it yields is stored below the
output directory, in a directory named for the candidate's rank and the pattern. A
candidate whose file does not parse is skipped and listed; a file that cannot be read, or
a variant that cannot be stored, ends the run. At the end a manifest tells what was
done.
-/

import FaultRepair.Repair.Variant
import FaultRepair.Fault.CandidateFile
import FaultRepair.Files.Tree
import FaultRepair.Report.Notice

namespace FaultRepair.Repair

open Fault Files Report Yaml Text

/-- A stored variant. -/
structure Patch where
  rank : Nat
  pattern : Text
  source : Text
  output : Text
  fault : Candidate

structure Skipped where
  rank : Nat
  source : Text
  error : Text

structure PatchReport where
  patches : List Patch := []
  skipped : List Skipped := []

namespace PatchReport

def add (r : PatchReport) (p : Patch) : PatchReport := { r with patches := r.patches ++ [p] }

def skip (r : PatchReport) (s : Skipped) : PatchReport := { r with skipped := r.skipped ++ [s] }

end PatchReport

inductive PatchFault where
  | noOutput
  | unreadable (file : Text)
  | unprintable (file pattern : Text)
  | unwritable (path : Text)
  deriving DecidableEq

def PatchFault.message : PatchFault → Text
  | .noOutput => "patch output path is not set"
  | .unreadable f => "read " ++ f
  | .unprintable f p => "format " ++ f ++ " (" ++ p ++ ")"
  | .unwritable p => "write " ++ p

def numberWord (n : Nat) : Document := .word (ofNat n)

/-- The manifest as a document; skipped candidates are left out if there are none. -/
def PatchReport.document (r : PatchReport) : Document :=
  let patch (p : Patch) : Document :=
    .record [("rank", numberWord p.rank), ("pattern", .text p.pattern), ("source", .text p.source),
      ("output", .text p.output), ("fault", p.fault.document)]
  let skipped (s : Skipped) : Document :=
    .record [("rank", numberWord s.rank), ("source", .text s.source), ("error", .text s.error)]
  .record ((ofString "variants", .list (r.patches.map patch)) ::
    if r.skipped.isEmpty then [] else [(ofString "failures", .list (r.skipped.map skipped))])

def below (address name : Text) : Text :=
  match cut? "://" address with
  | none => Path.joinTwo address name
  | some (scheme, rest) =>
    let host := rest.takeWhile (· != Path.slash)
    let path := rest.dropWhile (· != Path.slash)
    scheme ++ "://" ++ host ++ Path.joinTwo (if path.isEmpty then "/" else path) name

/-- Where the variant of a pattern for a candidate is stored. -/
def variantPath (output : Text) (rank : Nat) (pattern file : Text) : Text :=
  below output (padLeft 48 3 (ofNat rank) ++ "_" ++ pattern ++ "/" ++ Path.base file)

def manifestPath (output : Text) : Text := below output "patches.yaml"

structure Patching where
  files : Tree
  report : PatchReport := {}
  notices : List Notice := []

namespace Patching

def start (files : Tree) (patterns : List Pattern) (cs : List Candidate) : Patching :=
  { files
    notices := [.log ("Generating patches for " ++ ofNat cs.length ++ " candidates with " ++
      ofNat patterns.length ++ " patterns...")] }

def store (output : Text) (rank : Nat) (c : Candidate) (p : Patching) (v : Variant) :
    Except (Patching × PatchFault) Patching :=
  let path := variantPath output rank v.pattern c.file
  match p.files.store? path v.source with
  | none => .error (p, .unwritable path)
  | some files =>
    .ok { p with
      files := files
      report := p.report.add ⟨rank, v.pattern, c.file, path, c⟩
      notices := p.notices ++ [.verbose ("  " ++ path)] }

def candidate (output : Text) (patterns : List Pattern) (p : Patching) (rank : Nat)
    (c : Candidate) :
    Except (Patching × PatchFault) Patching :=
  match p.files.fetch? c.file with
  | none => .error (p, .unreadable c.file)
  | some source =>
    match variants c.file source c.line patterns with
    | .error (.parse file message) =>
      let error := "parse " ++ file ++ ": " ++ message
      .ok { p with
        report := p.report.skip ⟨rank, c.file, error⟩
        notices := p.notices ++ [.warning ("candidate " ++ ofNat rank ++ ": " ++ error)] }
    | .error (.format file pattern) => .error (p, .unprintable file pattern)
    | .ok vs => vs.foldlM (store output rank c) p

def candidates (output : Text) (patterns : List Pattern) :
    (rank : Nat) → Patching → List Candidate → Except (Patching × PatchFault) Patching
  | _, p, [] => .ok p
  | rank, p, c :: rest => do
    candidates output patterns (rank + 1) (← candidate output patterns p rank c) rest

def finish (output : Text) (p : Patching) : Except (Patching × PatchFault) Patching :=
  let path := manifestPath output
  match p.files.store? path p.report.document.render with
  | none => .error (p, .unwritable path)
  | some files =>
    let closing : Notice :=
      .log ("Wrote " ++ ofNat p.report.patches.length ++ " patch variants (" ++
      ofNat p.report.skipped.length ++ " candidates skipped)")
    .ok { p with files, notices := p.notices ++ [closing] }

end Patching

/-- What a run leaves behind. There is no report if nothing was attempted. -/
structure Patched where
  files : Tree
  report : Option PatchReport := none
  notices : List Notice := []
  fault : Option PatchFault := none

/-- Tries the patterns on the candidates, in the order of their ranks. -/
def generate (files : Tree) (output : Text) (patterns : List Pattern) (cs : List Candidate) :
    Patched :=
  if output.isEmpty then { files, fault := some .noOutput }
  else
    let run :=
      (Patching.candidates output patterns 1 (.start files patterns cs) cs).bind
        (Patching.finish output)
    let (p, fault) := match run with
      | .ok p => (p, none)
      | .error (p, f) => (p, some f)
    { files := p.files, report := some p.report, notices := p.notices, fault }

end FaultRepair.Repair
