/-
# Executing command lines

The whole tool as a function: from the files and variables it finds and the arguments it
is given to the files it leaves, what it prints and what it reports.
-/

import FaultRepair.Command.Line
import FaultRepair.Command.Stages
import FaultRepair.Fault.Listing

namespace FaultRepair.Command

open Config Fault Files Repair Report

def show_ (color : Bool) (cs : List Candidate) : Action Unit := .print (listing color cs)

def Command.perform (color : Bool) (o : Settings) : Command → Action Unit
  | .build dir => do
    let s ← .openStore o
    let (_, counts) ← .buildGraph o dir s
    .note [.log ("Done. " ++ Text.ofNat counts.locations ++ " locations, " ++
      Text.ofNat counts.edges ++
      " dependencies in " ++ o.db)]
  | .localize shown => do
    let s ← .openStore o
    let cs ← .localizeTrace o s
    if shown then show_ color cs
    .writeCandidates o.candidates [] cs
    .note [.log ("Wrote " ++ Text.ofNat cs.length ++ " candidates to " ++ o.candidates)]
  | .patch top => do
    let cs ← .readCandidates o.candidates
    let _ ← .generatePatches o (if top > 0 then cs.take top.toNat else cs)
  | .run dir => do
    if o.trace.isEmpty then throw (.localize .noTrace)
    if o.output.isEmpty then throw (.patch .noOutput)
    let s ← .openStore o
    let (s, _) ← .buildGraph o dir s
    let cs ← .localizeTrace o s
    show_ color cs
    if !o.candidates.isEmpty then .writeCandidates o.candidates (← .revision dir) cs
    let report ← .generatePatches o cs
    .note [.log ("Done. " ++ Text.ofNat cs.length ++ " candidates, " ++
      Text.ofNat report.patches.length ++
      " patch variants in " ++ o.output)]

inductive RunFault where
  | usage (fault : UsageFault)
  | command (fault : CommandFault)

def RunFault.message : RunFault → Text
  | .usage f => f.message
  | .command f => f.message

/-- What a run of the tool leaves behind. -/
structure Effect where
  files : Tree
  notices : List Notice := []
  verbose : Bool := false
  output : Text := []
  fault : Option RunFault := none

/-- A request under the settings that files, variables and its flags give. -/
def Request.execute (color : Bool) (files : Tree) (env : Variables) (r : Request) : Effect :=
  match loadWithFlags files env r.flags with
  | .error f => { files, fault := some (.command (.settings f)) }
  | .ok o =>
    let (result, trail) := (r.command.perform color o).run.run { files }
    { files := trail.files, notices := trail.notices, verbose := o.verbose, output := trail.output
      fault := match result with
        | .ok _ => none
        | .error f => some (.command f) }

def execute (color : Bool) (files : Tree) (env : Variables) (args : List Text) : Effect :=
  match Request.read args with
  | .error f => { files, fault := some (.usage f) }
  | .ok none => { files }
  | .ok (some r) => r.execute color files env

end FaultRepair.Command
