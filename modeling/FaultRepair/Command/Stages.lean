/-
# The stages

What a command does: it changes files, reports, prints, and may end with a fault. What was done
before a fault stays done. A trace is read and localized without any change.

The stages are building a graph into the store, localizing a trace in it, and writing repairs. Each
takes what it needs from the settings.
-/

import FaultRepair.Config.Load
import FaultRepair.Repair.Patch
import FaultRepair.Fault.Localize
import FaultRepair.Flow.Dispatch
import FaultRepair.Graph.Build
import FaultRepair.Graph.Packages
import FaultRepair.Revision.Repository

namespace FaultRepair.Command

open Config Fault Files FaultRepair.Graph FaultRepair.Module Repair
open Report Store

inductive LocalizeFault where
  | noTrace
  | trace (fault : Trace.FetchFault)
  | store (fault : StoreFault)
  deriving DecidableEq

def LocalizeFault.message : LocalizeFault → Text
  | .noTrace => "trace path is not set"
  | .trace f => f.message
  | .store f => f.message

/-- What a stage reports, and what it ends with. -/
structure Outcome (ε α : Type) where
  notices : List Notice := []
  result : Except ε α

def localizeTrace (files : Tree) (s : Store) (o : Settings) :
    Outcome LocalizeFault (List Candidate) :=
  if o.trace.isEmpty then { result := .error .noTrace }
  else
    match Trace.fetch files o.traceOptions o.trace with
    | .error f => { result := .error (.trace f) }
    | .ok frames =>
      let parsed : Notice :=
        .log ("Parsed " ++ Text.ofNat frames.length ++ " frames from " ++ o.trace)
      match localize files s o.expandDepth frames with
      | .error (notices, f) => { notices := parsed :: notices, result := .error (.store f) }
      | .ok (cs, notices) => { notices := parsed :: notices, result := .ok (rank cs) }

inductive BuildFault where
  | noModule (fault : Module.NoModule)
  | unloadable
  | reset (fault : StoreFault)
  | persist (fault : PersistFault)

def BuildFault.message : BuildFault → Text
  | .noModule f => f.message
  | .unloadable => "load packages"
  | .reset f => "reset store: " ++ f.message
  | .persist f => f.message

inductive CandidatesFault where
  | unreadable (path : Text)
  | undecodable (path : Text)
  | unwritable (path : Text)

def CandidatesFault.message : CandidatesFault → Text
  | .unreadable p => "read candidates " ++ p
  | .undecodable p => "decode candidates " ++ p
  | .unwritable p => "write candidates " ++ p

inductive CommandFault where
  | settings (fault : LoadFault)
  | store (fault : StoreFault)
  | build (fault : BuildFault)
  | localize (fault : LocalizeFault)
  | candidates (fault : CandidatesFault)
  | patch (fault : PatchFault)

def CommandFault.message : CommandFault → Text
  | .settings f => f.message
  | .store f => f.message
  | .build f => f.message
  | .localize f => f.message
  | .candidates f => f.message
  | .patch f => f.message

/-- What has been done so far. -/
structure Trail where
  files : Tree
  notices : List Notice := []
  output : Text := []

/-- A part of a command. -/
abbrev Action := ExceptT CommandFault (StateM Trail)

namespace Action

def files : Action Tree := do return (← get).files

def setFiles (t : Tree) : Action Unit := modify ({ · with files := t })

def note (ns : List Notice) : Action Unit := modify fun t => { t with notices := t.notices ++ ns }

def print (t : Text) : Action Unit := modify fun s => { s with output := s.output ++ t }

def openStore (o : Settings) : Action Store := do
  match Store.connect (← files) o.db with
  | .error f => throw (.store f)
  | .ok s =>
    setFiles (s.save (← files) o.db)
    return s

def writeCandidates (path revision : Text) (cs : List Candidate) : Action Unit := do
  match (← files).store? path (CandidateFile.mk revision cs).render with
  | none => throw (.candidates (.unwritable path))
  | some t => setFiles t

def readCandidates (path : Text) : Action (List Candidate) := do
  match (← files).fetch? path with
  | none => throw (.candidates (.unreadable path))
  | some source =>
    match CandidateFile.read? source with
    | none => throw (.candidates (.undecodable path))
    | some f => return f.candidates

end Action

namespace Action

variable (o : Settings)

/-- The modules under analysis: the one in a directory and those of the settings. -/
def moduleSet (dir : Text) : Action ModuleSet := do
  match primaryModule (← files) dir with
  | .error f => throw (.build (.noModule f))
  | .ok primary =>
    let (extras, notices) := furtherModules (← files) o.modules
    note notices
    return ⟨primary, extras⟩

def program (ms : ModuleSet) : Action Program := do
  note [.log ("Loading packages of " ++ ms.names ++ "...")]
  match seenModules? (← files) ms with
  | none => throw (.build .unloadable)
  | some seen =>
    let p := Program.load (loadedPackages (← files) seen ms)
    let faulty := p.loaded.filter (·.faulty)
    note (faulty.map fun q => .verbose ("  " ++ q.path ++ ": errors"))
    let (count, lines) := p.size o.fileFilter
    note [.log ("Loaded " ++ Text.ofNat p.loaded.length ++ " packages (" ++ Text.ofNat count ++
      " files, " ++
      Text.ofNat lines ++ " lines)")]
    if !faulty.isEmpty then
      note [.warning (Text.ofNat faulty.length ++
        " packages have type errors; their unresolved operands add no edges")]
    return p

def graph (ms : ModuleSet) (p : Program) : Action BuildResult := do
  let dispatch := Flow.Dispatch.ofProgram p ms
  note (dispatch.notices p)
  let r := Graph.build ⟨p, ms, fun f pos => dispatch.unique? f pos⟩ o.fileFilter
  note r.notices
  return r

/-- The revision of a directory; empty if it has none. -/
def revision (dir : Text) : Action Text := do
  match Revision.revision? (← files) dir with
  | some r => return r
  | none =>
    note [.verbose ("git revision for " ++ dir ++ ": failed: exit status 128")]
    return []

def reset (o : Settings) (s : Store) : Action Store := do
  match s.reset with
  | .error f => throw (.build (.reset f))
  | .ok s =>
    setFiles (s.save (← files) o.db)
    return s

/-- Writes a graph and the fingerprints of its files to the store. -/
def persist (o : Settings) (s : Store) (r : BuildResult) (revision : Text) :
    Action (Store × GraphCounts) := do
  let written := Store.persist (← files) s false r.graph r.files revision
  note written.notices
  setFiles (written.store.save (← files) o.db)
  match written.outcome with
  | .error f => throw (.build (.persist f))
  | .ok counts => return (written.store, counts)

/-- Replaces what the store holds by a graph: everything is removed, and then the graph is
written. -/
def replace (dir : Text) (s : Store) (r : BuildResult) : Action (Store × GraphCounts) := do
  let s ← reset o s
  persist o s r (← revision dir)

/-- Replaces what the store holds by the graph of the modules. -/
def buildGraph (dir : Text) (s : Store) : Action (Store × GraphCounts) := do
  let ms ← moduleSet o dir
  note [.log ("Analyzing " ++ Text.ofNat ms.modules.length ++ " modules: " ++ ms.names)]
  note [.verbose ("Created workspace: " ++ Text.join ", " (workspaceMembers (← files) ms))]
  replace o ms.primary.dir s (← graph o ms (← program o ms))

def localizeTrace (o : Settings) (s : Store) : Action (List Candidate) := do
  let r := Command.localizeTrace (← files) s o
  note r.notices
  match r.result with
  | .error f => throw (.localize f)
  | .ok cs => return cs

def generatePatches (cs : List Candidate) : Action PatchReport := do
  let r := Repair.generate (← files) o.output (Pattern.select o.patterns) cs
  note r.notices
  setFiles r.files
  match r.fault with
  | some f => throw (.patch f)
  | none => return r.report.getD {}

end Action

end FaultRepair.Command
