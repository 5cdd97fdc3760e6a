/-
# Settings

What the stages of the tool are told to do. Settings start from defaults; a layer of
settings (a file, the environment, the command line) overrides the ones it gives and
leaves the others.
-/

import FaultRepair.Text.Quote
import FaultRepair.Source.Constraint
import FaultRepair.Repair.Pattern
import FaultRepair.Trace.Parse

namespace FaultRepair.Config

open Text

structure Settings where
  /-- The graph store. -/
  db : Text
  /-- The failure trace; empty if there is none. -/
  trace : Text := []
  traceFormat : Text
  /-- The directory that receives repaired files; empty if there is none. -/
  output : Text := []
  /-- The file of ranked candidates. -/
  candidates : Text
  /-- Which segment of a qualified name identifies a frame. -/
  ident : Text
  /-- Frames whose path has one of these in it are dropped. -/
  exclude : List Text := []
  expandDepth : Int
  /-- The patterns to try; all of them if there are none. -/
  patterns : List Text := []
  /-- Modules beside the primary one. -/
  modules : List Text := []
  skipTests : Bool
  skipGenerated : Bool
  verbose : Bool := false
  deriving DecidableEq

/-- Parts of paths that tell frames of runtimes and standard libraries. The sources of the
standard library lie below the root of the toolchain; an empty root is none. -/
def defaultExclude (goRoot : Text) : List Text :=
  "/rustc/" :: if goRoot.isEmpty then [] else [Path.joinTwo goRoot "src" ++ "/"]

namespace Settings

def defaults (goRoot : Text) : Settings where
  db := "faultfix.db"
  traceFormat := "auto"
  candidates := "candidates.yaml"
  ident := "last"
  exclude := defaultExclude goRoot
  expandDepth := 1
  skipTests := true
  skipGenerated := true

end Settings

structure Layer where
  db : Option Text := none
  trace : Option Text := none
  traceFormat : Option Text := none
  output : Option Text := none
  candidates : Option Text := none
  ident : Option Text := none
  exclude : Option (List Text) := none
  expandDepth : Option Int := none
  patterns : Option (List Text) := none
  modules : Option (List Text) := none
  skipTests : Option Bool := none
  skipGenerated : Option Bool := none
  verbose : Option Bool := none

/-- The settings with those of a layer in place of theirs. -/
def Settings.override (s : Settings) (l : Layer) : Settings where
  db := l.db.getD s.db
  trace := l.trace.getD s.trace
  traceFormat := l.traceFormat.getD s.traceFormat
  output := l.output.getD s.output
  candidates := l.candidates.getD s.candidates
  ident := l.ident.getD s.ident
  exclude := l.exclude.getD s.exclude
  expandDepth := l.expandDepth.getD s.expandDepth
  patterns := l.patterns.getD s.patterns
  modules := l.modules.getD s.modules
  skipTests := l.skipTests.getD s.skipTests
  skipGenerated := l.skipGenerated.getD s.skipGenerated
  verbose := l.verbose.getD s.verbose

inductive SettingsFault where
  | ident (given : Text)
  | traceFormat (given : Text)
  | negativeDepth (given : Int)
  | unknownPattern (given : Text)
  deriving DecidableEq

def SettingsFault.message : SettingsFault → Text
  | .ident v => "invalid ident convention " ++ quote v ++ " (want first or last)"
  | .traceFormat v => "invalid trace format " ++ quote v
  | .negativeDepth n => "expand depth must not be negative, got " ++ ofInt n
  | .unknownPattern v => "unknown pattern " ++ quote v

namespace Settings

variable (s : Settings)

def convention? : Option Trace.Convention :=
  if s.ident == ofString "first" then some .first
  else if s.ident == ofString "last" then some .last
  else none

/-- The trace format that the settings name; the inner `none` recognises it. -/
def format? : Option (Option Trace.Format) :=
  if s.traceFormat == ofString "auto" then some none
  else if s.traceFormat == ofString "backtrace" then some (some .backtrace)
  else if s.traceFormat == ofString "goroutine" then some (some .goroutine)
  else none

def fault? : Option SettingsFault :=
  if s.convention?.isNone then some (.ident s.ident)
  else if s.format?.isNone then some (.traceFormat s.traceFormat)
  else if s.expandDepth < 0 then some (.negativeDepth s.expandDepth)
  else (s.patterns.find? fun p => (Repair.Pattern.find? p).isNone).map .unknownPattern

def traceOptions : Trace.Options where
  convention := s.convention?.getD .last
  format := s.format?.getD none
  exclude := s.exclude

def fileFilter : Source.FileFilter := ⟨s.skipTests, s.skipGenerated⟩

end Settings

/-- The parts between commas, without white space around them; empty ones are left
out. -/
def splitList (t : Text) : List Text :=
  ((splitAt (byte ',') t).map trimSpace).filter (!·.isEmpty)

end FaultRepair.Config
