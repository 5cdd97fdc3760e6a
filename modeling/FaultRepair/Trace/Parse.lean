/-
# Traces

Reading the frames of a failure trace. There are two formats: backtraces, whose
frames are pairs of a header and a location with a column, and the stacks of
goroutines, of which only the first counts.
-/

import FaultRepair.Trace.Line
import FaultRepair.Files.Tree

namespace FaultRepair.Trace

open FaultRepair.Graph Files

/-- An entry of a trace. The column is zero where the format has none. -/
structure Frame where
  ident : Text
  file : Text
  line : Int
  col : Int := 0
  depth : Int
  deriving DecidableEq

def Frame.location (f : Frame) : Location := ⟨f.ident, f.file, f.line, f.col⟩

inductive Format where
  | backtrace | goroutine

def Format.name : Format → Text
  | .backtrace => "backtrace"
  | .goroutine => "goroutine"

/-- How a trace is read. Without a format it is recognised. Frames whose path
contains a marker are left out; empty markers do not count. -/
structure Options where
  convention : Convention := .last
  format : Option Format := none
  exclude : List Text := []

def Options.excludes (o : Options) (path : Text) : Bool :=
  o.exclude.any fun m => !m.isEmpty && path.contains m

def lineLimit : Nat := 1024 * 1024

/-- The lines of a text; a carriage return before a line end belongs to it, and what
follows the last line end is a line if there is anything. -/
def linesOf (t : Text) : List Text :=
  let pieces := Text.splitAt 10 t
  let pieces := if pieces.getLast? == some [] then pieces.dropLast else pieces
  pieces

def withoutReturn (line : Text) : Text :=
  if line.getLast? == some 13 then line.dropLast else line

/-- Reading a trace fails if a line is too long. -/
inductive TraceError where
  | lineTooLong
  deriving DecidableEq

def TraceError.message : TraceError → Text
  | .lineTooLong => "read trace: bufio.Scanner: token too long"

def readLines (t : Text) : Except TraceError (List Text) :=
  let lines := linesOf t
  if lines.any fun l => l.length ≥ lineLimit then .error .lineTooLong
  else .ok (lines.map withoutReturn)

/-- The format of a trace: that of the first header in it. -/
def detectFormat : List Text → Format
  | [] => .backtrace
  | line :: rest =>
    if isGoroutine line then .goroutine
    else if (header? line).isSome then .backtrace
    else detectFormat rest

def headerFrame? (c : Convention) (line : Text) : Option (Text × Int) := do
  let (depth, symbol) ← header? line
  let d ← number? depth
  some (identOf c symbol, d)

/-- The frames of a backtrace; `pending` is the header of the line before. -/
def backtraceFrom (o : Options) (pending : Option (Text × Int)) : List Text → List Frame
  | [] => []
  | line :: rest =>
    match pending, location? line with
    | some (ident, depth), some (path, num, col) =>
      let frame : Option Frame := do
        let l ← number? num
        let c ← number? col
        if o.excludes path then none
        some { ident, file := path, line := l, col := c, depth }
      match frame with
      | some f => f :: backtraceFrom o none rest
      | none => backtraceFrom o none rest
    | _, _ => backtraceFrom o (headerFrame? o.convention line) rest

def parseBacktrace (o : Options) (lines : List Text) : List Frame := backtraceFrom o none lines

def stackFrom (o : Options) (depth : Nat) : List Text → List Frame
  | fn :: loc :: rest =>
    if (Text.trimSpace fn).isEmpty || isGoroutine fn then []
    else
      match function? fn, stackLocation? loc with
      | some symbol, some (path, num) =>
        match number? num with
        | none => stackFrom o depth rest
        | some l =>
          if o.excludes path then stackFrom o (depth + 1) rest
          else { ident := identOf o.convention symbol, file := path, line := l, depth } ::
            stackFrom o (depth + 1) rest
      | _, _ => stackFrom o depth (loc :: rest)
  | _ => []
termination_by structural lines => lines

def parseGoroutine (o : Options) (lines : List Text) : List Frame :=
  stackFrom o 0 ((lines.dropWhile (!isGoroutine ·)).drop 1)

def parse (o : Options) (t : Text) : Except TraceError (List Frame) := do
  let lines ← readLines t
  match o.format.getD (detectFormat lines) with
  | .goroutine => return parseGoroutine o lines
  | .backtrace => return parseBacktrace o lines

inductive FetchFault where
  | unreadable (address : Text)
  | trace (fault : TraceError)
  deriving DecidableEq

def FetchFault.message : FetchFault → Text
  | .unreadable a => "read trace " ++ a
  | .trace f => f.message

def fetch (files : Tree) (o : Options) (address : Text) : Except FetchFault (List Frame) :=
  match files.fetch? address with
  | none => .error (.unreadable address)
  | some t => (parse o t).mapError .trace

end FaultRepair.Trace
