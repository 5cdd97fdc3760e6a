/-
# Notices

What the program reports while it works. A notice is shown with the time since the
start; details are shown only on request, and warnings stand out.
-/

import FaultRepair.Text.Basic

namespace FaultRepair.Report

inductive Level where
  | log
  /-- Shown only on request. -/
  | verbose
  | warning
  deriving DecidableEq

structure Notice where
  level : Level
  text : Text

namespace Notice

def log (t : Text) : Notice := ⟨.log, t⟩
def verbose (t : Text) : Notice := ⟨.verbose, t⟩
def warning (t : Text) : Notice := ⟨.warning, t⟩

def isShown (verbose : Bool) (n : Notice) : Bool := n.level != .verbose || verbose

/-- The text of a notice; the word in front of a warning may be coloured. -/
def message (color : Bool) (n : Notice) : Text :=
  match n.level with
  | .warning =>
    let word := Text.ofString "warning:"
    (if color then "\x1b[33;1m" ++ word ++ "\x1b[0;22m" else word) ++ " " ++ n.text
  | _ => n.text

def twoDigits (n : Nat) : Text := Text.padLeft 48 2 (Text.ofNat n)

def line (seconds : Nat) (color : Bool) (n : Notice) : Text :=
  "[" ++ twoDigits (seconds / 60) ++ ":" ++ twoDigits (seconds % 60) ++ "] " ++
    n.message color ++ "\n"

end Notice

def render (seconds : Nat) (verbose color : Bool) (ns : List Notice) : Text :=
  ((ns.filter (·.isShown verbose)).map (·.line seconds color)).flatten

/-- The lines a report consists of, without times and colours; empty lines are left
out. -/
def messages (verbose : Bool) (ns : List Notice) : List Text :=
  ((ns.filter (·.isShown verbose)).flatMap fun n => Text.splitAt 10 (n.message false)).filter
    (!·.isEmpty)

end FaultRepair.Report
