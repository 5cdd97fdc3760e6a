/-
# The listing of candidates

A table for people: one line per candidate with its rank, its score, how it was found,
its name and its place.
-/

import FaultRepair.Text.Path
import FaultRepair.Text.Rune
import FaultRepair.Number.FloatText
import FaultRepair.Fault.Rank

namespace FaultRepair.Fault

def padRight (width : Nat) (t : Text) : Text :=
  t ++ List.replicate (width - (Text.readings t).length) 32

def colored (on : Bool) (start stop t : Text) : Text :=
  if on then "\x1b[" ++ start ++ "m" ++ t ++ "\x1b[" ++ stop ++ "m" else t

def Candidate.line_ (color : Bool) (c : Candidate) : Text :=
  let kind : Text :=
    if c.isDep then colored color "36" "0" "dep  " else colored color "31;1" "0;22" "frame"
  Text.padLeft 32 3 (Text.ofInt c.depth) ++ "  " ++
    colored color "33" "0" (Text.padLeft 32 6 (c.score.fixed 3)) ++ "  " ++ kind ++ "  " ++
    padRight 24 c.ident ++ " " ++ Text.Path.base c.file ++ ":" ++ Text.ofInt c.line ++ ":" ++
    Text.ofInt c.col ++ "\n"

def listing (color : Bool) (cs : List Candidate) : Text := (cs.map (·.line_ color)).flatten

end FaultRepair.Fault
