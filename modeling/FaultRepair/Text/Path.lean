/-
# Slash-separated paths

Purely lexical operations on paths: none of them looks at a file system. A path
is cleaned by resolving `.` and `..` components as far as its text allows.
-/

import FaultRepair.Text.Basic

namespace FaultRepair.Text.Path

def slash : UInt8 := byte '/'

def isAbs (p : Text) : Bool := p.head? == some slash

def dotdot : Text := ".."

/-- One more component below those kept so far (innermost first). -/
def pushComponent (rooted : Bool) (kept : List Text) (c : Text) : List Text :=
  if c.isEmpty || c == Text.ofString "." then kept
  else if c == dotdot then
    match kept with
    | [] => if rooted then [] else [dotdot]
    | last :: rest => if last == dotdot then dotdot :: kept else rest
  else c :: kept

/-- The components of the cleaned path, outermost first. -/
def components (p : Text) : List Text :=
  ((splitAt slash p).foldl (pushComponent (isAbs p)) []).reverse

/-- The shortest path that names the same place as far as its text shows. -/
def clean (p : Text) : Text :=
  let body := join [slash] (components p)
  if isAbs p then slash :: body else if body.isEmpty then "." else body

/-- The paths one below the other, cleaned; empty ones at the front are ignored. -/
def joinAll (parts : List Text) : Text :=
  match parts.dropWhile List.isEmpty with
  | [] => []
  | rest => clean (join [slash] rest)

def joinTwo (a b : Text) : Text := joinAll [a, b]

/-- The last component; `.` for an empty path and `/` for one of slashes only. -/
def base (p : Text) : Text :=
  if p.isEmpty then "."
  else
    let body := (p.reverse.dropWhile (· == slash)).reverse
    if body.isEmpty then [slash]
    else
      match cutLastAt? slash body with
      | some (_, last) => last
      | none => body

def dir (p : Text) : Text :=
  match cutLastAt? slash p with
  | some (before, _) => clean (before ++ [slash])
  | none => "."

def dropCommon : List Text → List Text → List Text × List Text
  | a :: as, b :: bs => if a == b then dropCommon as bs else (a :: as, b :: bs)
  | as, bs => (as, bs)

/-- The path that leads from `from` to `target`; `none` when text alone cannot
tell. -/
def relative? (start target : Text) : Option Text :=
  let start := clean start
  let target := clean target
  if start == target then some "."
  else
    let start := if start == Text.ofString "." then [] else start
    if isAbs start != isAbs target then none
    else
      let parts (p : Text) : List Text :=
        if p.isEmpty || p == [slash] then [] else splitAt slash (if isAbs p then p.drop 1 else p)
      let (up, down) := dropCommon (parts start) (parts target)
      if up.head? == some dotdot then none
      else some (join [slash] (up.map (fun _ => dotdot) ++ down))

end FaultRepair.Text.Path
