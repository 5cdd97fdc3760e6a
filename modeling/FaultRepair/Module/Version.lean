/-
# Versions

Two kinds of versions: those of the language, such as `1.21` or `1.22rc1`, and those of
modules, such as `v1.2.3-pre`.
-/

import FaultRepair.Text.Basic

namespace FaultRepair.Module

open Text

/-- A number without superfluous zeros in front, and what follows it. -/
def takeNumber? (t : Text) : Option (Nat × Text) :=
  match t.takeWhile isDigit with
  | [] => none
  | 48 :: [] => some (0, t.drop 1)
  | 48 :: _ => none
  | digits => (toNat? digits).map fun n => (n, t.drop digits.length)

def dropDot? (t : Text) : Option Text := dropLead? "." t

/-- A version of the language. Without a patch it means the language itself, which is
older than any release of it. -/
structure GoVersion where
  major : Nat
  minor : Nat
  patch : Option Nat := none
  /-- The word of a release that is not final, such as `rc`. -/
  stage : Text := []
  stageNumber : Nat := 0

namespace GoVersion

/-- A stage of lower-case letters with its number, or nothing. -/
def readStage? (t : Text) : Option (Text × Nat) :=
  if t.isEmpty then some ([], 0)
  else
    let isLower (b : UInt8) : Bool := 97 ≤ b && b ≤ 122
    let word := t.takeWhile isLower
    let digits := t.drop word.length
    if word.isEmpty || digits.isEmpty || !digits.all isDigit then none
    else (toNat? digits).map fun n => (word, n)

def read? (t : Text) : Option GoVersion := do
  let (major, rest) ← takeNumber? t
  if major == 0 then none
  let (minor, rest) ← takeNumber? (← dropDot? rest)
  let (patch, rest) : Option Nat × Text ← match dropDot? rest with
    | some after => (takeNumber? after).map fun (n, rest) => (some n, rest)
    | none => some (none, rest)
  let (stage, number) ← readStage? rest
  return ⟨major, minor, patch, stage, number⟩

/-- The major and minor number at the front of a text that goes on with something other
than a digit; a `v` may precede them. -/
def lenient? (t : Text) : Option Text := do
  let t := trimLead t "v"
  let (major, rest) ← takeNumber? t
  if major == 0 then none
  let (_, rest) ← takeNumber? (← dropDot? rest)
  let c :: _ := rest | none
  if isDigit c then none else some (t.take (t.length - rest.length))

/-- The first version whose language and first release are told apart. -/
def firstSplit : Nat := 21

/-- What decides the order of versions: numbers in turn, then the stage. -/
def key (v : GoVersion) : List Nat :=
  let patch := match v.patch with
    | some n => n + 1
    | none => if v.major == 1 && v.minor < firstSplit && v.stage.isEmpty then 1 else 0
  [v.major, v.minor, patch]

def orderOf : List Nat → List Nat → Ordering
  | a :: as, b :: bs => (Ord.compare a b).then (orderOf as bs)
  | [], [] => .eq
  | [], _ => .lt
  | _, [] => .gt

def order (v w : GoVersion) : Ordering :=
  (orderOf v.key w.key).then
    ((Text.compare v.stage w.stage).then (Ord.compare v.stageNumber w.stageNumber))

def newerThan (v w : GoVersion) : Bool := v.order w == .gt

end GoVersion

structure ModVersion where
  major : Nat
  /-- Are all three numbers written? -/
  complete : Bool
  stage : Text := []
  build : Text := []

namespace ModVersion

def isIdentByte (b : UInt8) : Bool := isAlpha b || isDigit b || b == byte '-'

def isPaddedNumber (t : Text) : Bool := t.length > 1 && t.head? == some 48 && t.all isDigit

def isBuild (t : Text) : Bool :=
  (splitAt (byte '.') t).all fun part => !part.isEmpty && part.all isIdentByte

def isStage (t : Text) : Bool :=
  isBuild t && (splitAt (byte '.') t).all (!isPaddedNumber ·)

/-- The stage and the build of a complete version, each behind its mark. -/
def readTail? (t : Text) : Option (Text × Text) :=
  let (front, build) := match cutAt? (byte '+') t with
    | some (a, b) => (a, some b)
    | none => (t, none)
  let stage := front.drop 1
  if (front.isEmpty || startsWith front "-" && isStage stage) && build.all isBuild then
    some (stage, build.getD [])
  else none

/-- Reads a version; minor numbers may be missing. -/
def read? (t : Text) : Option ModVersion := do
  let (major, rest) ← takeNumber? (← dropLead? "v" t)
  if rest.isEmpty then return ⟨major, false, [], []⟩
  let (_, rest) ← takeNumber? (← dropDot? rest)
  if rest.isEmpty then return ⟨major, false, [], []⟩
  let (_, rest) ← takeNumber? (← dropDot? rest)
  let (stage, build) ← readTail? rest
  return ⟨major, true, stage, build⟩

def incompatible : Text := "incompatible"

def isCanonical (v : ModVersion) : Bool :=
  v.complete && (v.build.isEmpty || v.build == incompatible)

end ModVersion

/-- The major version that a module path ends in, such as `/v2`; empty if it names none,
and `none` if it is malformed. -/
def pathMajor? (path : Text) : Option Text :=
  if startsWith path "gopkg.in/" then
    let body := trimTail path "-unstable"
    let digits := (body.reverse.takeWhile isDigit).reverse
    let front := body.take (body.length - digits.length)
    if !endsWith front ".v" || digits.isEmpty then none
    else if digits.head? == some 48 && digits.length > 1 then none
    else some (path.drop (front.length - 2))
  else
    let isTailByte (b : UInt8) : Bool := isDigit b || b == byte '.'
    let tail := (path.reverse.takeWhile isTailByte).reverse
    let front := path.take (path.length - tail.length)
    if tail.isEmpty || !endsWith front "/v" then some []
    else if tail.any (· == byte '.') || tail.head? == some 48 || tail == ofString "1" then none
    else some (ofString "/v" ++ tail)

def ModVersion.fits (v : ModVersion) (pathMajor : Text) : Bool :=
  let major := trimTail pathMajor "-unstable"
  if major.isEmpty then v.major ≤ 1 || v.build == ofString "incompatible"
  else major.drop 1 == ofString "v" ++ ofNat v.major ||
    (major == ofString ".v1" && v.major == 0 && !v.stage.isEmpty)

end FaultRepair.Module
