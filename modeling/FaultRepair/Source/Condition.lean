/-
# Conditions on builds

A condition joins tags by `&&`, `||` and `!`. An older notation has one line for each
condition that must hold.
-/

import FaultRepair.Text.Letter

namespace FaultRepair.Source

open Text

inductive Condition where
  | tag (name : Text)
  | not (c : Condition)
  | and (c d : Condition)
  | or (c d : Condition)

namespace Condition

def holds (isSet : Text → Bool) : Condition → Bool
  | .tag t => isSet t
  | .not c => !c.holds isSet
  | .and c d => c.holds isSet && d.holds isSet
  | .or c d => c.holds isSet || d.holds isSet

def isTagRune (r : Text.Rune) : Bool :=
  isLetterRune r || isDigitRune r || r == 95 || r == 46

def isTag (t : Text) : Bool := !t.isEmpty && (runes t).all isTagRune

/-- The tokens of a condition: marks and tags; `none` if there is something else. -/
def tokens? : Nat → Text → Option (List Text)
  | 0, _ => some []
  | _, [] => some []
  | fuel + 1, c :: rest =>
    if c == 32 || c == 9 then tokens? fuel rest
    else if c == byte '(' || c == byte ')' || c == byte '!' then (tokens? fuel rest).map ([c] :: ·)
    else if c == byte '&' || c == byte '|' then
      match rest with
      | d :: rest => if c == d then (tokens? fuel rest).map ([c, d] :: ·) else none
      | [] => none
    else
      let word := (((readings (c :: rest)).takeWhile fun g => isTagRune g.rune).map (·.raw)).flatten
      if word.isEmpty then none else (tokens? fuel ((c :: rest).drop word.length)).map (word :: ·)

def mark (s : String) : Text := ofString s

mutual

def readOr : Nat → List Text → Option (Condition × List Text)
  | 0, _ => none
  | fuel + 1, ts => do
    let (c, rest) ← readAnd fuel ts
    let t :: after := rest | some (c, [])
    if t == mark "||" then (readOr fuel after).map fun (d, rest) =>
      (.or c d, rest) else some (c, rest)

def readAnd : Nat → List Text → Option (Condition × List Text)
  | 0, _ => none
  | fuel + 1, ts => do
    let (c, rest) ← readNot fuel ts
    let t :: after := rest | some (c, [])
    if t == mark "&&" then (readAnd fuel after).map fun (d, rest) =>
      (.and c d, rest) else some (c, rest)

def readNot : Nat → List Text → Option (Condition × List Text)
  | 0, _ => none
  | _, [] => none
  | fuel + 1, t :: rest =>
    if t == mark "!" then (readAtom fuel rest).map fun (c, rest) =>
      (.not c, rest) else readAtom fuel (t :: rest)

def readAtom : Nat → List Text → Option (Condition × List Text)
  | 0, _ => none
  | _, [] => none
  | fuel + 1, t :: rest =>
    if t == mark "(" then do
      let (c, rest) ← readOr fuel rest
      let t :: rest := rest | none
      if t == mark ")" then some (c, rest) else none
    else if isTag t then some (.tag t, rest)
    else none

end

def read? (t : Text) : Option Condition := do
  let ts ← tokens? (t.length + 1) t
  let some (c, []) := readOr (4 * ts.length + 4) ts | none
  some c

def never : Condition := .tag "ignore"

def oldLiteral (t : Text) : Condition :=
  let plain (t : Text) : Condition := if isTag t then .tag t else never
  match t with
  | 33 :: rest => if rest.isEmpty || rest.head? == some 33 then never else .not (plain rest)
  | _ => plain t

def join (f : Condition → Condition → Condition) : List Condition → Condition
  | [] => never
  | [c] => c
  | c :: cs => f c (join f cs)

/-- Reads a condition in the older notation: alternatives with blanks between them, each
made of tags with commas between them. -/
def readOld (t : Text) : Condition :=
  join .or ((fields t).map fun clause => join .and ((splitAt (byte ',') clause).map oldLiteral))

def parenthesized (isIt : Bool) (t : Text) : Text := if isIt then "(" ++ t ++ ")" else t

def isAnd (c : Condition) : Bool := c matches .and ..

def isOr (c : Condition) : Bool := c matches .or ..

def render : Condition → Text
  | .tag t => t
  | .not c => "!" ++ parenthesized (c.isAnd || c.isOr) c.render
  | .and c d => parenthesized c.isOr c.render ++ " && " ++ parenthesized d.isOr d.render
  | .or c d => parenthesized c.isAnd c.render ++ " || " ++ parenthesized d.isAnd d.render

/-- The condition, negated if asked for, with negations in front of tags only. -/
def pushNot (negated : Bool) : Condition → Condition
  | .tag t => if negated then .not (.tag t) else .tag t
  | .not c => c.pushNot (!negated)
  | .and c d => (if negated then Condition.or else .and) (c.pushNot negated) (d.pushNot negated)
  | .or c d => (if negated then Condition.and else .or) (c.pushNot negated) (d.pushNot negated)

def conjuncts : Condition → List Condition
  | .and c d => c.conjuncts ++ d.conjuncts
  | c => [c]

def disjuncts : Condition → List Condition
  | .or c d => c.disjuncts ++ d.disjuncts
  | c => [c]

def isLiteral (c : Condition) : Bool := c matches .tag _ | .not _

/-- The lines that say the same in the older notation; `none` if it cannot say it. -/
def oldLines? (c : Condition) : Option (List Text) := do
  let split := (c.pushNot false).conjuncts.map fun d => d.disjuncts.map conjuncts
  if !split.all (·.all (·.all isLiteral)) then none
  let split := if split.all (·.length == 1) then [[split.flatMap (·.flatten)]] else split
  return split.map fun alternatives =>
    "// +build" ++ alternatives.flatMap fun literals =>
      ofString " " ++ Text.join "," (literals.map render)

/-- What follows the mark of a condition; only a blank may separate the two. -/
def afterMark? (t : Text) : Option Text :=
  let trimmed := trimSpace t
  if t.isEmpty || trimmed.length < t.length then some trimmed else none

def textIn? (comment : Text) : Option Text := do
  let rest ← dropLead? "//go:build" comment
  afterMark? (trimSpaceRight rest)

/-- The condition in a comment in the older notation, as text. -/
def oldTextIn? (comment : Text) : Option Text := do
  let rest ← dropLead? "//" comment
  afterMark? (← dropLead? "+build" (trimSpace rest))

/-- The condition that a comment states, in either notation. -/
def ofComment? (comment : Text) : Option Condition := do
  let some t := textIn? comment | (oldTextIn? comment).map readOld
  read? t

end Condition

end FaultRepair.Source
