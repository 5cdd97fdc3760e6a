/-
# Request targets

What a request asks for: a path and the parameters behind a question mark. Bytes may be
written as a percent sign and two hexadecimal digits. A target may also be a full
address with a scheme and a host, whose path counts, or a single star.
-/

import FaultRepair.Text.Basic

namespace FaultRepair.Server

open Text

/-- The parts of an address, which differ in what must be escaped. -/
inductive Part where
  | path | query | host | zone | user
  deriving DecidableEq

def percent : UInt8 := byte '%'

def isUnreserved (b : UInt8) : Bool :=
  isAlpha b || isDigit b || (ofString "-_.~").any (· == b)

def isHostByte (b : UInt8) : Bool :=
  isUnreserved b || (ofString "!$&'()*+,;=:[]<>\"").any (· == b)

def isPathByte (b : UInt8) : Bool := isUnreserved b || (ofString "$&+,/:;=@").any (· == b)

/-- May the byte with this value be written with a percent sign? -/
def mayEscape (part : Part) (value : Nat) : Bool :=
  match part with
  | .host => value ≥ 128 || value == percent.toNat
  | .zone => value == percent.toNat || value == 32 || isHostByte value.toUInt8
  | _ => true

def mayStand (part : Part) (b : UInt8) : Bool :=
  match part with
  | .host | .zone => b ≥ 128 || isHostByte b
  | _ => true

/-- A part of an address with its escapes resolved; `none` if one is malformed. In
parameters a plus sign stands for a blank. -/
def decode? (part : Part) : Text → Option Text
  | [] => some []
  | b :: rest =>
    if b == percent then
      match rest with
      | x :: y :: rest =>
        let value := 16 * hexValue x + hexValue y
        if isHexDigit x && isHexDigit y && mayEscape part value then
          (decode? part rest).map (value.toUInt8 :: ·)
        else none
      | _ => none
    else if part == .query && b == byte '+' then (decode? part rest).map (32 :: ·)
    else if mayStand part b then (decode? part rest).map (b :: ·)
    else none

def encodePath (t : Text) : Text :=
  t.flatMap fun b => if isPathByte b then [b] else percent :: hexUpper 2 b.toNat

/-- A request target. `path` is the decoded path where its escapes are the usual ones, and
the path as written otherwise. -/
structure Target where
  path : Text
  parameters : List (Text × Text) := []

/-- The parameters of a query; malformed ones, and those with a semicolon, are dropped. -/
def parametersOf (query : Text) : List (Text × Text) :=
  (splitAt (byte '&') query).filterMap fun item => do
    if item.isEmpty || item.any (· == byte ';') then none
    else
      let (key, value) := (cutAt? (byte '=') item).getD (item, [])
      return (← decode? .query key, ← decode? .query value)

/-- The first value of a parameter; empty if there is none. -/
def Target.parameter (t : Target) (name : Text) : Text := (t.parameters.lookup name).getD []

/-- A target apart from its scheme, if it has one; `none` if it starts with a colon. -/
def splitScheme? (t : Text) : Option (Option Text × Text) := do
  let isSchemeByte (b : UInt8) : Bool :=
    isAlpha b || isDigit b || (ofString "+-.").any (· == b)
  let c :: rest := t.dropWhile isSchemeByte | some (none, t)
  let name := t.takeWhile isSchemeByte
  if c != byte ':' then some (none, t)
  else
    let b :: _ := name | none
    if isAlpha b then some (some name, rest) else some (none, t)

def isPortPart : Text → Bool
  | [] => true
  | c :: digits => c == byte ':' && digits.all isDigit

def isHost (t : Text) : Bool :=
  match t with
  | c :: _ =>
    if c == byte '[' then
      (cutLastAt? (byte ']') t).any fun (inner, port) =>
        isPortPart port &&
          match cut? "%25" inner with
          | some (address, zone) =>
            (decode? .host address).isSome && (decode? .zone (ofString "%25" ++ zone)).isSome &&
              (decode? .host (ofString "]" ++ port)).isSome
          | none => (decode? .host t).isSome
    else
      (cutLastAt? (byte ':') t).all (·.2.all isDigit) && (decode? .host t).isSome
  | [] => true

def isUserByte (b : UInt8) : Bool :=
  isAlpha b || isDigit b || (ofString "-._:~!$&'()*+,;=%@").any (· == b)

/-- Is what stands between the scheme and the path well-formed? -/
def isAuthority (t : Text) : Bool :=
  match cutLastAt? (byte '@') t with
  | none => isHost t
  | some (user, host) =>
    isHost host && user.all isUserByte &&
      match cutAt? (byte ':') user with
      | some (name, word) => (decode? .user name).isSome && (decode? .user word).isSome
      | none => (decode? .user user).isSome

def ofPath? (written query : Text) : Option Target :=
  (decode? .path written).map fun path =>
    ⟨if encodePath path == written then path else written, parametersOf query⟩

/-- Reads a request target; `none` if it is none. -/
def Target.read? (t : Text) : Option Target := do
  if t.isEmpty || t.any (fun b => b < 32 || b == 127) then none
  if t == ofString "*" then return ⟨t, []⟩
  let (scheme, rest) ← splitScheme? t
  let (path, query) := (cutAt? (byte '?') rest).getD (rest, [])
  let some _ := scheme | if startsWith path "/" then ofPath? path query else none
  let some rest := dropLead? "//" path
    | if startsWith path "/" then ofPath? path query else some ⟨[], parametersOf query⟩
  let authority := rest.takeWhile (· != byte '/')
  if isAuthority authority then ofPath? (rest.dropWhile (· != byte '/')) query else none

end FaultRepair.Server
