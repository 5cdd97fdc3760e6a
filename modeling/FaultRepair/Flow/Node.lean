/-
# Nodes of the flow of types

Which concrete types an interface value may hold is found by following values from
where they become interface values. Variables are followed one by one; elements of
slices, maps and channels are taken together by their type, and fields by the struct
they belong to.
-/

import FaultRepair.Typing.Check

namespace FaultRepair.Flow

open Typing Source

mutual

/-- A text that two types have in common exactly if they are identical. -/
def tyKey : Ty → Text
  | .basic b => "b" ++ Text.ofNat b.ctorIdx
  | .named i args => "n" ++ Text.ofNat i ++ "[" ++ tyKeys args ++ "]"
  | .param i => "p" ++ Text.ofNat i
  | .pointer e => "*" ++ tyKey e
  | .slice e => "[]" ++ tyKey e
  | .array n e => "[" ++ Text.ofNat n ++ "]" ++ tyKey e
  | .map k v => "m[" ++ tyKey k ++ "]" ++ tyKey v
  | .chan .both e => "c" ++ tyKey e
  | .chan .send e => "s" ++ tyKey e
  | .chan .receive e => "r" ++ tyKey e
  | .struct fs => "struct(" ++ memberKeys fs ++ ")"
  | .func ps v rs => "f(" ++ tyKeys ps ++ (if v then ".)(" else ")(") ++ tyKeys rs ++ ")"
  | .iface ms ts c =>
    "i(" ++ methodKeys ms ++ ")" ++
      (match ts with
        | some ts => "(" ++ termKeys ts ++ ")"
        | none => []) ++ (if c then "=" else "")
  | .tuple ts => "(" ++ tyKeys ts ++ ")"

def tyKeys : List Ty → Text
  | [] => []
  | t :: ts => tyKey t ++ "," ++ tyKeys ts

def memberKeys : List Member → Text
  | [] => []
  | .mk n p t e g :: rest =>
    n ++ (if isExported n then [] else "@" ++ p) ++
      (if e then "!" else ":") ++ tyKey t ++ "\"" ++ g ++
      ";" ++ memberKeys rest

def methodKeys : List Method → Text
  | [] => []
  | .mk n p t _ :: rest =>
    n ++ (if isExported n then [] else "@" ++ p) ++ tyKey t ++ ";" ++ methodKeys rest

def termKeys : List Term → Text
  | [] => []
  | .mk b t :: rest => (if b then "~" else "") ++ tyKey t ++ "|" ++ termKeys rest

end

/-- A function as it runs. -/
inductive Fn where
  /-- A declared function or method with its type arguments. -/
  | declared (obj : Nat) (args : Text)
  /-- A function literal, within a function with these type arguments. -/
  | literal (file pos : Nat) (args : Text)
  /-- The initialisation of the variables a file declares. -/
  | initial (file : Nat)
  /-- A method a type has by embedding, or that of the type a pointer points to. -/
  | forward (recv name pkg : Text)
  /-- A method taken as a value, with or without its receiver. -/
  | value (recv name pkg : Text) (bound : Bool)
  deriving DecidableEq, Hashable

/-- What values flow through. -/
inductive Node where
  /-- A value of a concrete type becomes an interface value. -/
  | concrete (type : Text)
  | global (obj : Nat)
  /-- A local variable that outlives registers. -/
  | escaped (obj : Nat) (args : Text)
  | param (fn : Fn) (index : Nat)
  | result (fn : Fn) (index : Nat)
  /-- A result of one call. -/
  | returned (fn : Fn) (lparen : Nat) (index : Nat)
  | element (type : Text)
  | mapKey (type : Text)
  | mapValue (type : Text)
  | channel (type : Text)
  | field (type : Text) (index : Nat)
  /-- What pointers to pointers to a type lead to. -/
  | deep (type : Text)
  /-- Memory made at a place. -/
  | memory (fn : Fn) (pos : Nat)
  | panicked
  | recovered
  deriving DecidableEq, Hashable

/-- Where a value may come from. -/
abbrev Val := List Node

def Val.join (a b : Val) : Val := a ++ b.filter fun n => !a.contains n

/-- The interface type under a pointer or several. -/
def interfaceBelow? (t : Tables) : Nat → Ty → Option Ty
  | 0, _ => none
  | fuel + 1, .pointer e => if t.isInterface e then some e else interfaceBelow? t fuel e
  | _, _ => none

/-- Are values of the type followed: interface values, and pointers to them? -/
def isTracked (t : Tables) (ty : Ty) : Bool :=
  t.isInterface ty || (interfaceBelow? t 32 ty).isSome

/-- A value of a type that comes from a node, if it is followed. -/
def valueFrom (t : Tables) (n : Node) (ty : Ty) : Val := if isTracked t ty then [n] else []

end FaultRepair.Flow
