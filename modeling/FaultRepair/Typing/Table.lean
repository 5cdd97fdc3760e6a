/-
# Tables of declarations

Declared objects, types and type parameters by number, and the relations between
types that depend on them: underlying types, members, method sets, and which types
implement an interface.
-/

import FaultRepair.Typing.Value
import Std.Data.HashMap

namespace FaultRepair.Typing

open Source (Pos noPos Token ChanDir)

/-- The predeclared functions, and those of package `unsafe`. -/
inductive Builtin where
  | append | cap | clear | close | complex | copy | delete | imag | len | make
  | max | min | new | panic | print | println | real | recover
  | addOffset | alignof | offsetof | sizeof | slice | sliceData | string | stringData
  deriving DecidableEq

inductive ObjKind where
  | var | const | type | func
  | package (number : Nat)
  | builtin (b : Builtin)
  | nil
  deriving DecidableEq, Inhabited

/-- A declared object. Predeclared objects belong to no package. A generic function
has type parameters, and a method of a generic type has those of its receiver. -/
structure Obj where
  name : Text
  pkg : Option Nat := none
  file : Nat := 0
  pos : Pos := noPos
  kind : ObjKind
  type : Ty := Ty.invalid
  tparams : List Nat := []
  recvParams : List Nat := []
  ptrRecv : Bool := false
  isMethod : Bool := false
  value : Option Value := none
  deriving Inhabited

/-- A declared type: its object, type parameters, underlying type, and methods. -/
structure TypeDecl where
  obj : Nat
  params : List Nat := []
  under : Ty := Ty.invalid
  methods : List (Text × Nat) := []
  deriving Inhabited

/-- A type parameter with its constraint, which is an interface. -/
structure TypeParam where
  name : Text
  constraint : Ty := Ty.any
  deriving Inhabited

/-- A package: its import path, its name, and what it declares. -/
structure Package where
  path : Text
  name : Text := []
  scope : Std.HashMap Text Nat := {}
  deriving Inhabited

structure Tables where
  objs : Array Obj := #[]
  types : Array TypeDecl := #[]
  params : Array TypeParam := #[]
  packages : Array Package := #[]

namespace Tables

variable (t : Tables)

def obj (i : Nat) : Obj := t.objs.getD i default
def decl (i : Nat) : TypeDecl := t.types.getD i default

/-- The import path of the package that declares an object; empty for predeclared
objects. -/
def pathOf (o : Obj) : Text :=
  match o.pkg with
  | some p => (t.packages.getD p default).path
  | none => []

/-- The underlying type; that of a type parameter is its constraint. -/
def under (t : Tables) : Ty → Ty
  | .named i args =>
    let d := t.decl i
    if args.isEmpty then d.under else d.under.subst (d.params.zip args)
  | .param i => (t.params.getD i default).constraint
  | ty => ty

variable (ty : Ty)

def isInterface : Bool := t.under ty matches .iface ..

def isPlainInterface : Bool := !ty.isParam && t.isInterface ty

def pointee? : Option Ty := do
  let .pointer e := t.under ty | none
  some e

def terms? : Option (List Term) := do
  let .iface _ ts _ := t.under ty | none
  ts

/-- Does a property hold of all terms, of which there must be some? -/
def allTerms (p : Term → Bool) : Bool :=
  (t.terms? ty).any fun ts => !ts.isEmpty && ts.all p

/-- Does a property hold of the underlying type, or of each one in the type set of a
type parameter? -/
def allTypes (p : Ty → Bool) (ty : Ty) : Bool :=
  if ty.isParam then t.allTerms ty fun term => p (t.under term.type) else p (t.under ty)

/-- Is the underlying type basic with this property, for all types in a type set? -/
def allBasic (p : Basic → Bool) (ty : Ty) : Bool :=
  t.allTypes (fun
    | .basic b => p b
    | _ => false) ty

/-- The single underlying type of a type set, or of an ordinary type itself. -/
def core? : Option Ty := do
  match t.under ty with
  | .iface ms ts c =>
    if ty.isParam || ts.isSome then
      let some (first :: rest) := ts | none
      let u := t.under first.type
      if rest.all fun term => t.under term.type == u then some u
      else
        let .chan _ e := u | none
        let chans := (first :: rest).map fun term => t.under term.type
        let sameElem := chans.all fun
          | .chan _ e' => e' == e
          | _ => false
        let dirs := chans.filterMap fun
          | .chan .both _ => none
          | .chan d _ => some d
          | _ => none
        let d :: ds := dirs | if sameElem then some u else none
        if sameElem && ds.all (· == d) then some (.chan d e) else none
    else some (.iface ms ts c)
  | u => some u

/-- The core type, where byte slices and strings together count as strings. -/
def coreString? : Option Ty :=
  t.core? ty <|>
    if t.allTerms ty fun term => match t.under term.type with
      | .basic b => b.isString
      | .slice (.basic b) => b == .uint8
      | _ => false
    then some (.basic .string) else none

/-- A member found in a type: the path through embedded fields, and whether a
pointer was followed on the way. -/
inductive Found where
  | field (path : List Nat) (member : Member) (indirect : Bool)
  /-- A declared method, with the type arguments of its receiver. -/
  | method (path : List Nat) (decl : Nat) (args : List Ty) (indirect : Bool)
  | abstract (path : List Nat) (method : Method) (indirect : Bool)

/-- A type in which to look: how it was reached, and whether it was reached more
than once at this depth. -/
structure Place where
  type : Ty
  path : List Nat := []
  indirect : Bool := false
  multiple : Bool := false

def derefOnce : Ty × Bool :=
  match ty with
  | .pointer e => (e, true)
  | _ => (ty, false)

def findMethod (d : TypeDecl) (name pkg : Text) : Option Nat :=
  (d.methods.find? fun (n, o) => sameName n (t.pathOf (t.obj o)) name pkg).map (·.2)

/-- What one place holds under a name, and the embedded fields to look into next. -/
def lookInPlace (name pkg : Text) (place : Place) :
    List Found × List Place :=
  let own : Option Found := match place.type with
    | .named i args =>
      (findMethod t (t.decl i) name pkg).map fun o =>
        .method place.path o args place.indirect
    | _ => none
  match own with
  | some f => ([f], [])
  | none =>
    match t.under place.type with
    | .struct fields =>
      let hits := fields.zipIdx.filterMap fun (m, i) =>
        if sameName m.name m.pkg name pkg then
          some (Found.field (place.path ++ [i]) m place.indirect)
        else none
      let next := fields.zipIdx.filterMap fun (m, i) =>
        if m.embedded then
          let (ty, isPtr) := derefOnce m.type
          if (t.under ty matches .struct _ | .iface ..) || ty.isNamed then
            some { type := ty, path := place.path ++ [i],
                   indirect := place.indirect || isPtr, multiple := place.multiple : Place }
          else none
        else none
      (hits, next)
    | .iface ms _ _ =>
      ((ms.find? fun m => sameName m.name m.pkg name pkg).toList.map fun m =>
        .abstract place.path m place.indirect, [])
    | _ => ([], [])

def consolidate : Nat → List Place → List Place
  | 0, _ => []
  | _, [] => []
  | fuel + 1, p :: ps =>
    let same (q : Place) : Bool := p.type.isNamed && p.type == q.type
    { p with multiple := p.multiple || ps.any same } :: consolidate fuel (ps.filter (!same ·))

def lookLevels (t : Tables) (name pkg : Text) :
    Nat → (seen : List Ty) → List Place → Option Found
  | 0, _, _ => none
  | _, _, [] => none
  | fuel + 1, seen, places =>
    let fresh := places.filter fun p => !(p.type.isNamed && seen.any (· == p.type))
    let seen := (fresh.map (·.type)).filter Ty.isNamed ++ seen
    let looked := fresh.map fun p => (p, lookInPlace t name pkg p)
    let hits := looked.flatMap fun (p, (fs, _)) => fs.map (·, p.multiple)
    match hits with
    | [(f, multiple)] => if multiple then none else some f
    | _ :: _ :: _ => none
    | [] =>
      let next := looked.flatMap fun (_, (_, next)) => next
      lookLevels t name pkg fuel seen (consolidate next.length next)

/-- The field or method with a name, reached through embedded fields if need be.
The shallowest one counts, if it is the only one at its depth. -/
def lookup (name pkg : Text) : Option Found := do
  let search (ty : Ty) : Option Found := do
    let (base, isPtr) := derefOnce ty
    if isPtr && t.isInterface base then none
    else lookLevels t name pkg (t.types.size + 16) [] [{ type := base, indirect := isPtr }]
  let .named .. := ty | search ty
  let .pointer e := t.under ty | search ty
  let some (.field p m i) := search (.pointer e) | none
  some (.field p m i)

/-- The signature of a declared method for a receiver with these type arguments. -/
def methodType (decl : Nat) (args : List Ty) : Ty :=
  let o := t.obj decl
  if args.isEmpty then o.type else o.type.subst (o.recvParams.zip args)

/-- The method of a type that has a pointer receiver only counts if the value is a
pointer or reached through one. -/
def inMethodSet (decl : Nat) (indirect : Bool) : Bool :=
  !(t.obj decl).ptrRecv || indirect

def hasMethod (m : Method) : Bool :=
  match t.lookup ty m.name m.pkg with
  | some (.method _ decl args indirect) =>
    inMethodSet t decl indirect && t.methodType decl args == m.type
  | some (.abstract _ m' _) => m'.type == m.type
  | _ => false

/-- May values of the type be compared? Interfaces count unless `strict`. -/
def comparableFuel (t : Tables) (strict : Bool) : Nat → Ty → Bool
  | 0, _ => true
  | fuel + 1, ty =>
    match ty with
    | .param _ =>
      match t.under ty with
      | .iface _ (some ts) c =>
        c || (!ts.isEmpty && ts.all fun x => comparableFuel t true fuel x.type)
      | .iface _ none c => c
      | _ => false
    | _ =>
      match t.under ty with
      | .basic b => b != .untypedNil
      | .pointer _ | .chan .. => true
      | .iface _ ts c =>
        !strict || c || (match ts with
          | some ts => !ts.isEmpty && ts.all fun x => comparableFuel t true fuel x.type
          | none => false)
      | .struct fields => fields.all fun m => comparableFuel t strict fuel m.type
      | .array _ e => comparableFuel t strict fuel e
      | _ => false

def comparable : Bool := comparableFuel t false 64 ty

def inTerm (x : Term) : Bool :=
  if x.tilde then t.under ty == t.under x.type else ty == x.type

def termIncluded (x : Term) (ys : List Term) : Bool :=
  ys.any fun y =>
    if y.tilde then t.under x.type == t.under y.type else !x.tilde && x.type == y.type

/-- Does a type implement an interface? With `constraint` the interface may be used
as a constraint only, and comparability is then taken loosely. -/
def implements (ty iface : Ty) : Bool :=
  match t.under iface with
  | .iface ms ts c =>
    ms.all (t.hasMethod ty) &&
      (!c || comparableFuel t false 64 ty) &&
      ts.all fun ts =>
        match t.under ty with
        | .iface _ ts' _ => ts'.any fun ts' => ts'.all fun x => termIncluded t x ts
        | _ => ts.any (inTerm t ty)
  | _ => false

def isConstraint : Bool :=
  !ty.isParam &&
    match t.under ty with
    | .iface _ ts c => ts.isSome || c
    | _ => false

end Tables

end FaultRepair.Typing
