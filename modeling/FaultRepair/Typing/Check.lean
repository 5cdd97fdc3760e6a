/-
# Checking: state and operands

The state of type checking, what it records about a program, and the conversions
of operands: from untyped constants to typed values, and in assignments.

Checking never stops at an error. A package with an error is noted as ill-typed,
and what could be resolved in it is still recorded.
-/

import FaultRepair.Typing.Table
import FaultRepair.Source.Span
import Std.Data.HashSet

namespace FaultRepair.Typing

open Source

/-- How an expression may be used. -/
inductive Mode where
  | invalid
  | noValue
  | builtin (b : Builtin)
  | type
  | const (v : Value)
  /-- A value with an address. -/
  | variable
  | mapIndex
  | value
  /-- A value that can also be asked whether there was one. -/
  | commaOk

/-- An expression as checked. A generic function that still needs type arguments has
the type parameters they are for, and perhaps some of the arguments. -/
structure Operand where
  mode : Mode
  type : Ty
  generic : List Nat := []
  given : List Ty := []

namespace Operand

def invalid : Operand := { mode := .invalid, type := .invalid }

def value (ty : Ty) : Operand := { mode := .value, type := ty }

def const (v : Value) (ty : Ty) : Operand := { mode := .const v, type := ty }

def ofType (ty : Ty) : Operand := if ty.isInvalid then invalid else { mode := .type, type := ty }

def isVariable (x : Operand) : Bool := x.mode matches .variable

def isInvalid (x : Operand) : Bool := x.mode matches .invalid

def value? (x : Operand) : Option Value := do
  let .const v := x.mode | none
  some v

def isNil (x : Operand) : Bool := x.type == .basic .untypedNil

end Operand

structure Selection where
  recv : Ty
  path : List Nat
  /-- A field; otherwise a method. -/
  isField : Bool
  decl : Nat := 0
  /-- Is it a method of an interface? -/
  abstract : Bool := false
  indirect : Bool := false
  /-- Was the method selected from a type rather than a value? -/
  ofType : Bool := false

/-- Code that runs as a function of its own inside another: a function literal, or the body
of a loop over a function. -/
structure Closure where
  file : Nat
  /-- Where its own variables are declared. -/
  start : Nat
  stop : Nat
  code : List (Nat × Nat)

def Closure.captures (c : Closure) (file usedAt declaredAt : Nat) : Bool :=
  c.file == file && (c.code.any fun (a, b) => a ≤ usedAt && usedAt < b) &&
    !(c.start ≤ declaredAt && declaredAt < c.stop)

/-- What is recorded about expressions, by file and position. -/
structure Info where
  uses : Std.HashMap (Nat × Nat) Nat := {}
  defs : Std.HashMap (Nat × Nat) Nat := {}
  selections : Std.HashMap (Nat × Nat) Selection := {}
  types : Std.HashMap (Nat × Nat) Operand := {}
  instances : Std.HashMap (Nat × Nat) (List Ty) := {}
  caseVars : Std.HashMap (Nat × Nat) Nat := {}
  closures : List Closure := []
  addressed : Std.HashSet Nat := {}

inductive DeclInfo where
  | const (file : Nat) (type init : Option Expr) (iota : Nat)
  /-- A variable; with several on the left of one value, all of them. -/
  | var (file : Nat) (names : List Nat) (type init : Option Expr)
  | type (file : Nat) (params : Option FieldList) (isAlias : Bool) (rhs : Expr)
  | func (file : Nat) (d : FuncDecl)

inductive Progress where
  | waiting | active | done

/-- A check put off until all declarations are known: that type arguments satisfy
their constraints, that a type may be the key of a map, that a type is not used
as an ordinary type though it is a constraint, or that it may be embedded. -/
inductive Deferred where
  | instance (params : List Nat) (args : List Ty)
  | mapKey (key : Ty)
  | ordinary (type : Ty)
  | embedded (type : Ty)

/-- A function body to check: its file, what its parameters and results are called,
its result types, and its declaration. -/
structure PendingBody where
  file : Nat
  frame : List (Text × Nat)
  results : List Ty
  names : List Ident
  body : Block
  owner : Nat

/-- The newest language that is known, by its minor version. -/
def newestLanguage : Nat := 25

structure State where
  tables : Tables := {}
  info : Info := {}
  universe_ : Std.HashMap Text Nat := {}
  decls : Std.HashMap Nat DeclInfo := {}
  progress : Std.HashMap Nat Progress := {}
  /-- Imports by file: names to objects. -/
  imports : Std.HashMap Nat (Std.HashMap Text Nat) := {}
  importObjs : List Nat := []
  usedImports : Std.HashSet Nat := {}
  /-- Objects of a dot import, with the object of the import. -/
  dotImports : Std.HashMap (Nat × Nat) Nat := {}
  package : Nat := 0
  path : Text := []
  /-- The minor version of the language the package is written in. -/
  language : Nat := newestLanguage
  file : Nat := 0
  frames : List (List (Text × Nat)) := []
  iota : Option Nat := none
  results : List Ty := []
  namedResults : Bool := false
  resultFrame : List (Text × Nat) := []
  inBody : Bool := false
  used : Std.HashSet Nat := {}
  locals : List Nat := []
  panics : Std.HashSet (Nat × Nat) := {}
  owner : Option Nat := none
  deps : Std.HashMap Nat (List Nat) := {}
  bodies : List PendingBody := []
  deferred : List Deferred := []
  ill : Bool := false
  deriving Inhabited

end Typing

abbrev Check := StateM Typing.State

namespace Typing

open Source

def fail : Check Unit := modify ({ · with ill := true })

/-- Note an error unless the package is written in a language at least this new. -/
def requireLanguage (minor : Nat) : Check Unit := do
  if (← get).language < minor then fail

/-- Note an error, and go on with what is given. -/
def failAs (a : α) : Check α := do
  fail
  return a

def failed : Check Operand := failAs .invalid

def tables : Check Tables := do return (← get).tables

@[inline]
def modifyTables (f : Tables → Tables) : Check Unit := modify fun s =>
  { s with tables := f s.tables }

def newObj (o : Obj) : Check Nat := do
  let n := (← tables).objs.size
  modifyTables fun t => { t with objs := t.objs.push o }
  return n

def modifyObj (i : Nat) (f : Obj → Obj) : Check Unit := modifyTables fun t =>
  { t with objs := t.objs.modify i f }

def modifyDecl (i : Nat) (f : TypeDecl → TypeDecl) : Check Unit := modifyTables fun t =>
  { t with types := t.types.modify i f }

def newType (d : TypeDecl) : Check Nat := do
  let n := (← tables).types.size
  modifyTables fun t => { t with types := t.types.push d }
  return n

def newParam (p : TypeParam) : Check Nat := do
  let n := (← tables).params.size
  modifyTables fun t => { t with params := t.params.push p }
  return n

def setConstraint (i : Nat) (c : Ty) : Check Unit := modifyTables fun t =>
  { t with params := t.params.modify i ({ · with constraint := c }) }

def under (ty : Ty) : Check Ty := do return (← tables).under ty

@[inline]
def modifyInfo (f : Nat → Info → Info) : Check Unit := modify fun s =>
  { s with info := f s.file s.info }

def recordUse (id : Ident) (obj : Nat) : Check Unit := modifyInfo fun file i =>
  { i with uses := i.uses.insert (file, id.pos) obj }

def recordDef (id : Ident) (obj : Nat) : Check Unit := modifyInfo fun file i =>
  { i with defs := i.defs.insert (file, id.pos) obj }

def recordType (e : Expr) (x : Operand) : Check Unit := modifyInfo fun file i =>
  { i with types := i.types.insert (file, e.anchor) x }

def recordSelection (sel : Ident) (x : Selection) : Check Unit := modifyInfo fun file i =>
  { i with selections := i.selections.insert (file, sel.pos) x }

def recordInstance (p : Pos) (args : List Ty) : Check Unit := modifyInfo fun file i =>
  { i with instances := i.instances.insert (file, p) args }

def markUsed (obj : Nat) : Check Unit := modify fun s => { s with used := s.used.insert obj }

def useImport (obj : Nat) : Check Unit := modify fun s =>
  { s with usedImports := s.usedImports.insert obj }

/-- Note that the declaration being checked refers to an object. -/
def addDep (obj : Nat) : Check Unit := modify fun s =>
  match s.owner with
  | some o => { s with deps := s.deps.insert o (obj :: s.deps.getD o []) }
  | none => s

def defer (d : Deferred) : Check Unit := modify fun s => { s with deferred := d :: s.deferred }

def inScope (p : Check α) : Check α := do
  let frames := (← get).frames
  modify fun s => { s with frames := [] :: s.frames }
  let a ← p
  modify ({ · with frames })
  return a

/-- Put a name into the innermost scope. The blank name is not entered. -/
def bind (name : Text) (obj : Nat) : Check Unit := modify fun s =>
  if name == [95] then s
  else
    match s.frames with
    | f :: fs => { s with frames := ((name, obj) :: f) :: fs }
    | [] => { s with frames := [[(name, obj)]] }

def boundHere (name : Text) : Check (Option Nat) := do
  return ((← get).frames.headD []).lookup name

/-- Declare a local object; a second one of a name in the same scope is an error. -/
def declare (id : Ident) (obj : Nat) : Check Unit := do
  recordDef id obj
  if id.name != [95] && (← boundHere id.name).isSome then fail
  bind id.name obj

/-- An object that is declared by a name in the current file. -/
def objAt (id : Ident) (kind : ObjKind) : Check Obj := do
  let s ← get
  return { name := id.name, pkg := some s.package, file := s.file, pos := id.pos, kind }

def newLocal (id : Ident) (ty : Ty) : Check Nat := do
  let obj ← newObj { ← objAt id .var with type := ty }
  modify fun s => { s with locals := obj :: s.locals }
  return obj

def resolve (name : Text) : Check (Option Nat) := do
  let s ← get
  if let some o := s.frames.findSome? (·.lookup name) then return some o
  if let some o := (s.imports.getD s.file {}).get? name then
    if let some i := s.dotImports.get? (s.file, o) then useImport i
    return some o
  if let some o := (s.tables.packages.getD s.package default).scope.get? name then return some o
  if name == "any" then requireLanguage 18
  return s.universe_.get? name

def hasNil (ty : Ty) : Check Bool := do
  let t ← tables
  return t.allTypes (fun
    | .basic b => b == .unsafePointer || b == .untypedNil
    | .pointer _ | .func .. | .slice _ | .map .. | .chan .. | .iface .. => true
    | _ => false) ty && (!ty.isParam || (t.terms? ty).isSome)

def maxUntyped (a b : Ty) : Option Ty := do
  let (.basic x, .basic y) := (a, b) | none
  if x == y then some a
  else if x.isNumeric && y.isNumeric then
    some (if x.untypedRank > y.untypedRank then a else b)
  else none

variable (x : Operand)

/-- What an untyped operand becomes when it meets a basic type. -/
def toBasic (b : Basic) (target : Ty) : Option Operand := do
  let .basic k := x.type | none
  if let .const v := x.mode then
    let v ← v.represent? b
    guard ((k.isNumeric && b.isNumeric) || (k.isString && b.isString) ||
      (k.isBoolean && b.isBoolean))
    return .const v target
  let fits : Bool := match k with
    | .untypedBool => b.isBoolean
    | .untypedNil => b == .unsafePointer
    | k => k.isNumeric && b.isNumeric
  guard fits
  return { x with type := target }

/-- An untyped operand as a value of a type, if it can be one. Where the type is an
interface, the operand takes its default type, and nil stays untyped. -/
def implicitly (target : Ty) : Check (Option Operand) := do
  if x.isInvalid || !x.type.isUntyped || target.isInvalid then return some x
  if target.isUntyped then
    return (maxUntyped x.type target).map fun t => { x with type := t }
  let t ← tables
  match t.under target with
  | .basic b => return toBasic x b target
  | .iface ms ts _ =>
    if target.isParam then
      let some ts := ts | return none
      let fits := !ts.isEmpty && ts.all fun term =>
        match t.under term.type with
        | .basic b => (toBasic x b term.type).isSome
        | .pointer _ | .func .. | .slice _ | .map .. | .chan .. => x.isNil
        | _ => false
      return if fits then some { x with type := target } else none
    else if x.isNil then return some x
    else if !ms.isEmpty then return none
    else
      let .basic k := x.type | return none
      return toBasic x k.defaultType (.basic k.defaultType)
  | .pointer _ | .func .. | .slice _ | .map .. | .chan .. =>
    return if x.isNil then some x else none
  | _ => return none

/-- An untyped operand as a value of a type; it is an error if it cannot be one. -/
def convertUntyped (target : Ty) : Check Operand := do
  let some y ← implicitly x target | failed
  return y

/-- May a value of one type be assigned to another, both being typed? -/
def assignableTypes (t : Tables) : Nat → Ty → Ty → Bool
  | 0, _, _ => false
  | fuel + 1, v, target =>
    let vu := t.under v
    let tu := t.under target
    let unnamed := !v.isParam && !target.isParam && (!v.hasName || !target.hasName)
    v == target || (unnamed && vu == tu) ||
      (t.isPlainInterface target && !t.isConstraint target && t.implements v target) ||
      (match vu, tu with
        | .chan d e, .chan _ e' => d == .both && e == e' && unnamed
        | _, _ => false) ||
      if target.isParam && !v.hasName then
        t.allTerms target fun x => assignableTypes t fuel v x.type
      else
        v.isParam && !target.hasName &&
          t.allTerms v fun x => assignableTypes t fuel x.type target

def assignable (target : Ty) : Check Bool := do
  if x.isInvalid || x.type.isInvalid || target.isInvalid then return true
  if !x.type.isUntyped then return assignableTypes (← tables) 8 x.type target
  if x.isNil then hasNil target else return (← implicitly x target).isSome

/-- The rules of checking, given those for the parts of what is checked. -/
structure Rules where
  /-- An expression of any kind; the type is that of an enclosing composite literal. -/
  raw : Option Ty → Expr → Check Operand
  type : Expr → Check Ty
  /-- Statements in the current scope. -/
  stmts : List Stmt → Check Unit
  object : Nat → Check Unit

/-- Check expressions for what they refer to only. -/
def useAll (r : Rules) (es : List Expr) : Check Unit := do
  for e in es do
    let _ ← r.raw none e

/-- Check expressions that cannot stand where they do. -/
def failUsing (r : Rules) (es : List Expr) : Check Operand := do
  useAll r es
  failed

def singleValue : Check Operand := do
  let (.value, .tuple ts) := (x.mode, x.type) | return x
  if let [ty] := ts then return { x with type := ty } else failed

def requireValue : Check Operand := do
  match x.mode with
  | .noValue | .builtin _ | .type => failed
  | _ => return x

/-- Assign an operand to a variable of a type, or to a new variable that takes the
type of the value. -/
def assignTo (target : Option Ty) : Check Operand := do
  let x ← requireValue (← singleValue x)
  if x.isInvalid then return x
  let t ← tables
  let x ←
    if x.type.isUntyped then
      match target with
      | none =>
        if x.isNil then failed
        else
          let .basic k := x.type | pure x
          convertUntyped x (.basic k.defaultType)
      | some ty => if x.isNil && t.isPlainInterface ty then pure x else convertUntyped x ty
    else pure x
  if x.isInvalid then return x
  let some ty := target | return x
  if ← assignable x ty then return x
  failed

/-- The type of a variable that is initialised with an operand. -/
def varType : Ty :=
  match x.type with
  | .basic b => .basic b.defaultType
  | ty => ty

/-- A constant must fit its type; untyped integers have a limit too. -/
def checkOverflow : Check Operand := do
  let .const v := x.mode | return x
  let .basic b ← under x.type | return x
  if b.isUntyped then
    let .int n := v | return x
    if n.natAbs.log2 ≥ 512 then failed else return x
  else
    let some v := v.represent? b | failed
    return { x with mode := .const v }

end Typing

end FaultRepair
