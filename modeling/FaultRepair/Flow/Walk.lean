/-
# Walking function bodies: state

What is noted while a function body is walked: how values flow, which types become
interface values, and which calls are made. Local variables that only the function
itself can reach are followed from assignment to use; all others are one node each.
-/

import FaultRepair.Flow.Node

namespace FaultRepair.Flow

open Typing Source

inductive Target where
  | static (fn : Fn)
  /-- A method of an interface value. -/
  | method (iface : Ty) (name pkg : Text) (recv : Val)
  /-- A function value of this type. -/
  | dynamic (sig : Ty)

/-- A call with its arguments, one for each parameter. -/
structure Call where
  target : Target
  args : List (Val × Ty)
  results : List Ty

/-- The body of a loop over a function: the function calls it with the values of a step. -/
structure LoopBody where
  key : Option Expr
  value : Option Expr
  body : Block
  type : Ty
  /-- The function that the loop stands in, of whose results the body returns. -/
  home : Fn
  results : List Ty
  resultVars : List Nat

structure Summary where
  edges : Std.HashSet (Node × Node) := {}
  /-- The types of which interface values are made. -/
  made : Std.HashMap Text Ty := {}
  calls : Std.HashMap Nat Call := {}
  mentioned : Std.HashSet Fn := {}
  instances : Std.HashMap Fn (List Ty) := {}
  literals : Std.HashMap Fn (FuncType × Block) := {}
  loops : Std.HashMap Fn LoopBody := {}
  /-- The receivers of methods taken as values. -/
  receivers : Std.HashMap Text Ty := {}
  deriving Inhabited

/-- The values of local variables. -/
abbrev Env := Std.HashMap Nat Val

/-- A statement that can be left, with what holds where it is left. -/
structure Frame where
  label : Option Text
  isLoop : Bool
  breaks : Option Env := none
  continues : Option Env := none

/-- The state of a walk; there is no environment where control cannot come. -/
structure WalkState where
  summary : Summary := {}
  env : Option Env := some {}
  frames : List Frame := []
  /-- The label of the statement that follows. -/
  label : Option Text := none

/-- What is fixed during a walk. -/
structure WalkContext where
  tables : Tables
  info : Info
  file : Nat
  path : Text
  fn : Fn
  /-- The function whose results a return statement gives. -/
  home : Fn
  /-- The type arguments of the function, as a substitution and as a key. -/
  subst : List (Nat × Ty)
  args : Text
  results : List Ty
  resultVars : List Nat
  isGlobal : Nat → Bool
  isEscaped : Nat → Bool

end Flow

abbrev Walk := ReaderT Flow.WalkContext (StateM Flow.WalkState)

namespace Flow

open Typing Source

/-- The rules of the walk, given those for the parts. -/
structure Walker where
  expr : Expr → Walk Val
  stmts : List Stmt → Walk Unit

namespace Walk

def typeOf (e : Expr) : Walk Ty := do
  let c ← read
  let some x := c.info.types.get? (c.file, e.anchor) | return .invalid
  return x.type.subst c.subst

def isType (e : Expr) : Walk Bool := do
  let c ← read
  return (c.info.types.get? (c.file, e.anchor)).any (·.mode matches .type)

def isLive : Walk Bool := do return (← get).env.isSome

def modifySummary (f : Summary → Summary) : Walk Unit :=
  modify fun s => { s with summary := f s.summary }

def edge (src dst : Node) : Walk Unit := do
  if ← isLive then modifySummary fun s => { s with edges := s.edges.insert (src, dst) }

/-- Let a value of a type flow to a node; pointers lead to the same memory, so that
flow goes both ways. -/
def flow (dst : Node) (v : Val) (ty : Ty) : Walk Unit := do
  if !isTracked (← read).tables ty then return
  for n in v do
    edge n dst
    if ty.isPointer then edge dst n

def flowAll (dst v : Val) (ty : Ty) : Walk Unit := dst.forM (flow · v ty)

def mention (fn : Fn) : Walk Unit := do
  if ← isLive then modifySummary fun s => { s with mentioned := s.mentioned.insert fn }

def memory (n : Node) (ty : Ty) : Walk Val := do
  let t := (← read).tables
  if t.isInterface ty then return [n]
  let some i := interfaceBelow? t 32 ty | return []
  return [.deep (tyKey i)]

def part (n : Node) (ty : Ty) : Walk Val := do
  let t := (← read).tables
  if t.isInterface ty then return [n]
  let some i := interfaceBelow? t 32 ty | return []
  edge n (.deep (tyKey i))
  edge (.deep (tyKey i)) n
  return [n]

/-- The type of an untyped operand where no other is asked for. -/
def settled : Ty → Ty
  | .basic b => .basic b.defaultType
  | ty => ty

def convert (v : Val) (source target : Ty) : Walk Val := do
  let t := (← read).tables
  if t.isPlainInterface target then
    if t.isInterface source then return v
    if source matches .basic .untypedNil | .basic .invalid | .tuple _ then return []
    let ty := settled source
    modifySummary fun s => { s with made := s.made.insert (tyKey ty) ty }
    return [.concrete (tyKey ty)]
  return v

def objType (obj : Nat) : Walk Ty := do
  let c ← read
  return (c.tables.obj obj).type.subst c.subst

/-- The memory of a variable that is one node everywhere. -/
def shared? (obj : Nat) (ty : Ty) : Walk (Option Val) := do
  let c ← read
  if c.isGlobal obj then return some (← memory (.global obj) ty)
  if c.isEscaped obj then return some (← memory (.escaped obj c.args) ty)
  return none

def readVar (obj : Nat) : Walk Val := do
  let ty ← objType obj
  if !isTracked (← read).tables ty then return []
  let some v ← shared? obj ty | return ((← get).env.getD {}).getD obj []
  return v

def writeVar (obj : Nat) (v : Val) : Walk Unit := do
  let ty ← objType obj
  if !isTracked (← read).tables ty then return
  let some dst ← shared? obj ty | modify fun s => { s with env := s.env.map (·.insert obj v) }
  flowAll dst v ty

def returnVars : Walk Unit := do
  let c ← read
  if c.resultVars.length == c.results.length then
    for (o, i) in c.resultVars.zipIdx do
      flow (.result c.home i) (← readVar o) (← objType o)

/-- The struct type of the last field on a path, and the field. -/
def lastField (t : Tables) : Ty → List Nat → Option (Ty × Nat × Ty)
  | _, [] => none
  | ty, i :: rest =>
    let base := match ty with
      | .pointer e => e
      | .named .. =>
        match t.under ty with
        | .pointer e => e
        | _ => ty
      | ty => ty
    match t.under base with
    | .struct fs => fs[i]?.bind fun m =>
      if rest.isEmpty then some (base, i, m.type) else lastField t m.type rest
    | _ => none

def fieldAt (recv : Ty) (path : List Nat) : Walk (Val × Ty) := do
  let c ← read
  let some (base, i, ty) := lastField c.tables recv path | return ([], .invalid)
  return (← part (.field (tyKey base) i) ty, ty)

/-- Join two environments. Pointers that may be either lead to common memory. -/
def joinEnv (a b : Option Env) : Walk (Option Env) := do
  match a, b with
  | none, b => return b
  | a, none => return a
  | some a, some b =>
    let t := (← read).tables
    let mut out := a
    for (k, v) in b.toList do
      let some u := a.get? k | out := out.insert k v
      let j := Val.join u v
      let ty ← objType k
      if j.length > u.length && ty.isPointer && isTracked t ty then
        for n in j do
          for m in j do
            if n != m then
              modifySummary fun s => { s with edges := s.edges.insert (n, m) }
      out := out.insert k j
    return some out

/-- Has the second environment more than the first? -/
def grows (a b : Option Env) : Bool :=
  match a, b with
  | none, b => b.isSome
  | _, none => false
  | some a, some b => b.toList.any fun (k, v) => v.length > (a.getD k []).length || !a.contains k

/-- Run an action inside a statement that can be left; the frame tells with what. -/
def framed (isLoop : Bool) (p : Walk Unit) : Walk Frame := do
  let s ← get
  set { s with frames := { label := s.label, isLoop } :: s.frames, label := none }
  p
  let s ← get
  let f :: rest := s.frames | return { label := none, isLoop }
  set { s with frames := rest }
  return f

/-- Leave a statement: the innermost that fits, or the one with the label. -/
def leave (isBreak : Bool) (label : Option Text) : Walk Unit := do
  let s ← get
  let fits (f : Frame) : Bool := match label with
    | some l => f.label == some l
    | none => isBreak || f.isLoop
  match s.frames.findIdx? fits with
  | none => pure ()
  | some i =>
    let some f := s.frames[i]? | pure ()
    let joined ← joinEnv (if isBreak then f.breaks else f.continues) s.env
    let f := if isBreak then { f with breaks := joined } else { f with continues := joined }
    modify fun s => { s with frames := s.frames.set i f }
  modify ({ · with env := none })

end Walk

end Flow

end FaultRepair
