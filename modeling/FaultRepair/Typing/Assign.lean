/-
# Assignment and initialisation

Values for variables, one by one or all from one call, and the declarations of
constants and local names.
-/

import FaultRepair.Typing.Expr

namespace FaultRepair.Typing

open Source

/-- Give a variable without a type that of its value. -/
def initVar (e : Expr) (obj : Nat) (x : Operand) : Check Unit := do
  let o := (← tables).obj obj
  let target := if o.type.isInvalid then none else some o.type
  let x ← assignTo (← specialize e x target) target
  if target.isNone then
    modifyObj obj ({ · with type := if x.isInvalid then .invalid else varType x })
  if x.isInvalid then markUsed obj

variable (r : Rules)

/-- The operands a list of expressions gives for a number of targets: one each, the
results of one call, or a value and whether there is one. -/
def operandsFor (n : Nat) (rhs : List Expr) : Check (Option (List (Expr × Operand))) := do
  let xs ← valueList r rhs
  if let (2, [(e, x)]) := (n, xs) then
    if x.mode matches .commaOk | .mapIndex then
      return some [(e, { x with mode := .value }), (e, .value (.basic .untypedBool))]
  if xs.length == n then return some xs else failAs none

def initVars (objs : List Nat) (rhs : List Expr) : Check Unit := do
  let some xs ← operandsFor r objs.length rhs | objs.forM markUsed
  for (obj, (e, x)) in objs.zip xs do
    initVar e obj x

/-- The target of an assignment: its type, or none for the blank name. To be
assigned to is no use of a variable. -/
def targetType (lhs : Expr) : Check (Option (Option Ty)) := do
  let x ← match lhs.unparen with
    | .ident id => do
      if id.name == [95] then return some none
      let o ← resolve id.name
      let used := (← get).used
      let x ← r.raw none lhs
      if let some o := o then
        if !used.contains o && ((← tables).obj o).kind == .var then
          modify fun s => { s with used := s.used.erase o }
      pure x
    | _ => valueOf r none lhs
  match x.mode with
  | .invalid => return none
  | .variable | .mapIndex => return some (some x.type)
  | _ => failAs none

def assignOperand (e : Expr) (target : Option (Option Ty)) (x : Operand) : Check Unit := do
  let some ty := target | return
  passTo e x ty

def assignVars (lhs rhs : List Expr) : Check Unit := do
  let targets ← lhs.mapM (targetType r)
  let some xs ← operandsFor r lhs.length rhs | return
  for (t, (e, x)) in targets.zip xs do
    assignOperand e t x

/-- Declare variables and initialise them; at least one must be new. -/
def shortVarDecl (lhs rhs : List Expr) : Check Unit := do
  let mut objs : List Nat := []
  let mut fresh : List (Ident × Nat) := []
  let mut seen : List Text := []
  let mut bad := false
  for e in lhs do
    match e with
    | .ident id =>
      if id.name != [95] && seen.contains id.name then bad := true
      seen := id.name :: seen
      match ← boundHere id.name with
      | some o =>
        recordUse id o
        if ((← tables).obj o).kind != .var then bad := true
        objs := objs ++ [o]
      | none =>
        let o ← newLocal id .invalid
        objs := objs ++ [o]
        if id.name == [95] then
          recordDef id o
          markUsed o
        else fresh := fresh ++ [(id, o)]
    | e =>
      useAll r [e]
      bad := true
  if bad || fresh.isEmpty then fail
  if bad then useAll r rhs
  else initVars r objs rhs
  for (id, o) in fresh do
    declare id o

def constValue (type init : Option Expr) (iota : Nat) : Check (Ty × Option Value) := do
  let saved := (← get).iota
  modify ({ · with iota := some iota })
  let ty ← match type with
    | some e => do
      let ty ← r.type e
      let .basic b ← under ty | failAs (some .invalid)
      if b.isConstType then pure (some ty) else failAs (some .invalid)
    | none => pure none
  let result ← match init with
    | none => failAs (.invalid, none)
    | some e => do
      let x ← valueOf r none e
      match x.mode with
      | .invalid => pure (ty.getD .invalid, none)
      | .const v =>
        let some ty := ty | pure (x.type, some v)
        if ty.isInvalid then pure (.invalid, none)
        else pure (ty, (← assignTo x (some ty)).value?)
      | _ => failAs (ty.getD .invalid, none)
  modify ({ · with iota := saved })
  return result

/-- A constant specification with what it takes over from the ones before it. -/
structure ConstSpec where
  names : List Ident
  type : Option Expr
  values : List Expr
  iota : Nat

/-- The specifications of a constant declaration: one without type and values repeats
those of the one before. -/
def constSpecs (specs : List Spec) : List ConstSpec :=
  go specs 0 none []
where
  go : List Spec → Nat → Option Expr → List Expr → List ConstSpec
    | [], _, _, _ => []
    | .value _ names type values _ :: rest, i, t, vs =>
      let (t, vs) := if type.isSome || !values.isEmpty then (type, values) else (t, vs)
      ⟨names, t, vs, i⟩ :: go rest (i + 1) t vs
    | _ :: rest, i, t, vs => go rest (i + 1) t vs

def ConstSpec.miscounted (c : ConstSpec) (own : Bool) : Bool :=
  c.names.length > c.values.length || (own && c.names.length < c.values.length)

/-- Make an object the name of a new type with these type parameters. -/
def newNamed (obj : Nat) (params : Option FieldList) : Check (Nat × List Nat) := do
  let ps ← newParams params
  let id ← newType { obj, params := ps }
  modifyObj obj ({ · with type := .named id (ps.map .param), tparams := ps })
  return (id, ps)

def localType (name : Ident) (params : Option FieldList) (isAlias : Bool) (rhs : Expr) :
    Check Unit := do
  let obj ← newObj (← objAt name .type)
  if isAlias then
    let ty ← r.type rhs
    modifyObj obj ({ · with type := ty })
    declare name obj
  else
    let (id, ps) ← newNamed obj params
    declare name obj
    inScope do
      declareParams r params ps
      let ty ← r.type rhs
      if ty.isParam then fail
      if let .named i _ := ty then if i == id then fail
      let u ← under ty
      modifyDecl id ({ · with under := u })

def localDecl (d : GenDecl) : Check Unit := do
  match d.tok with
  | .kwConst =>
    for c in constSpecs d.specs do
      let mut made : List (Ident × Nat) := []
      if c.miscounted true then fail
      for (id, i) in c.names.zipIdx do
        let (ty, v) ← constValue r c.type c.values[i]? c.iota
        let obj ← newObj { ← objAt id .const with type := ty, value := v }
        made := made ++ [(id, obj)]
      for (id, obj) in made do
        declare id obj
  | .kwVar =>
    for spec in d.specs do
      let .value _ names type values _ := spec | pure ()
      let ty ← match type with
        | some e => ordinaryType r e
        | none => pure .invalid
      let objs ← names.mapM fun id => newLocal id ty
      if !values.isEmpty then
        initVars r objs values
      else if type.isNone then fail
      for (id, obj) in names.zip objs do
        if id.name == [95] then markUsed obj
        declare id obj
  | .kwType =>
    for spec in d.specs do
      let .type _ name params eq rhs _ := spec | pure ()
      localType r name params (eq != noPos) rhs
  | _ => fail

end FaultRepair.Typing
