/-
# Type expressions

The types that type expressions denote. A declared type is referred to before its
declaration has been looked at, which is what makes recursive types possible; only
aliases, embedded interfaces and array lengths need what they refer to at once.
-/

import FaultRepair.Typing.Check

namespace FaultRepair.Typing

open Source

/-- What the name of an object stands for, once its type is known. -/
def Obj.operand (mode : Mode) (o : Obj) : Operand :=
  if o.type.isInvalid then .invalid else { mode, type := o.type, generic := o.tparams }

variable (r : Rules)

def identOperand (id : Ident) : Check Operand := do
  if id.name == [95] then return (← failed)
  let some o ← resolve id.name | failed
  recordUse id o
  match ((← tables).obj o).kind with
  | .package _ => failed
  | .builtin b => return { mode := .builtin b, type := .invalid }
  | .nil => return .value (.basic .untypedNil)
  | .type =>
    if ((← tables).obj o).type.isInvalid then r.object o
    let x := ((← tables).obj o).operand .type
    if x.isInvalid then failed else return x
  | .const =>
    let s ← get
    let obj := s.tables.obj o
    if obj.pkg.isNone && obj.name == "iota" then
      let some n := s.iota | failed
      return .const (.int n) (.basic .untypedInt)
    else
      r.object o
      addDep o
      let obj := (← tables).obj o
      let some v := obj.value | return .invalid
      if obj.type.isInvalid then return .invalid else return .const v obj.type
  | .var =>
    r.object o
    addDep o
    markUsed o
    return ((← tables).obj o).operand .variable
  | .func =>
    r.object o
    addDep o
    return ((← tables).obj o).operand .value

variable (e : Expr)

/-- The number of the package a name denotes, if it denotes one. -/
def packageOf? : Check (Option (Nat × Nat)) := do
  let .ident id := e | return none
  let some o ← resolve id.name | return none
  let .package p := ((← tables).obj o).kind | return none
  return some (o, p)

def qualified (pkgObj pkg : Nat) (x : Expr) (sel : Ident) : Check Operand := do
  useImport pkgObj
  if let .ident id := x then recordUse id pkgObj
  let t ← tables
  let some o := (t.packages.getD pkg default).scope.get? sel.name | failed
  recordUse sel o
  if !isExported sel.name then return (← failed)
  let obj := t.obj o
  match obj.kind with
  | .type => return obj.operand .type
  | .const =>
    let some v := obj.value | return .invalid
    return .const v obj.type
  | .var => return obj.operand .variable
  | .func => return obj.operand .value
  | .builtin b => return { mode := .builtin b, type := .invalid }
  | _ => failed

def arrayLength : Check (Option Nat) := do
  let x ← r.raw none e
  let .const v := x.mode | failAs none
  if x.type.isUntyped || (← tables).allBasic Basic.isInteger x.type then
    let some (.ofNat n) := v.toInt? | failAs none
    return some n
  else failAs none

/-- A type that variables can have: not only a constraint. -/
def ordinaryType : Check Ty := do
  let ty ← r.type e
  defer (.ordinary ty)
  return ty

/-- The parameters or results of a function: their types and variables, and whether
the last one takes any number of arguments. -/
def paramList (fields : List Field) (variadicOk : Bool) :
    Check (List Ty × List (Text × Nat) × Bool) := do
  let mut types : List Ty := []
  let mut frame : List (Text × Nat) := []
  let mut variadic := false
  let count := fields.length
  let named := fields.any fun f => !f.names.isEmpty
  for (f, i) in fields.zipIdx do
    if named && f.names.isEmpty then fail
    let ty ← match f.type with
      | some (.ellipsis _ elt) => do
        if variadicOk && i + 1 == count && f.names.length ≤ 1 then variadic := true
        else fail
        let some e := elt | failAs .invalid
        let ty ← ordinaryType r e
        pure (if variadic then .slice ty else ty)
      | some e => ordinaryType r e
      | none => failAs .invalid
    if f.names.isEmpty then types := types ++ [ty]
    for name in f.names do
      types := types ++ [ty]
      let obj ← newObj { ← objAt name .var with type := ty }
      recordDef name obj
      if name.name != [95] then
        if (frame.lookup name.name).isSome then fail
        frame := (name.name, obj) :: frame
  return (types, frame, variadic)

/-- A signature: its type, and the frame its parameters and results make. -/
def signature (type : FuncType) : Check (Ty × List (Text × Nat)) := do
  let (params, frame, variadic) ← paramList r type.params.list true
  let (results, frame', _) ← paramList r ((type.results.map (·.list)).getD []) false
  for (n, _) in frame' do
    if (frame.lookup n).isSome then fail
  return (.func params variadic results, frame' ++ frame)

/-- A type whose declaration is needed at once. -/
def declaredType : Check Ty := do
  let ty ← r.type e
  if let .named i _ := ty then r.object ((← tables).decl i).obj
  return ty

/-- Names given to type parameters, with their constraint expressions. -/
def typeParamNames (fields : FieldList) : List (Ident × Option Expr) :=
  fields.list.flatMap fun f => f.names.map (·, f.type)

def newParams (fields : Option FieldList) : Check (List Nat) := do
  let some l := fields | return []
  (typeParamNames l).mapM fun (id, _) => newParam { name := id.name }

/-- Bring type parameters into scope, then work out their constraints. -/
def declareParams (fields : Option FieldList) (params : List Nat) : Check Unit := do
  let some l := fields | return
  let names := typeParamNames l
  if !names.isEmpty then requireLanguage 18
  for ((id, _), p) in names.zip params do
    let obj ← newObj { ← objAt id .type with type := .param p }
    declare id obj
  for ((_, c), p) in names.zip params do
    let some e := c | fail
    let ty ← declaredType r e
    match ← under ty with
    | .iface ms ts c =>
      if ty.isParam then fail
      setConstraint p (.iface ms ts c)
    | .basic .invalid => setConstraint p .any
    | _ => setConstraint p (.iface [] (some [.mk false ty]) false)

def overlap (t : Tables) (x y : Term) : Bool :=
  if x.tilde || y.tilde then t.under x.type == t.under y.type else x.type == y.type

def intersect (t : Tables) (xs ys : List Term) : List Term :=
  xs.flatMap fun x => ys.filterMap fun y =>
    if overlap t x y then some (if x.tilde && !y.tilde then y else x) else none

def insertMethod (ms : List Method) (m : Method) : List Method × Bool :=
  match ms.find? fun x => sameName x.name x.pkg m.name m.pkg with
  | some x => (ms, x.type == m.type)
  | none =>
    let before (x : Method) : Bool :=
      match Text.compare x.name m.name with
      | .lt => true
      | .eq => Text.compare x.pkg m.pkg != .gt
      | .gt => false
    (ms.takeWhile before ++ m :: ms.dropWhile before, true)

def alternatives : Expr → List Expr
  | .binary x _ .or y => alternatives x ++ [y]
  | e => [e]

/-- The terms of an element of an interface, or none for all types; its methods, if
it is itself an interface; and whether it asks for comparable types. -/
def interfaceElem : Check (List Method × Option (List Term) × Bool) := do
  let alts := alternatives e
  let mut terms : List Term := []
  let mut all := false
  for alt in alts do
    let (tilde, inner) := match alt with
      | .unary _ .tilde x => (true, x)
      | x => (false, x)
    let ty ← declaredType r inner
    let t ← tables
    if ty.isInvalid then fail
    else
      match t.under ty with
      | .iface ms ts c =>
        if ty.isParam || tilde then fail
        if alts.length == 1 then return (ms, ts, c)
        if !ms.isEmpty || c then fail
        let some ts := ts | all := true
        terms := terms ++ ts
      | .basic .invalid => fail
      | u =>
        if tilde && !(u == ty) then fail
        let term := Term.mk tilde ty
        if terms.any (overlap t term) then fail
        terms := terms ++ [term]
  return ([], if all then none else some terms, false)

def interfaceType (fields : List Field) : Check Ty := do
  let mut methods : List Method := []
  let mut terms : Option (List Term) := none
  let mut comparable := false
  let names := fields.flatMap fun f => f.names.map (·.name)
  if names.any fun n => names.count n > 1 then fail
  for f in fields do
    match f.names, f.type with
    | [], some e =>
      let (ms, ts, c) ← interfaceElem r e
      for m in ms do
        let (ms', ok) := insertMethod methods m
        if !ok then fail
        methods := ms'
      let t ← tables
      terms := match terms, ts with
        | none, ts => ts
        | ts, none => ts
        | some xs, some ys => some (intersect t xs ys)
      comparable := comparable || c
    | names, type =>
      for name in names do
        if name.name == [95] then fail
        else
          let ty ← match type with
            | some (.funcType ft) =>
              if ft.typeParams.isSome then fail
              pure (← signature r ft).1
            | _ => failAs .invalid
          let obj ← newObj { ← objAt name .func with type := ty, isMethod := true }
          recordDef name obj
          let (ms', ok) := insertMethod methods (.mk name.name (← get).path ty obj)
          if !ok then fail
          methods := ms'
  return .iface methods terms comparable

def typeName? : Expr → Option Ident
  | .ident id => some id
  | .selector _ sel => some sel
  | _ => none

def genericName? : Expr → Option Ident
  | .index x .. | .indexList x .. => typeName? x
  | e => typeName? e

def embeddedName? : Expr → Option Ident
  | .star _ x => genericName? x
  | .paren _ x _ => embeddedName? x
  | e => genericName? e

def structType (fields : List Field) : Check Ty := do
  let mut members : List Member := []
  for f in fields do
    let path := (← get).path
    let ty ← match f.type with
      | some e => ordinaryType r e
      | none => failAs .invalid
    let tag := (f.tag.bind fun l => Text.unquote? l.value).getD []
    match f.names with
    | [] =>
      let some id := f.type.bind embeddedName? | fail
      defer (.embedded ty)
      if members.any fun m => m.name == id.name && id.name != [95] then fail
      members := members ++ [.mk id.name path ty true tag]
    | names =>
      for id in names do
        let obj ← newObj { ← objAt id .var with type := ty }
        recordDef id obj
        if id.name != [95] && members.any (·.name == id.name) then fail
        members := members ++ [.mk id.name path ty false tag]
  return .struct members

def instantiateType (base : Operand) (args : List Expr) : Check Ty := do
  let args ← args.mapM (ordinaryType r)
  if base.generic.isEmpty || base.generic.length != args.length then return (← failAs .invalid)
  if args.any (·.isInvalid) then return .invalid
  defer (.instance base.generic args)
  return base.type.subst (base.generic.zip args)

/-- The operand of a name that may denote a type, with or without a package. -/
def typeNameOperand : Check Operand := do
  match e with
  | .ident id => identOperand r id
  | .selector x sel =>
    let some (o, p) ← packageOf? x | r.raw none e
    qualified o p x sel
  | .paren .. => r.raw none e
  | _ => failed

def requireType (x : Operand) : Check Ty := do
  if (x.mode matches .type) && x.generic.isEmpty then return x.type else failAs .invalid

def instanceOf (x : Expr) (args : List Expr) : Check Ty := do
  let base ← typeNameOperand r x
  let .type := base.mode | useAll r args; failAs .invalid
  instantiateType r base args

def typeRule : Check Ty := do
  let ty ← match e with
    | .ident _ | .selector .. => do requireType (← typeNameOperand r e)
    | .index x _ idx _ => instanceOf r x [idx]
    | .indexList x _ idxs _ => instanceOf r x idxs
    | .paren _ x _ => r.type x
    | .star _ x => do pure (.pointer (← ordinaryType r x))
    | .arrayType _ none elt => do pure (.slice (← ordinaryType r elt))
    | .arrayType _ (some (.ellipsis ..)) elt => do
      let _ ← r.type elt
      failAs .invalid
    | .arrayType _ (some len) elt => do
      let n ← arrayLength r len
      let ty ← ordinaryType r elt
      let some n := n | pure .invalid
      pure (.array n ty)
    | .structType _ fields => structType r fields.list
    | .funcType ft => do
      if ft.typeParams.isSome then fail
      pure (← signature r ft).1
    | .interfaceType _ fields => interfaceType r fields.list
    | .mapType _ k v => do
      let k ← ordinaryType r k
      let v ← ordinaryType r v
      defer (.mapKey k)
      pure (.map k v)
    | .chanType _ _ dir v => do pure (.chan dir (← ordinaryType r v))
    | e => do
      useAll r [e]
      failAs .invalid
  recordType e { mode := .type, type := ty }
  return ty

end FaultRepair.Typing
