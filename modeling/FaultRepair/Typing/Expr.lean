/-
# Expressions

The rule for each form of expression, and the body of a function: its statements in a
scope of their own, its branches, and that it does not end without returning its results.
-/

import FaultRepair.Typing.Call
import FaultRepair.Source.Branch

namespace FaultRepair.Typing

open Source

variable (r : Rules)

def checkBody (frame : List (Text × Nat)) (results : List Ty) (named : List (Text × Nat))
    (hasNames : Bool) (body : Block) : Check Unit := do
  let saved ← get
  modify fun s =>
    { s with frames := frame :: s.frames, results, namedResults := hasNames,
             resultFrame := named, inBody := true, iota := none }
  if !Branch.bodyValid body.list then fail
  r.stmts body.list
  let s ← get
  if !results.isEmpty &&
      !Branch.listTerminates (fun p => s.panics.contains (s.file, p)) body.list then fail
  modify fun s =>
    { s with frames := saved.frames, results := saved.results, namedResults := saved.namedResults,
             resultFrame := saved.resultFrame, inBody := saved.inBody, iota := saved.iota }

def resultNames (type : FuncType) : List Ident :=
  ((type.results.map (·.list)).getD []).flatMap (·.names)

def selectorRule (x : Expr) (sel : Ident) : Check Operand := do
  if let some (o, p) ← packageOf? x then return (← qualified o p x sel)
  let v ← r.raw none x
  if v.isInvalid then return v
  if v.mode matches .noValue | .builtin _ then return (← failed)
  if sel.name == [95] || !v.generic.isEmpty then return (← failed)
  let ofType := v.mode matches .type
  let v ← if ofType then pure v else singleValue v
  if v.isInvalid then return v
  let recv := if ofType then v.type else varType v
  let s ← get
  let t := s.tables
  -- A method that is selected from a type takes the receiver as its first argument.
  let method (ty : Ty) : Operand := match ty with
    | .func ps variadic rs => .value (.func (if ofType then recv :: ps else ps) variadic rs)
    | ty => .value ty
  match t.lookup recv sel.name s.path with
  | some (.field path m indirect) =>
    if ofType then return (← failed)
    recordSelection sel { recv, path, isField := true, indirect }
    return { mode := if v.isVariable || indirect then .variable else .value, type := m.type }
  | some (.method path decl args indirect) =>
    if (t.obj decl).ptrRecv && !indirect && !v.isVariable then return (← failed)
    addDep decl
    recordSelection sel { recv, path, isField := false, decl, indirect, ofType }
    return method (t.methodType decl args)
  | some (.abstract path m indirect) =>
    recordSelection sel { recv, path, isField := false, decl := m.decl, abstract := true, indirect,
                          ofType }
    return method m.type
  | none => failed

/-- An index: an integer, within the length if both are constant. -/
def checkIndex (e : Expr) (length : Option Nat) (inclusive : Bool) :
    Check (Option Int) := do
  let x ← valueOf r none e
  requireIndex x
  let some n := x.value?.bind (·.toInt?) | return none
  if n ≥ 0x8000000000000000 then fail
  if let some l := length then if (if inclusive then n > l else n ≥ l) then fail
  return some n

def elementOf (t : Tables) (u : Ty) : Option (Ty × Option Nat) := do
  match u with
  | .basic b => if b.isString then some (.basic .uint8, none) else none
  | .array n e => some (e, some n)
  | .pointer p =>
    let .array n e := t.under p | none
    some (e, some n)
  | .slice e => some (e, none)
  | _ => none

/-- A generic function or type with type arguments, or an element of a value. -/
def indexRule (e : Expr) (x : Expr) (idxs : List Expr) : Check Operand := do
  let v ← r.raw none x
  match v.mode with
  | .invalid =>
    useAll r idxs
    return v
  | .type => return .ofType (← instantiateType r v idxs)
  | .noValue | .builtin _ => failUsing r idxs
  | _ =>
    if !v.generic.isEmpty then
      let args ← idxs.mapM (ordinaryType r)
      if args.any (·.isInvalid) then return .invalid
      if args.length > v.generic.length then return (← failed)
      if args.length == v.generic.length then return (← instantiate e v args)
      let some all := Infer.infer (← tables) v.generic args [] | return { v with given := args }
      return (← instantiate e v all)
    let v ← singleValue v
    if v.isInvalid then
      useAll r idxs
      return v
    let [i] := idxs | failUsing r idxs
    let t ← tables
    let u := t.coreString? v.type
    if let some (.map k el) := u then
      let _ ← assignTo (← valueOf r none i) (some k)
      return { mode := .mapIndex, type := el }
    let some (el, length) := u.bind (elementOf t) | failUsing r idxs
    let length := match v.value? with
      | some (.text s) => some s.length
      | _ => length
    let _ ← checkIndex r i length false
    let addressed := match u with
      | some (.basic _) => false
      | some (.array ..) => v.isVariable
      | _ => true
    return { mode := if addressed then .variable else .value, type := el }

def sliceRule (x : Expr) (low high max : Option Expr) (three : Bool) : Check Operand := do
  let v ← valueOf r none x
  let bounds := [low, high, max].filterMap id
  if v.isInvalid then
    useAll r bounds
    return v
  let t ← tables
  let found : Option (Ty × Option Nat) := match t.coreString? v.type with
    | some (.basic b) =>
      if b.isString && !three then
        let length := match v.value? with
          | some (.text s) => some s.length
          | _ => none
        some (if v.type.isUntyped then .basic .string else v.type, length)
      else none
    | some (.array n e) => if v.isVariable then some (.slice e, some n) else none
    | some (.pointer p) =>
      match t.under p with
      | .array n e => some (.slice e, some n)
      | _ => none
    | some (.slice _) => some (v.type, none)
    | _ => none
  let some (ty, length) := found | failUsing r bounds
  if three && (high.isNone || max.isNone) then fail
  let ns ← bounds.mapM fun e => checkIndex r e length true
  let consts := ns.filterMap id
  if (consts.zip (consts.drop 1)).any fun (a, b) => a > b then fail
  return .value ty

/-- May a value of the interface type hold a value of the type? -/
def assertable (t : Tables) (iface ty : Ty) : Bool :=
  t.isInterface ty || t.implements ty iface

def assertRule (x : Expr) (type : Option Expr) : Check Operand := do
  let v ← valueOf r none x
  let some e := type | failed
  if v.isInvalid then
    let _ ← r.type e
    return v
  let t ← tables
  if !t.isPlainInterface v.type then
    let _ ← r.type e
    return (← failed)
  let ty ← ordinaryType r e
  if ty.isInvalid then return .invalid
  if !assertable (← tables) v.type ty then fail
  return { mode := .commaOk, type := ty }

/-- The elements of an array or slice literal; the result is its length. -/
def indexedElements (elem : Ty) (length : Option Nat) (elts : List Expr) :
    Check Nat := do
  let mut index := 0
  let mut top := 0
  let mut seen : List Nat := []
  for e in elts do
    let value ← match e with
      | .keyValue k _ v => do
        let n ← checkIndex r k length false
        let x ← r.raw none k
        match n with
        | some n => index := n.toNat
        | none => if !x.isInvalid then fail
        pure v
      | v => do
        if let some l := length then if index ≥ l then fail
        pure v
    if seen.contains index then fail
    seen := index :: seen
    index := index + 1
    top := max top index
    passTo value (← genericValueOf r (some elem) value) (some elem)
  return top

def structElements (fields : List Member) (elts : List Expr) : Check Unit := do
  let path := (← get).path
  let first :: _ := elts | return
  if first matches .keyValue .. then
    let mut seen : List Text := []
    for e in elts do
      match e with
      | .keyValue k _ v =>
        let field : Option Member := match k with
          | .ident id => fields.find? fun m => sameName m.name m.pkg id.name path
          | _ => none
        let x ← genericValueOf r none v
        let some m := field | fail
        passTo v x (some m.type)
        if seen.contains m.name then fail
        seen := m.name :: seen
      | e =>
        fail
        useAll r [e]
  else
    for (e, i) in elts.zipIdx do
      match e with
      | .keyValue _ _ v =>
        fail
        useAll r [v]
      | e =>
        match fields[i]? with
        | some m =>
          if !isExported m.name && m.pkg != path then fail
          passTo e (← genericValueOf r none e) (some m.type)
        | none =>
          useAll r [e]
          fail
    if elts.length < fields.length then fail

def sameValue (a b : Value) : Bool := a.compare? .eql b == some true

def mapElements (key value : Ty) (elts : List Expr) : Check Unit := do
  let mut seen : List Value := []
  let plain := !(← tables).isInterface key
  for e in elts do
    match e with
    | .keyValue k _ v =>
      let x ← assignTo (← genericValueOf r (some key) k) (some key)
      if let some c := x.value? then
        if plain && seen.any (sameValue c) then fail
        seen := c :: seen
      passTo v (← genericValueOf r (some value) v) (some value)
    | e =>
      fail
      useAll r [e]

/-- A composite literal, whose type is given or that of the element it stands for. -/
def compositeRule (hint : Option Ty) (type : Option Expr) (elts : List Expr) :
    Check Operand := do
  let t ← tables
  let (ty, base) ← match type with
    | some (.arrayType _ (some (.ellipsis _ none)) elt) => do
      let el ← ordinaryType r elt
      let n ← indexedElements r el none elts
      let ty := Ty.array n el
      recordType (type.getD default) { mode := .type, type := ty }
      return .value ty
    | some e => do
      let ty ← ordinaryType r e
      pure (ty, ty)
    | none =>
      let some ty := hint | failAs (.invalid, .invalid)
      let some (.pointer p) := t.core? ty | pure (ty, ty)
      pure (ty, p)
  match (← tables).core? base with
  | some (.struct fields) => structElements r fields elts
  | some (.array n el) =>
    let _ ← indexedElements r el (some n) elts
  | some (.slice el) =>
    let _ ← indexedElements r el none elts
  | some (.map k v) => mapElements r k v elts
  | _ =>
    fail
    for e in elts do
      match e with
      | .keyValue _ _ (.composite none ..) | .composite none .. => pure ()
      | .keyValue _ _ e | e => useAll r [e]
  return if ty.isInvalid then .invalid else .value ty

def funcLitRule (type : FuncType) (body : Block) : Check Operand := do
  modify fun s => { s with info := { s.info with
    closures := { file := s.file, start := type.start, stop := body.stop,
                  code := [(type.start, body.stop)] } :: s.info.closures } }
  let (ty, frame) ← signature r type
  let results := match ty with
    | .func _ _ rs => rs
    | _ => []
  let names := resultNames type
  let named := frame.filter fun (n, _) => names.any (·.name == n)
  checkBody r frame results named (!names.isEmpty) body
  return .value ty

def noteAddress (e : Expr) : Check Unit := do
  let .ident id := e.unparen | return
  modify fun s =>
  match s.info.uses.get? (s.file, id.pos) with
  | some o => { s with info := { s.info with addressed := s.info.addressed.insert o } }
  | none => s

def literal (l : BasicLit) : Operand :=
  let kind : Basic := match l.kind with
    | .int => .untypedInt
    | .float => .untypedFloat
    | .imag => .untypedComplex
    | .char => .untypedRune
    | _ => .untypedString
  match Value.ofLit? l.kind l.value with
  | some v => .const v (.basic kind)
  | none => .invalid

def rawRule (hint : Option Ty) (e : Expr) : Check Operand := do
  let x ← match e with
    | .bad .. | .ellipsis .. | .keyValue .. => failed
    | .ident id => identOperand r id
    | .lit l => do
      let x := literal l
      if x.isInvalid then fail
      pure x
    | .funcLit type body => funcLitRule r type body
    | .composite type _ elts _ => compositeRule r hint type elts
    | .paren _ x _ => r.raw none x
    | .selector x sel => selectorRule r x sel
    | .index x _ idx _ => indexRule r e x [idx]
    | .indexList x _ idxs _ => indexRule r e x idxs
    | .slice x _ low high max three _ => sliceRule r x low high max three
    | .typeAssert x _ type _ => assertRule r x type
    | .call fn lparen args ellipsis _ => callRule r fn lparen args (ellipsis != noPos)
    | .star _ x => do
      let v ← r.raw none x
      match v.mode with
      | .invalid => pure v
      | .type =>
        if !v.generic.isEmpty then failed
        else pure { mode := .type, type := .pointer v.type }
      | .noValue | .builtin _ => failed
      | _ =>
        let v ← singleValue v
        if v.isInvalid then pure v
        else
          let some (.pointer el) := (← tables).core? v.type | failed
          pure { mode := .variable, type := el }
    | .unary _ op x => do
      let inner := hint.bind (← tables).pointee?
      let v ← valueOf r (if op == .and then inner else none) x
      if op == .and then noteAddress x
      unary op (x.unparen matches .composite ..) v
    | .binary x _ op y => do binary op (← valueOf r none x) (← valueOf r none y)
    | .arrayType .. | .structType .. | .funcType _ | .interfaceType .. | .mapType ..
    | .chanType .. => do pure (.ofType (← r.type e))
  recordType e x
  return x

end FaultRepair.Typing
