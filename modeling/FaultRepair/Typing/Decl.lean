/-
# Declarations

Package-level declarations, checked in whatever order they refer to each other.
-/

import FaultRepair.Typing.Stmt

namespace FaultRepair.Typing

open Source

/-- Check a declaration in its own file, outside of all scopes. -/
def apart (file : Nat) (owner : Option Nat) (p : Check α) : Check α := do
  let saved ← get
  modify fun s =>
    { s with file, owner, frames := [], iota := none, results := [], namedResults := false,
             resultFrame := [], inBody := false }
  let a ← p
  modify fun s =>
    { s with file := saved.file, owner := saved.owner, frames := saved.frames, iota := saved.iota,
             results := saved.results, namedResults := saved.namedResults,
             resultFrame := saved.resultFrame, inBody := saved.inBody }
  return a

def setProgress (obj : Nat) (p : Progress) : Check Unit := modify fun s =>
  { s with progress := s.progress.insert obj p }

/-- The parts of a receiver type: is it a pointer, the name, and the names of its
type parameters. -/
def receiverParts : Expr → Bool × Option Ident × List Ident
  | .paren _ x _ => receiverParts x
  | .star _ x =>
    let (_, name, params) := receiverParts x
    (true, name, params)
  | .ident id => (false, some id, [])
  | .index x _ i _ =>
    match x, i with
    | .ident id, .ident p => (false, some id, [p])
    | _, _ => (false, none, [])
  | .indexList x _ is _ =>
    match x with
    | .ident id => (false, some id, is.filterMap fun
        | .ident p => some p
        | _ => none)
    | _ => (false, none, [])
  | _ => (false, none, [])

/-- The receiver of a method: its type, whether it is a pointer, and the type
parameters it introduces, which are brought into scope. -/
def receiver (r : Rules) (recv : Field) : Check (Ty × Bool × List Nat) := do
  let some e := recv.type | failAs (.invalid, false, [])
  let (isPtr, name, params) := receiverParts e
  if params.isEmpty then
    let ty ← r.type e
    let base := match ty with
      | .pointer b => b
      | b => b
    let t ← tables
    match base with
    | .named i _ =>
      if (t.under base matches .pointer _ | .iface ..) ||
          (t.obj (t.decl i).obj).pkg != some (← get).package then fail
    | _ => fail
    return (ty, isPtr, [])
  let some id := name | failAs (.invalid, false, [])
  let base ← identOperand r id
  if base.generic.length != params.length then return (← failAs (.invalid, isPtr, []))
  let ps ← params.mapM fun p => newParam { name := p.name }
  for (id, p) in params.zip ps do
    let obj ← newObj { ← objAt id .type with type := .param p }
    declare id obj
  let σ := base.generic.zip (ps.map Ty.param)
  for (q, p) in base.generic.zip ps do
    let c := ((← tables).params.getD q default).constraint
    setConstraint p (c.subst σ)
  let ty := base.type.subst σ
  return (if isPtr then .pointer ty else ty, isPtr, ps)

/-- The signature of a function or method; its body is left for later. -/
def funcObject (r : Rules) (obj file : Nat) (d : FuncDecl) : Check Unit := inScope do
  let mut frame : List (Text × Nat) := []
  match d.recv with
  | some l =>
    match l.list with
    | [f] =>
      let (ty, isPtr, ps) ← receiver r f
      modifyObj obj ({ · with recvParams := ps, ptrRecv := isPtr, isMethod := true })
      let id :: more := f.names | pure ()
      if !more.isEmpty then fail
      let v ← newObj { ← objAt id .var with type := ty }
      recordDef id v
      if id.name != [95] then frame := [(id.name, v)]
    | _ => fail
    if d.type.typeParams.isSome then fail
  | none =>
    let ps ← newParams d.type.typeParams
    modifyObj obj ({ · with tparams := ps })
    declareParams r d.type.typeParams ps
  let outer := ((← get).frames.headD [])
  let (ty, own) ← signature r d.type
  for (n, _) in own do
    if (frame.lookup n).isSome then fail
  modifyObj obj ({ · with type := ty })
  let some body := d.body | pure ()
  let results := match ty with
    | .func _ _ rs => rs
    | _ => []
  modify fun s =>
    { s with bodies := { file, frame := own ++ frame ++ outer, results, names := resultNames d.type,
                         body, owner := obj } :: s.bodies }

def typeObject (r : Rules) (obj : Nat) (params : Option FieldList) (isAlias : Bool) (rhs : Expr) :
    Check Unit := inScope do
  if isAlias then
    let ps ← newParams params
    if !ps.isEmpty then requireLanguage 23
    modifyObj obj ({ · with tparams := ps })
    declareParams r params ps
    let ty ← r.type rhs
    modifyObj obj ({ · with type := ty })
  else
    let .named id ps := ((← tables).obj obj).type | fail
    declareParams r params (ps.filterMap fun
      | .param i => some i
      | _ => none)
    let ty ← declaredType r rhs
    if ty.isParam then fail
    let u ← under ty
    if u.isInvalid then fail
    modifyDecl id ({ · with under := u })

def objectRule (r : Rules) (obj : Nat) : Check Unit := do
  let s ← get
  let some d := s.decls.get? obj | return
  match s.progress.getD obj .waiting with
  | .done => return
  | .active =>
    match d with
    | .func .. => return
    | .type _ _ isAlias _ => if isAlias then fail
    | _ => if (s.tables.obj obj).type.isInvalid then fail
  | .waiting =>
    setProgress obj .active
    match d with
    | .const file type init iota =>
      apart file (some obj) do
        let (ty, v) ← constValue r type init iota
        modifyObj obj ({ · with type := ty, value := v })
    | .var file names type init =>
      apart file (some obj) do
        names.forM fun o => setProgress o .active
        if let some e := type then
          let ty ← ordinaryType r e
          names.forM fun o => modifyObj o ({ · with type := ty })
        match init with
        | some e =>
          initVars r names [e]
          if names.length > 1 then
            let deps := (← get).deps.getD obj []
            modify fun s => { s with deps := names.foldl (·.insert · deps) s.deps }
        | none => if type.isNone then fail
        names.forM fun o => setProgress o .done
    | .type file params isAlias rhs =>
      apart file (← get).owner (typeObject r obj params isAlias rhs)
    | .func file d => apart file none (funcObject r obj file d)
    setProgress obj .done

/-- The rules, for expressions and statements nested at most this deep. -/
def Rules.ofDepth : Nat → Rules
  | 0 =>
    { raw := fun _ _ => failed
      type := fun _ => failAs .invalid
      stmts := fun _ => fail
      object := fun _ => fail }
  | n + 1 =>
    let r := Rules.ofDepth n
    { raw := rawRule r
      type := typeRule r
      stmts := fun list => list.forM (stmtRule r)
      object := objectRule r }

end FaultRepair.Typing
