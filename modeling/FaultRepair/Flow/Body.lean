/-
# Walking function bodies: rules

How each expression and statement lets values flow.
-/

import FaultRepair.Flow.Walk
import FaultRepair.Source.Branch

namespace FaultRepair.Flow

open Typing Source

open Walk

variable (w : Walker)

def useAll (es : List Expr) : Walk Unit := es.forM fun e => discard (w.expr e)

/-- The value of an expression as one of the type it is used as. -/
def valueAs (e : Expr) (target : Ty) : Walk Val := do
  let v ← w.expr e
  convert v (← typeOf e) target

def coreOf (ty : Ty) : Walk Ty := do
  let t := (← read).tables
  return (t.core? ty).getD (t.under ty)

def usedAt? (pos : Pos) : Walk (Option Nat) := do
  let c ← read
  return c.info.uses.get? (c.file, pos)

def objectOf? (id : Ident) : Walk (Option Nat) := do
  let c ← read
  let some o := c.info.defs.get? (c.file, id.pos) | usedAt? id.pos
  return some o

/-- Let a value flow to the elements of a type. -/
def intoElement (v : Val) (ty : Ty) : Walk Unit := do
  flowAll (← part (.element (tyKey ty)) ty) v ty

/-- A declared function, with the type arguments it is used with. -/
def declaredFn (obj : Nat) (targs : List Ty) : Walk Fn := do
  let fn := Fn.declared obj (tyKeys targs)
  if !targs.isEmpty then
    modifySummary fun s => { s with instances := s.instances.insert fn targs }
  return fn

/-- The function a name denotes, with the type arguments recorded there. -/
def namedFn (pos : Pos) (obj : Nat) : Walk Fn := do
  let c ← read
  declaredFn obj (((c.info.instances.get? (c.file, pos)).getD []).map (Ty.subst c.subst))

def noteReceiver (ty : Ty) : Walk Text := do
  let k := tyKey ty
  modifySummary fun s => { s with receivers := s.receivers.insert k ty }
  return k

def nameValue (pos : Pos) : Walk Val := do
  let some obj ← usedAt? pos | return []
  match ((← read).tables.obj obj).kind with
  | .var => readVar obj
  | .func =>
    mention (← namedFn pos obj)
    return []
  | _ => return []

def selectorValue (x : Expr) (sel : Ident) : Walk Val := do
  let c ← read
  let some s := c.info.selections.get? (c.file, sel.pos) | nameValue sel.pos
  let recv := s.recv.subst c.subst
  if s.isField then
    useAll w [x]
    return (← fieldAt recv s.path).1
  let fn := Fn.value (← noteReceiver recv) sel.name c.path (!s.ofType)
  mention fn
  if !s.ofType then flow (.memory fn 0) (← w.expr x) recv
  return []

/-- The memory an addressable expression denotes, and the type of what it holds. -/
def addressOf (e : Expr) : Walk Val := do
  match e.unparen with
  | .ident id =>
    let some o ← objectOf? id | return []
    readVar o
  | .selector x sel => selectorValue w x sel
  | .index x _ i _ =>
    useAll w [x, i]
    let ty ← typeOf e
    part (.element (tyKey ty)) ty
  | .star _ e | e => w.expr e

def store (lhs : Expr) (v : Val) : Walk Unit := do
  match lhs.unparen with
  | .ident id =>
    if id.name == [95] then return
    let some o ← objectOf? id | return
    writeVar o v
  | .selector x sel => flowAll (← selectorValue w x sel) v (← typeOf lhs)
  | .index x _ i _ =>
    useAll w [x]
    match ← coreOf (← typeOf x) with
    | .map k el =>
      flow (.mapKey (tyKey k)) (← valueAs w i k) k
      flow (.mapValue (tyKey el)) v el
    | _ =>
      useAll w [i]
      intoElement v (← typeOf lhs)
  | .star _ x => flowAll (← w.expr x) v (← typeOf lhs)
  | e => useAll w [e]

def placeType (lhs : Expr) : Walk (Option Ty) := do
  match lhs.unparen with
  | .ident id =>
    if id.name == [95] then return none
    let some o ← objectOf? id | return none
    return some (← objType o)
  | e => return some (← typeOf e)

/-- The results a call gives: one node for each that is followed. -/
def returnedValues (lparen : Pos) (results : List Ty) : Walk (List Val) := do
  let c ← read
  return results.zipIdx.map fun (ty, i) => valueFrom c.tables (.returned c.fn lparen i) ty

def noteCall (lparen : Pos) (call : Call) : Walk Unit := do
  if ← isLive then
    modifySummary fun s =>
      let merged := match s.calls.get? lparen with
        | none => call
        | some old =>
          let target := match old.target, call.target with
            | .method i n p r, .method _ _ _ r' => Target.method i n p (Val.join r r')
            | t, _ => t
          { call with target, args := (old.args.zip call.args).map fun ((v, ty), (v', _)) =>
              (Val.join v v', ty) }
      { s with calls := s.calls.insert lparen merged }
    let .static fn := call.target | pure ()
    mention fn

def valueAndType (e : Expr) : Walk (Val × Ty) := do
  return (← w.expr e, ← typeOf e)

/-- The arguments of a call, one for each parameter; those in excess go into the
slice of the last one. -/
def arguments (params : List Ty) (variadic spread : Bool) (args : List Expr) :
    Walk (List (Val × Ty)) := do
  let given ← match args with
    | [.call fn lparen as el rp] => do
      let e : Expr := .call fn lparen as el rp
      let v ← w.expr e
      match ← typeOf e with
      | .tuple ts => pure ((← returnedValues lparen ts).zip ts)
      | ty => pure [(v, ty)]
    | args => args.mapM (valueAndType w)
  let fixed := if variadic && !spread then params.dropLast else params
  let mut out : List (Val × Ty) := []
  for ((v, ty), p) in given.zip fixed do
    out := out ++ [(← convert v ty p, p)]
  if variadic && !spread then
    let some (.slice el) := params.getLast? | pure ()
    for (v, ty) in given.drop fixed.length do
      intoElement (← convert v ty el) el
    out := out ++ [([], .slice el)]
  return out

def builtinCall (b : Builtin) (lparen : Pos) (args : List Expr) (spread : Bool) :
    Walk Val := do
  match b with
  | .append =>
    let s :: rest := args | return []
    useAll w [s]
    let .slice el ← coreOf (← typeOf s) | return []
    for a in rest do
      let v ← w.expr a
      if !spread then intoElement (← convert v (← typeOf a) el) el
    return []
  | .panic =>
    for a in args do
      flow .panicked (← valueAs w a .any) .any
    modify ({ · with env := none })
    return []
  | .recover => return [.recovered]
  | .new =>
    let [t] := args | return []
    let c ← read
    memory (.memory c.fn lparen) (← typeOf t)
  | .delete =>
    let [m, k] := args | return []
    useAll w [m]
    let .map kt _ ← coreOf (← typeOf m) | return []
    let _ ← valueAs w k kt
    return []
  | _ =>
    useAll w args
    return []

/-- What a method call calls: the method itself, or whatever implements it. -/
def methodTarget (recv : Ty) (sel : Ident) (v : Val) : Walk (Option Target) := do
  let c ← read
  match c.tables.lookup recv sel.name c.path with
  | some (.method _ decl args _) => return some (.static (← declaredFn decl args))
  | some (.abstract path m _) =>
    if path.isEmpty then return some (.method recv m.name m.pkg v)
    let (v, ty) ← fieldAt recv path
    return some (.method ty m.name m.pkg v)
  | _ => return none

def callTarget (fn : Expr) : Walk (Option Target) := do
  let c ← read
  let plain := match fn.unparen with
    | .index e .. | .indexList e .. | e => e
  let fnType ← typeOf fn.unparen
  let dynamic : Walk (Option Target) := do
    useAll w [fn]
    return some (.dynamic (← coreOf fnType))
  let static (pos : Pos) : Walk (Option Target) := do
    let some o ← usedAt? pos | dynamic
    if (c.tables.obj o).kind == .func then return some (.static (← namedFn pos o)) else dynamic
  match plain.unparen with
  | .ident id => static id.pos
  | .selector x sel =>
    let some s := c.info.selections.get? (c.file, sel.pos) | static sel.pos
    if s.isField then return (← dynamic)
    let recv := s.recv.subst c.subst
    if s.ofType then return some (.static (.value (← noteReceiver recv) sel.name c.path false))
    methodTarget recv sel (← w.expr x)
  | .funcLit type _ =>
    useAll w [fn]
    return some (.static (.literal c.file type.start c.args))
  | _ => dynamic

def callValues (fn : Expr) (lparen : Pos) (args : List Expr) (spread : Bool) :
    Walk (List Val) := do
  let c ← read
  if ← isType fn.unparen then
    let [a] := args | return []
    return [← valueAs w a (← typeOf fn.unparen)]
  match c.info.types.get? (c.file, fn.unparen.anchor) with
  | some { mode := .builtin b, .. } => return [← builtinCall w b lparen args spread]
  | _ =>
    let target ← callTarget w fn
    let .func params variadic results ← coreOf (← typeOf fn.unparen)
      | useAll w args; return []
    let vs ← arguments w params variadic spread args
    if let some target := target then noteCall lparen { target, args := vs, results }
    returnedValues lparen results

def compositeElements (ty : Ty) (elts : List Expr) : Walk Unit := do
  match ← coreOf ty with
  | .struct fs =>
    for (e, i) in elts.zipIdx do
      let (i, value) := match e with
        | .keyValue (.ident id) _ v =>
          ((fs.findIdx? fun (m : Member) => m.name == id.name).getD i, v)
        | .keyValue _ _ v | v => (i, v)
      let some m := fs[i]? | useAll w [value]
      let v ← valueAs w value m.type
      flowAll (← part (.field (tyKey ty) i) m.type) v m.type
  | .array _ el | .slice el =>
    for e in elts do
      let value := match e with
        | .keyValue _ _ v | v => v
      intoElement (← valueAs w value el) el
  | .map k el =>
    for e in elts do
      match e with
      | .keyValue a _ b =>
        flow (.mapKey (tyKey k)) (← valueAs w a k) k
        flow (.mapValue (tyKey el)) (← valueAs w b el) el
      | e => useAll w [e]
  | _ => useAll w elts

def exprRule (e : Expr) : Walk Val := do
  match e with
  | .ident id => nameValue id.pos
  | .funcLit type body =>
    let c ← read
    let fn := Fn.literal c.file type.start c.args
    modifySummary fun s => { s with literals := s.literals.insert fn (type, body) }
    mention fn
    return []
  | .composite _ _ elts _ =>
    let ty ← typeOf e
    let base := match ← coreOf ty with
      | .pointer p => p
      | _ => ty
    compositeElements w base elts
    return []
  | .paren _ x _ => w.expr x
  | .selector x sel => selectorValue w x sel
  | .index x _ i _ =>
    match ← coreOf (← typeOf x) with
    | .map k el =>
      useAll w [x]
      let _ ← valueAs w i k
      return valueFrom (← read).tables (.mapValue (tyKey el)) el
    | .func .. =>
      match x.unparen with
      | .ident id => nameValue id.pos
      | .selector x sel => selectorValue w x sel
      | _ => return []
    | _ =>
      useAll w [x, i]
      let ty ← typeOf e
      part (.element (tyKey ty)) ty
  | .indexList x _ _ _ => w.expr x
  | .slice x _ low high max _ _ =>
    useAll w (x :: [low, high, max].filterMap id)
    return []
  | .typeAssert x _ _ _ =>
    let v ← w.expr x
    return if isTracked (← read).tables (← typeOf e) then v else []
  | .call fn lparen args ellipsis _ =>
    return (← callValues w fn lparen args (ellipsis != noPos)).headD []
  | .star _ x => w.expr x
  | .unary _ op x =>
    match op with
    | .and => addressOf w x
    | .arrow =>
      useAll w [x]
      let ty ← typeOf e
      return valueFrom (← read).tables (.channel (tyKey ty)) ty
    | _ => w.expr x
  | .binary x _ op y =>
    let a ← w.expr x
    let b ← w.expr y
    if op == .eql || op == .neq then
      let _ ← convert a (← typeOf x) (← typeOf y)
      let _ ← convert b (← typeOf y) (← typeOf x)
    return []
  | _ => return []

/-- The values and types of the right side of an assignment to several places. -/
def valuesFor (n : Nat) (rhs : List Expr) : Walk (List (Val × Ty)) := do
  match rhs with
  | [e] =>
    let ty ← typeOf e
    match ty, e.unparen with
    | .tuple ts, .call fn lparen args ellipsis _ =>
      return (← callValues w fn lparen args (ellipsis != noPos)).zip ts
    | ty, _ =>
      let v ← w.expr e
      return if n == 2 then [(v, ty), ([], .basic .bool)] else [(v, ty)]
  | es => es.mapM (valueAndType w)

def assign (lhs rhs : List Expr) : Walk Unit := do
  let vs ← valuesFor w lhs.length rhs
  let mut ready : List (Expr × Val) := []
  for (l, (v, ty)) in lhs.zip vs do
    let some target ← placeType l | pure ()
    ready := ready ++ [(l, ← convert v ty target)]
  for (l, v) in ready do
    store w l v

def declare (d : GenDecl) : Walk Unit := do
  if d.tok != .kwVar then return
  for spec in d.specs do
    let .value _ names _ values _ := spec | pure ()
    if values.isEmpty then
      for id in names do
        let some o ← objectOf? id | pure ()
        if !(← read).isEscaped o then writeVar o []
    else assign w (names.map .ident) values

def setEnv (env : Option Env) : Walk Unit := modify ({ · with env })

def currentEnv : Walk (Option Env) := do return (← get).env

/-- Run a loop until the environment at its head stops growing. `head` runs at the
head and returns the environment with which the loop is left there, if it can be;
`body` is what is repeated, and `post` what follows it. -/
def loopFix (head : Walk (Option Env)) (body post : Walk Unit) :
    Nat → Option Env → Walk Unit
  | 0, env => setEnv env
  | fuel + 1, env => do
    let label := (← get).label
    setEnv env
    let out ← head
    let f ← framed true body
    setEnv (← joinEnv (← currentEnv) f.continues)
    post
    let back ← joinEnv env (← currentEnv)
    if grows env back then
      modify ({ · with label })
      loopFix head body post fuel back
    else setEnv (← joinEnv out f.breaks)

def rangeValues (x : Expr) : Walk (Val × Ty × Val × Ty) := do
  let t := (← read).tables
  match ← coreOf (← typeOf x) with
  | .array _ el | .slice el => return ([], .basic .int, ← part (.element (tyKey el)) el, el)
  | .pointer p =>
    let .array _ el := t.under p | return ([], .invalid, [], .invalid)
    return ([], .basic .int, ← part (.element (tyKey el)) el, el)
  | .map k v =>
    return (valueFrom t (.mapKey (tyKey k)) k, k, valueFrom t (.mapValue (tyKey v)) v, v)
  | .chan _ e => return (valueFrom t (.channel (tyKey e)) e, e, [], .invalid)
  | _ => return ([], .invalid, [], .invalid)

/-- Run the clauses of a switch. Each starts where the switch does, or where the
clause before it falls through. -/
def clauses (start : Option Env) (bodies : List (Bool × Walk Unit)) : Walk (Option Env) := do
  let mut out : Option Env := none
  let mut through : Option Env := none
  for (falls, body) in bodies do
    setEnv (← joinEnv start through)
    body
    if falls then through ← currentEnv
    else
      through := none
      out ← joinEnv out (← currentEnv)
  return out

variable (list : List Stmt)

def fallsThrough : Bool :=
  list.getLast? matches some (.branch _ .kwFallthrough _)

/-- Run the clauses of a switch, of which at most one runs, and leave it. -/
def leaveSwitch (bodies : List (Bool × Walk Unit)) : Walk Unit := do
  let start ← currentEnv
  let f ← framed false do
    let out ← clauses start bodies
    let all ← joinEnv out start
    setEnv (if list.any (· matches .caseClause _ [] _ _) then out else all)
  setEnv (← joinEnv (← currentEnv) f.breaks)

def switchBodies : List (Bool × Walk Unit) :=
  list.filterMap fun
    | .caseClause _ _ _ body => some (fallsThrough body, w.stmts body)
    | _ => none

def optionalStmt (s : Option Stmt) : Walk Unit := s.forM (w.stmts [·])

def switchStmt (init : Option Stmt) (tag : Option Expr) (list : List Stmt) :
    Walk Unit := do
  let label := (← get).label
  modify ({ · with label := none })
  optionalStmt w init
  let tagType ← tag.mapM fun e => return (← valueAndType w e).2
  for c in list do
    let .caseClause _ es _ _ := c | pure ()
    for e in es do
      let v ← w.expr e
      let some ty := tagType | pure ()
      let _ ← convert v (← typeOf e) ty
  modify ({ · with label })
  leaveSwitch list (switchBodies w list)

def typeSwitchStmt (init : Option Stmt) (subject : Stmt) (list : List Stmt) :
    Walk Unit := do
  let label := (← get).label
  modify ({ · with label := none })
  optionalStmt w init
  let x := match subject with
    | .expr (.typeAssert x ..) | .assign _ _ _ [.typeAssert x ..] => x
    | _ => default
  let v ← w.expr x
  let c ← read
  modify ({ · with label })
  leaveSwitch list (list.filterMap fun
    | .caseClause pos _ _ body => some (false, do
        if let some o := c.info.caseVars.get? (c.file, pos) then writeVar o v
        w.stmts body)
    | _ => none)

def selectStmt : Walk Unit := do
  let start ← currentEnv
  let f ← framed false do
    let bodies := list.filterMap fun
      | .commClause _ comm _ body => some (false, do
          optionalStmt w comm
          w.stmts body)
      | _ => none
    setEnv (← clauses start bodies)
  setEnv (← joinEnv (← currentEnv) f.breaks)

def returnStmt (results : List Expr) : Walk Unit := do
  let c ← read
  if !results.isEmpty then
    let vs ← valuesFor w c.results.length results
    let mut out : List (Val × Ty) := []
    for ((v, ty), target) in vs.zip c.results do
      out := out ++ [(← convert v ty target, target)]
    if c.resultVars.length == c.results.length then
      for (o, (v, _)) in c.resultVars.zip out do
        writeVar o v
    else
      for ((v, ty), i) in out.zipIdx do
        flow (.result c.home i) v ty
  returnVars
  setEnv none

/-- Give the variables of a range clause their values. -/
def bindRange (places : List (Option Expr × Val × Ty)) : Walk Unit := do
  for (e, v, ty) in places do
    let some e := e | pure ()
    let some target ← placeType e | pure ()
    store w e (← convert v ty target)

def stepperTarget (x : Expr) : Walk (Option Target) := do
  let c ← read
  let .selector y sel := x.unparen | callTarget w x
  let some s := c.info.selections.get? (c.file, sel.pos) | callTarget w x
  if s.isField then callTarget w x
  else
    let _ ← selectorValue w y sel
    return some (.static (.value (tyKey (s.recv.subst c.subst)) sel.name c.path (!s.ofType)))

/-- A loop over a function calls it with the body as an argument. -/
def stepperLoop (pos : Pos) (key value : Option Expr) (x : Expr) (type : Ty)
    (body : Block) : Walk Unit := do
  let c ← read
  let fn := Fn.literal c.file pos c.args
  let target ← stepperTarget w x
  let loop : LoopBody :=
    { key, value, body, type, home := c.home, results := c.results, resultVars := c.resultVars }
  modifySummary fun s => { s with loops := s.loops.insert fn loop }
  mention fn
  if let some target := target then noteCall pos { target, args := [([], type)], results := [] }
  let env ← currentEnv
  for (isBreak, label) in body.leaves do
    leave isBreak (some label)
    setEnv env
  if body.returns then returnVars

def stmtRule (s : Stmt) : Walk Unit := do
  let label := (← get).label
  modify ({ · with label := none })
  match s with
  | .bad .. | .empty .. | .caseClause .. | .commClause .. => return
  | .decl d => declare w d
  | .labeled id _ s =>
    modify fun st => { st with label := some id.name, env := some (st.env.getD {}) }
    w.stmts [s]
  | .expr e | .incDec e _ _ | .goCall _ e | .deferCall _ e => useAll w [e]
  | .send ch _ v =>
    useAll w [ch]
    let .chan _ el ← coreOf (← typeOf ch) | useAll w [v]
    flow (.channel (tyKey el)) (← valueAs w v el) el
  | .assign lhs _ tok rhs =>
    if tok == .assign || tok == .define then assign w lhs rhs else useAll w (lhs ++ rhs)
  | .ret _ results => returnStmt w results
  | .branch _ tok target =>
    match tok with
    | .kwBreak => leave true (target.map (·.name))
    | .kwContinue => leave false (target.map (·.name))
    | .kwGoto => setEnv none
    | _ => return
  | .block b => w.stmts b.list
  | .ifElse _ init cond body other =>
    optionalStmt w init
    useAll w [cond]
    let start ← currentEnv
    w.stmts body.list
    let one ← currentEnv
    setEnv start
    optionalStmt w other
    setEnv (← joinEnv one (← currentEnv))
  | .switch _ init tag body =>
    modify ({ · with label })
    switchStmt w init tag body.list
  | .typeSwitch _ init subject body =>
    modify ({ · with label })
    typeSwitchStmt w init subject body.list
  | .select _ body =>
    modify ({ · with label })
    selectStmt w body.list
  | .loop _ init cond post body =>
    optionalStmt w init
    modify ({ · with label })
    let head : Walk (Option Env) := do
      let some e := cond | return none
      let l := (← get).label
      modify ({ · with label := none })
      useAll w [e]
      modify ({ · with label := l })
      currentEnv
    loopFix head (w.stmts body.list) (optionalStmt w post) 256 (← currentEnv)
  | .range pos key value _ _ _ x body =>
    match ← coreOf (← typeOf x) with
    | .func (step :: _) _ _ => stepperLoop w pos key value x (← coreOf step) body
    | _ =>
      useAll w [x]
      let (kv, kt, vv, vt) ← rangeValues x
      modify ({ · with label })
      let bind := bindRange w [(key, kv, kt), (value, vv, vt)]
      loopFix currentEnv (do bind; w.stmts body.list) (return) 256 (← currentEnv)

/-- The rules, for bodies nested at most this deep. -/
def Walker.ofDepth : Nat → Walker
  | 0 => { expr := fun _ => return [], stmts := fun _ => return }
  | n + 1 =>
    let w := Walker.ofDepth n
    { expr := exprRule w, stmts := fun list => list.forM (stmtRule w) }

end FaultRepair.Flow
