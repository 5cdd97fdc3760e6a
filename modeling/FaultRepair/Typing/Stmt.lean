/-
# Statements

The rule for each form of statement.
-/

import FaultRepair.Typing.Assign

namespace FaultRepair.Typing

open Source

def isValueOnly : Builtin → Bool
  | .append | .cap | .complex | .imag | .len | .make | .max | .min | .new | .real
  | .addOffset | .alignof | .offsetof | .sizeof | .slice | .sliceData | .string | .stringData =>
    true
  | _ => false

variable (r : Rules)

/-- An expression that stands as a statement: a call of a function, or a receive
operation where that is allowed. -/
def statementExpr (e : Expr) (receiveOk : Bool) : Check Unit := do
  let _ ← r.raw none e
  let s ← get
  match e.unparen with
  | .call fn .. =>
    let some f := s.info.types.get? (s.file, fn.anchor) | pure ()
    match f.mode with
    | .type => fail
    | .builtin b => if isValueOnly b then fail
    | _ => pure ()
  | .unary _ .arrow _ => if !receiveOk then fail
  | _ => fail

def condition (e : Expr) : Check Unit := do
  let x ← valueOf r none e
  if !x.isInvalid && !(← tables).allBasic Basic.isBoolean x.type then fail

def blockStmts (b : Block) : Check Unit := inScope (r.stmts b.list)

def optional (s : Option Stmt) : Check Unit := s.forM (r.stmts [·])

def returnStmt (results : List Expr) : Check Unit := do
  let s ← get
  if s.results.isEmpty then
    if !results.isEmpty then
      fail
      useAll r results
  else if results.isEmpty then
    if !s.namedResults then fail
    else
      for (n, o) in s.resultFrame do
        if (← resolve n) != some o then fail
  else
    let some xs ← operandsFor r s.results.length results | return
    for (ty, (e, x)) in s.results.zip xs do
      passTo e x (some ty)

def isDefault (s : Stmt) : Bool := s matches .caseClause _ [] _ _ | .commClause _ none _ _

def sameConst (a b : Operand) : Bool :=
  match a.value?, b.value? with
  | some v, some w => a.type == b.type && sameValue v w
  | _, _ => false

def caseValues (tag : Operand) (seen : List Operand) (es : List Expr) :
    Check (List Operand) := do
  let mut seen := seen
  for e in es do
    let v ← valueOf r none e
    if !tag.isInvalid && !v.isInvalid then
      let some (v', t') ← matchOperands v tag | fail
      let res ← comparison .eql v' t'
      if !res.isInvalid && v'.value?.isSome then
        if seen.any (sameConst v') then fail
        seen := v' :: seen
  return seen

def switchStmt (init : Option Stmt) (tag : Option Expr) (body : Block) :
    Check Unit := inScope do
  optional r init
  let t ← match tag with
    | some e => do
      let x ← assignTo (← valueOf r none e) none
      if x.isInvalid then pure x
      else
        if !(← tables).comparable x.type && !(← hasNil x.type) then fail
        pure { x with mode := .value }
    | none => pure (.value (.basic .bool))
  if (body.list.filter isDefault).length > 1 then fail
  let mut seen : List Operand := []
  for c in body.list do
    let .caseClause _ es _ stmts := c | fail
    seen ← caseValues r t seen es
    inScope (r.stmts stmts)

/-- The type a case of a type switch names; none for nil. -/
def caseType (subject : Operand) (e : Expr) : Check (Option Ty) := do
  let x ← r.raw none e
  match x.mode with
  | .invalid => return some .invalid
  | .type =>
    if !x.generic.isEmpty then fail
    if !subject.isInvalid && !assertable (← tables) subject.type x.type then fail
    return some x.type
  | _ => if x.isNil then return none else failAs (some .invalid)

def typeSwitchStmt (init : Option Stmt) (subject : Stmt) (body : Block) :
    Check Unit := inScope do
  optional r init
  let (lhs, e) := match subject with
    | .expr e => (none, e)
    | .assign [.ident id] _ _ [e] => (some id, e)
    | _ => (none, default)
  if let some id := lhs then if id.name == [95] then fail
  let x ← match e with
    | .typeAssert x _ none _ => do
      let v ← valueOf r none x
      if !v.isInvalid && !(← tables).isPlainInterface v.type then failed else pure v
    | _ => failed
  if (body.list.filter isDefault).length > 1 then fail
  let mut seen : List (Option Ty) := []
  let mut vars : List Nat := []
  for c in body.list do
    let .caseClause pos es _ stmts := c | fail
    let tys ← es.mapM (caseType r x)
    for ty in tys do
      let repeated := seen.any fun (s : Option Ty) => match s, ty with
        | none, none => true
        | some a, some b => a == b && !a.isInvalid
        | _, _ => false
      if repeated then fail
      seen := ty :: seen
    let varTy := match tys with
      | [some ty] => ty
      | _ => x.type
    let obj? ← match lhs with
      | some id => do
        let obj ← newObj { ← objAt id .var with type := varTy }
        modifyInfo fun file i => { i with caseVars := i.caseVars.insert (file, pos) obj }
        vars := obj :: vars
        pure (some (id, obj))
      | none => pure none
    inScope do
      if let some (id, obj) := obj? then bind id.name obj
      r.stmts stmts
  if lhs.isSome then
    let s ← get
    if !vars.any s.used.contains then fail

def isReceive (e : Expr) : Bool := e.unparen matches .unary _ .arrow _

def selectStmt (body : Block) : Check Unit := do
  if (body.list.filter isDefault).length > 1 then fail
  for c in body.list do
    let .commClause _ comm _ stmts := c | fail
    let ok := match comm with
      | none | some (.send ..) => true
      | some (.expr e) | some (.assign _ _ _ [e]) => isReceive e
      | some _ => false
    if !ok then fail
    inScope do
      optional r comm
      r.stmts stmts

/-- The types of the values a range clause gives: key and value. -/
def rangeTypes (t : Tables) (language : Nat) (ty : Ty) : Option (Option Ty × Option Ty × Nat) := do
  match t.coreString? ty with
  | some (.basic b) =>
    if b.isString then some (some (.basic .int), some (.basic .int32), 2)
    else if b.isInteger && language ≥ 22 then some (some (if b.isUntyped then .basic .int else ty),
      none, 1)
    else none
  | some (.array _ e) | some (.slice e) => some (some (.basic .int), some e, 2)
  | some (.pointer p) =>
    let .array _ e := t.under p | none
    some (some (.basic .int), some e, 2)
  | some (.map k v) => some (some k, some v, 2)
  | some (.chan d e) => if d == .send then none else some (some e, none, 1)
  | some (.func [f] false []) =>
    let some (.func ps false [.basic .bool]) := t.core? f | none
    if ps.length ≤ 2 && language ≥ 23 then some (ps[0]?, ps[1]?, ps.length) else none
  | _ => none

/-- Is this a function that calls another for each step of a loop? -/
def isStepper (t : Tables) (ty : Ty) : Bool := t.core? ty matches some (.func ..)

def rangeStmt (start : Pos) (key value : Option Expr) (tok : Token) (x : Expr) (body : Block) :
    Check Unit := inScope do
  let v ← valueOf r none x
  let t ← tables
  let language := (← get).language
  let types := if v.isInvalid then none else rangeTypes t language v.type
  if !v.isInvalid && types.isNone then fail
  let lhs := [key, value].filterMap id
  if isStepper t v.type then
    modify fun s => { s with info := { s.info with
      closures := { file := s.file, start, stop := body.stop,
                    code :=
  (body.lbrace, body.stop) :: lhs.map fun e => (e.pos, e.stop) } :: s.info.closures } }
  let tys : List (Option Ty) := match types with
    | some (k, e, n) => [k, e].take (max n 2)
    | none => [none, none]
  if let some (_, _, n) := types then if lhs.length > n then fail
  let isCount := match types with
    | some (_, none, 1) => v.type.isUntyped
    | _ => false
  if tok == .define then
    let mut made : List (Ident × Nat) := []
    for (e, ty) in lhs.zip tys do
      match e with
      | .ident id =>
        let obj ← newLocal id (ty.getD .invalid)
        if id.name == [95] || ty.isNone then markUsed obj
        made := made ++ [(id, obj)]
      | e =>
        let _ ← r.raw none e
        fail
    for (id, obj) in made do
      declare id obj
  else
    for (e, ty) in lhs.zip tys do
      let target ← targetType r e
      let some ty := ty | pure ()
      assignOperand e target (if isCount then v else .value ty)
  blockStmts r body

def stmtRule (s : Stmt) : Check Unit := do
  match s with
  | .bad .. => fail
  | .empty .. => return
  | .decl d => localDecl r d
  | .labeled _ _ s => r.stmts [s]
  | .expr e => statementExpr r e true
  | .send ch _ v =>
    let c ← valueOf r none ch
    let x ← genericValueOf r none v
    if c.isInvalid || x.isInvalid then return
    let some (.chan d e) := (← tables).core? c.type | fail
    if d == .receive then fail
    passTo v x (some e)
  | .incDec e _ tok =>
    let x ← valueOf r none e
    if x.isInvalid then return
    if !(← tables).allBasic Basic.isNumeric x.type then return (← fail)
    let one : Operand := .const (.int 1) (.basic .untypedInt)
    let y ← binary (if tok == .inc then .add else .sub) x one
    if !y.isInvalid then
      assignOperand e (← targetType r e) y
      let .ident id := e.unparen | return
      let some o ← resolve id.name | return
      markUsed o
  | .assign lhs _ tok rhs =>
    match tok with
    | .define => shortVarDecl r lhs rhs
    | .assign => assignVars r lhs rhs
    | tok =>
      match tok.assignOperator?, lhs, rhs with
      | some op, [l], [e] =>
        let x ← binary op (← valueOf r none l) (← valueOf r none e)
        if !x.isInvalid then
          assignOperand l (← targetType r l) x
          useAll r [l]
      | _, _, _ =>
        fail
        useAll r (lhs ++ rhs)
  | .goCall _ call | .deferCall _ call =>
    match call.unparen with
    | .call .. => statementExpr r call false
    | e =>
      fail
      useAll r [e]
  | .ret _ results => returnStmt r results
  | .branch .. => return
  | .block b => blockStmts r b
  | .ifElse _ init cond body other =>
    inScope do
      optional r init
      condition r cond
      blockStmts r body
      optional r other
  | .caseClause .. | .commClause .. => fail
  | .switch _ init tag body => switchStmt r init tag body
  | .typeSwitch _ init subject body => typeSwitchStmt r init subject body
  | .select _ body => selectStmt r body
  | .loop _ init cond post body =>
    inScope do
      optional r init
      if let some e := cond then condition r e
      if let some (.assign _ _ .define _) := post then fail
      optional r post
      blockStmts r body
  | .range pos key value _ tok _ x body => rangeStmt r pos key value tok x body

end FaultRepair.Typing
