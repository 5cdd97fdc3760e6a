/-
# Statements and declarations
-/

import FaultRepair.Source.Parser.Exprs

namespace FaultRepair.Source.Parser.Grammar

open Text

/-- What a simple statement may be besides an expression or an assignment. -/
inductive SimpleMode where
  | basic | labelOk | rangeOk
  deriving DecidableEq

def isAssign (t : Token) : Bool :=
  t == .define || t == .assign || t.assignOperator?.isSome

variable (g : Grammar)

def rangeOver : Parse Expr := do return .unary (← take) .kwRange (← g.rhs)

def assignment (mode : SimpleMode) (x : List Expr) : Parse (Stmt × Bool) := do
  let s ← get
  next
  if mode == .rangeOk && (← at? .kwRange) && (s.tok == .define || s.tok == .assign) then
    return (.assign x s.pos s.tok [← g.rangeOver], true)
  else return (.assign x s.pos s.tok (← withRhs true g.exprList), false)

/-- A simple statement; the flag tells that it is the clause of a range loop. -/
def simpleStmt (mode : SimpleMode) : Parse (Stmt × Bool) := do
  let x ← withRhs false g.exprList
  if isAssign (← tok) then return (← assignment g mode x)
  let first := x.headD default
  if 1 < x.length then reportExpected first.pos "1 expression"
  match ← tok with
  | .colon =>
    let colon ← take
    if let (.labelOk, .ident label) := (mode, first) then
      return (.labeled label colon (← g.stmt), false)
    report colon "illegal label declaration"
    return (.bad first.pos (colon + 1), false)
  | .arrow => return (.send first (← take) (← g.rhs), false)
  | .inc => return (.incDec first (← take) .inc, false)
  | .dec => return (.incDec first (← take) .dec, false)
  | _ => return (.expr first, false)

def simpleUnless (t : Token) : Parse (Option Stmt) := do
  if ← at? t then return none else return some (← g.simpleStmt .basic).1

def callStmt (kind : Text) : Parse (Option Expr) := do
  let x ← g.rhs
  let bare := x.unparen
  if let .paren .. := x then report x.pos ("expression in " ++ kind ++ " must not be parenthesized")
  match bare with
  | .call .. => return some bare
  | .bad .. => return none
  | _ =>
    report bare.stop ("expression in " ++ kind ++ " must be function call")
    return none

def toExpr (s : Option Stmt) (want : Text) : Parse (Option Expr) := do
  match s with
  | none => return none
  | some (.expr x) => return some x
  | some s =>
    let found : Text := if s matches .assign .. then "assignment" else "simple statement"
    report s.pos ("expected " ++ want ++ ", found " ++ found ++
      " (missing parentheses around composite literal?)")
    return some (.bad s.pos s.stop)

def ifHeader : Parse (Option Stmt × Expr) := do
  if ← at? .lbrace then
    let p ← pos
    report p "missing condition in if statement"
    return (none, .bad p p)
  else header do
    let init ← if ← at? .semicolon then pure none
      else
        if ← pass? .kwVar then
          report (← pos) "var declaration not allowed in if initializer"
        pure (some (← g.simpleStmt .basic).1)
    let (init, cond, semi) ←
      if ← at? .lbrace then pure (none, init, none)
      else
        let s ← get
        let semi ← if s.tok == .semicolon then
            next
            pure (some (s.pos, s.lit))
          else
            let _ ← expect .semicolon
            pure none
        pure (init, ← g.simpleUnless .lbrace, semi)
    match cond with
    | some _ =>
      let some e ← toExpr cond "boolean expression" | return (init, .bad (← pos) (← pos))
      return (init, e)
    | none =>
      if let some (p, lit) := semi then
        if lit == [10] then report p "unexpected newline, expecting \x7b after if clause"
        else report p "missing condition in if statement"
      return (init, .bad (← pos) (← pos))

def ifRule : Parse Stmt := do
  let p ← expect .kwIf
  let (init, cond) ← g.ifHeader
  let body ← g.body
  if !(← pass? .kwElse) then
    let _ ← expectSemi
    return .ifElse p init cond body none
  match ← tok with
  | .kwIf => return .ifElse p init cond body (some (← g.ifStmt))
  | .lbrace => return .ifElse p init cond body (some (.block (← g.bodyStmt)))
  | _ =>
    let here ← pos
    reportExpected here "if statement or block"
    return .ifElse p init cond body (some (.bad here here))

def clauses (clause : Parse Stmt) : Parse Block := do
  let lbrace ← expect .lbrace
  let list ← collect (do let t ← tok; return t == .kwCase || t == .kwDefault) clause
  let rbrace ← expect .rbrace
  let _ ← expectSemi
  return .mk lbrace list rbrace

def caseClause (g : Grammar) : Parse Stmt := do
  let p ← pos
  let list ← if ← pass? .kwCase then withRhs true g.exprList
    else
      let _ ← expect .kwDefault
      pure []
  return .caseClause p list (← expect .colon) (← g.stmtList)

def isTypeGuard (s : Option Stmt) : Parse Bool := do
  match s with
  | some (.expr (.typeAssert _ _ none _)) => return true
  | some (.assign [_] p op [.typeAssert _ _ none _]) =>
    if op == .assign then report p "expected ':=', found '='"
    return op == .assign || op == .define
  | _ => return false

def switchStmt : Parse Stmt := do
  let p ← expect .kwSwitch
  let (s1, s2) ← if ← at? .lbrace then pure (none, none)
    else header do
      let s2 ← g.simpleUnless .semicolon
      if ← pass? .semicolon then return (s2, ← g.simpleUnless .lbrace) else return (none, s2)
  let onTypes ← isTypeGuard s2
  let body ← clauses (caseClause g)
  let (true, some s) := (onTypes, s2) | return .switch p s1 (← toExpr s2 "switch expression") body
  return .typeSwitch p s1 s body

def commClause (g : Grammar) : Parse Stmt := do
  let p ← pos
  let comm ← if ← pass? .kwCase then
      let lhs ← withRhs false g.exprList
      let first := lhs.headD default
      let t ← tok
      if t == .assign || t == .define then
        if 2 < lhs.length then reportExpected first.pos "1 or 2 expressions"
        pure (some (Stmt.assign (lhs.take 2) (← take) t [← g.rhs]))
      else
        if 1 < lhs.length then reportExpected first.pos "1 expression"
        if t == .arrow then pure (some (Stmt.send first (← take) (← g.rhs)))
        else pure (some (Stmt.expr first))
    else
      let _ ← expect .kwDefault
      pure none
  return .commClause p comm (← expect .colon) (← g.stmtList)

def selectStmt : Parse Stmt := do
  return .select (← expect .kwSelect) (← clauses (commClause g))

def forHeader : Parse (Option Stmt × Option Stmt × Option Stmt × Bool) := do
  let (s2, isRange) ← match ← tok with
    | .semicolon => pure (none, false)
    | .kwRange => do
      pure (some (Stmt.assign [] noPos .illegal [← g.rangeOver]), true)
    | _ => do
      let (s, r) ← g.simpleStmt .rangeOk
      pure (some s, r)
  if !isRange && (← at? .semicolon) then
    next
    let cond ← match ← tok with
      | .semicolon => pure none
      | .lbrace => do
        reportExpected (← pos) "for loop condition"
        pure none
      | _ => pure (some (← g.simpleStmt .basic).1)
    let _ ← expectSemi
    return (s2, cond, ← g.simpleUnless .lbrace, false)
  else return (none, s2, none, isRange)

def forStmt : Parse Stmt := do
  let p ← expect .kwFor
  let (s1, s2, s3, isRange) ← if ← at? .lbrace then pure (none, none, none, false)
    else header (forHeader g)
  let body ← g.bodyStmt
  let (true, some (.assign lhs tokPos op [.unary rangePos _ x])) := (isRange, s2)
    | return .loop p s1 (← toExpr s2 "boolean or range expression") s3 body
  match lhs with
  | _ :: _ :: _ :: _ =>
    reportExpected (lhs.getLastD default).pos "at most 2 expressions"
    return .bad p body.stop
  | _ => return .range p lhs[0]? lhs[1]? tokPos op rangePos x body

def importSpec (doc : Option CommentGroup) : Parse Spec := do
  let s ← get
  let name ← match s.tok with
    | .ident => pure (some (← ident))
    | .period => do
      next
      pure (some ⟨s.pos, "."⟩)
    | _ => pure none
  let s ← get
  let path ← if s.tok == .string then
      next
      pure s.lit
    else if s.tok.isLiteral then
      report s.pos "import path must be a string"
      next
      pure []
    else
      report s.pos "missing import path; require quoted string"
      advance exprEnd
      pure []
  let comment ← expectSemi
  return .imports doc name ⟨s.pos, .string, path⟩ comment noPos

def valueSpec (keyword : Token) (doc : Option CommentGroup) : Parse Spec := do
  let names ← identList
  let values : Parse (List Expr) := do
    if ← pass? .assign then withRhs true g.exprList else return []
  let (type, values) ← if keyword == .kwConst then
      let t ← tok
      if t != .eof && t != .semicolon && t != .rparen then
        let type ← g.type?
        pure (type, ← values)
      else pure (none, [])
    else
      let type ← if ← at? .assign then pure none else pure (some (← g.type))
      pure (type, ← values)
  return .value doc names type values (← expectSemi)

/-- Split an expression into a type parameter name and a constraint, if it can be
read so. -/
def extractName : (force : Bool) → Expr → Option Ident × Option Expr
  | _, .ident id => (some id, none)
  | force, .binary x p op y =>
    match op with
    | .mul =>
      match x with
      | .ident id => if force || y.isTypeElem then (some id, some (.star p y))
        else (none, some (.binary x p op y))
      | _ => (none, some (.binary x p op y))
    | .or =>
      match extractName (force || y.isTypeElem) x with
      | (some id, some lhs) => (some id, some (.binary lhs p op y))
      | _ => (none, some (.binary x p op y))
    | _ => (none, some (.binary x p op y))
  | force, .call (.ident id) lparen [a] dots rparen =>
    if dots == noPos && (force || a.isTypeElem) then (some id, some (.paren lparen a rparen))
    else (none, some (.call (.ident id) lparen [a] dots rparen))
  | _, x => (none, some x)

def typeSpec (doc : Option CommentGroup) : Parse Spec := do
  let name ← ident
  let aliasPos : Parse Pos := do if ← at? .assign then take else return noPos
  let (params, eq, type) ←
    if ← at? .lbrack then
      let lbrack ← take
      if ← at? .ident then
        let id ← ident
        let x ← if ← at? .lbrack then pure (Expr.ident id)
          else nested do g.binary (some (← g.primary (some (.ident id)))) 1
        let t ← tok
        let (some pname, ptype) := extractName (t == .comma) x
          | pure (none, noPos, ← g.arrayType lbrack (some x))
        if ptype.isSome || t != .rbrack then
          let list ← g.parameterList (some pname) ptype .rbrack false
          let closing ← expect .rbrack
          let eq ← aliasPos
          pure (some (FieldList.mk lbrack list closing), eq, ← g.type)
        else pure (none, noPos, ← g.arrayType lbrack (some x))
      else pure (none, noPos, ← g.arrayType lbrack none)
    else
      let eq ← aliasPos
      pure (none, eq, ← g.type)
  return .type doc name params eq type (← expectSemi)

/-- A declaration that starts with the given keyword. -/
def genDecl (keyword : Token) (spec : Option CommentGroup → Parse Spec) : Parse GenDecl := do
  let doc := (← get).leadComment
  let p ← expect keyword
  if ← at? .lparen then
    let lparen ← take
    let list ← collect (before? .rparen) (do spec (← get).leadComment)
    let rparen ← expect .rparen
    let _ ← expectSemi
    return .mk doc p keyword lparen list rparen
  else return .mk doc p keyword noPos [← spec none] noPos

def funcDecl : Parse FuncDecl := do
  let doc := (← get).leadComment
  let p ← expect .kwFunc
  let recv ← if ← at? .lparen then pure (some (← g.parameters true)) else pure none
  let name ← ident
  let tparams ← if ← at? .lbrack then
      let some tparams ← g.typeParameters | pure none
      if recv.isSome then
        report tparams.opening "method must have no type parameters"
        pure none
      else pure (some tparams)
    else pure none
  let params ← g.parameters true
  let results ← g.results
  let body ← match ← tok with
    | .lbrace => do pure (some (← g.bodyStmt))
    | .semicolon => do
      next
      if ← at? .lbrace then
        report (← pos) "unexpected semicolon or newline before \x7b"
        pure (some (← g.bodyStmt))
      else pure none
    | _ => do
      let _ ← expectSemi
      pure none
  return { doc, recv, name, type := .mk p tparams params results, body }

/-- A declaration without a body, if the current token starts one. -/
def genDecl? : Parse (Option GenDecl) := do
  match ← tok with
  | .kwImport => return some (← genDecl .kwImport importSpec)
  | .kwConst => return some (← genDecl .kwConst (g.valueSpec .kwConst))
  | .kwVar => return some (← genDecl .kwVar (g.valueSpec .kwVar))
  | .kwType => return some (← genDecl .kwType g.typeSpec)
  | _ => return none

/-- A top-level declaration; what cannot be one is skipped. -/
def decl : Parse Decl := do
  if let some d ← g.genDecl? then return .gen d
  if ← at? .kwFunc then return .func (← g.funcDecl)
  let (start, stop) ← skip "declaration" declStart
  return .bad start stop

def startsSimple : List Token :=
  [.ident, .int, .float, .imag, .char, .string, .kwFunc, .lparen, .lbrack, .kwStruct, .kwMap,
   .kwChan, .kwInterface, .add, .sub, .mul, .and, .xor, .arrow, .not]

def delayedCall (keyword : Token) (kind : Text) (build : Pos → Expr → Stmt) :
    Parse Stmt := do
  let p ← expect keyword
  let call ← g.callStmt kind
  let _ ← expectSemi
  let some c := call | return .bad p (p + kind.length)
  return build p c

def stmtRule : Parse Stmt := do
  let s ← get
  match s.tok with
  | .kwConst | .kwType | .kwVar =>
    let some d ← g.genDecl? | return .bad s.pos s.pos
    return .decl d
  | .kwGo => g.delayedCall .kwGo "go" .goCall
  | .kwDefer => g.delayedCall .kwDefer "defer" .deferCall
  | .kwReturn =>
    next
    let t ← tok
    let results ← if t != .semicolon && t != .rbrace then withRhs true g.exprList else pure []
    let _ ← expectSemi
    return .ret s.pos results
  | .kwBreak | .kwContinue | .kwGoto | .kwFallthrough =>
    next
    let label ← if s.tok == .kwGoto
        || ((s.tok == .kwContinue || s.tok == .kwBreak) && (← at? .ident)) then
        pure (some (← ident))
      else pure none
    let _ ← expectSemi
    return .branch s.pos s.tok label
  | .lbrace => return .block (← g.bodyStmt)
  | .kwIf => g.ifStmt
  | .kwSwitch => g.switchStmt
  | .kwSelect => g.selectStmt
  | .kwFor => g.forStmt
  | .semicolon => return .empty (← take) (s.lit == [10])
  | .rbrace => return .empty s.pos true
  | t =>
    if startsSimple.contains t then
      let (stmt, _) ← g.simpleStmt .labelOk
      unless stmt matches .labeled .. do let _ ← expectSemi
      return stmt
    else
      let (start, stop) ← skip "statement" stmtStart
      return .bad start stop

/-- The grammar with at most `n` levels of phrases inside phrases. -/
def ofDepth : Nat → Grammar
  | 0 =>
    { binary := fun _ _ => throw (), unary := throw (), type? := throw ()
      literalValue := fun _ => throw (), stmt := throw (), ifStmt := throw () }
  | n + 1 =>
    { binary := fun x prec => fun s => (ofDepth n).binaryRule x prec s
      unary := fun s => (ofDepth n).unaryRule s
      type? := fun s => (ofDepth n).typeRule s
      literalValue := fun t => fun s => (ofDepth n).literalValueRule t s
      stmt := fun s => (ofDepth n).stmtRule s
      ifStmt := fun s => (ofDepth n).ifRule s }

end FaultRepair.Source.Parser.Grammar
