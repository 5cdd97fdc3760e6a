/-
# Expressions
-/

import FaultRepair.Source.Parser.Types

namespace FaultRepair.Source.Parser.Grammar

open Text

variable (g : Grammar)

def stmtList : Parse (List Stmt) :=
  collect (do
    let t ← tok
    return t != .kwCase && t != .kwDefault && t != .rbrace && t != .eof) g.stmt

def body : Parse Block := do
  let lbrace ← expect .lbrace
  return .mk lbrace (← g.stmtList) (← expectOrNone .rbrace)

/-- A body with the end of the statement it ends. -/
def bodyStmt : Parse Block := do
  let body ← g.body
  let _ ← expectSemi
  return body

def funcTypeOrLit : Parse Expr := do
  let type ← g.funcType
  if ← at? .lbrace then return .funcLit type (← nested g.body)
  else return .funcType type

def operand (g : Grammar) : Parse Expr := do
  let s ← get
  match s.tok with
  | .ident => return .ident (← ident)
  | .int | .float | .imag | .char | .string =>
    next
    return .lit ⟨s.pos, s.tok, s.lit⟩
  | .lparen =>
    next
    return .paren s.pos (← nested g.rhs) (← expect .rparen)
  | .kwFunc => g.funcTypeOrLit
  | _ => g.typeOr "operand" stmtStart

def typeAssertion (x : Expr) : Parse Expr := do
  let lparen ← expect .lparen
  let type ← if ← pass? .kwType then pure none else pure (some (← g.type))
  return .typeAssert x lparen type (← expect .rparen)

/-- The indices of a slice expression after its first colon, with the colons. -/
def sliceRest (g : Grammar) : Nat → Parse (List (Pos × Option Expr))
  | 0 => return []
  | n + 1 => do
    if ← at? .colon then
      let colon ← take
      let index ← if !(← at? .colon) && (← before? .rbrack) then pure (some (← g.rhs))
        else pure none
      return (colon, index) :: (← sliceRest g n)
    else return []

def indexOrSlice (x : Expr) : Parse Expr := do
  let lbrack ← expect .lbrack
  if ← at? .rbrack then
    reportExpected (← pos) "operand"
    let p ← take
    return .index x lbrack (.bad p p) p
  else
    let (first, rest, args) ← nested do
      let first ← if ← at? .colon then pure none else pure (some (← g.rhs))
      match ← tok with
      | .colon => return (first, ← sliceRest g 2, [])
      | .comma =>
        let more ← collect (pass? .comma) (do
          if ← before? .rbrack then return some (← g.type) else return none)
        return (first, [], first.toList ++ more.filterMap id)
      | _ => return (first, [], ([] : List Expr))
    let rbrack ← expect .rbrack
    match rest with
    | [(_, high)] => return .slice x lbrack first high none false rbrack
    | (colon1, high) :: (colon2, max) :: _ =>
      let high ← given high do
        report colon1 "middle index required in 3-index slice"
        return .bad (colon1 + 1) colon2
      let max ← given max do
        report colon2 "final index required in 3-index slice"
        return .bad (colon2 + 1) rbrack
      return .slice x lbrack first (some high) (some max) true rbrack
    | [] =>
      match args, first with
      | [], some i => return .index x lbrack i rbrack
      | [], none => return .index x lbrack (.bad lbrack rbrack) rbrack
      | _, _ => return packIndex x lbrack args rbrack

def argLoop (g : Grammar) : Nat → Array Expr → Parse (Array Expr × Pos)
  | 0, acc => return (acc, noPos)
  | n + 1, acc => do
    if !(← before? .rparen) then return (acc, noPos)
    let acc := acc.push (← g.rhs)
    let dots ← if ← at? .ellipsis then take else pure noPos
    if (← passComma "argument list" .rparen) && dots == noPos then argLoop g n acc
    else return (acc, dots)

def call (g : Grammar) (fn : Expr) : Parse Expr := do
  let lparen ← expect .lparen
  let (args, dots) ← nested do argLoop g (← fuel) #[]
  return .call fn lparen args.toList dots (← expectClosing .rparen "argument list")

def literalElemValue : Parse Expr := do
  if ← at? .lbrace then g.literalValue none else g.expr

def literalElem : Parse Expr := do
  let x ← g.literalElemValue
  if ← at? .colon then return .keyValue x (← take) (← g.literalElemValue) else return x

def literalValueRule (type : Option Expr) : Parse Expr := do
  let lbrace ← expect .lbrace
  let elts ← nested <| collectSeparated (before? .rbrace) g.literalElem
    (passComma "composite literal" .rbrace)
  return .composite type lbrace elts (← expectClosing .rbrace "composite literal")

/-- May a brace after this expression open a composite literal of that type?
Inside the header of a control statement only an evident type counts. -/
def opensLiteral (level : Int) (x : Expr) : Bool :=
  match x.unparen with
  | .bad .. | .ident .. | .selector .. | .index .. | .indexList .. => 0 ≤ level
  | .arrayType .. | .structType .. | .mapType .. => true
  | _ => false

def primaryLoop (g : Grammar) : Nat → Expr → Parse Expr
  | 0, x => return x
  | n + 1, x => do
    match ← tok with
    | .period =>
      next
      match ← tok with
      | .ident => primaryLoop g n (.selector x (← ident))
      | .lparen => primaryLoop g n (← g.typeAssertion x)
      | t =>
        let p ← pos
        reportExpected p "selector or type assertion"
        if t != .rbrace then next
        primaryLoop g n (.selector x ⟨p, "_"⟩)
    | .lbrack => primaryLoop g n (← g.indexOrSlice x)
    | .lparen => primaryLoop g n (← g.call x)
    | .lbrace =>
      if opensLiteral (← get).exprLevel x then
        if x matches .paren .. then
          report x.unparen.pos "cannot parenthesize type in composite literal"
        primaryLoop g n (← g.literalValue (some x))
      else return x
    | _ => return x

/-- An operand with everything applied to it, given the operand if it has been
read already. -/
def primary (x : Option Expr) : Parse Expr := do
  primaryLoop g (← fuel) (← given x g.operand)

/-- Re-associate an arrow in front of a channel type with that type. -/
def arrowType : Nat → (arrow : Pos) → Expr → Parse Expr
  | n + 1, arrow, .chanType _ inner dir value => do
    if dir == .receive then reportExpected inner "'chan'"
    let .send := dir | return .chanType arrow arrow .receive value
    if value matches .chanType .. then
      return .chanType arrow arrow .receive (← arrowType n inner value)
    reportExpected inner "channel type"
    return .chanType arrow arrow .receive value
  | _, _, x => return x

def unaryRule : Parse Expr := do
  let s ← get
  match s.tok with
  | .add | .sub | .not | .xor | .and | .tilde =>
    next
    return .unary s.pos s.tok (← g.unary)
  | .arrow =>
    next
    let x ← g.unary
    let .chanType .. := x | return .unary s.pos .arrow x
    arrowType (← fuel) s.pos x
  | .mul =>
    next
    return .star s.pos (← g.unary)
  | _ => g.primary none

def binaryLoop (g : Grammar) (prec : Nat) : Nat → Expr → Parse Expr
  | 0, x => return x
  | n + 1, x => do
    let s ← get
    let op := if s.inRhs && s.tok == .assign then Token.eql else s.tok
    if op.precedence < prec then return x
    binaryLoop g prec n (.binary x (← expect op) op (← g.binary none (op.precedence + 1)))

def binaryRule (x : Option Expr) (prec : Nat) : Parse Expr := do
  binaryLoop g prec (← fuel) (← given x g.unary)

end FaultRepair.Source.Parser.Grammar
