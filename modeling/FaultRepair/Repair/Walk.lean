/-
# Walking a tree

One step of a walk: an action applied to every child of a node, in source order.
What the action does with a child, whether it walks on from there, and what else it
keeps account of, is the caller's choice.
-/

import FaultRepair.Source.Span

namespace FaultRepair.Repair

open Source

/-- How a node is used by its parent, as far as repairs care: as the function of a
call, where a type is expected, or otherwise. -/
inductive Role where
  | plain | callee | type
  deriving DecidableEq

/-- What a walk does with the children of a node. -/
structure Visitor (m : Type → Type) where
  expr : Role → Expr → m Expr
  stmt : Stmt → m Stmt
  funcType : FuncType → m FuncType
  fields : Role → FieldList → m FieldList

namespace Visitor

variable {m : Type → Type} [Monad m]

variable (v : Visitor m)

def expr? (role : Role) : Option Expr → m (Option Expr)
  | some x => some <$> v.expr role x
  | none => return none

def stmt? : Option Stmt → m (Option Stmt)
  | some s => some <$> v.stmt s
  | none => return none

def exprs (xs : List Expr) : m (List Expr) := xs.mapM (v.expr .plain)

def block : Block → m Block
  | .mk lbrace list rbrace => do return .mk lbrace (← list.mapM v.stmt) rbrace

def field : Field → m Field
  | .mk doc names type tag comment => do
    return .mk doc names (← v.expr? .type type) tag comment

def fieldsOf : FieldList → m FieldList
  | .mk opening list closing => do return .mk opening (← list.mapM v.field) closing

def funcTypeParts : FuncType → m FuncType
  | .mk pos typeParams params results => do
    return .mk pos (← typeParams.mapM (v.fields .type)) (← v.fields .plain params)
      (← results.mapM (v.fields .plain))

def spec : Spec → m Spec
  | .imports doc name path comment stop => return .imports doc name path comment stop
  | .value doc names type values comment => do
    return .value doc names (← v.expr? .type type) (← v.exprs values) comment
  | .type doc name params eq type comment => do
    return .type doc name (← params.mapM (v.fields .type)) eq (← v.expr .type type) comment

def genDecl : GenDecl → m GenDecl
  | .mk doc pos tok lparen specs rparen => do
    return .mk doc pos tok lparen (← specs.mapM v.spec) rparen

def exprParts : Expr → m Expr
  | .bad start stop => return .bad start stop
  | .ident id => return .ident id
  | .lit l => return .lit l
  | .ellipsis pos elt => do return .ellipsis pos (← v.expr? .plain elt)
  | .funcLit type body => do return .funcLit (← v.funcType type) (← v.block body)
  | .composite type lbrace elts rbrace => do
    return .composite (← v.expr? .type type) lbrace (← v.exprs elts) rbrace
  | .paren lparen x rparen => do return .paren lparen (← v.expr .plain x) rparen
  | .selector x sel => do return .selector (← v.expr .plain x) sel
  | .index x lbrack idx rbrack => do
    return .index (← v.expr .plain x) lbrack (← v.expr .plain idx) rbrack
  | .indexList x lbrack idxs rbrack => do
    return .indexList (← v.expr .plain x) lbrack (← v.exprs idxs) rbrack
  | .slice x lbrack low high max three rbrack => do
    return .slice (← v.expr .plain x) lbrack (← v.expr? .plain low) (← v.expr? .plain high)
      (← v.expr? .plain max) three rbrack
  | .typeAssert x lparen type rparen => do
    return .typeAssert (← v.expr .plain x) lparen (← v.expr? .type type) rparen
  | .call fn lparen args ellipsis rparen => do
    return .call (← v.expr .callee fn) lparen (← v.exprs args) ellipsis rparen
  | .star pos x => do return .star pos (← v.expr .plain x)
  | .unary pos op x => do return .unary pos op (← v.expr .plain x)
  | .binary x opPos op y => do return .binary (← v.expr .plain x) opPos op (← v.expr .plain y)
  | .keyValue key colon value => do
    return .keyValue (← v.expr .plain key) colon (← v.expr .plain value)
  | .arrayType lbrack len elt => do
    return .arrayType lbrack (← v.expr? .plain len) (← v.expr .plain elt)
  | .structType pos fields => do return .structType pos (← v.fields .plain fields)
  | .funcType type => do return .funcType (← v.funcTypeParts type)
  | .interfaceType pos methods => do return .interfaceType pos (← v.fields .plain methods)
  | .mapType pos key value => do return .mapType pos (← v.expr .plain key) (← v.expr .plain value)
  | .chanType pos arrow dir value => do return .chanType pos arrow dir (← v.expr .plain value)

def stmtParts : Stmt → m Stmt
  | .bad start stop => return .bad start stop
  | .decl d => do return .decl (← v.genDecl d)
  | .empty semicolon implicit => return .empty semicolon implicit
  | .labeled label colon stmt => do return .labeled label colon (← v.stmt stmt)
  | .expr x => do return .expr (← v.expr .plain x)
  | .send chan arrow value => do
    return .send (← v.expr .plain chan) arrow (← v.expr .plain value)
  | .incDec x tokPos tok => do return .incDec (← v.expr .plain x) tokPos tok
  | .assign lhs tokPos tok rhs => do return .assign (← v.exprs lhs) tokPos tok (← v.exprs rhs)
  | .goCall pos call => do return .goCall pos (← v.expr .plain call)
  | .deferCall pos call => do return .deferCall pos (← v.expr .plain call)
  | .ret pos results => do return .ret pos (← v.exprs results)
  | .branch pos tok label => return .branch pos tok label
  | .block body => do return .block (← v.block body)
  | .ifElse pos init cond body other => do
    return .ifElse pos (← v.stmt? init) (← v.expr .plain cond) (← v.block body) (← v.stmt? other)
  | .caseClause pos list colon body => do
    return .caseClause pos (← v.exprs list) colon (← body.mapM v.stmt)
  | .switch pos init tag body => do
    return .switch pos (← v.stmt? init) (← v.expr? .plain tag) (← v.block body)
  | .typeSwitch pos init subject body => do
    return .typeSwitch pos (← v.stmt? init) (← v.stmt subject) (← v.block body)
  | .commClause pos comm colon body => do
    return .commClause pos (← v.stmt? comm) colon (← body.mapM v.stmt)
  | .select pos body => do return .select pos (← v.block body)
  | .loop pos init cond post body => do
    return .loop pos (← v.stmt? init) (← v.expr? .plain cond) (← v.stmt? post) (← v.block body)
  | .range pos key value tokPos tok rangePos x body => do
    return .range pos (← v.expr? .plain key) (← v.expr? .plain value) tokPos tok rangePos
      (← v.expr .plain x) (← v.block body)

def decl : Decl → m Decl
  | .bad start stop => return .bad start stop
  | .gen d => do return .gen (← v.genDecl d)
  | .func d => do
    return .func { d with
      recv := ← d.recv.mapM (v.fields .plain)
      type := ← v.funcType d.type
      body := ← d.body.mapM v.block }

end Visitor

end FaultRepair.Repair
