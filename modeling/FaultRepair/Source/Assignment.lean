/-
# Assignments

All assignments and initialised variable declarations of a file, in the order in
which they start. An assignment comes before those in function literals inside it. Such a
literal may stand wherever an expression does: also in the length of an array, and so in the
type of a field, a parameter or a receiver.
-/

import FaultRepair.Source.Tree

namespace FaultRepair.Source

/-- Targets and the values they get. -/
structure Assignment where
  targets : List Expr
  values : List Expr

namespace Assignment

/-- The initialisation a specification of variables makes. -/
def ofSpec? : Spec → Option Assignment
  | .value _ names _ values _ =>
    if values.isEmpty then none else some ⟨names.map .ident, values⟩
  | _ => none

mutual

def inExpr : Expr → List Assignment
  | .funcLit type body => inFuncType type ++ inBlock body
  | .composite type _ elts _ => inExprOption type ++ inExprs elts
  | .paren _ x _ | .selector x _ | .star _ x | .unary _ _ x | .chanType _ _ _ x => inExpr x
  | .index x _ y _ | .binary x _ _ y | .keyValue x _ y | .mapType _ x y => inExpr x ++ inExpr y
  | .indexList x _ xs _ | .call x _ xs _ _ => inExpr x ++ inExprs xs
  | .slice x _ low high max _ _ =>
    inExpr x ++ inExprOption low ++ inExprOption high ++ inExprOption max
  | .typeAssert x _ type _ => inExpr x ++ inExprOption type
  | .ellipsis _ elt => inExprOption elt
  | .arrayType _ len elt => inExprOption len ++ inExpr elt
  | .structType _ fields | .interfaceType _ fields => inFieldList fields
  | .funcType type => inFuncType type
  | .bad .. | .ident .. | .lit .. => []

def inExprs : List Expr → List Assignment
  | [] => []
  | e :: es => inExpr e ++ inExprs es

def inExprOption : Option Expr → List Assignment
  | some e => inExpr e
  | none => []

def inFields : List Field → List Assignment
  | [] => []
  | .mk _ _ type _ _ :: rest => inExprOption type ++ inFields rest

def inFieldList : FieldList → List Assignment
  | .mk _ fields _ => inFields fields

def inFieldListOption : Option FieldList → List Assignment
  | some fields => inFieldList fields
  | none => []

def inFuncType : FuncType → List Assignment
  | .mk _ typeParams params results =>
    inFieldListOption typeParams ++ inFieldList params ++ inFieldListOption results

def inBlock : Block → List Assignment
  | .mk _ list _ => inStmts list

def inStmts : List Stmt → List Assignment
  | [] => []
  | s :: ss => inStmt s ++ inStmts ss

def inStmtOption : Option Stmt → List Assignment
  | some s => inStmt s
  | none => []

def inStmt : Stmt → List Assignment
  | .decl d => inGenDecl d
  | .labeled _ _ s => inStmt s
  | .expr x | .incDec x _ _ | .goCall _ x | .deferCall _ x => inExpr x
  | .send c _ v => inExpr c ++ inExpr v
  | .assign lhs _ _ rhs => ⟨lhs, rhs⟩ :: (inExprs lhs ++ inExprs rhs)
  | .ret _ rs => inExprs rs
  | .block b | .select _ b => inBlock b
  | .ifElse _ init cond body other =>
    inStmtOption init ++ inExpr cond ++ inBlock body ++ inStmtOption other
  | .caseClause _ es _ body => inExprs es ++ inStmts body
  | .switch _ init tag body => inStmtOption init ++ inExprOption tag ++ inBlock body
  | .typeSwitch _ init subject body => inStmtOption init ++ inStmt subject ++ inBlock body
  | .commClause _ comm _ body => inStmtOption comm ++ inStmts body
  | .loop _ init cond post body =>
    inStmtOption init ++ inExprOption cond ++ inStmtOption post ++ inBlock body
  | .range _ key value _ _ _ x body =>
    inExprOption key ++ inExprOption value ++ inExpr x ++ inBlock body
  | .bad .. | .empty .. | .branch .. => []

/-- The assignments in a declaration: first the ones it makes, then those inside. -/
def inGenDecl : GenDecl → List Assignment
  | .mk _ _ tok _ specs _ =>
    (if tok == .kwVar then specs.filterMap ofSpec? else []) ++ inSpecs specs

def inSpecs : List Spec → List Assignment
  | [] => []
  | .value _ _ type values _ :: rest => inExprOption type ++ inExprs values ++ inSpecs rest
  | .type _ _ params _ type _ :: rest => inFieldListOption params ++ inExpr type ++ inSpecs rest
  | .imports .. :: rest => inSpecs rest

end

end Assignment

def File.assignments (f : File) : List Assignment :=
  f.decls.flatMap fun d => match d with
    | .gen d => Assignment.inGenDecl d
    | .func d => Assignment.inFieldListOption d.recv ++ Assignment.inFuncType d.type ++
        (d.body.map Assignment.inBlock).getD []
    | .bad .. => []

end FaultRepair.Source
