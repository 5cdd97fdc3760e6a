/-
# The weight of a tree

How much there is to walk in a tree. A part weighs less than the whole, so the weight
bounds how deep a walk can go.

Patterns put closures where some method calls were, and walk on in what they have put
there. These calls have room for their closure, so that no edit makes a tree heavier.
-/

import FaultRepair.Source.Tree

namespace FaultRepair.Repair

open Source

def roomFor (method : Text) : Nat :=
  if method == Text.ofString "Unwrap" || method == Text.ofString "Expect" then 8 else 0

mutual

def exprWeight : Expr → Nat
  | .bad .. | .ident _ | .lit _ => 1
  | .ellipsis _ elt => optExprWeight elt + 1
  | .funcLit type body => funcTypeWeight type + blockWeight body + 1
  | .composite type _ elts _ => optExprWeight type + exprsWeight elts + 1
  | .paren _ x _ | .star _ x | .unary _ _ x | .chanType _ _ _ x => exprWeight x + 1
  | .selector x sel => exprWeight x + roomFor sel.name + 1
  | .index x _ y _ | .binary x _ _ y | .keyValue x _ y | .mapType _ x y =>
    exprWeight x + exprWeight y + 1
  | .indexList x _ xs _ | .call x _ xs _ _ => exprWeight x + exprsWeight xs + 1
  | .slice x _ low high max _ _ =>
    exprWeight x + optExprWeight low + optExprWeight high + optExprWeight max + 1
  | .typeAssert x _ type _ => exprWeight x + optExprWeight type + 1
  | .arrayType _ len elt => optExprWeight len + exprWeight elt + 1
  | .structType _ fields | .interfaceType _ fields => fieldsWeight fields + 1
  | .funcType type => funcTypeWeight type + 1

def optExprWeight : Option Expr → Nat
  | none => 0
  | some x => exprWeight x

def exprsWeight : List Expr → Nat
  | [] => 0
  | x :: rest => exprWeight x + exprsWeight rest

def fieldWeight : Field → Nat
  | .mk _ _ type _ _ => optExprWeight type

def fieldListWeight : List Field → Nat
  | [] => 0
  | f :: rest => fieldWeight f + fieldListWeight rest

def fieldsWeight : FieldList → Nat
  | .mk _ list _ => fieldListWeight list + 1

def optFieldsWeight : Option FieldList → Nat
  | none => 0
  | some l => fieldsWeight l

def funcTypeWeight : FuncType → Nat
  | .mk _ typeParams params results =>
    optFieldsWeight typeParams + fieldsWeight params + optFieldsWeight results + 1

def blockWeight : Block → Nat
  | .mk _ list _ => stmtsWeight list

def stmtsWeight : List Stmt → Nat
  | [] => 0
  | s :: rest => stmtWeight s + stmtsWeight rest

def optStmtWeight : Option Stmt → Nat
  | none => 0
  | some s => stmtWeight s

def specWeight : Spec → Nat
  | .imports .. => 0
  | .value _ _ type values _ => optExprWeight type + exprsWeight values
  | .type _ _ params _ type _ => optFieldsWeight params + exprWeight type

def specsWeight : List Spec → Nat
  | [] => 0
  | s :: rest => specWeight s + specsWeight rest

def genDeclWeight : GenDecl → Nat
  | .mk _ _ _ _ specs _ => specsWeight specs

def stmtWeight : Stmt → Nat
  | .bad .. | .empty .. | .branch .. => 1
  | .decl d => genDeclWeight d + 1
  | .labeled _ _ stmt => stmtWeight stmt + 1
  | .expr x | .incDec x _ _ | .goCall _ x | .deferCall _ x => exprWeight x + 1
  | .send chan _ value => exprWeight chan + exprWeight value + 1
  | .assign lhs _ _ rhs => exprsWeight lhs + exprsWeight rhs + 1
  | .ret _ results => exprsWeight results + 1
  | .block body | .select _ body => blockWeight body + 1
  | .ifElse _ init cond body other =>
    optStmtWeight init + exprWeight cond + blockWeight body + optStmtWeight other + 1
  | .caseClause _ list _ body => exprsWeight list + stmtsWeight body + 1
  | .switch _ init tag body => optStmtWeight init + optExprWeight tag + blockWeight body + 1
  | .typeSwitch _ init subject body =>
    optStmtWeight init + stmtWeight subject + blockWeight body + 1
  | .commClause _ comm _ body => optStmtWeight comm + stmtsWeight body + 1
  | .loop _ init cond post body =>
    optStmtWeight init + optExprWeight cond + optStmtWeight post + blockWeight body + 1
  | .range _ key value _ _ _ x body =>
    optExprWeight key + optExprWeight value + exprWeight x + blockWeight body + 1

end

def declWeight : Decl → Nat
  | .bad _ _ => 0
  | .gen d => genDeclWeight d
  | .func d => optFieldsWeight d.recv + funcTypeWeight d.type + (d.body.map blockWeight).getD 0

def declsWeight : List Decl → Nat
  | [] => 0
  | d :: rest => declWeight d + declsWeight rest

end FaultRepair.Repair
