/-
# Where nodes start and stop

The first position of a node and the position after its last token. Comments
attached to a node are not part of its span.
-/

import FaultRepair.Source.Tree

namespace FaultRepair.Source

mutual

def Expr.pos : Expr → Pos
  | .bad pos _ | .ellipsis pos _ | .composite none pos _ _ | .paren pos _ _
  | .star pos _ | .unary pos _ _ | .arrayType pos _ _ | .structType pos _
  | .interfaceType pos _ | .mapType pos _ _ | .chanType pos _ _ _ => pos
  | .ident x | .lit x | .composite (some x) _ _ _ | .selector x _ | .index x _ _ _
  | .indexList x _ _ _ | .slice x _ _ _ _ _ _ | .typeAssert x _ _ _ | .call x _ _ _ _
  | .binary x _ _ _ | .keyValue x _ _ => x.pos
  | .funcLit type _ | .funcType type => type.start

/-- The first position of a function type: its keyword, or else its parameters. -/
def FuncType.start : FuncType → Pos
  | .mk pos _ params _ => if pos != noPos then pos else params.pos

def FieldList.pos : FieldList → Pos
  | .mk opening list _ => if opening != noPos then opening else fieldsPos list

def fieldsPos : List Field → Pos
  | [] => noPos
  | f :: _ => f.pos

def Field.pos : Field → Pos
  | .mk _ (x :: _) _ _ _ | .mk _ [] (some x) _ _ => x.pos
  | .mk _ [] none _ _ => noPos

end

def identsStop (names : List Ident) : Pos := (names.getLast?.map Ident.stop).getD noPos

mutual

def Expr.stop : Expr → Pos
  | .bad _ stop => stop
  | .ident x | .ellipsis _ (some x) | .lit x | .funcLit _ x | .selector _ x | .star _ x
  | .unary _ _ x | .binary _ _ _ x | .keyValue _ _ x | .arrayType _ _ x | .structType _ x
  | .funcType x | .interfaceType _ x | .mapType _ _ x | .chanType _ _ _ x => x.stop
  | .ellipsis pos none => pos + 3
  | .composite _ _ _ closing | .paren _ _ closing | .index _ _ _ closing | .indexList _ _ _ closing
  | .slice _ _ _ _ _ _ closing | .typeAssert _ _ _ closing | .call _ _ _ _ closing => closing + 1

def FuncType.stop : FuncType → Pos
  | .mk _ _ _ (some x) | .mk _ _ x none => x.stop

def FieldList.stop : FieldList → Pos
  | .mk _ list closing => if closing != noPos then closing + 1 else fieldsStop list

def fieldsStop : List Field → Pos
  | [] => noPos
  | [f] => f.stop
  | _ :: rest => fieldsStop rest

def Field.stop : Field → Pos
  | .mk _ _ _ (some x) _ | .mk _ _ (some x) none _ => x.stop
  | .mk _ names none none _ => identsStop names

def Block.stop : Block → Pos
  | .mk lbrace list rbrace => if rbrace != noPos then rbrace + 1 else stmtsStop (lbrace + 1) list

/-- The position after the last statement, or `other` if there is none. -/
def stmtsStop (other : Pos) : List Stmt → Pos
  | [] => other
  | [s] => s.stop
  | _ :: rest => stmtsStop other rest

/-- The position after the last expression, or `other` if there is none. -/
def exprsStop (other : Pos) : List Expr → Pos
  | [] => other
  | [e] => e.stop
  | _ :: rest => exprsStop other rest

def Stmt.stop : Stmt → Pos
  | .bad _ stop => stop
  | .decl x | .labeled _ _ x | .expr x | .send _ _ x | .goCall _ x | .deferCall _ x
  | .branch _ _ (some x) | .block x | .ifElse _ _ _ _ (some x) | .ifElse _ _ _ x none
  | .switch _ _ _ x | .typeSwitch _ _ _ x | .select _ x | .loop _ _ _ _ x
  | .range _ _ _ _ _ _ _ x =>
    x.stop
  | .empty semicolon implicit => if implicit then semicolon else semicolon + 1
  | .incDec _ tokPos _ => tokPos + 2
  | .assign _ tokPos _ rhs => exprsStop tokPos rhs
  | .ret pos results => exprsStop (pos + 6) results
  | .branch pos tok none => pos + tok.text.length
  | .caseClause _ _ colon body | .commClause _ _ colon body => stmtsStop (colon + 1) body

def GenDecl.stop : GenDecl → Pos
  | .mk _ _ _ _ specs rparen => if rparen != noPos then rparen + 1 else specsStop specs

def specsStop : List Spec → Pos
  | [] => noPos
  | s :: _ => s.stop

def Spec.stop : Spec → Pos
  | .imports _ _ path _ stop => if stop != noPos then stop else path.stop
  | .value _ names none values _ => exprsStop (identsStop names) values
  | .value _ _ (some type) values _ => exprsStop type.stop values
  | .type _ _ _ _ type _ => type.stop

end

/-- The position of the token that an expression is known by. No two expressions of a file share it,
and it does not change when a part of the expression is put in parentheses. -/
def Expr.anchor : Expr → Pos
  | .bad pos _ | .ellipsis pos _ | .composite _ pos _ _ | .paren pos _ _
  | .index _ pos _ _ | .indexList _ pos _ _ | .slice _ pos _ _ _ _ _
  | .typeAssert _ pos _ _ | .call _ pos _ _ _ | .star pos _ | .unary pos _ _
  | .binary _ pos _ _ | .keyValue _ pos _ | .arrayType pos _ _ | .structType pos _
  | .interfaceType pos _ | .mapType pos _ _ | .chanType pos _ _ _ => pos
  | .ident x | .lit x | .selector _ x => x.pos
  | .funcLit _ body => body.lbrace
  | .funcType type => type.start

def Spec.pos : Spec → Pos
  | .imports _ (some x) _ _ _ | .imports _ none x _ _ | .type _ x _ _ _ _ => x.pos
  | .value _ names _ _ _ => (names.head?.map (·.pos)).getD noPos

def Stmt.pos : Stmt → Pos
  | .bad pos _ | .empty pos _ | .goCall pos _ | .deferCall pos _ | .ret pos _
  | .branch pos _ _ | .ifElse pos _ _ _ _ | .caseClause pos _ _ _ | .switch pos _ _ _
  | .typeSwitch pos _ _ _ | .commClause pos _ _ _ | .select pos _ | .loop pos _ _ _ _
  | .range pos _ _ _ _ _ _ _ => pos
  | .decl x | .labeled x _ _ | .expr x | .send x _ _ | .incDec x _ _ => x.pos
  | .assign lhs tokPos _ _ => (lhs.head?.map Expr.pos).getD tokPos
  | .block body => body.lbrace

def FuncDecl.pos (d : FuncDecl) : Pos := d.type.start

def FuncDecl.stop (d : FuncDecl) : Pos :=
  match d.body with
  | some body => body.stop
  | none => d.type.stop

def Decl.pos : Decl → Pos
  | .bad start _ => start
  | .gen d | .func d => d.pos

def Decl.stop : Decl → Pos
  | .bad _ stop => stop
  | .gen d | .func d => d.stop

end FaultRepair.Source
