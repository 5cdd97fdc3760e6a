/-
# Trees of Go source

The syntax trees the parser builds and the repair patterns edit. Every node
keeps the positions of its tokens, since repairs are restricted to lines and the
printer keeps the author's line breaks.

Types are expressions, as the grammar does not tell them apart.
-/

import FaultRepair.Source.Token
import FaultRepair.Source.Position

namespace FaultRepair.Source

/-- One comment, with its delimiters. -/
structure Comment where
  pos : Pos
  text : Text

/-- Comments with no blank line and no other token between them; never empty. -/
abbrev CommentGroup := List Comment

def Comment.stop (c : Comment) : Pos := c.pos + c.text.length

def CommentGroup.pos (g : CommentGroup) : Pos := (g.head?.map (·.pos)).getD noPos

def CommentGroup.stop (g : CommentGroup) : Pos := (g.getLast?.map (·.stop)).getD noPos

structure Ident where
  pos : Pos
  name : Text

def Ident.stop (i : Ident) : Pos := i.pos + i.name.length

/-- A literal of a basic type, as spelled. -/
structure BasicLit where
  pos : Pos
  kind : Token
  value : Text

def BasicLit.stop (l : BasicLit) : Pos := l.pos + l.value.length

/-- The directions a channel type allows. -/
inductive ChanDir where
  | both | send | receive
  deriving DecidableEq

mutual

/-- Expressions and types. -/
inductive Expr where
  | bad (start stop : Pos)
  | ident (id : Ident)
  | ellipsis (pos : Pos) (elt : Option Expr)
  | lit (l : BasicLit)
  | funcLit (type : FuncType) (body : Block)
  | composite (type : Option Expr) (lbrace : Pos) (elts : List Expr) (rbrace : Pos)
  | paren (lparen : Pos) (x : Expr) (rparen : Pos)
  | selector (x : Expr) (sel : Ident)
  | index (x : Expr) (lbrack : Pos) (idx : Expr) (rbrack : Pos)
  | indexList (x : Expr) (lbrack : Pos) (idxs : List Expr) (rbrack : Pos)
  | slice (x : Expr) (lbrack : Pos) (low high max : Option Expr) (three : Bool) (rbrack : Pos)
  | typeAssert (x : Expr) (lparen : Pos) (type : Option Expr) (rparen : Pos)
  | call (fn : Expr) (lparen : Pos) (args : List Expr) (ellipsis rparen : Pos)
  | star (pos : Pos) (x : Expr)
  | unary (pos : Pos) (op : Token) (x : Expr)
  | binary (x : Expr) (opPos : Pos) (op : Token) (y : Expr)
  | keyValue (key : Expr) (colon : Pos) (value : Expr)
  | arrayType (lbrack : Pos) (len : Option Expr) (elt : Expr)
  | structType (pos : Pos) (fields : FieldList)
  | funcType (type : FuncType)
  | interfaceType (pos : Pos) (methods : FieldList)
  | mapType (pos : Pos) (key value : Expr)
  | chanType (pos arrow : Pos) (dir : ChanDir) (value : Expr)

/-- A list of fields between two delimiters, which may be missing. -/
inductive FieldList where
  | mk (opening : Pos) (list : List Field) (closing : Pos)

/-- Names of one type: a struct field, a parameter, a result, an interface
element or a type parameter. -/
inductive Field where
  | mk (doc : Option CommentGroup) (names : List Ident) (type : Option Expr)
      (tag : Option BasicLit) (comment : Option CommentGroup)

/-- A function type. Its position is that of the keyword, if there is one. -/
inductive FuncType where
  | mk (pos : Pos) (typeParams : Option FieldList) (params : FieldList)
      (results : Option FieldList)

inductive Block where
  | mk (lbrace : Pos) (list : List Stmt) (rbrace : Pos)

/-- Statements, and the clauses that make up the bodies of some of them. A
clause with an empty list is the default clause. -/
inductive Stmt where
  | bad (start stop : Pos)
  | decl (d : GenDecl)
  | empty (semicolon : Pos) (implicit : Bool)
  | labeled (label : Ident) (colon : Pos) (stmt : Stmt)
  | expr (x : Expr)
  | send (chan : Expr) (arrow : Pos) (value : Expr)
  | incDec (x : Expr) (tokPos : Pos) (tok : Token)
  | assign (lhs : List Expr) (tokPos : Pos) (tok : Token) (rhs : List Expr)
  | goCall (pos : Pos) (call : Expr)
  | deferCall (pos : Pos) (call : Expr)
  | ret (pos : Pos) (results : List Expr)
  | branch (pos : Pos) (tok : Token) (label : Option Ident)
  | block (body : Block)
  | ifElse (pos : Pos) (init : Option Stmt) (cond : Expr) (body : Block) (other : Option Stmt)
  | caseClause (pos : Pos) (list : List Expr) (colon : Pos) (body : List Stmt)
  | switch (pos : Pos) (init : Option Stmt) (tag : Option Expr) (body : Block)
  | typeSwitch (pos : Pos) (init : Option Stmt) (subject : Stmt) (body : Block)
  | commClause (pos : Pos) (comm : Option Stmt) (colon : Pos) (body : List Stmt)
  | select (pos : Pos) (body : Block)
  | loop (pos : Pos) (init : Option Stmt) (cond : Option Expr) (post : Option Stmt) (body : Block)
  | range (pos : Pos) (key value : Option Expr) (tokPos : Pos) (tok : Token) (rangePos : Pos)
      (x : Expr) (body : Block)

/-- A declaration with specifications: imports, constants, types or variables. -/
inductive GenDecl where
  | mk (doc : Option CommentGroup) (pos : Pos) (tok : Token) (lparen : Pos)
      (specs : List Spec) (rparen : Pos)

/-- One specification of a declaration. An import's `stop` overrides its end. -/
inductive Spec where
  | imports (doc : Option CommentGroup) (name : Option Ident) (path : BasicLit)
      (comment : Option CommentGroup) (stop : Pos)
  | value (doc : Option CommentGroup) (names : List Ident) (type : Option Expr)
      (values : List Expr) (comment : Option CommentGroup)
  | type (doc : Option CommentGroup) (name : Ident) (params : Option FieldList)
      (eq : Pos) (type : Expr) (comment : Option CommentGroup)

end

instance : Inhabited Expr := ⟨.bad noPos noPos⟩
instance : Inhabited FieldList := ⟨.mk noPos [] noPos⟩

/-- A function or method declaration; without a body it is only announced. -/
structure FuncDecl where
  doc : Option CommentGroup := none
  recv : Option FieldList := none
  name : Ident
  type : FuncType
  body : Option Block := none

inductive Decl where
  | bad (start stop : Pos)
  | gen (d : GenDecl)
  | func (d : FuncDecl)

structure File where
  doc : Option CommentGroup := none
  package : Pos := noPos
  name : Ident := ⟨noPos, []⟩
  decls : List Decl := []
  comments : List CommentGroup := []

namespace FieldList

def opening : FieldList → Pos | .mk o _ _ => o
def list : FieldList → List Field | .mk _ l _ => l
def closing : FieldList → Pos | .mk _ _ c => c

end FieldList

namespace Field

def doc : Field → Option CommentGroup | .mk d _ _ _ _ => d
def names : Field → List Ident | .mk _ n _ _ _ => n
def type : Field → Option Expr | .mk _ _ t _ _ => t
def tag : Field → Option BasicLit | .mk _ _ _ t _ => t
def comment : Field → Option CommentGroup | .mk _ _ _ _ c => c

end Field

namespace FuncType

def pos : FuncType → Pos | .mk p _ _ _ => p
def typeParams : FuncType → Option FieldList | .mk _ t _ _ => t
def params : FuncType → FieldList | .mk _ _ p _ => p
def results : FuncType → Option FieldList | .mk _ _ _ r => r

end FuncType

namespace Block

def lbrace : Block → Pos | .mk l _ _ => l
def list : Block → List Stmt | .mk _ l _ => l
def rbrace : Block → Pos | .mk _ _ r => r

end Block

namespace GenDecl

def doc : GenDecl → Option CommentGroup | .mk d _ _ _ _ _ => d
def pos : GenDecl → Pos | .mk _ p _ _ _ _ => p
def tok : GenDecl → Token | .mk _ _ t _ _ _ => t
def lparen : GenDecl → Pos | .mk _ _ _ l _ _ => l
def specs : GenDecl → List Spec | .mk _ _ _ _ s _ => s
def rparen : GenDecl → Pos | .mk _ _ _ _ _ r => r

end GenDecl

namespace FieldList

/-- The number of parameters, with one for each unnamed field. -/
def count (l : FieldList) : Nat :=
  l.list.foldl (fun n f => n + (if f.names.isEmpty then 1 else f.names.length)) 0

end FieldList

def Expr.unparen : Expr → Expr
  | .paren _ x _ => x.unparen
  | e => e

/-- Is this evidently an element of a type set rather than a value? -/
def Expr.isTypeElem : Expr → Bool
  | .arrayType .. | .structType .. | .funcType .. | .interfaceType .. | .mapType ..
  | .chanType .. => true
  | .binary x _ _ y => x.isTypeElem || y.isTypeElem
  | .unary _ op _ => op == .tilde
  | .paren _ x _ => x.isTypeElem
  | _ => false

end FaultRepair.Source
