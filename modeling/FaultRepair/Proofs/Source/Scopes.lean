/-
# Scopes

Which identifiers of a tree refer to a name from outside the tree. A name is shadowed from its
declaration to the end of the block: by the parameters and results of a function literal, by the
statements that declare it, and by the clauses of a statement that have a scope of their own.
Selectors, labels, field names and method names refer to nothing.

Whether the key of a composite literal is the name of a field or an expression depends on the type
of the literal, which the tree does not tell; so it is a parameter.

There is one walk over the references, and it is used twice: to ask whether there are any, and to
put an expression in their place.
-/

import FaultRepair.Source.Tree

namespace FaultRepair.Source

/-! ## Declarations -/

def Expr.isIdent : Expr → Bool
  | .ident _ => true
  | _ => false

def Expr.isNamed (x : Text) : Expr → Bool
  | .ident id => id.name == x
  | _ => false

/-- Is this the name of a field, as the key of a literal? -/
def Expr.isFieldKey (isField : Ident → Bool) : Expr → Bool
  | .ident id => isField id
  | _ => false

/-- Do the fields give the name to one of them? -/
def FieldList.declares (x : Text) (l : FieldList) : Bool :=
  l.list.any fun f => f.names.any (·.name == x)

/-- Is this the name of a type parameter, a parameter or a result? -/
def FuncType.declares (x : Text) (t : FuncType) : Bool :=
  t.typeParams.any (·.declares x) || t.params.declares x || t.results.any (·.declares x)

def Spec.declares (x : Text) : Spec → Bool
  | .imports .. => false
  | .value _ names _ _ _ => names.any (·.name == x)
  | .type _ name _ _ _ _ => name.name == x

/-- Does the statement declare the name for those after it? -/
def Stmt.declares (x : Text) : Stmt → Bool
  | .decl d => d.specs.any (·.declares x)
  | .labeled _ _ s => s.declares x
  | .assign lhs _ tok _ => tok == .define && lhs.any (·.isNamed x)
  | _ => false

/-! ## The walk -/

section Walk

variable {m : Type → Type} [Monad m]

def unlessShadowed {α : Type} (shadowed : Bool) (a : α) (visit : m α) : m α :=
  if shadowed then return a else visit

variable (isField : Ident → Bool) (x : Text) (f : Ident → m Expr)

mutual

/-- Apply an action to each identifier that refers to the name. -/
def refsExpr : Expr → m Expr
  | .bad start stop => return .bad start stop
  | .ident id => if id.name == x then f id else return .ident id
  | .ellipsis pos elt => return .ellipsis pos (← refsExpr? elt)
  | .lit l => return .lit l
  | .funcLit type body =>
    return .funcLit (← refsFuncType type)
      (← unlessShadowed (type.declares x) body (refsBlock body))
  | .composite type lbrace elts rbrace =>
    return .composite (← refsExpr? type) lbrace (← refsExprs elts) rbrace
  | .paren lparen e rparen => return .paren lparen (← refsExpr e) rparen
  | .selector e sel => return .selector (← refsExpr e) sel
  | .index e lbrack idx rbrack => return .index (← refsExpr e) lbrack (← refsExpr idx) rbrack
  | .indexList e lbrack idxs rbrack =>
    return .indexList (← refsExpr e) lbrack (← refsExprs idxs) rbrack
  | .slice e lbrack low high max three rbrack =>
    return .slice (← refsExpr e) lbrack (← refsExpr? low) (← refsExpr? high) (← refsExpr? max) three
      rbrack
  | .typeAssert e lparen type rparen =>
    return .typeAssert (← refsExpr e) lparen (← refsExpr? type) rparen
  | .call fn lparen args ellipsis rparen =>
    return .call (← refsExpr fn) lparen (← refsExprs args) ellipsis rparen
  | .star pos e => return .star pos (← refsExpr e)
  | .unary pos op e => return .unary pos op (← refsExpr e)
  | .binary e opPos op y => return .binary (← refsExpr e) opPos op (← refsExpr y)
  | .keyValue key colon value =>
    return .keyValue (← unlessShadowed (key.isFieldKey isField) key (refsExpr key)) colon
      (← refsExpr value)
  | .arrayType lbrack len elt => return .arrayType lbrack (← refsExpr? len) (← refsExpr elt)
  | .structType pos fields => return .structType pos (← refsFields fields)
  | .funcType type => return .funcType (← refsFuncType type)
  | .interfaceType pos methods => return .interfaceType pos (← refsFields methods)
  | .mapType pos key value => return .mapType pos (← refsExpr key) (← refsExpr value)
  | .chanType pos arrow dir value => return .chanType pos arrow dir (← refsExpr value)

def refsExpr? : Option Expr → m (Option Expr)
  | none => return none
  | some e => return some (← refsExpr e)

def refsExprs : List Expr → m (List Expr)
  | [] => return []
  | e :: rest => return (← refsExpr e) :: (← refsExprs rest)

/-- The left side of an assignment; where it defines, an identifier is a declaration. -/
def refsTargets (define : Bool) : List Expr → m (List Expr)
  | [] => return []
  | e :: rest =>
    return (← unlessShadowed (define && e.isIdent) e (refsExpr e)) :: (← refsTargets define rest)

def refsTarget? (define : Bool) : Option Expr → m (Option Expr)
  | none => return none
  | some e => return some (← unlessShadowed (define && e.isIdent) e (refsExpr e))

def refsField : Field → m Field
  | .mk doc names type tag comment => return .mk doc names (← refsExpr? type) tag comment

def refsFieldList : List Field → m (List Field)
  | [] => return []
  | field :: rest => return (← refsField field) :: (← refsFieldList rest)

def refsFields : FieldList → m FieldList
  | .mk opening list closing => return .mk opening (← refsFieldList list) closing

def refsFields? : Option FieldList → m (Option FieldList)
  | none => return none
  | some l => return some (← refsFields l)

/-- Parameters and results are not yet declared in their own types, but type parameters are. -/
def refsFuncType : FuncType → m FuncType
  | .mk pos typeParams params results =>
    unlessShadowed (typeParams.any (·.declares x)) (.mk pos typeParams params results) do
      return .mk pos (← refsFields? typeParams) (← refsFields params) (← refsFields? results)

def refsBlock : Block → m Block
  | .mk lbrace list rbrace => return .mk lbrace (← refsStmts list) rbrace

def refsStmts : List Stmt → m (List Stmt)
  | [] => return []
  | s :: rest => return (← refsStmt s) :: (← unlessShadowed (s.declares x) rest (refsStmts rest))

def refsStmt? : Option Stmt → m (Option Stmt)
  | none => return none
  | some s => return some (← refsStmt s)

/-- A type is declared in its own definition, a constant or a variable is not. -/
def refsSpec : Spec → m Spec
  | .imports doc name path comment stop => return .imports doc name path comment stop
  | .value doc names type values comment =>
    return .value doc names (← refsExpr? type) (← refsExprs values) comment
  | .type doc name params eq type comment =>
    unlessShadowed (name.name == x || params.any (·.declares x))
      (.type doc name params eq type comment) do
        return .type doc name (← refsFields? params) eq (← refsExpr type) comment

def refsSpecs : List Spec → m (List Spec)
  | [] => return []
  | s :: rest => return (← refsSpec s) :: (← unlessShadowed (s.declares x) rest (refsSpecs rest))

def refsGenDecl : GenDecl → m GenDecl
  | .mk doc pos tok lparen specs rparen =>
    return .mk doc pos tok lparen (← refsSpecs specs) rparen

/-- The lists of cases without the statements under them. -/
def refsCases : List Stmt → m (List Stmt)
  | [] => return []
  | s :: rest => return (← refsCase s) :: (← refsCases rest)

def refsCase : Stmt → m Stmt
  | .caseClause pos list colon body => return .caseClause pos (← refsExprs list) colon body
  | s => return s

/-- The body of a type switch; its variable is declared under the cases. -/
def refsClauses (declared : Bool) : Block → m Block
  | .mk lbrace list rbrace =>
    if declared then return .mk lbrace (← refsCases list) rbrace
    else return .mk lbrace (← refsStmts list) rbrace

def refsStmt : Stmt → m Stmt
  | .bad start stop => return .bad start stop
  | .decl d => return .decl (← refsGenDecl d)
  | .empty semicolon implicit => return .empty semicolon implicit
  | .labeled label colon s => return .labeled label colon (← refsStmt s)
  | .expr e => return .expr (← refsExpr e)
  | .send chan arrow value => return .send (← refsExpr chan) arrow (← refsExpr value)
  | .incDec e tokPos tok => return .incDec (← refsExpr e) tokPos tok
  | .assign lhs tokPos tok rhs =>
    return .assign (← refsTargets (tok == .define) lhs) tokPos tok (← refsExprs rhs)
  | .goCall pos call => return .goCall pos (← refsExpr call)
  | .deferCall pos call => return .deferCall pos (← refsExpr call)
  | .ret pos results => return .ret pos (← refsExprs results)
  | .branch pos tok label => return .branch pos tok label
  | .block body => return .block (← refsBlock body)
  | .ifElse pos init cond body other => do
    let start ← refsStmt? init
    unlessShadowed (init.any (·.declares x)) (.ifElse pos start cond body other) do
      return .ifElse pos start (← refsExpr cond) (← refsBlock body) (← refsStmt? other)
  | .caseClause pos list colon body =>
    return .caseClause pos (← refsExprs list) colon (← refsStmts body)
  | .switch pos init tag body => do
    let start ← refsStmt? init
    unlessShadowed (init.any (·.declares x)) (.switch pos start tag body) do
      return .switch pos start (← refsExpr? tag) (← refsBlock body)
  | .typeSwitch pos init subject body => do
    let start ← refsStmt? init
    unlessShadowed (init.any (·.declares x)) (.typeSwitch pos start subject body) do
      return .typeSwitch pos start (← refsStmt subject) (← refsClauses (subject.declares x) body)
  | .commClause pos comm colon body =>
    return .commClause pos (← refsStmt? comm) colon
      (← unlessShadowed (comm.any (·.declares x)) body (refsStmts body))
  | .select pos body => return .select pos (← refsBlock body)
  | .loop pos init cond post body => do
    let start ← refsStmt? init
    unlessShadowed (init.any (·.declares x)) (.loop pos start cond post body) do
      return .loop pos start (← refsExpr? cond) (← refsStmt? post) (← refsBlock body)
  | .range pos key value tokPos tok rangePos e body =>
    return .range pos (← refsTarget? (tok == .define) key) (← refsTarget? (tok == .define) value)
      tokPos tok rangePos (← refsExpr e)
      (← unlessShadowed (tok == .define && (key.any (·.isNamed x) || value.any (·.isNamed x))) body
        (refsBlock body))

end

end Walk

def refuse : Ident → Option Expr := fun _ => none

/-- Put an expression in place of a reference. -/
def replaceBy (c : Expr) : Ident → Id Expr := fun _ => pure c

namespace Expr

variable (isField : Ident → Bool) (x : Text)

def refersTo (e : Expr) : Bool := (refsExpr isField x refuse e).isNone

/-- The expression with another one in place of the name. -/
def inline (e c : Expr) : Expr := (refsExpr isField x (replaceBy c) e).run

end Expr

/-! ## Trees without references -/

/-- If the first walk gets through, neither of the two changes anything. -/
def Unmoved {α : Type} (o : Option α) (v : Id α) (a : α) : Prop :=
  ∀ b, o = some b → b = a ∧ v.run = a

namespace Unmoved

variable {α β : Type}

variable {o : Option α} {v : Id α} {a : α}

theorem pure (a : α) : Unmoved (Pure.pure a) (Pure.pure a) a := by
  intro b hb
  cases hb
  exact ⟨rfl, rfl⟩

theorem bind {g : α → Option β} {h : α → Id β} {b : β} (hov : Unmoved o v a)
    (hgh : Unmoved (g a) (h a) b) : Unmoved (o >>= g) (v >>= h) b := by
  intro b' hb'
  obtain ⟨a', ha', hg⟩ := Option.bind_eq_some_iff.mp hb'
  obtain ⟨rfl, hv⟩ := hov a' ha'
  obtain ⟨rfl, hh⟩ := hgh b' hg
  refine ⟨rfl, ?_⟩
  change (h v.run).run = b'
  rw [hv, hh]

theorem ite {b : Bool} {o' : Option α} {v' : Id α} (h : Unmoved o v a) (h' : Unmoved o' v' a) :
    Unmoved (if b then o else o') (if b then v else v') a := by
  split
  · exact h
  · exact h'

theorem unlessShadowed (shadowed : Bool) (h : Unmoved o v a) :
    Unmoved (unlessShadowed shadowed a o) (unlessShadowed shadowed a v) a :=
  ite (pure a) h

theorem map (h : Unmoved o v a) (g : α → β) :
    Unmoved (do return g (← o)) (do return g (← v)) (g a) :=
  h.bind (pure _)

variable (isField : Ident → Bool) (x : Text) (c : Expr)

/-- Neither walk changes the tree, if the first one gets through. -/
abbrev Tree (walk : {m : Type → Type} → [Monad m] → (Ident → Bool) → Text → (Ident → m Expr) →
    α → m α) (a : α) : Prop :=
  Unmoved (walk isField x refuse a) (walk isField x (replaceBy c) a) a

mutual

theorem expr : (e : Expr) → Tree isField x c refsExpr e
  | .bad .. | .lit _ => .pure _
  | .ident _ => .ite (fun _ h => nomatch h) (.pure _)
  | .ellipsis _ e => (expr? e).map _
  | .paren _ e _ | .selector e _ | .star _ e | .unary _ _ e | .chanType _ _ _ e => (expr e).map _
  | .structType _ l | .interfaceType _ l => (fields l).map _
  | .funcType type => (funcType type).map _
  | .index e _ e' _ | .binary e _ _ e' | .mapType _ e e' => (expr e).bind ((expr e').map _)
  | .indexList e _ es _ | .call e _ es _ _ => (expr e).bind ((exprs es).map _)
  | .typeAssert e _ type _ => (expr e).bind ((expr? type).map _)
  | .arrayType _ len elt => (expr? len).bind ((expr elt).map _)
  | .composite type _ elts _ => (expr? type).bind ((exprs elts).map _)
  | .keyValue key _ value => ((expr key).unlessShadowed _).bind ((expr value).map _)
  | .funcLit type body => (funcType type).bind (((block body).unlessShadowed _).map _)
  | .slice e _ low high max _ _ =>
    (expr e).bind ((expr? low).bind ((expr? high).bind ((expr? max).map _)))

theorem expr? : (o : Option Expr) → Tree isField x c refsExpr? o
  | none => .pure _
  | some e => (expr e).map _

theorem exprs : (es : List Expr) → Tree isField x c refsExprs es
  | [] => .pure _
  | e :: rest => (expr e).bind ((exprs rest).map _)

theorem targets (define : Bool) : (es : List Expr) →
    Tree isField x c (refsTargets · · · define ·) es
  | [] => .pure _
  | e :: rest => ((expr e).unlessShadowed _).bind ((targets define rest).map _)

theorem target? (define : Bool) : (o : Option Expr) →
    Tree isField x c (refsTarget? · · · define ·) o
  | none => .pure _
  | some e => ((expr e).unlessShadowed _).map _

theorem field : (f : Field) → Tree isField x c refsField f
  | .mk _ _ type _ _ => (expr? type).map _

theorem fieldList : (list : List Field) → Tree isField x c refsFieldList list
  | [] => .pure _
  | f :: rest => (field f).bind ((fieldList rest).map _)

theorem fields : (l : FieldList) → Tree isField x c refsFields l
  | .mk _ list _ => (fieldList list).map _

theorem fields? : (o : Option FieldList) → Tree isField x c refsFields? o
  | none => .pure _
  | some l => (fields l).map _

theorem funcType : (type : FuncType) → Tree isField x c refsFuncType type
  | .mk _ typeParams params results =>
    .unlessShadowed _ ((fields? typeParams).bind ((fields params).bind ((fields? results).map _)))

theorem block : (b : Block) → Tree isField x c refsBlock b
  | .mk _ list _ => (stmts list).map _

theorem stmts : (list : List Stmt) → Tree isField x c refsStmts list
  | [] => .pure _
  | s :: rest => (stmt s).bind (((stmts rest).unlessShadowed _).map _)

theorem stmt? : (o : Option Stmt) → Tree isField x c refsStmt? o
  | none => .pure _
  | some s => (stmt s).map _

theorem spec : (s : Spec) → Tree isField x c refsSpec s
  | .imports .. => .pure _
  | .value _ _ type values _ => (expr? type).bind ((exprs values).map _)
  | .type _ _ params _ type _ => .unlessShadowed _ ((fields? params).bind ((expr type).map _))

theorem specs : (list : List Spec) → Tree isField x c refsSpecs list
  | [] => .pure _
  | s :: rest => (spec s).bind (((specs rest).unlessShadowed _).map _)

theorem genDecl : (d : GenDecl) → Tree isField x c refsGenDecl d
  | .mk _ _ _ _ list _ => (specs list).map _

theorem caseLists : (list : List Stmt) → Tree isField x c refsCases list
  | [] => .pure _
  | s :: rest => (caseList s).bind ((caseLists rest).map _)

theorem caseList : (s : Stmt) → Tree isField x c refsCase s
  | .caseClause _ list _ _ => (exprs list).map _
  | .bad .. | .decl _ | .empty .. | .labeled .. | .expr _ | .send .. | .incDec .. | .assign ..
  | .goCall .. | .deferCall .. | .ret .. | .branch .. | .block _ | .ifElse .. | .switch ..
  | .typeSwitch .. | .commClause .. | .select .. | .loop .. | .range .. => .pure _

theorem clauses (declared : Bool) : (b : Block) → Tree isField x c (refsClauses · · · declared ·) b
  | .mk _ list _ => .ite ((caseLists list).map _) ((stmts list).map _)

theorem stmt : (s : Stmt) → Tree isField x c refsStmt s
  | .bad .. | .empty .. | .branch .. => .pure _
  | .decl d => (genDecl d).map _
  | .labeled _ _ s => (stmt s).map _
  | .expr e | .incDec e _ _ | .goCall _ e | .deferCall _ e => (expr e).map _
  | .send chan _ value => (expr chan).bind ((expr value).map _)
  | .assign lhs _ _ rhs => (targets _ lhs).bind ((exprs rhs).map _)
  | .ret _ results => (exprs results).map _
  | .block b | .select _ b => (block b).map _
  | .ifElse _ init cond body other =>
    (stmt? init).bind (.unlessShadowed _ ((expr cond).bind ((block body).bind
      ((stmt? other).map _))))
  | .caseClause _ list _ body => (exprs list).bind ((stmts body).map _)
  | .switch _ init tag body =>
    (stmt? init).bind (.unlessShadowed _ ((expr? tag).bind ((block body).map _)))
  | .typeSwitch _ init subject body =>
    (stmt? init).bind (.unlessShadowed _ ((stmt subject).bind ((clauses _ body).map _)))
  | .commClause _ comm _ body => (stmt? comm).bind (((stmts body).unlessShadowed _).map _)
  | .loop _ init cond post body =>
    (stmt? init).bind (.unlessShadowed _ ((expr? cond).bind ((stmt? post).bind
      ((block body).map _))))
  | .range _ key value _ _ _ e body =>
    (target? _ key).bind ((target? _ value).bind ((expr e).bind
      (((block body).unlessShadowed _).map _)))

end

end Unmoved

namespace Expr

variable {isField : Ident → Bool} {x : Text}

/-- Where nothing refers to the name, there is nothing to replace. -/
theorem inline_of_not_refersTo {e : Expr} (h : e.refersTo isField x = false) (c : Expr) :
    e.inline isField x c = e := by
  obtain ⟨e', he'⟩ := Option.isSome_iff_exists.mp (Option.isNone_eq_false_iff.mp h)
  exact (Unmoved.expr isField x c e e' he').2

/-! ## Calls -/

theorem run_refsExprs (c : Expr) (es : List Expr) :
    (refsExprs isField x (replaceBy c) es).run = es.map (·.inline isField x c) := by
  induction es with
  | nil => rfl
  | cons e rest ih =>
    rw [List.map_cons, ← ih]
    rfl

theorem isNone_refsExprs (es : List Expr) :
    (refsExprs isField x refuse es).isNone = es.any (refersTo isField x) := by
  induction es with
  | nil => rfl
  | cons e rest ih =>
    rw [List.any_cons, ← ih, refersTo, refsExprs]
    cases refsExpr isField x refuse e with
    | none => rfl
    | some e' => cases refsExprs isField x refuse rest <;> rfl

theorem inline_ident (pos : Pos) (c : Expr) : (Expr.ident ⟨pos, x⟩).inline isField x c = c := by
  rw [inline, refsExpr, if_pos (beq_self_eq_true x)]
  rfl

theorem inline_methodCall (c e : Expr) (sel : Ident) (lparen : Pos) (args : List Expr)
    (ellipsis rparen : Pos) :
    (Expr.call (.selector e sel) lparen args ellipsis rparen).inline isField x c =
      .call (.selector (e.inline isField x c) sel) lparen (args.map (·.inline isField x c)) ellipsis
        rparen := by
  rw [← run_refsExprs]
  rfl

theorem refersTo_methodCall (e : Expr) (sel : Ident) (lparen : Pos) (args : List Expr)
    (ellipsis rparen : Pos) :
    (Expr.call (.selector e sel) lparen args ellipsis rparen).refersTo isField x =
      (e.refersTo isField x || args.any (refersTo isField x)) := by
  rw [← isNone_refsExprs, refersTo, refersTo, refsExpr, refsExpr]
  cases refsExpr isField x refuse e with
  | none => rfl
  | some e' => cases refsExprs isField x refuse args <;> rfl

/-- A closure that does nothing but return a result. -/
theorem refersTo_closure (type : FuncType) (lbrace pos rbrace : Pos) (result : Expr) :
    (Expr.funcLit type (.mk lbrace [.ret pos [result]] rbrace)).refersTo isField x =
      ((refsFuncType isField x refuse type).isNone ||
        (!type.declares x && result.refersTo isField x)) := by
  rw [refersTo, refersTo, refsExpr, unlessShadowed]
  cases refsFuncType isField x refuse type with
  | none => rfl
  | some type' =>
    cases type.declares x with
    | true => rfl
    | false => cases hresult : refsExpr isField x refuse result <;>
        simp [refsBlock, refsStmts, refsStmt, refsExprs, unlessShadowed, Stmt.declares, hresult]

end Expr

end FaultRepair.Source
