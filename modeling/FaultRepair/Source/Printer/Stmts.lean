/-
# Printing statements, declarations and files

Statements stand on lines of their own, and grouped declarations in columns. A file is
printed with its comments and the author's line breaks, and then its columns are aligned.
-/

import FaultRepair.Source.Printer.Exprs
import FaultRepair.Text.Quote

namespace FaultRepair.Source.Printer

open Text

namespace Rules

def isTypeName : Expr → Bool
  | .ident _ => true
  | .selector x _ => isTypeName x
  | _ => false

mutual

/-- Does a composite literal that starts with a type name stand here outside
parentheses? Then parentheses around the whole are needed. -/
def exposesLiteral : Expr → Bool
  | .bad .. | .ident _ | .lit _ | .paren .. | .structType .. | .funcType _
  | .interfaceType .. | .funcLit .. => false
  | .composite type _ _ _ => type.any isTypeName
  | .ellipsis _ x => exposesLiteral? x
  | .selector x _ | .star _ x | .unary _ _ x | .chanType _ _ _ x => exposesLiteral x
  | .index x _ y _ | .binary x _ _ y | .keyValue x _ y | .mapType _ x y =>
    exposesLiteral x || exposesLiteral y
  | .indexList x _ is _ => exposesLiteral x || exposeLiterals is
  | .slice x _ l h m _ _ =>
    exposesLiteral x || exposesLiteral? l || exposesLiteral? h || exposesLiteral? m
  | .typeAssert x _ t _ => exposesLiteral x || exposesLiteral? t
  | .call f _ args _ _ => exposesLiteral f || exposeLiterals args
  | .arrayType _ n x => exposesLiteral? n || exposesLiteral x

def exposesLiteral? : Option Expr → Bool
  | some x => exposesLiteral x
  | none => false

def exposeLiterals : List Expr → Bool
  | [] => false
  | x :: xs => exposesLiteral x || exposeLiterals xs

end

/-- An expression in a header without the parentheses it does not need. -/
def headerExpr : Expr → Expr
  | .paren l x r => if exposesLiteral x then .paren l x r else headerExpr x
  | x => x

variable (r : Rules)

def controlClause (isLoop : Bool) (init : Option Stmt) (x : Option Expr)
    (post : Option Stmt) : Print Unit := do
  white .blank
  let whole := init.isSome || post.isSome
  if whole then
    init.forM (r.stmt · false)
    spaced .semicolon
  x.forM fun e => r.expr (headerExpr e)
  if whole && isLoop then
    spaced .semicolon
    post.forM (r.stmt · false)
  if if whole && isLoop then post.isSome else x.isSome then white .blank

def startsLater : Nat → List (Nat × Nat) → Bool
  | _, [] => false
  | prev, (b, e) :: rest => prev < b || startsLater e rest

/-- Would results look better indented as a whole? So if one starts on a new line
or more than one spans lines. -/
def indentsList (list : List Expr) : Print Bool := do
  let spans ← list.mapM fun x => do return (← line x.pos, ← line x.stop)
  let ((b, _) :: _ :: _, some (_, e)) := (spans, spans.getLast?) | return false
  if 0 < b && b < e then
    return startsLater b spans || 1 < (spans.filter fun (b, e) => b < e).length
  return false

/-- Which specifications of a group keep a type column: those in a run with values
in which some specification has a type. -/
def typeColumns (specs : List (Bool × Bool)) : List Bool :=
  (specs.splitBy fun a b => a.1 == b.1).flatMap fun run =>
    run.map fun (hasValues, _) => hasValues && run.any (·.2)

def valueSpec (doc : Option CommentGroup) (names : List Ident)
    (type : Option Expr) (values : List Expr) (comment : Option CommentGroup)
    (keepType : Bool) : Print Unit := do
  ownComment doc
  r.identList names false
  let typed := type.isSome || keepType
  if typed then white .vtab
  type.forM r.expr
  if !values.isEmpty then
    white .vtab
    spaced .assign
    r.exprList noPos values 1 {} noPos
  if comment.isSome then
    whites (3 - typed.toNat - (!values.isEmpty).toNat) .vtab
    ownComment comment

/-- An import path between double quotes, if it is a proper path. -/
def properImportPath (path : BasicLit) : BasicLit :=
  let illegal : Text := "!\"#$%&'()*,:;<=>?[\\]^\x7b|\x7d\x60�"
  let proper (s : Text) : Bool := !s.isEmpty && (runes s).all fun r =>
    isPrintRune r && !isSpaceRune r && !(runes illegal).contains r
  (((unquote? path.value).filter proper).map ({ path with value := quote · })).getD path

/-- A specification in a group of `n`. -/
def spec (s : Spec) (n : Nat) (indent : Bool) : Print Unit := do
  match s with
  | .imports doc name path comment stop =>
    ownComment doc
    if let some id := name then
      r.expr (.ident id)
      white .blank
    r.expr (.lit (properImportPath path))
    ownComment comment
    setPos stop
  | .value doc names type values comment =>
    ownComment doc
    r.identList names indent
    if let some t := type then
      white .blank
      r.expr t
    if !values.isEmpty then
      white .blank
      spaced .assign
      r.exprList noPos values 1 {} noPos
    ownComment comment
  | .type doc name params eq type comment =>
    ownComment doc
    r.expr (.ident name)
    params.forM (r.parameters · .typeDecl)
    white (if n == 1 then .blank else .vtab)
    if eq != noPos then spaced .assign
    r.expr type
    ownComment comment

def genDecl (d : GenDecl) : Print Unit := do
  ownComment d.doc
  tokenAt d.pos d.tok
  white .blank
  if d.lparen != noPos || d.specs.length != 1 then
    tokenAt d.lparen .lparen
    let n := d.specs.length
    if 0 < n then
      white .indent
      white .formFeed
      let inColumns := 1 < n && (d.tok == .kwConst || d.tok == .kwVar)
      let keep := typeColumns (d.specs.map fun s =>
        (s matches .value _ _ _ (_ :: _) _, s matches .value _ _ (some _) _ _))
      let print : Spec × Bool → Print Unit
        | (s, keepType) => match inColumns, s with
          | true, .value doc names type values comment =>
            valueSpec r doc names type values comment keepType
          | _, _ => r.spec s n false
      onLines (·.1.pos) print (d.specs.zip keep)
      white .unindent
      white .formFeed
    tokenAt d.rparen .rparen
  else d.specs.head?.forM (r.spec · 1 true)

def stmtRule (s : Stmt) (beforeRbrace : Bool) : Print Unit := do
  setPos s.pos
  match s with
  | .bad .. => standIn "BadStmt"
  | .decl d => r.genDecl d
  | .empty .. => return
  | .labeled label colon stmt =>
    white .unindent
    r.expr (.ident label)
    tokenAt colon .colon
    white .indent
    match stmt, beforeRbrace with
    | .empty semicolon _, false =>
      white .newline
      tokenAt semicolon .semicolon
    | .empty .., true => r.stmt stmt beforeRbrace
    | _, _ =>
      let _ ← linebreak (← line stmt.pos) 1 .ignore true
      r.stmt stmt beforeRbrace
  | .expr x => r.expr0 x 1
  | .send chan arrow value =>
    r.expr0 chan 1
    white .blank
    tokenAt arrow .arrow
    white .blank
    r.expr0 value 1
  | .incDec x tokPos tok =>
    r.expr0 x 2
    tokenAt tokPos tok
  | .assign lhs tokPos tok rhs =>
    let depth := if 1 < lhs.length && 1 < rhs.length then 2 else 1
    r.exprList s.pos lhs depth {} tokPos
    white .blank
    tokenAt tokPos tok
    white .blank
    r.exprList tokPos rhs depth {} noPos
  | .goCall _ call =>
    spaced .kwGo
    r.expr call
  | .deferCall _ call =>
    spaced .kwDefer
    r.expr call
  | .ret _ results =>
    token .kwReturn
    if !results.isEmpty then
      white .blank
      let indents ← indentsList results
      if indents then white .indent
      r.exprList noPos results 1 { noIndent := indents } noPos
      if indents then white .unindent
  | .branch _ tok label =>
    token tok
    let some l := label | pure ()
    white .blank
    r.expr (.ident l)
  | .block body => r.block body 1
  | .ifElse _ init cond body other =>
    token .kwIf
    controlClause r false init (some cond) none
    r.block body 1
    let some e := other | pure ()
    white .blank
    spaced .kwElse
    match e with
    | .block .. | .ifElse .. => r.stmt e beforeRbrace
    | _ =>
      token .lbrace
      white .indent
      white .formFeed
      r.stmt e true
      white .unindent
      white .formFeed
      token .rbrace
  | .caseClause _ list colon body =>
    if list.isEmpty then token .kwDefault
    else
      spaced .kwCase
      r.exprList s.pos list 1 {} colon
    tokenAt colon .colon
    r.stmtList body 1 beforeRbrace
  | .switch _ init tag body =>
    token .kwSwitch
    controlClause r false init tag none
    r.block body 0
  | .typeSwitch _ init subject body =>
    token .kwSwitch
    if let some i := init then
      white .blank
      r.stmt i false
      token .semicolon
    white .blank
    r.stmt subject false
    white .blank
    r.block body 0
  | .commClause _ comm colon body =>
    if let some c := comm then
      spaced .kwCase
      r.stmt c false
    else token .kwDefault
    tokenAt colon .colon
    r.stmtList body 1 beforeRbrace
  | .select _ body =>
    spaced .kwSelect
    if body.list.isEmpty && !(← commentBefore (← spot body.rbrace)) then
      tokenAt body.lbrace .lbrace
      tokenAt body.rbrace .rbrace
    else r.block body 0
  | .loop _ init cond post body =>
    token .kwFor
    controlClause r true init cond post
    r.block body 1
  | .range _ key value tokPos tok _ x body =>
    spaced .kwFor
    if let some k := key then
      r.expr k
      if let some v := value then
        setPos v.pos
        spaced .comma
        r.expr v
      white .blank
      tokenAt tokPos tok
      white .blank
    spaced .kwRange
    r.expr (headerExpr x)
    white .blank
    r.block body 1

def ofDepth : Nat → Rules
  | 0 => { expr1 := fun _ _ _ => return, stmt := fun _ _ => return }
  | n + 1 =>
    { expr1 := fun x prec depth => (ofDepth n).exprRule x prec depth
      stmt := fun s last => (ofDepth n).stmtRule s last }

def funcDecl (d : FuncDecl) : Print Unit := do
  ownComment d.doc
  setPos d.type.pos
  spaced .kwFunc
  let startColumn : Int := (← get).out.column - 5
  if let some recv := d.recv then
    r.parameters recv .func
    white .blank
  r.expr (.ident d.name)
  r.signature d.type
  let some body := d.body | return
  r.funcBody (← distanceFrom d.type.pos startColumn) .vtab body

def decl : Decl → Print Unit
  | .bad start _ => do
    setPos start
    standIn "BadDecl"
  | .gen d => r.genDecl d
  | .func d => r.funcDecl d

def declToken : Decl → Token
  | .bad .. => .illegal
  | .gen d => d.tok
  | .func _ => .kwFunc

def declDoc : Decl → Option CommentGroup
  | .bad .. => none
  | .gen d => d.doc
  | .func d => d.doc

def file (f : File) : Print Unit := do
  ownComment f.doc
  tokenAt f.package .kwPackage
  white .blank
  r.expr (.ident f.name)
  let mut prev := .illegal
  for d in f.decls do
    let tok := declToken d
    let start ← line d.pos
    let stop ← line d.stop
    if !(← atStart) then
      let least := if prev != tok || (declDoc d).isSome then 2 else 1
      let _ ← linebreak start least .ignore (tok == .kwFunc && start < stop)
    r.decl d
    prev := tok
  white .newline

end Rules

end FaultRepair.Source.Printer

namespace FaultRepair.Source

open Printer

/-- A file as text. The line table is that of the text the tree was read from. -/
def File.print (f : File) (table : LineTable) : Text :=
  let start : Printer.State :=
    { table, comments := f.comments, ownComments := f.comments.isEmpty }
  let whole : Print Unit := do
    nextComment
    (Rules.ofDepth (8 * table.size + 1024)).file f
    modify ({ · with impliedSemi := false })
    let _ ← flush { offset := infinity, line := infinity } .eof
  let final := (whole.run start).2
  Columns.trim (Columns.align
    (BuildLines.gather final.output.toList final.conditions final.oldConditions))

end FaultRepair.Source
