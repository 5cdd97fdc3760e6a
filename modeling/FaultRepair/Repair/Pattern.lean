/-
# Repair patterns

The closed catalogue of small edits that may mend a fault: shifting an index,
saturating an addition, renaming a method, and so on. A pattern looks at one node
and says what should stand in its place.

Nodes that an edit makes take their positions from the code they replace, since
comments are placed by position.
-/

import FaultRepair.Repair.Walk

namespace FaultRepair.Repair

open Source

/-- What a pattern does with an expression it matches. -/
inductive ExprEdit where
  /-- Put this in its place; its parts are not visited. -/
  | replace (x : Expr)
  /-- Put this in its place, and visit its parts. -/
  | revise (x : Expr)
  /-- Visit the parts of the operand, and put what is built from it in its place. -/
  | wrap (operand : Expr) (build : Expr → Expr)

/-- A repair pattern. With `skipsTypes` it leaves type expressions alone. With
`adds` a file it changed gets an import of that path. `descends` says that the
parts of a changed node are visited too. -/
structure Pattern where
  name : Text
  descends : Bool := false
  adds : Text := []
  skipsTypes : Bool := false
  onExpr : Role → Expr → Option ExprEdit := fun _ _ => none
  onStmt : Stmt → Option Stmt := fun _ => none

instance : Inhabited Pattern := ⟨{ name := [] }⟩

namespace Pattern

def saturatingPackage : Text := "faultfix/sat"

def number (value : Text) (pos : Pos) : Expr :=
  .lit { pos, kind := .int, value }

def isStringLit (x : Expr) : Bool :=
  match x.unparen with
  | .lit l => l.kind == .string
  | _ => false

def saturating (fn : Text) (pos rparen : Pos) (args : List Expr) : Expr :=
  .call (.selector (.ident ⟨pos, "sat"⟩) ⟨pos, fn⟩) pos args noPos rparen

/-- `0 + sat.fn(x, y)` in place of an expression with the given span. -/
def saturatingSum (fn : Text) (pos stop : Pos) (x y : Expr) : Expr :=
  .binary (number "0" pos) pos .add (saturating fn pos (stop - 1) [x, y])

/-- The saturating operation in place of an operator. -/
def saturatingName? : Token → Option Text
  | .add => some "Add"
  | .sub => some "Sub"
  | _ => none

def minusOne (x : Expr) : Expr := .binary x x.stop .sub (number "1" x.stop)

/-- `a[i]` becomes `a[i - 1]`, and `a[lo:hi]` becomes `a[(lo - 1):hi]`, where a
missing low bound becomes `0 - 0`. An instantiation in a call and a look-up by a
string are left alone. -/
def indexShift (role : Role) : Expr → Option ExprEdit
  | .index x lbrack idx rbrack =>
    if role == .callee || isStringLit idx then none
    else some (.replace (.index x lbrack (minusOne idx) rbrack))
  | .slice x lbrack low high max three rbrack =>
    let low := match low with
      | none =>
        let pos := lbrack + 1
        .binary (number "0" pos) pos .sub (number "0" pos)
      | some lo => .paren lo.pos (minusOne lo) lo.stop
    some (.replace (.slice x lbrack (some low) high max three rbrack))
  | _ => none

/-- `x + y` becomes `0 + sat.Add(x, y)` and `x - y` becomes `0 + sat.Sub(x, y)`,
unless an operand is a string literal. -/
def saturateExpr : Role → Expr → Option ExprEdit
  | _, .binary x opPos op y =>
    match saturatingName? op with
    | some fn =>
      if isStringLit x || isStringLit y then none
      else
        let whole := Expr.binary x opPos op y
        some (.replace (saturatingSum fn whole.pos whole.stop x y))
    | none => none
  | _, _ => none

/-- `x += y` becomes `x = 0 + sat.Add(x, y)`, and `x -= y` likewise. -/
def saturateStmt : Stmt → Option Stmt
  | .assign [x] tokPos tok [y] =>
    match tok.assignOperator?.bind saturatingName? with
    | some fn =>
      if isStringLit y then none
      else some (.assign [x] tokPos .assign [saturatingSum fn y.pos y.stop x y])
    | none => none
  | _ => none

/-- `x.Abs()` and `abs(x)` become `sat.Abs(x)`. -/
def saturateAbs : Role → Expr → Option ExprEdit
  | _, .call fn _ args _ rparen =>
    match fn, args with
    | .selector x sel, [] =>
      if sel.name == Text.ofString "Abs" then
        some (.wrap x fun x' => saturating "Abs" fn.pos rparen [x'])
      else none
    | .ident id, [x] =>
      if id.name == Text.ofString "abs" then
        some (.wrap x fun x' => saturating "Abs" fn.pos rparen [x'])
      else none
    | _, _ => none
  | _, _ => none

/-- A method call, taken apart. -/
structure Invocation where
  recv : Expr
  sel : Ident
  lparen : Pos
  args : List Expr
  ellipsis : Pos
  rparen : Pos

def Invocation.expr (c : Invocation) : Expr :=
  .call (.selector c.recv c.sel) c.lparen c.args c.ellipsis c.rparen

def Invocation.renamed (c : Invocation) (method : Text) : Invocation :=
  { c with sel := { c.sel with name := method } }

def Invocation.passing (c : Invocation) (args : List Expr) (ellipsis : Pos) : Invocation :=
  { c with args, ellipsis }

def methodCall? (method : Text) : Expr → Option Invocation
  | .call (.selector x sel) lparen args ellipsis rparen =>
    if sel.name == method then some ⟨x, sel, lparen, args, ellipsis, rparen⟩ else none
  | _ => none

def renameMethod (method new : Text) (_ : Role) (e : Expr) : Option ExprEdit :=
  (methodCall? method e).map fun c => .revise (c.renamed new).expr

/-- `func(params) any { return result }` with every token at one position, which
keeps it on one line. -/
def anyFunc (params : List Field) (result : Expr) (pos : Pos) : Expr :=
  .funcLit
    (.mk pos none (.mk pos params pos)
      (some (.mk noPos [.mk none [] (some (.ident ⟨pos, "any"⟩)) none none] noPos)))
    (.mk pos [.ret pos [result]] pos)

/-- A link of a chain of method calls: the receiver, the method's name, and the
arguments. -/
structure Link where
  recv : Expr
  method : Text
  args : List Expr
  ellipsis : Pos

/-- A chain of method calls, the outermost first. -/
def chain : Expr → List Link
  | .call (.selector x sel) _ args ellipsis _ => ⟨x, sel.name, args, ellipsis⟩ :: chain x
  | _ => []

/-- Split a chain before its innermost `Unwrap`: the links outside it, and its
receiver. -/
def splitUnwrap : List Link → Option (List Link × Expr)
  | [] => none
  | l :: ls =>
    match splitUnwrap ls with
    | some (outer, recv) => some (l :: outer, recv)
    | none => if l.method == Text.ofString "Unwrap" then some ([], l.recv) else none

/-- The result of a closure that unwraps: the calls after the innermost `Unwrap`
move into a closure over the unwrapped value. -/
def withoutUnwrap (result : Expr) : Option Expr :=
  (splitUnwrap (chain result)).map fun (outer, recv) =>
    if outer.isEmpty then recv
    else
      let pos := recv.stop
      let stop := result.stop
      let body := outer.reverse.foldl
        (fun body l => Expr.call (.selector body ⟨pos, l.method⟩) pos l.args l.ellipsis (stop - 1))
        (.ident ⟨pos, "a"⟩)
      let param : Field := .mk none [⟨pos, "a"⟩] (some (.ident ⟨pos, "any"⟩)) none none
      .call (.selector recv ⟨pos, "Map"⟩) pos [anyFunc [param] body pos] noPos (stop - 1)

/-- `r.Map(func(p T) R { return p.Get().Unwrap().Len() })` becomes
`r.FilterMap(func(p T) R { return p.Get().Map(func(a any) any { return a.Len() }) })`. -/
def mapToFilterMap (_ : Role) (e : Expr) : Option ExprEdit := do
  let c ← methodCall? "Map" e
  match c.args with
  | .funcLit type (.mk lbrace [.ret pos [result]] rbrace) :: rest =>
    let result ← withoutUnwrap result
    let closure := Expr.funcLit type (.mk lbrace [.ret pos [result]] rbrace)
    some (.revise ((c.renamed "FilterMap").passing (closure :: rest) c.ellipsis).expr)
  | _ => none

/-- `x.Expect(msg)` becomes `x.UnwrapOrElse(func() any { return 1 })`. -/
def expectToElse (_ : Role) (e : Expr) : Option ExprEdit :=
  (methodCall? "Expect" e).map fun c =>
    let pos := c.lparen + 1
    .revise ((c.renamed "UnwrapOrElse").passing [anyFunc [] (number "1" pos) pos] noPos).expr

/-- `x.Expect(msg)` becomes `x.UnwrapOrDefault()`. -/
def expectToDefault (_ : Role) (e : Expr) : Option ExprEdit :=
  (methodCall? "Expect" e).map fun c =>
    .revise ((c.renamed "UnwrapOrDefault").passing [] noPos).expr

/-- The statement `copy(dst, src)` becomes `dst = append(dst, src...)`. -/
def copyToExtend : Stmt → Option Stmt
  | .expr (.call (.ident fn) lparen [dst, src] ellipsis rparen) =>
    if fn.name == Text.ofString "copy" && ellipsis == noPos then
      some (.assign [dst] fn.pos .assign
        [.call (.ident ⟨fn.pos, "append"⟩) lparen [dst, src] src.stop rparen])
    else none
  | _ => none

/-- All patterns, in the order in which they are tried. -/
def catalog : List Pattern :=
  [ { name := "index-shift", skipsTypes := true, onExpr := indexShift },
    { name := "saturating-arith", adds := saturatingPackage, onExpr := saturateExpr,
      onStmt := saturateStmt },
    { name := "saturating-abs", descends := true, adds := saturatingPackage,
      onExpr := saturateAbs },
    { name := "add-as-bytes", descends := true, onExpr := renameMethod "Add" "Bytes" },
    { name := "add-as-max", descends := true, onExpr := renameMethod "Add" "Max" },
    { name := "map-to-filter-map", descends := true, onExpr := mapToFilterMap },
    { name := "expect-to-unwrap-or-else", descends := true, onExpr := expectToElse },
    { name := "expect-to-unwrap-or-default", descends := true, onExpr := expectToDefault },
    { name := "copy-to-extend", onStmt := copyToExtend } ]

def find? (name : Text) : Option Pattern := catalog.find? (·.name == name)

/-- The named patterns in catalogue order, or all of them if no name is given. -/
def select (names : List Text) : List Pattern :=
  if names.isEmpty then catalog else catalog.filter (names.contains ·.name)

end Pattern

end FaultRepair.Repair
