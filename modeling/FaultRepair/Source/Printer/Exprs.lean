/-
# Printing expressions and types

Blanks around binary operators show how tightly they bind; lists keep the
author's line breaks and align keys and values; small function bodies and struct
types stay on one line.

The rules refer to one another through a record of the two recursive rules, which
is tied up after the rules for statements.
-/

import FaultRepair.Source.Printer.State

namespace FaultRepair.Source.Printer

open Text

/-- The recursive rules: an expression under an operator of a strength at a depth,
and a statement, which may be the last one before a closing brace. -/
structure Rules where
  expr1 : Expr → (prec depth : Nat) → Print Unit
  stmt : Stmt → (beforeRbrace : Bool) → Print Unit

namespace Rules

variable (r : Rules)

variable (x : Expr)

def expr0 (depth : Nat) : Print Unit := r.expr1 x Token.lowestPrec depth

def expr : Print Unit := r.expr0 x 1

/-- The size of what an action prints, or more than the limit if it takes more or
spans lines. -/
def sizeWithin (limit : Nat) (p : Print Unit) : Print Nat := do
  let fresh : State := { table := (← get).table, normalize := false, ownComments := true }
  let whole : Print Unit := do
    p
    modify ({ · with impliedSemi := false })
    let _ ← flush { offset := infinity, line := infinity } .eof
  let text := Columns.trim (whole.run fresh).2.output.toList
  return if text.any (· == 10) || limit < text.length then limit + 1 else text.length

def exprSize (limit : Nat) : Print Nat := sizeWithin limit (r.expr x)

structure ListMode where
  commaTerm : Bool := false
  noIndent : Bool := false

/-- What is known between two elements of a list: the white space for the next line
break, the last element after a break, the last line, the last size, and the sum
of logarithms and number of sizes since the last section. -/
structure ListState where
  ws : White
  prevBreak : Int
  prevLine : Nat
  size : Nat := 0
  lnsum : Float := 0
  count : Nat := 0

def largeSize : Nat := 1000000

/-- Does a line break here end the columns? Not if the sizes before and after it
are both small, or close to the mean of the section. -/
def breaksColumns (prevSize size count : Nat) (lnsum : Float) : Bool :=
  if prevSize == 0 || size == 0 then true
  else if count == 0 || (prevSize ≤ 40 && size ≤ 40) then false
  else
    let ratio := size.toFloat / Float.exp (lnsum / count.toFloat)
    2.5 * ratio ≤ 1 || 2.5 ≤ ratio

def listElement (depth : Nat) (several placed : Bool) (st : ListState) (x : Expr)
    (i : Nat) : Print ListState := do
  let xLine ← line x.pos
  let whole ← r.exprSize x largeSize
  let size ←
    if whole ≤ largeSize && placed then
      let .keyValue key _ _ := x | pure whole
      r.exprSize key largeSize
    else pure 0
  let useFF := breaksColumns st.size size st.count st.lnsum
  let needsLinebreak := 0 < st.prevLine && st.prevLine < xLine
  let mut st := st
  if 0 < i then
    if !needsLinebreak then setPos x.pos
    token .comma
    let n ←
      if needsLinebreak then linebreak xLine 0 st.ws (useFF || st.prevBreak + 1 < i) else pure 0
    if n == 0 then white .blank else st := { st with ws := .ignore, prevBreak := i }
    if 1 < n then st := { st with lnsum := 0, count := 0 }
  match x, several && 0 < size && needsLinebreak with
  | .keyValue key colon value, true =>
    r.expr key
    tokenAt colon .colon
    white .vtab
    r.expr value
  | _, _ => r.expr0 x depth
  if 0 < size then
    st := { st with lnsum := st.lnsum + Float.log size.toFloat, count := st.count + 1 }
  return { st with prevLine := xLine, size }

/-- A list of expressions between the tokens at `prev` and `next`, either of which
may have no position. -/
def exprList (prev : Pos) (list : List Expr) (depth : Nat) (mode : ListMode)
    (next : Pos) : Print Unit := do
  let first :: _ := list | return
  let prevLine ← line prev
  let nextLine ← line next
  let firstLine ← line first.pos
  let endLine ← line ((list.getLast?.map Expr.stop).getD noPos)
  if prev != noPos && prevLine == firstLine && firstLine == endLine then
    inLine (tokenAt ·.pos .comma) (r.expr0 · depth) list
  else
    let mut st : ListState :=
      { ws := if mode.noIndent then .ignore else .indent, prevBreak := -1, prevLine }
    if prev != noPos && prevLine < firstLine then
      if 0 < (← linebreak firstLine 0 st.ws true) then
        st := { st with ws := .ignore, prevBreak := 0 }
    let placed := prev != noPos && next != noPos
    for (x, i) in list.zipIdx do
      st ← listElement r depth (1 < list.length) placed st x i
    let closes := mode.commaTerm && next != noPos && (← get).pos.line < nextLine
    if closes then token .comma
    if st.ws == .ignore && !mode.noIndent then white .unindent
    if closes then white .formFeed

def identList (names : List Ident) (indent : Bool) : Print Unit :=
  r.exprList noPos (names.map .ident) 1 { noIndent := !indent } noPos

inductive ParamMode where
  | func | funcType | typeDecl
  deriving BEq

/-- Would a name before this type read as one expression with it? -/
def combinesWithName : Expr → Bool
  | .star _ x => !x.isTypeElem
  | .binary x _ _ y => combinesWithName x && !y.isTypeElem
  | .paren _ x _ => !x.isTypeElem
  | _ => false

def typeOf (f : Field) : Expr := f.type.getD default

/-- A parameter. The white space for the next line break and the last line are passed on. -/
def param (f : Field) (i : Nat) : White × Nat → Print (White × Nat)
  | (ws, prevLine) => do
    let start ← line f.pos
    let stop ← line f.stop
    let needsLinebreak := 0 < prevLine && prevLine < start
    if 0 < i then
      if !needsLinebreak then setPos f.pos
      token .comma
    let broken ← if needsLinebreak then linebreak start 0 ws true else pure 0
    let ws := if 0 < broken then .ignore else ws
    if broken == 0 && 0 < i then white .blank
    if !f.names.isEmpty then
      r.identList f.names (ws == .indent)
      white .blank
    r.expr (typeOf f).unparen
    return (ws, stop)

def parameters (fields : FieldList) (mode : ParamMode) : Print Unit := do
  tokenAt fields.opening (if mode == .func then .lparen else .lbrack)
  if !fields.list.isEmpty then
    let (ws, prevLine) ← fields.list.zipIdx.foldlM (fun st (f, i) => r.param f i st)
      (.indent, ← line fields.opening)
    let closing ← line fields.closing
    if 0 < prevLine && prevLine < closing then
      token .comma
      let _ ← linebreak closing 0 .ignore true
    else if mode == .typeDecl && fields.count == 1 &&
        fields.list.head?.any (fun f => combinesWithName (typeOf f).unparen) then token .comma
    if ws == .ignore then white .unindent
  tokenAt fields.closing (if mode == .func then .rparen else .rbrack)

def signature (t : FuncType) : Print Unit := do
  if let some params := t.typeParams then r.parameters params .funcType
  r.parameters t.params .func
  let some results := t.results | return
  if 0 < results.count then
    white .blank
    let [.mk _ [] type _ _] := results.list | r.parameters results .func
    r.expr (type.getD default).unparen

def isShortField (list : List Field) : Print Bool := do
  let [.mk _ names type none none] := list | return false
  let namesSize := if names.all (·.name.isEmpty) then 0 else 1
  let typeSize ← r.exprSize (type.getD default) 30
  return namesSize + typeSize ≤ 30

def interfaceElem (f : Field) : Print Unit := do
  let n :: _ := f.names | r.expr (typeOf f)
  r.expr (.ident n)
  match f.type with
  | some (.funcType t) => r.signature t
  | type => type.forM r.expr

def shortField (isStruct : Bool) (f : Field) : Print Unit := do
  if isStruct then
    inLine (fun _ => token .comma) (r.expr <| .ident ·) f.names
    if !f.names.isEmpty then white .blank
    r.expr (typeOf f)
  else r.interfaceElem f

def whites (n : Nat) (w : White) : Print Unit := do
  for _ in [0:n] do white w

def structField (sep : White) (f : Field) : Print Unit := do
  ownComment f.doc
  if !f.names.isEmpty then
    r.identList f.names false
    white sep
  r.expr (typeOf f)
  if let some tag := f.tag then
    if !f.names.isEmpty && sep == .vtab then white sep
    white sep
    r.expr (.lit tag)
  if f.comment.isSome then
    if f.tag.isNone then whites (if f.names.isEmpty then 2 else 1) sep
    ownComment f.comment

def fieldList (fields : FieldList) (isStruct : Bool) : Print Unit := do
  let lbrace := fields.opening
  let rbrace := fields.closing
  let hasComments ← commentBefore (← spot rbrace)
  let oneLine := lbrace != noPos && rbrace != noPos && (← line lbrace) == (← line rbrace)
  if !hasComments && oneLine then
    let short ← isShortField r fields.list
    if fields.list.isEmpty || short then
      tokenAt lbrace .lbrace
      if let f :: _ := fields.list then
        white .blank
        shortField r isStruct f
        white .blank
      tokenAt rbrace .rbrace
      return
  white .blank
  tokenAt lbrace .lbrace
  white .indent
  if hasComments || !fields.list.isEmpty then white .formFeed
  let sep := if fields.list.length == 1 then White.blank else .vtab
  let element (f : Field) : Print Unit := do
    ownComment f.doc
    r.interfaceElem f
    ownComment f.comment
  onLines Field.pos (if isStruct then r.structField sep else element) fields.list
  white .unindent
  white .formFeed
  tokenAt rbrace .rbrace

/-- Which strengths a chain of binary operators holds, and the strength at which
operators would run together with the operand after them. -/
def operatorsIn : Expr → Bool × Bool × Nat
  | .binary x _ op y =>
    let prec := op.precedence
    let none := (false, false, 0)
    let left := match x with
      | .binary _ _ op' _ => if op'.precedence < prec then none else operatorsIn x
      | _ => none
    let right := match y with
      | .binary _ _ op' _ => if op'.precedence ≤ prec then none else operatorsIn y
      | .star .. => (false, false, if op == Token.quo then 5 else 0)
      | .unary _ op' _ =>
        match op, op' with
        | .quo, .mul | .and, .and | .and, .xor => (false, false, 5)
        | .add, .add | .sub, .sub => (false, false, 4)
        | _, _ => none
      | _ => none
    (prec == 4 || left.1 || right.1, prec == 5 || left.2.1 || right.2.1,
      max left.2.2 right.2.2)
  | _ => (false, false, 0)

/-- Operators weaker than this have blanks around them. -/
def cutoff (depth : Nat) : Nat :=
  let (has4, has5, problem) := operatorsIn x
  if 0 < problem then problem + 1
  else if has4 && has5 then (if depth == 1 then 5 else 4)
  else if depth == 1 then 6
  else 4

def strengthChange (prec : Nat) : Nat :=
  match x with
  | .binary _ _ op _ => if prec == op.precedence then 0 else 1
  | _ => 1

def lessDeep (depth : Nat) : Nat := max (depth - 1) 1

def inParens (p : Print Unit) : Print Unit := do
  token .lparen
  p
  token .rparen

def binary (whole x : Expr) (opPos : Pos) (op : Token) (y : Expr)
    (prec1 cutoff depth : Nat) : Print Unit := do
  let prec := op.precedence
  if prec < prec1 then inParens (r.expr0 whole (lessDeep depth))
  else
    let blanks := decide (prec < cutoff)
    r.expr1 x prec (depth + strengthChange x prec)
    if blanks then white .blank
    let xLine := (← get).pos.line
    let yLine ← line y.pos
    tokenAt opPos op
    let broken ←
      if xLine != yLine && 0 < xLine && 0 < yLine then linebreak yLine 1 .indent true
      else pure 0
    if blanks && broken == 0 then white .blank
    r.expr1 y (prec + 1) (depth + 1)
    if 0 < broken then white .unindent

def cutLastByte (b : UInt8) (t new : Text) : Option Text :=
  (cutLastAt? b t).map fun (before, after) => before ++ new ++ after

/-- A number in lower case, and an imaginary integer without leading zeros. -/
def normalizedNumber (l : BasicLit) : BasicLit :=
  match l.kind with
  | .int | .float | .imag =>
    let x := l.value
    let hexPoint (t : Text) : Text := (cutLastByte (byte 'P') t "p").getD t
    let value : Text :=
      match x with
      | a :: b :: rest =>
        if a == 48 && (b == byte 'X' || b == byte 'x') then hexPoint ("0x" ++ rest)
        else if a == 48 && (b == byte 'O' || b == byte 'o') then "0o" ++ rest
        else if a == 48 && (b == byte 'B' || b == byte 'b') then "0b" ++ rest
        else
          (cutLastByte (byte 'E') x "e").getD <|
            if x.getLast? == some (byte 'i') && !x.any (fun c => c == 46 || c == byte 'e') then
              let t := x.dropWhile fun c => c == 48 || c == byte '_'
              if t == [byte 'i'] then "0i" else t
            else x
      | _ => x
    { l with value }
  | _ => l

/-- A selector; the result says whether its name stands on a new, indented line.
For a method the indentation is kept for the arguments. -/
def selector (sel : Ident) (depth : Nat) (isMethod : Bool) :
    Print Bool := do
  r.expr1 x Token.highestPrec depth
  token .period
  let selLine ← line sel.pos
  let pos := (← get).pos
  let broken := 0 < pos.line && pos.line < selLine
  if broken then
    white .indent
    white .newline
  setPos sel.pos
  name sel
  if broken && !isMethod then white .unindent
  return broken

def sliceIndices (r : Rules) (blanks : Bool) (depth : Nat) :
    Option (Option Expr) → List (Option Expr) → Print Unit
  | _, [] => return
  | prev, x :: xs => do
    if let some p := prev then
      if p.isSome && blanks then white .blank
      token .colon
      if x.isSome && blanks then white .blank
    x.forM (r.expr0 · (depth + 1))
    sliceIndices r blanks depth (some x) xs

def stmtSize (s : Stmt) (limit : Nat) : Print Nat :=
  sizeWithin limit do
    if s matches .labeled .. then modify ({ · with indent := 1 })
    r.stmt s false

/-- The size of a body, which is too large if it spans lines or holds more than
five statements. -/
def bodySize (b : Block) (limit : Nat) : Print Nat := do
  if b.lbrace != noPos && b.rbrace != noPos && (← line b.lbrace) != (← line b.rbrace) then
    return limit + 1
  if 5 < b.list.length then return limit + 1
  let mut size ← commentSizeBefore (← spot b.rbrace)
  for (s, i) in b.list.zipIdx do
    if size ≤ limit then size := size + (if i == 0 then 0 else 2) + (← r.stmtSize s limit)
  return size

def labelCount : Stmt → Nat
  | .labeled _ _ s => labelCount s + 1
  | _ => 0

def stmtList (list : List Stmt) (nindent : Nat) (beforeRbrace : Bool) :
    Print Unit := do
  if 0 < nindent then white .indent
  let k ← newMark
  for (s, i) in (list.filter fun s => !(s matches .empty ..)).zipIdx do
    if !(← atStart) then
      let moved ← movedSince k
      let _ ← linebreak (← line s.pos) 1 .ignore (i == 0 || nindent == 0 || moved)
    mark k
    r.stmt s (beforeRbrace && i + 1 == list.length)
    for _ in [0:labelCount s] do bumpMark k
  if 0 < nindent then white .unindent

def block (b : Block) (nindent : Nat) : Print Unit := do
  tokenAt b.lbrace .lbrace
  r.stmtList b.list nindent true
  let _ ← linebreak (← line b.rbrace) 1 .ignore true
  tokenAt b.rbrace .rbrace

def toggleLiteralEnd (extraBlank : Bool) : Print Unit := modify fun s =>
  { s with
    noExtraLinebreak := !s.noExtraLinebreak
    noExtraBlank := s.noExtraBlank != extraBlank }

/-- A function body after a header of some size: on the same line if both are
short. -/
def funcBody (headerSize : Nat) (sep : White) (b : Block) : Print Unit := do
  let level := (← get).level
  modify ({ · with level := 0 })
  let size ← bodySize r b 100
  if headerSize + size ≤ 100 then
    white sep
    tokenAt b.lbrace .lbrace
    if !b.list.isEmpty then
      white .blank
      inLine (fun _ => token .semicolon) (fun (s, i) => r.stmt s (i + 1 == b.list.length))
        b.list.zipIdx
      white .blank
    toggleLiteralEnd false
    tokenAt b.rbrace .rbrace
    toggleLiteralEnd false
  else
    if sep != .ignore then white .blank
    r.block b 1
  modify ({ · with level })

/-- The number of columns written since a column, if no line was broken since a
source position. -/
def distanceFrom (start : Pos) (startColumn : Int) : Print Nat := do
  let startLine ← line start
  let s ← get
  if start != noPos && s.pos.line != 0 && startLine == s.pos.line then
    return ((s.out.column : Int) - startColumn).toNat
  return infinity

/-- An operand with something between brackets after it. -/
def bracketed (lbrack rbrack : Pos) (p : Print Unit) : Print Unit := do
  r.expr1 x Token.highestPrec 1
  tokenAt lbrack .lbrack
  p
  tokenAt rbrack .rbrack

def exprRule (prec1 depth : Nat) : Print Unit := do
  setPos x.pos
  match x with
  | .bad .. => standIn "BadExpr"
  | .ident id => name id
  | .binary a opPos op b =>
    let depth := max depth 1
    binary r x a opPos op b prec1 (cutoff x depth) depth
  | .keyValue key colon value =>
    r.expr key
    tokenAt colon .colon
    white .blank
    r.expr value
  | .star _ y =>
    let whole : Print Unit := do
      token .mul
      r.expr y
    if Token.unaryPrec < prec1 then inParens whole else whole
  | .unary _ op y =>
    if Token.unaryPrec < prec1 then inParens (r.expr x)
    else
      token op
      if op == .kwRange then white .blank
      r.expr1 y Token.unaryPrec depth
  | .lit l => literal (if (← get).normalize then normalizedNumber l else l)
  | .funcLit type body =>
    tokenAt type.start .kwFunc
    let startColumn : Int := (← get).out.column - 4
    r.signature type
    r.funcBody (← distanceFrom type.start startColumn) .blank body
  | .paren _ y rparen =>
    if y matches .paren .. then r.expr0 y depth
    else
      token .lparen
      r.expr0 y (lessDeep depth)
      tokenAt rparen .rparen
  | .selector y sel => let _ ← selector r y sel depth false
  | .typeAssert y lparen type rparen =>
    r.expr1 y Token.highestPrec depth
    token .period
    tokenAt lparen .lparen
    if let some t := type then r.expr t else token .kwType
    tokenAt rparen .rparen
  | .index y lbrack idx rbrack => r.bracketed y lbrack rbrack (r.expr0 idx (depth + 1))
  | .indexList y lbrack idxs rbrack =>
    r.bracketed y lbrack rbrack (r.exprList lbrack idxs (depth + 1) { commaTerm := true } rbrack)
  | .slice y lbrack low high max _ rbrack =>
    let indices := [low, high] ++ (if max.isSome then [max] else [])
    let blanks := depth ≤ 1 && 1 < indices.countP (·.isSome) &&
      indices.any (· matches some (.binary ..))
    r.bracketed y lbrack rbrack (sliceIndices r blanks depth none indices)
  | .call fn lparen args ellipsis rparen =>
    let depth := if 1 < args.length then depth + 1 else depth
    let paren := fn matches .funcType .. | .chanType _ _ .receive _
    if paren then token .lparen
    let indented ← match fn with
      | .selector y sel => selector r y sel depth true
      | _ => do
        r.expr1 fn Token.highestPrec depth
        pure false
    if paren then token .rparen
    tokenAt lparen .lparen
    if ellipsis != noPos then
      r.exprList lparen args depth {} ellipsis
      tokenAt ellipsis .ellipsis
      if rparen != noPos && (← line ellipsis) < (← line rparen) then
        token .comma
        white .formFeed
    else r.exprList lparen args depth { commaTerm := true } rparen
    tokenAt rparen .rparen
    if indented then white .unindent
  | .composite type lbrace elts rbrace =>
    type.forM (r.expr1 · Token.highestPrec depth)
    modify fun s => { s with level := s.level + 1 }
    tokenAt lbrace .lbrace
    r.exprList lbrace elts 1 { commaTerm := true } rbrace
    white .indent
    white .unindent
    toggleLiteralEnd !elts.isEmpty
    tokenAt rbrace .rbrace
    toggleLiteralEnd !elts.isEmpty
    modify fun s => { s with level := s.level - 1 }
  | .ellipsis _ elt =>
    token .ellipsis
    elt.forM r.expr
  | .arrayType _ len elt =>
    token .lbrack
    len.forM r.expr
    token .rbrack
    r.expr elt
  | .structType _ fields =>
    token .kwStruct
    r.fieldList fields true
  | .funcType type =>
    token .kwFunc
    r.signature type
  | .interfaceType _ methods =>
    token .kwInterface
    r.fieldList methods false
  | .mapType _ key value =>
    token .kwMap
    token .lbrack
    r.expr key
    token .rbrack
    r.expr value
  | .chanType _ arrow dir value =>
    if dir == .receive then token .arrow
    token .kwChan
    if dir == .send then tokenAt arrow .arrow
    white .blank
    r.expr value

end Rules

end FaultRepair.Source.Printer
