/-
# Types and parameter lists

The grammar is recursive through expressions, types and statements. Its rules
are written against a `Grammar`, the rules to use for parts of a phrase, and the
knot is tied once all rules are there.
-/

import FaultRepair.Source.Parser.Basic

namespace FaultRepair.Source.Parser

open Text

/-- The rules to use for the parts of a phrase. -/
structure Grammar where
  /-- A binary expression that binds at least this strongly, given its first
  operand if that has been read already. -/
  binary : Option Expr → Nat → Parse Expr
  unary : Parse Expr
  type? : Parse (Option Expr)
  /-- The braces of a composite literal after its type. -/
  literalValue : Option Expr → Parse Expr
  stmt : Parse Stmt
  ifStmt : Parse Stmt

namespace Grammar

variable (g : Grammar)

/-- An expression; it may also be a type. -/
def expr : Parse Expr := g.binary none 1

def rhs : Parse Expr := withRhs true g.expr

def exprList : Parse (List Expr) := do
  return (← g.expr) :: (← collect (pass? .comma) g.expr)

/-- A type; what cannot be one is skipped. -/
def typeOr (what : Text) (stops : List Token) : Parse Expr := do
  let some t ← g.type? | return Function.uncurry Expr.bad (← skip what stops)
  return t

def type (g : Grammar) : Parse Expr := g.typeOr "type" exprEnd

/-- A name with type arguments or an index, depending on their number. -/
def packIndex (x : Expr) (lbrack : Pos) (args : List Expr) (rbrack : Pos) : Expr :=
  match args with
  | [a] => .index x lbrack a rbrack
  | _ => .indexList x lbrack args rbrack

def typeName (known : Option Ident) : Parse Expr := do
  let id ← given known ident
  if ← pass? .period then return .selector (.ident id) (← ident) else return .ident id

def typeArgs : Parse (List Expr) :=
  nested (collectSeparated (before? .rbrack) g.type (passComma "type argument list" .rbrack))

def typeInstance (x : Expr) : Parse Expr := do
  let opening ← expect .lbrack
  let list ← g.typeArgs
  let closing ← expectClosing .rbrack "type argument list"
  if list.isEmpty then
    reportExpected closing "type argument list"
    return .index x opening (.bad (opening + 1) closing) closing
  else return packIndex x opening list closing

/-- A qualified type name, possibly with type arguments. -/
def qualified (known : Option Ident) : Parse Expr := do
  let t ← typeName known
  if ← at? .lbrack then g.typeInstance t else return t

/-- An array or slice type whose opening bracket has been passed. -/
def arrayType (g : Grammar) (lbrack : Pos) (len : Option Expr) : Parse Expr := do
  let len ← match len with
    | some e => pure (some e)
    | none => nested do
      if ← at? .ellipsis then return some (.ellipsis (← take) none)
      else if ← at? .rbrack then return none
      else return some (← g.rhs)
  if ← at? .comma then
    report (← pos) "unexpected comma; expecting ]"
    next
  let _ ← expect .rbrack
  return .arrayType lbrack len (← g.type)

/-- What follows a name before an opening bracket in a field or parameter: an
array type for that name, or type arguments of an embedded type (then there is no
name). -/
def arrayOrInstance (x : Ident) : Parse (Option Ident × Expr) := do
  let lbrack ← expect .lbrack
  let (args, trailing) ←
    if ← at? .rbrack then pure (([] : List Expr), noPos)
    else nested do
      let first ← g.rhs
      let rest ← collect (at? .comma) do
        let comma ← take
        if ← at? .rbrack then return Sum.inl comma else return Sum.inr (← g.rhs)
      return (first :: rest.filterMap Sum.getRight?, (rest.filterMap Sum.getLeft?).getLastD noPos)
  let rbrack ← expect .rbrack
  match args with
  | [] => return (some x, .arrayType lbrack none (← g.type))
  | [a] =>
    let some elt ← g.type? | return (none, packIndex (.ident x) lbrack args rbrack)
    if trailing != noPos then report trailing "unexpected comma; expecting ]"
    return (some x, .arrayType lbrack (some a) elt)
  | _ => return (none, packIndex (.ident x) lbrack args rbrack)

def fieldDecl : Parse Field := do
  let doc := (← get).leadComment
  let (names, type) ← match ← tok with
    | .ident => do
      let name ← ident
      let t ← tok
      if t == .period then pure ([], ← g.qualified (some name))
      else if t == .string || t == .semicolon || t == .rbrace then pure ([], Expr.ident name)
      else
        let more ← collect (pass? .comma) ident
        if more.isEmpty && (← at? .lbrack) then
          let (kept, type) ← g.arrayOrInstance name
          pure (kept.toList, type)
        else pure (name :: more, ← g.type)
    | .mul => do
      let star ← take
      pure ([], Expr.star star (← unwrapped (g.qualified none)))
    | .lparen => do
      pure ([], ← unwrapped do
        if ← at? .mul then return .star (← take) (← g.qualified none) else g.qualified none)
    | _ => do
      pure ([], Function.uncurry Expr.bad (← skip "field name or embedded type" exprEnd))
  let s ← get
  let tag : Option BasicLit := if s.tok == .string then some ⟨s.pos, s.tok, s.lit⟩ else none
  if tag.isSome then next
  return .mk doc names (some type) tag (← expectSemi)
where
  /-- An embedded type, without the parentheses that may stand around it. -/
  unwrapped (p : Parse Expr) : Parse Expr := do
    if !(← at? .lparen) then return (← p)
    report (← pos) "cannot parenthesize embedded type"
    next
    let t ← p
    let _ ← pass? .rparen
    return t

def enclosed (opening closing : Token) (list : Parse (List Field)) : Parse FieldList := do
  return .mk (← expect opening) (← list) (← expect closing)

def structType (g : Grammar) : Parse Expr := do
  return .structType (← expect .kwStruct) (← enclosed .lbrace .rbrace
    (collect (do let t ← tok; return t == .ident || t == .mul || t == .lparen) g.fieldDecl))

def dotsType : Parse Expr := do
  return .ellipsis (← expect .ellipsis) (some (← g.type))

def embeddedTerm : Parse Expr := do
  if ← at? .tilde then return .unary (← take) .tilde (← g.type)
  else g.typeOr "~ term or type" exprEnd

def unionLoop (g : Grammar) : Nat → Expr → Parse Expr
  | 0, x => return x
  | n + 1, x => do
    if ← at? .or then unionLoop g n (.binary x (← take) .or (← g.embeddedTerm)) else return x

/-- A union of terms, given the first one if it has been read already. -/
def embeddedElem (x : Option Expr) : Parse Expr := do
  unionLoop g (← fuel) (← given x g.embeddedTerm)

/-- A parameter as written: a name, a type, or both. -/
structure Param where
  name : Option Ident := none
  type : Option Expr := none

def startsType : List Token :=
  [.mul, .arrow, .kwFunc, .kwChan, .kwMap, .kwStruct, .kwInterface, .lparen]

/-- One parameter; type sets are allowed in type parameter lists. -/
def paramDecl (known : Option Ident) (typeSets : Bool) : Parse Param := do
  let start ← tok
  if known.isNone && typeSets && start == .tilde then
    return { type := some (← g.embeddedElem none) }
  let union (p : Param) : Parse Param := do
    let some t := p.type | return p
    if typeSets && (← at? .or) then return { p with type := some (← g.embeddedElem (some t)) }
    else return p
  if known.isSome || start == .ident then
    let name ← given known ident
    let t ← tok
    if t == .ident || startsType.contains t then
      union { name := some name, type := some (← g.type) }
    else if t == .lbrack then
      let (kept, type) ← g.arrayOrInstance name
      union { name := kept, type := some type }
    else if t == .ellipsis then return { name := some name, type := some (← g.dotsType) }
    else if t == .period then union { type := some (← g.qualified (some name)) }
    else if t == .tilde && typeSets then
      return { name := some name, type := some (← g.embeddedElem none) }
    else if t == .or && typeSets then
      return { type := some (← g.embeddedElem (some (.ident name))) }
    else return { name := some name }
  else if startsType.contains start || start == .lbrack then
    union { type := some (← g.type) }
  else if start == .ellipsis then return { type := some (← g.dotsType) }
  else
    let _ ← skip "')'" exprEnd
    return {}

def paramLoop (g : Grammar) (closing : Token) (typeSets : Bool) :
    Nat → Option Ident → Option Expr → Array Param → Parse (Array Param)
  | 0, _, _, acc => return acc
  | n + 1, name0, typ0, acc => do
    if name0.isSome || (← before? closing) then
      let par ← match typ0 with
        | some t0 =>
          if typeSets then pure { name := name0, type := some (← g.embeddedElem (some t0)) }
          else pure { name := name0, type := some t0 }
        | none => g.paramDecl name0 typeSets
      let acc := if par.name.isSome || par.type.isSome then acc.push par else acc
      if ← passComma "parameter list" closing then paramLoop g closing typeSets n none none acc
      else return acc
    else return acc

/-- Give each parameter without a type the type that follows it, from right to
left. Also returns the left-most position at which something is missing. -/
def distribute (stop : Pos) : List Param → List Param × Option Expr × Pos
  | [] => ([], none, noPos)
  | par :: rest =>
    let (rest, following, errPos) := distribute stop rest
    match par.type, par.name with
    | some t, none => ({ name := some ⟨t.pos, "_"⟩, type := some t } :: rest, some t, t.pos)
    | some t, some _ => (par :: rest, some t, errPos)
    | none, some id =>
      match following with
      | some t => ({ par with type := some t } :: rest, following, errPos)
      | none => ({ par with type := some (.bad id.pos stop) } :: rest, none, id.pos)
    | none, none => (par :: rest, following, errPos)

/-- Parameters that share a written type become one field. -/
def groupParams : List (Ident × Option Expr × Expr) → List Field
  | [] => []
  | (name, _, type) :: rest =>
    match rest, groupParams rest with
    | (_, none, _) :: _, .mk doc names t tag c :: fields =>
      .mk doc (name :: names) t tag c :: fields
    | _, fields => .mk none [name] (some type) none none :: fields

def checkDots (dddOk : Bool) : Bool → List Param → Parse (List Param)
  | _, [] => return []
  | first, par :: rest => do
    let some (.ellipsis p elt) := par.type | return par :: (← checkDots dddOk first rest)
    if !dddOk || !rest.isEmpty then
      if first then
        report p (if dddOk then "can only use ... with final parameter" else "invalid use of ...")
      let rest ← checkDots dddOk false rest
      return { par with type := some (.bad p (Expr.ellipsis p elt).stop) } :: rest
    else return par :: (← checkDots dddOk first rest)

/-- A parameter list up to its closing token, given its first name or type if
that has been read already. -/
def parameterList (name0 : Option Ident) (typ0 : Option Expr) (closing : Token)
    (dddOk : Bool) : Parse (List Field) := do
  let tparams := closing == .rbrack
  let here ← pos
  let start := match name0, typ0 with
    | some id, _ => id.pos
    | none, some t => t.pos
    | none, none => here
  let list := (← paramLoop g closing tparams (← fuel) name0 typ0 #[]).toList
  if list.isEmpty then return []
  let named := list.countP fun p => p.name.isSome && p.type.isSome
  let typed := list.countP (·.type.isSome)
  let stop ← pos
  let lonely : Text := if list.length == 1 then " or invalid array length" else []
  if named == 0 then
    let list := list.map fun p =>
      match p.name with
      | some id => { name := none, type := some (Expr.ident id) : Param }
      | none => p
    if tparams then
      if named == typed then report stop "missing type constraint"
      else report start ("missing type parameter name" ++ lonely)
    let list ← checkDots dddOk true list
    return list.filterMap fun p => p.type.map fun t => .mk none [] (some t) none none
  else
    let (full, _, errPos) := if named != list.length then distribute stop list
      else (list, none, noPos)
    if errPos != noPos then
      if tparams then
        if named == typed then report stop "missing type constraint"
        else report errPos ("missing type parameter name" ++ lonely)
      else if named == typed then report stop "missing parameter type"
      else report errPos "missing parameter name"
    let full ← checkDots dddOk true full
    -- A type written for one parameter only starts a new field.
    let marked := (list.zip full).filterMap fun (asWritten, p) =>
      match p.name, p.type with
      | some id, some t => some (id, asWritten.type, t)
      | _, _ => none
    return groupParams (shareWithNext marked)
where
  /-- Mark, for each parameter, whether it shares its type with the one before. -/
  shareWithNext : List (Ident × Option Expr × Expr) → List (Ident × Option Expr × Expr)
    | [] => []
    | p :: rest => (p.1, some p.2.2, p.2.2) :: mark p.2.1.isNone rest
  mark : Bool → List (Ident × Option Expr × Expr) → List (Ident × Option Expr × Expr)
    | _, [] => []
    | shares, p :: rest =>
      (p.1, if shares then none else some p.2.2, p.2.2) :: mark p.2.1.isNone rest

/-- Type parameters in brackets; an empty list is reported and dropped. -/
def typeParameters : Parse (Option FieldList) := do
  let fields ← enclosed .lbrack .rbrack (g.parameterList none none .rbrack false)
  if !fields.list.isEmpty then return some fields
  report fields.closing "empty type parameter list"
  return none

def parameters (dddOk : Bool) : Parse FieldList :=
  enclosed .lparen .rparen (g.parameterList none none .rparen dddOk)

/-- Results: in parentheses, or a single type, or none. -/
def results : Parse (Option FieldList) := do
  if ← at? .lparen then return some (← g.parameters false)
  let some t ← g.type? | return none
  return some (.mk noPos [.mk none [] (some t) none none] noPos)

def funcType : Parse FuncType := do
  let p ← expect .kwFunc
  if ← at? .lbrack then
    let some tparams ← g.typeParameters | pure ()
    report tparams.opening "function type must have no type parameters"
  return .mk p none (← g.parameters true) (← g.results)

/-- A method or an embedded element of an interface that starts with a name. -/
def methodSpec : Parse (Option CommentGroup × List Ident × Expr) := do
  let doc := (← get).leadComment
  let x ← typeName none
  let method (id : Ident) : Parse (Option CommentGroup × List Ident × Expr) := do
    return (doc, [id], .funcType (.mk noPos none (← g.parameters true) (← g.results)))
  match x with
  | .ident id =>
    if ← at? .lbrack then
      let lbrack ← take
      let first ← nested g.expr
      let t ← tok
      let .ident name0 := first | instanceOf doc id lbrack first
      if t != .comma && t != .rbrack then
        let _ ← g.parameterList (some name0) none .rbrack false
        let _ ← expect .rbrack
        report lbrack "interface method must have no type parameters"
        method id
      else instanceOf doc id lbrack first
    else if ← at? .lparen then method id
    else return (doc, [], x)
  | _ =>
    return (doc, [], ← if ← at? .lbrack then g.typeInstance x else pure x)
where
  instanceOf (doc : Option CommentGroup) (id : Ident) (lbrack : Pos) (first : Expr) :
      Parse (Option CommentGroup × List Ident × Expr) := do
    let rest ← if ← passComma "type argument list" .rbrack then g.typeArgs else pure []
    let rbrack ← expectClosing .rbrack "type argument list"
    return (doc, [], packIndex (.ident id) lbrack (first :: rest) rbrack)

def interfaceElem : Parse (Option Field) := do
  match ← tok with
  | .ident =>
    let (doc, names, type) ← g.methodSpec
    let type ← if names.isEmpty then g.embeddedElem (some type) else pure type
    return some (.mk doc names (some type) none (← expectSemi))
  | t =>
    let first ← if t == .tilde then pure none else g.type?
    if t != .tilde && first.isNone then return none
    let type ← g.embeddedElem first
    return some (.mk none [] (some type) none (← expectSemi))

def interfaceLoop (g : Grammar) : Nat → Array Field → Parse (List Field)
  | 0, acc => return acc.toList
  | n + 1, acc => do
    let some f ← g.interfaceElem | return acc.toList
    interfaceLoop g n (acc.push f)

def interfaceType (g : Grammar) : Parse Expr := do
  return .interfaceType (← expect .kwInterface)
    (← enclosed .lbrace .rbrace (do interfaceLoop g (← fuel) #[]))

def mapType (g : Grammar) : Parse Expr := do
  let p ← expect .kwMap
  let _ ← expect .lbrack
  let key ← g.type
  let _ ← expect .rbrack
  return .mapType p key (← g.type)

def chanType (g : Grammar) : Parse Expr := do
  let p ← pos
  if ← pass? .kwChan then
    if ← at? .arrow then return .chanType p (← take) .send (← g.type)
    return .chanType p noPos .both (← g.type)
  let arrow ← expect .arrow
  let _ ← expect .kwChan
  return .chanType p arrow .receive (← g.type)

def typeRule : Parse (Option Expr) := do
  match ← tok with
  | .ident => return some (← g.qualified none)
  | .lbrack => return some (← g.arrayType (← take) none)
  | .kwStruct => return some (← g.structType)
  | .mul => return some (.star (← take) (← g.type))
  | .kwFunc => return some (.funcType (← g.funcType))
  | .kwInterface => return some (← g.interfaceType)
  | .kwMap => return some (← g.mapType)
  | .kwChan | .arrow => return some (← g.chanType)
  | .lparen => return some (.paren (← take) (← g.type) (← expect .rparen))
  | _ => return none

end Grammar

end FaultRepair.Source.Parser
