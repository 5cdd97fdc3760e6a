/-
# Calls

Calls of functions, with inference of type arguments, conversions, and calls of the
predeclared functions.
-/

import FaultRepair.Typing.TypeExpr
import FaultRepair.Typing.Operator
import FaultRepair.Typing.Infer

namespace FaultRepair.Typing

open Source

variable (r : Rules)

def valueOf (hint : Option Ty) (e : Expr) : Check Operand := do
  let x ← requireValue (← r.raw hint e)
  if x.generic.isEmpty then singleValue x else failed

def genericValueOf (hint : Option Ty) (e : Expr) : Check Operand := do
  singleValue (← requireValue (← r.raw hint e))

/-- Where the name of a function stands in an expression that denotes it. -/
def instancePos : Expr → Pos
  | .ident id => id.pos
  | .selector _ sel => sel.pos
  | .index x .. | .indexList x .. | .paren _ x _ => instancePos x
  | _ => noPos

/-- Check that type arguments satisfy the constraints of type parameters. -/
def satisfied (t : Tables) (params : List Nat) (args : List Ty) : Bool :=
  let σ := params.zip args
  σ.all fun (p, a) =>
    a.isInvalid || t.implements a ((t.params.getD p default).constraint.subst σ)

/-- A generic function with all its type arguments. -/
def instantiate (e : Expr) (x : Operand) (args : List Ty) : Check Operand := do
  recordInstance (instancePos e) args
  if !satisfied (← tables) x.generic args then fail
  return { x with type := x.type.subst (x.generic.zip args), generic := [], given := [] }

/-- A generic function where a value of a function type is expected. -/
def specialize (e : Expr) (x : Operand) (target : Option Ty) : Check Operand := do
  if x.generic.isEmpty then return x
  let t ← tables
  let some (.func ps v rs) := target.bind t.core? | failed
  let some σ := Infer.unify t x.generic true 64 x.type (.func ps v rs) (x.generic.zip x.given)
    | failed
  let some args := x.generic.mapM fun p => σ.lookup p | failed
  instantiate e x args

def passTo (e : Expr) (x : Operand) (ty : Option Ty) : Check Unit := do
  let _ ← assignTo (← specialize e x ty) ty

/-- A list of values, or the several results of one call. -/
def valueList (es : List Expr) : Check (List (Expr × Operand)) := do
  match es with
  | [e] =>
    let x ← requireValue (← r.raw none e)
    let (.value, .tuple ts) := (x.mode, x.type) | return [(e, x)]
    return ts.map fun ty => (e, .value ty)
  | es => es.mapM fun e => do return (e, ← genericValueOf r none e)

def callResult (results : List Ty) : Operand :=
  match results with
  | [] => { mode := .noValue, type := .tuple [] }
  | [ty] => .value ty
  | ts => .value (.tuple ts)

def expandParams (params : List Ty) (variadic spread : Bool) (n : Nat) : Option (List Ty) := do
  if variadic && !spread then
    let fixed := params.dropLast
    let some (.slice e) := params.getLast? | none
    if n < fixed.length then none else some (fixed ++ List.replicate (n - fixed.length) e)
  else if spread && !variadic then none
  else if params.length == n then some params
  else none

def callFunction (fn : Expr) (f : Operand) (args : List Expr) (spread : Bool) :
    Check Operand := do
  let t ← tables
  let some (.func params variadic results) := t.core? f.type | failUsing r args
  let xs ← valueList r args
  match expandParams params variadic spread xs.length with
  | none =>
    fail
    if f.generic.isEmpty then return callResult results
    return .invalid
  | some ptypes =>
    let t ← tables
    if f.generic.isEmpty then
      for ((e, x), ty) in xs.zip ptypes do
        passTo e x (some ty)
      return callResult results
    if xs.any fun (_, x) => x.isInvalid then return .invalid
    let pairs := (ptypes.zip xs).filterMap fun (ty, (_, x)) =>
      if x.generic.isEmpty then some (ty, x.type) else none
    let some targs := Infer.infer t f.generic f.given pairs | failed
    let σ := f.generic.zip targs
    recordInstance (instancePos fn) targs
    if !satisfied t f.generic targs then fail
    recordType fn (.value (f.type.subst σ))
    for ((e, x), ty) in xs.zip ptypes do
      let ty := ty.subst σ
      passTo e x (some ty)
    return callResult (results.map (Ty.subst σ))

/-- Is an expression free of calls and receive operations, so that the length of an
array it denotes is constant? -/
def isPure : Expr → Bool
  | .ident _ | .lit _ | .composite .. => true
  | .paren _ x _ | .selector x _ | .star _ x => isPure x
  | .index x _ i _ => isPure x && isPure i
  | .unary _ op x => op != .arrow && isPure x
  | _ => false

def sizeOf (t : Tables) : Nat → Ty → Nat × Nat
  | 0, _ => (8, 8)
  | fuel + 1, ty =>
    match t.under ty with
    | .basic b =>
      match b with
      | .bool | .int8 | .uint8 => (1, 1)
      | .int16 | .uint16 => (2, 2)
      | .int32 | .uint32 | .float32 => (4, 4)
      | .complex64 => (8, 4)
      | .complex128 | .string => (16, 8)
      | _ => (8, 8)
    | .slice _ => (24, 8)
    | .iface .. => (16, 8)
    | .array n e =>
      let (s, a) := sizeOf t fuel e
      (n * s, a)
    | .struct fs =>
      let step (acc : Nat × Nat) (m : Member) : Nat × Nat :=
        let (s, a) := sizeOf t fuel m.type
        let offset := (acc.1 + a - 1) / a * a
        (offset + s, max acc.2 a)
      let (size, align) := fs.foldl step (0, 1)
      ((size + align - 1) / align * align, align)
    | _ => (8, 8)

/-- An operand that counts: an integer, and not negative if constant. -/
def requireIndex (x : Operand) : Check Unit := do
  if x.isInvalid then return
  if let .const v := x.mode then
    if !v.toInt?.any (0 ≤ ·) then fail
  else if x.type.isUntyped then
    let _ ← convertUntyped x (.basic .int)
  if !x.type.isUntyped && !(← tables).allBasic Basic.isInteger x.type then fail

def isByteSlice (t : Tables) (ty : Ty) : Bool :=
  match t.core? ty with
  | some (.slice e) => t.under e == .basic .uint8
  | _ => false

def hasCore (t : Tables) (p : Ty → Bool) (ty : Ty) : Bool :=
  (t.core? ty).any p

def lengthOf (t : Tables) (b : Builtin) (e : Expr) (x : Operand) : Option Operand := do
  let u : Ty := match t.under x.type with
    | .pointer p =>
      match t.under p with
      | .array n el => .array n el
      | _ => t.under x.type
    | u => u
  let counted : Ty → Bool
    | .basic k => k.isString && b == .len
    | .array .. | .slice _ | .chan .. => true
    | .map .. => b == .len
    | _ => false
  guard (if x.type.isParam then t.allTypes counted x.type else counted u)
  match u, x.value? with
  | .array n _, _ => some (if isPure e then .const (.int n) (.basic .int) else .value (.basic .int))
  | _, some (.text s) => some (.const (.int s.length) (.basic .int))
  | _, _ => some (.value (.basic .int))

/-- The least number of arguments, and whether there may be more. -/
def arity : Builtin → Nat × Bool
  | .append | .make | .max | .min => (1, true)
  | .cap | .clear | .close | .imag | .len | .new | .panic | .real
  | .alignof | .offsetof | .sizeof | .sliceData | .stringData => (1, false)
  | .complex | .copy | .delete | .addOffset | .slice | .string => (2, false)
  | .print | .println => (0, true)
  | .recover => (0, false)

def builtinValues (b : Builtin) (args : List Expr) :
    Check (List (Expr × Operand)) :=
  match b with
  | .make | .new | .offsetof => return []
  | _ => do
    let xs ← valueList r args
    xs.mapM fun (e, x) => do
      let x ← singleValue x
      if !x.generic.isEmpty then return (e, ← failed)
      return (e, x)

def makeCall (args : List Expr) : Check Operand := do
  let t0 :: sizes := args | failed
  let ty ← r.type t0
  let xs ← sizes.mapM (valueOf r none)
  xs.forM requireIndex
  if ty.isInvalid then return .invalid
  let least := match (← tables).core? ty with
    | some (.slice _) => some 1
    | some (.map ..) | some (.chan ..) => some 0
    | _ => none
  let some k := least | failed
  if xs.length < k || xs.length > k + 1 then return (← failed)
  match xs with
  | [a, b] =>
    let (some m, some n) := (a.value?.bind (·.toInt?), b.value?.bind (·.toInt?)) | pure ()
    if m > n then fail
  | _ => pure ()
  return .value ty

def extremum (b : Builtin) (xs : List Operand) : Check Operand := do
  let step (acc x : Operand) : Check Operand := do
    if acc.isInvalid || x.isInvalid then return .invalid
    let some (a, y) ← matchOperands acc x | failed
    if !(a.type == y.type) then return (← failed)
    let (some va, some vy) := (a.value?, y.value?) | return .value a.type
    let keep := va.compare? (if b == .min then .lss else .gtr) vy == some true
    return if keep then a else y
  let t ← tables
  if xs.any fun x => !x.isInvalid && !t.allBasic Basic.isOrdered x.type then return (← failed)
  let x :: rest := xs | failed
  rest.foldlM step x

def appendCall (xs : List (Expr × Operand)) (spread : Bool) : Check Operand := do
  let t ← tables
  let (_, s) :: rest := xs | failed
  if s.isInvalid then return s
  let some (.slice e) := t.core? s.type | failed
  if spread then
    let [(_, x)] := rest | failed
    if x.isInvalid then return .value s.type
    let asString := t.under e == .basic .uint8 &&
      match t.coreString? x.type with
      | some (.basic k) => k.isString
      | _ => false
    if !asString then
      let _ ← assignTo x (some (.slice e))
    return .value s.type
  else
    for (e', x) in rest do
      passTo e' x (some e)
    return .value s.type

def offsetCall (args : List Expr) : Check Operand := do
  let [e] := args | failed
  useAll r args
  if e.unparen matches .selector .. then return .value (.basic .uintptr) else failed

def callBuiltin (b : Builtin) (lparen : Pos) (args : List Expr) (spread : Bool) :
    Check Operand := do
  if spread && b != .append then return (← failUsing r args)
  let xs ← builtinValues r b args
  let given := match b with
    | .make | .new | .offsetof => args.length
    | _ => xs.length
  let (least, more) := arity b
  if given < least || (!more && given > least) then return (← failed)
  let t ← tables
  let x0 := (xs[0]?.map (·.2)).getD Operand.invalid
  let x1 := (xs[1]?.map (·.2)).getD Operand.invalid
  let nothing := callResult []
  match b with
  | .append => appendCall xs spread
  | .len | .cap =>
    if x0.isInvalid then return .invalid
    let some x := lengthOf t b ((xs[0]?.map (·.1)).getD default) x0 | failed
    return x
  | .clear =>
    requireLanguage 21
    if x0.isInvalid then return .invalid
    if t.allTypes (· matches .map .. | .slice _) x0.type then return nothing else failed
  | .close =>
    if x0.isInvalid then return .invalid
    if hasCore t (· matches .chan .both _ | .chan .send _) x0.type then return nothing else failed
  | .complex =>
    if x0.isInvalid || x1.isInvalid then return .invalid
    let some (a, _) ← matchOperands x0 x1 | failed
    match t.under a.type with
    | .basic .float32 => return .value (.basic .complex64)
    | .basic k =>
      if k.isUntyped || k == .float64 then return .value (.basic .complex128) else failed
    | _ => failed
  | .real | .imag =>
    if x0.isInvalid then return .invalid
    match t.under x0.type with
    | .basic .complex64 => return .value (.basic .float32)
    | .basic k => if k.isNumeric then return .value (.basic .float64) else failed
    | _ => failed
  | .copy =>
    if x0.isInvalid || x1.isInvalid then return .invalid
    match t.core? x0.type, t.coreString? x1.type with
    | some (.slice e), some (.slice e') =>
      if e == e' then return .value (.basic .int) else failed
    | some (.slice _), some (.basic k) =>
      if k.isString && isByteSlice t x0.type then return .value (.basic .int) else failed
    | _, _ => failed
  | .delete =>
    if x0.isInvalid || x1.isInvalid then return .invalid
    let some (.map k _) := t.core? x0.type | failed
    let _ ← assignTo x1 (some k)
    return nothing
  | .make => makeCall r args
  | .max | .min =>
    requireLanguage 21
    extremum b (xs.map (·.2))
  | .new =>
    let [e] := args | failed
    let ty ← ordinaryType r e
    if ty.isInvalid then return .invalid
    return .value (.pointer ty)
  | .panic =>
    modify fun s => { s with panics := s.panics.insert (s.file, lparen) }
    let _ ← assignTo x0 (some .any)
    return nothing
  | .print | .println =>
    for (_, x) in xs do
      let _ ← assignTo x none
    return nothing
  | .recover => return .value .any
  | .addOffset =>
    requireIndex x1
    let _ ← assignTo x0 (some (.basic .unsafePointer))
    return .value (.basic .unsafePointer)
  | .alignof =>
    let _ ← assignTo x0 none
    return .const (.int (sizeOf t 32 (varType x0)).2) (.basic .uintptr)
  | .sizeof =>
    let _ ← assignTo x0 none
    return .const (.int (sizeOf t 32 (varType x0)).1) (.basic .uintptr)
  | .offsetof => offsetCall r args
  | .slice =>
    requireIndex x1
    let .pointer e := t.under x0.type | failed
    return .value (.slice e)
  | .sliceData =>
    let some (.slice e) := t.core? x0.type | failed
    return .value (.pointer e)
  | .string =>
    requireIndex x1
    let _ ← assignTo x0 (some (.pointer (.basic .uint8)))
    return .value (.basic .string)
  | .stringData =>
    let _ ← assignTo x0 (some (.basic .string))
    return .value (.pointer (.basic .uint8))

/-- A call, a conversion, or a call of a predeclared function. -/
def callRule (fn : Expr) (lparen : Pos) (args : List Expr) (spread : Bool) :
    Check Operand := do
  let f ← r.raw none fn
  match f.mode with
  | .invalid =>
    useAll r args
    return .invalid
  | .noValue => failUsing r args
  | .type =>
    if !f.generic.isEmpty then return (← failUsing r args)
    let [e] := args | failUsing r args
    let x ← valueOf r none e
    if x.isInvalid || f.type.isInvalid then return .invalid
    if spread || (← tables).isConstraint f.type then return (← failed)
    convert x f.type
  | .builtin b => callBuiltin r b lparen args spread
  | _ => callFunction r fn f args spread

end FaultRepair.Typing
