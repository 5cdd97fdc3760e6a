/-
# Operators

Unary and binary operators, comparisons and shifts on operands.
-/

import FaultRepair.Typing.Check

namespace FaultRepair.Typing

open Source

def binaryDefined (t : Tables) (op : Token) (ty : Ty) : Bool :=
  match op with
  | .add => t.allBasic (fun b => b.isNumeric || b.isString) ty
  | .sub | .mul | .quo => t.allBasic Basic.isNumeric ty
  | .rem | .and | .or | .xor | .andNot => t.allBasic Basic.isInteger ty
  | .land | .lor => t.allBasic Basic.isBoolean ty
  | _ => false

def mayConvert (t : Tables) (x y : Operand) : Bool :=
  if !x.type.isUntyped && !y.type.isUntyped then false
  else if t.isPlainInterface x.type || t.isPlainInterface y.type then true
  else if t.allBasic Basic.isBoolean x.type != t.allBasic Basic.isBoolean y.type then false
  else if t.allBasic Basic.isString x.type != t.allBasic Basic.isString y.type then false
  else if x.isNil || y.isNil then true
  else if (t.pointee? x.type).isSome || (t.pointee? y.type).isSome then false
  else true

/-- Give both operands one type, if that can be done. -/
def matchOperands (x y : Operand) : Check (Option (Operand × Operand)) := do
  let t ← tables
  if mayConvert t x y then
    match ← implicitly x y.type, ← implicitly y x.type with
    | some x', some y' => return some (x', y')
    | _, _ => return none
  return some (x, y)

def comparison (op : Token) (x y : Operand) : Check Operand := do
  let t ← tables
  let xy ← assignable x y.type
  let yx ← assignable y x.type
  if !(xy || yx) then return (← failed)
  let ok ←
    if op == .eql || op == .neq then
      if x.isNil || y.isNil then
        let other := if x.isNil then y else x
        if other.isNil then pure false else hasNil other.type
      else pure (t.comparable x.type && t.comparable y.type)
    else pure (t.allBasic Basic.isOrdered x.type && t.allBasic Basic.isOrdered y.type)
  if !ok then return (← failed)
  let (.const a, .const b) := (x.mode, y.mode) | return .value (.basic .untypedBool)
  let some v := a.compare? op b | failed
  return .const (.bool v) (.basic .untypedBool)

/-- The largest amount a constant may be shifted by. -/
def shiftBound : Nat := 1074

def shift (op : Token) (x y : Operand) : Check Operand := do
  let t ← tables
  let whole := (x.value?.bind (·.toInt?)).isSome
  let isInt := t.allBasic Basic.isInteger x.type
  if !(isInt || (x.type.isUntyped && whole)) then return (← failed)
  let amount := y.value?.bind (·.toInt?)
  let y ←
    if (y.mode matches .const _) && !amount.any (0 ≤ ·) then failed
    else if y.type.isUntyped then convertUntyped y (.basic .uint)
    else if t.allBasic Basic.isInteger y.type then pure y
    else failed
  if y.isInvalid then return y
  let .const v := x.mode | if isInt then return { x with mode := .value } else failed
  let .const _ := y.mode | return { x with mode := .value }
  let n := (amount.getD 0).toNat
  if n > shiftBound then return (← failed)
  let some v := v.shift? op n | failed
  checkOverflow (.const v (if isInt then x.type else .basic .untypedInt))

def binary (op : Token) (x y : Operand) : Check Operand := do
  if x.isInvalid || y.isInvalid then return .invalid
  if op matches .shl | .shr then return (← shift op x y)
  let some (x, y) ← matchOperands x y | failed
  if op matches .eql | .neq | .lss | .leq | .gtr | .geq then return (← comparison op x y)
  if !(x.type == y.type) then return (← failed)
  let t ← tables
  if !binaryDefined t op x.type then return (← failed)
  let isInt := t.allBasic Basic.isInteger x.type
  if (op matches .quo | .rem) && (x.value?.isSome || isInt) then
    if y.value?.bind (·.toRat?) == some 0 then return (← failed)
  let (.const a, .const b) := (x.mode, y.mode) | return .value x.type
  let some v := a.binary? op isInt b | failed
  checkOverflow (.const v x.type)

def unsignedBits : Ty → Option Nat
  | .basic .uint8 => some 8
  | .basic .uint16 => some 16
  | .basic .uint32 => some 32
  | .basic .uint | .basic .uint64 | .basic .uintptr => some 64
  | _ => none

/-- Apply a unary operator to a checked operand; the address of an operand can only
be taken if it has one. -/
def unary (op : Token) (isLiteral : Bool) (x : Operand) : Check Operand := do
  if x.isInvalid then return x
  let t ← tables
  match op with
  | .and =>
    if x.isVariable || isLiteral then return .value (.pointer x.type) else failed
  | .arrow =>
    let some (.chan d e) := t.core? x.type | failed
    if d == .send then failed else return { mode := .commaOk, type := e }
  | .tilde => failed
  | _ =>
    let ok := match op with
      | .add | .sub => t.allBasic Basic.isNumeric x.type
      | .xor => t.allBasic Basic.isInteger x.type
      | .not => t.allBasic Basic.isBoolean x.type
      | _ => false
    if !ok then return (← failed)
    let .const v := x.mode | return { x with mode := .value }
    let some v := v.unary? op (unsignedBits (t.under x.type)) | failed
    checkOverflow { x with mode := .const v }

def withoutTags : Ty → Ty
  | .struct fs => .struct (fs.map fun m => .mk m.name m.pkg m.type m.embedded [])
  | ty => ty

def isBytesOrRunes (t : Tables) (u : Ty) : Bool :=
  match u with
  | .slice e => (t.under e matches .basic .uint8 | .basic .int32)
  | _ => false

def convertibleTypes (t : Tables) : Nat → Ty → Ty → Bool
  | 0, _, _ => false
  | fuel + 1, v, target =>
    assignableTypes t 8 v target ||
      if v.isParam then t.allTerms v fun x => convertibleTypes t fuel x.type target
      else if target.isParam then t.allTerms target fun x => convertibleTypes t fuel v x.type
      else
        let vu := t.under v
        let tu := t.under target
        withoutTags vu == withoutTags tu ||
          match vu, tu with
          | .basic a, .basic b =>
            ((a.isInteger || a.isFloat) && (b.isInteger || b.isFloat)) ||
              (a.isComplex && b.isComplex) || (b.isString && (a.isInteger || a.isString)) ||
              (b == .unsafePointer && (a == .uintptr || a == .unsafePointer)) ||
              (a == .unsafePointer && b == .uintptr) || (a.isBoolean && b.isBoolean)
          | .basic b, u | u, .basic b =>
            (b.isString && isBytesOrRunes t u) || (b == .unsafePointer && u.isPointer)
          | .slice e, .array _ e' => e == e'
          | .slice e, .pointer p =>
            match t.under p with
            | .array _ e' => e == e'
            | _ => false
          | .pointer a, .pointer b => withoutTags (t.under a) == withoutTags (t.under b)
          | _, _ => false

/-- A number as text, where numbers that are no code point become the replacement
character. -/
def runeText (n : Int) : Text :=
  if 0 ≤ n && n ≤ 0x10FFFF then Text.ofRune n.toNat else Text.ofRune 0xFFFD

def convertConst (t : Tables) (x : Operand) (v : Value) (b : Basic) : Option Value :=
  v.represent? b <|>
    if b.isString && t.allBasic Basic.isInteger x.type then v.toInt?.map fun n => .text (runeText n)
    else none

def convert (x : Operand) (target : Ty) : Check Operand := do
  let t ← tables
  let nonConst : Check Operand := do
    let ok ←
      if x.type.isUntyped then
        if ← assignable x target then pure true
        else
          let .basic k := x.type | pure false
          pure (!x.isNil && convertibleTypes t 8 (.basic k.defaultType) target)
      else pure (convertibleTypes t 8 x.type target)
    if ok then return .value target else failed
  let some v := x.value? | nonConst
  if target.isParam then
    let ok := t.allTerms target fun y =>
      match t.under y.type with
      | .basic b => (convertConst t x v b).isSome
      | u => (v matches .text _) && isBytesOrRunes t u
    if ok then return .value target else failed
  else
    let .basic b := t.under target | nonConst
    if b.isConstType then
      let some v := convertConst t x v b | failed
      return .const v target
    else nonConst

end FaultRepair.Typing
