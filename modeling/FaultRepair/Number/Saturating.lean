/-
# Saturating arithmetic

Integer arithmetic on machine words that stops at the bounds of the type instead of
wrapping around. The operations are those of words, with the overflow recognised
from the signs or the order of the operands and the result.
-/

namespace FaultRepair.Number

/-- An integer type: its width in bits, and whether it has negative values. -/
structure IntKind where
  width : Nat
  signed : Bool
  deriving Inhabited

namespace IntKind

abbrev Word (k : IntKind) : Type := BitVec k.width

variable (k : IntKind)

def value (x : k.Word) : Int := if k.signed then x.toInt else x.toNat

/-- The word for a number, taken modulo the size of the type. -/
def word (n : Int) : k.Word := BitVec.ofInt k.width n

def less (x y : k.Word) : Bool := if k.signed then x.slt y else x.ult y

def bounds : k.Word × k.Word :=
  if k.signed then
    let lo : k.Word := 1#k.width <<< (k.width - 1)
    (lo, ~~~lo)
  else (0#k.width, ~~~0#k.width)

def isNegative (x : k.Word) : Bool := k.less x (0#k.width)
def isPositive (x : k.Word) : Bool := k.less (0#k.width) x

def add (x y : k.Word) : k.Word :=
  let (lo, hi) := k.bounds
  let s := x + y
  if !k.signed then (if k.less s x then hi else s)
  else if k.isPositive x && k.isPositive y && k.isNegative s then hi
  else if k.isNegative x && k.isNegative y && !k.isNegative s then lo
  else s

def sub (x y : k.Word) : k.Word :=
  let (lo, hi) := k.bounds
  let d := x - y
  if !k.signed then (if k.less x y then lo else d)
  else if !k.isNegative x && k.isNegative y && k.isNegative d then hi
  else if k.isNegative x && k.isPositive y && !k.isNegative d then lo
  else d

/-- The absolute value; that of the smallest word is the largest. -/
def abs (x : k.Word) : k.Word :=
  let (lo, hi) := k.bounds
  if !k.signed || !k.isNegative x then x
  else if x == lo then hi
  else -x

end IntKind

def IntKind.ofName? : String → Option IntKind
  | "int" | "int64" => some ⟨64, true⟩
  | "int8" => some ⟨8, true⟩
  | "int16" => some ⟨16, true⟩
  | "int32" => some ⟨32, true⟩
  | "uint" | "uint64" | "uintptr" => some ⟨64, false⟩
  | "uint8" => some ⟨8, false⟩
  | "uint16" => some ⟨16, false⟩
  | "uint32" => some ⟨32, false⟩
  | _ => none

end FaultRepair.Number
