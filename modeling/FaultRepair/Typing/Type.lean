/-
# Types

The types of Go. Declared types and type parameters are referred to by number, so
that types are finite even where declarations are recursive; two types are
identical exactly if they are equal here up to the parts that identity ignores.
Interface types are kept flat: embedded interfaces are merged into them, and
methods are sorted.
-/

import FaultRepair.Source.Tree
import FaultRepair.Text.Letter

namespace FaultRepair.Typing

open Source (ChanDir)

/-- The predeclared types without structure, and the kinds of untyped constants. -/
inductive Basic where
  | invalid | bool
  | int | int8 | int16 | int32 | int64
  | uint | uint8 | uint16 | uint32 | uint64 | uintptr
  | float32 | float64 | complex64 | complex128
  | string | unsafePointer
  | untypedBool | untypedInt | untypedRune | untypedFloat | untypedComplex
  | untypedString | untypedNil
  deriving DecidableEq

mutual

inductive Ty where
  | basic (b : Basic)
  /-- A declared type with its type arguments. -/
  | named (id : Nat) (args : List Ty)
  | param (id : Nat)
  | pointer (elem : Ty)
  | slice (elem : Ty)
  | array (len : Nat) (elem : Ty)
  | map (key value : Ty)
  | chan (dir : ChanDir) (elem : Ty)
  | struct (fields : List Member)
  | func (params : List Ty) (variadic : Bool) (results : List Ty)
  /-- An interface: its methods, the terms its types must match (all types if there
  are none), and whether they must be comparable. -/
  | iface (methods : List Method) (terms : Option (List Term)) (comparable : Bool)
  | tuple (elems : List Ty)

structure Member where
  name : Text
  pkg : Text
  type : Ty
  embedded : Bool
  tag : Text

/-- A method of an interface, with the number of its declaration. -/
structure Method where
  name : Text
  pkg : Text
  type : Ty
  decl : Nat

/-- A term of a union; with a tilde it stands for all types with that underlying
type. -/
structure Term where
  tilde : Bool
  type : Ty

end

instance : Inhabited Ty := ⟨.basic .invalid⟩

/-- Does a name start with a capital, so that other packages can use it? -/
def isExported (name : Text) : Bool := Text.isUpperRune (Text.firstRune name).1

/-- Are two names of fields or methods the same? Names that are not exported differ
between packages. -/
def sameName (n1 p1 n2 p2 : Text) : Bool := n1 == n2 && (isExported n1 || p1 == p2)

mutual

def Ty.same : Ty → Ty → Bool
  | .basic a, .basic b => a == b
  | .named i as, .named j bs => i == j && Ty.sameList as bs
  | .param i, .param j => i == j
  | .pointer a, .pointer b => Ty.same a b
  | .slice a, .slice b => Ty.same a b
  | .array n a, .array m b => n == m && Ty.same a b
  | .map k v, .map k' v' => Ty.same k k' && Ty.same v v'
  | .chan d a, .chan d' b => d == d' && Ty.same a b
  | .struct fs, .struct gs => Member.sameList fs gs
  | .func ps v rs, .func ps' v' rs' => v == v' && Ty.sameList ps ps' && Ty.sameList rs rs'
  | .iface ms ts c, .iface ms' ts' c' =>
    c == c' && Method.sameList ms ms' &&
      match ts, ts' with
      | none, none => true
      | some as, some bs => Term.sameList as bs
      | _, _ => false
  | .tuple as, .tuple bs => Ty.sameList as bs
  | _, _ => false

def Ty.sameList : List Ty → List Ty → Bool
  | [], [] => true
  | a :: as, b :: bs => Ty.same a b && Ty.sameList as bs
  | _, _ => false

def Member.sameList : List Member → List Member → Bool
  | [], [] => true
  | .mk n p t e g :: as, .mk n' p' t' e' g' :: bs =>
    sameName n p n' p' && e == e' && g == g' && Ty.same t t' && Member.sameList as bs
  | _, _ => false

def Method.sameList : List Method → List Method → Bool
  | [], [] => true
  | .mk n p t _ :: as, .mk n' p' t' _ :: bs =>
    sameName n p n' p' && Ty.same t t' && Method.sameList as bs
  | _, _ => false

def Term.sameList : List Term → List Term → Bool
  | [], [] => true
  | .mk b t :: as, .mk b' t' :: bs => b == b' && Ty.same t t' && Term.sameList as bs
  | _, _ => false

end

instance : BEq Ty := ⟨Ty.same⟩

mutual

def Ty.subst (σ : List (Nat × Ty)) : Ty → Ty
  | .basic b => .basic b
  | .named i as => .named i (Ty.substList σ as)
  | .param i => (σ.lookup i).getD (.param i)
  | .pointer a => .pointer (Ty.subst σ a)
  | .slice a => .slice (Ty.subst σ a)
  | .array n a => .array n (Ty.subst σ a)
  | .map k v => .map (Ty.subst σ k) (Ty.subst σ v)
  | .chan d a => .chan d (Ty.subst σ a)
  | .struct fs => .struct (Member.substList σ fs)
  | .func ps v rs => .func (Ty.substList σ ps) v (Ty.substList σ rs)
  | .iface ms ts c =>
    .iface (Method.substList σ ms)
      (match ts with
        | some ts => some (Term.substList σ ts)
        | none => none) c
  | .tuple as => .tuple (Ty.substList σ as)

def Ty.substList (σ : List (Nat × Ty)) : List Ty → List Ty
  | [] => []
  | a :: as => Ty.subst σ a :: Ty.substList σ as

def Member.substList (σ : List (Nat × Ty)) : List Member → List Member
  | [] => []
  | .mk n p t e g :: as => .mk n p (Ty.subst σ t) e g :: Member.substList σ as

def Method.substList (σ : List (Nat × Ty)) : List Method → List Method
  | [] => []
  | .mk n p t d :: as => .mk n p (Ty.subst σ t) d :: Method.substList σ as

def Term.substList (σ : List (Nat × Ty)) : List Term → List Term
  | [] => []
  | .mk b t :: as => .mk b (Ty.subst σ t) :: Term.substList σ as

end

mutual

/-- Does a type mention one of these type parameters? With no list, any. -/
def Ty.mentions (ps : Option (List Nat)) : Ty → Bool
  | .basic _ => false
  | .named _ as | .tuple as => Ty.mentionsAny ps as
  | .param i => ps.all (·.contains i)
  | .pointer a | .slice a | .array _ a | .chan _ a => Ty.mentions ps a
  | .map k v => Ty.mentions ps k || Ty.mentions ps v
  | .struct fs => Member.mentionsAny ps fs
  | .func as _ rs => Ty.mentionsAny ps as || Ty.mentionsAny ps rs
  | .iface ms ts _ =>
    Method.mentionsAny ps ms ||
      match ts with
      | some ts => Term.mentionsAny ps ts
      | none => false

def Ty.mentionsAny (ps : Option (List Nat)) : List Ty → Bool
  | [] => false
  | a :: as => Ty.mentions ps a || Ty.mentionsAny ps as

def Member.mentionsAny (ps : Option (List Nat)) : List Member → Bool
  | [] => false
  | .mk _ _ t _ _ :: as => Ty.mentions ps t || Member.mentionsAny ps as

def Method.mentionsAny (ps : Option (List Nat)) : List Method → Bool
  | [] => false
  | .mk _ _ t _ :: as => Ty.mentions ps t || Method.mentionsAny ps as

def Term.mentionsAny (ps : Option (List Nat)) : List Term → Bool
  | [] => false
  | .mk _ t :: as => Ty.mentions ps t || Term.mentionsAny ps as

end

namespace Basic

def isUntyped : Basic → Bool
  | untypedBool | untypedInt | untypedRune | untypedFloat | untypedComplex | untypedString
  | untypedNil => true
  | _ => false

variable (b : Basic)

def isBoolean : Bool := b matches bool | untypedBool

def isString : Bool := b matches string | untypedString

def isUnsigned : Bool := b matches uint | uint8 | uint16 | uint32 | uint64 | uintptr

def isInteger : Basic → Bool
  | int | int8 | int16 | int32 | int64 | untypedInt | untypedRune => true
  | b => b.isUnsigned

def isFloat : Bool := b matches float32 | float64 | untypedFloat

def isComplex : Bool := b matches complex64 | complex128 | untypedComplex

def isNumeric : Bool := b.isInteger || b.isFloat || b.isComplex

def isConstType : Bool := b.isNumeric || b.isBoolean || b.isString

def isOrdered : Bool := b.isInteger || b.isFloat || b.isString

/-- The rank of untyped numeric kinds: of two, the larger is that of the result. -/
def untypedRank : Basic → Nat
  | untypedInt => 1
  | untypedRune => 2
  | untypedFloat => 3
  | untypedComplex => 4
  | _ => 0

def defaultType : Basic → Basic
  | untypedBool => bool
  | untypedInt => int
  | untypedRune => int32
  | untypedFloat => float64
  | untypedComplex => complex128
  | untypedString => string
  | b => b

/-- The least and largest value of an integer type. -/
def range? : Basic → Option (Int × Int)
  | int | int64 => some (-0x8000000000000000, 0x7FFFFFFFFFFFFFFF)
  | int8 => some (-0x80, 0x7F)
  | int16 => some (-0x8000, 0x7FFF)
  | int32 => some (-0x80000000, 0x7FFFFFFF)
  | uint | uint64 | uintptr => some (0, 0xFFFFFFFFFFFFFFFF)
  | uint8 => some (0, 0xFF)
  | uint16 => some (0, 0xFFFF)
  | uint32 => some (0, 0xFFFFFFFF)
  | _ => none

end Basic

namespace Ty

def invalid : Ty := .basic .invalid

def any : Ty := .iface [] none false

def isInvalid (ty : Ty) : Bool := ty matches .basic .invalid

def isUntyped : Ty → Bool
  | .basic b => b.isUntyped
  | _ => false

def isParam (ty : Ty) : Bool := ty matches .param _

def isPointer (ty : Ty) : Bool := ty matches .pointer _

def isNamed (ty : Ty) : Bool := ty matches .named ..

def hasName (ty : Ty) : Bool := ty matches .basic _ | .named .. | .param _

end Ty

end FaultRepair.Typing
