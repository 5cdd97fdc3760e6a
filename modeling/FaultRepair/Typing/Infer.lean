/-
# Inference of type arguments

The type arguments a call of a generic function leaves out follow from the types of
its arguments and from the constraints of its type parameters.
-/

import FaultRepair.Typing.Table

namespace FaultRepair.Typing

/-- What has been found out about type parameters. -/
abbrev Bindings := List (Nat × Ty)

namespace Infer

def isLiteral (ty : Ty) : Bool := !ty.hasName && !(ty matches .iface ..)

mutual

/-- Match a type with a pattern in which type parameters stand for types. Unless
`exact`, a declared type may match by its underlying type, a channel may lose its
directions, and a type may match an interface by its methods. -/
def unify (t : Tables) (ps : List Nat) (exact : Bool) :
    Nat → Ty → Ty → Bindings → Option Bindings
  | 0, _, _, _ => none
  | fuel + 1, pat, ty, σ =>
    let direct : Option Bindings := match pat, ty with
      | .pointer a, .pointer b | .slice a, .slice b => unify t ps true fuel a b σ
      | .array n a, .array m b => if n == m then unify t ps true fuel a b σ else none
      | .map k v, .map k' v' => (unify t ps true fuel k k' σ).bind (unify t ps true fuel v v')
      | .chan d a, .chan d' b =>
        if d == d' || (!exact && (d == .both || d' == .both)) then unify t ps true fuel a b σ
        else none
      | .func as v rs, .func as' v' rs' =>
        if v == v' then
          (unifyList t ps fuel as as' σ).bind (unifyList t ps fuel rs rs')
        else none
      | .struct fs, .struct gs =>
        if fs.length == gs.length &&
            (fs.zip gs).all fun (f, g) => sameName f.name f.pkg g.name g.pkg &&
              f.embedded == g.embedded && f.tag == g.tag then
          unifyList t ps fuel (fs.map (·.type)) (gs.map (·.type)) σ
        else none
      | .iface ms _ _, .iface ns _ _ =>
        if ms.length == ns.length &&
            (ms.zip ns).all fun (m, n) => sameName m.name m.pkg n.name n.pkg then
          unifyList t ps fuel (ms.map (·.type)) (ns.map (·.type)) σ
        else none
      | .named i as, .named j bs => if i == j then unifyList t ps fuel as bs σ else none
      | .tuple as, .tuple bs => unifyList t ps fuel as bs σ
      | a, b => if a == b then some σ else none
    match pat with
    | .param i =>
      if ps.contains i then
        match σ.lookup i with
        | none => some ((i, ty) :: σ)
        | some bound =>
          if bound == ty then some σ
          else if exact then none
          else
            let rebind := some ((i, ty) :: σ.filter (·.1 != i))
            match bound, ty with
            | .chan .both a, .chan _ b => if a == b then rebind else none
            | .chan _ a, .chan .both b => if a == b then some σ else none
            | _, _ =>
              if bound.hasName && isLiteral ty && t.under bound == ty then some σ
              else if ty.hasName && isLiteral bound && t.under ty == bound then rebind
              else none
      else if pat == ty then some σ else none
    | _ =>
      if !pat.mentions (some ps) then
        if pat == ty then some σ
        else if exact then none
        else direct <|>
          if t.under pat == t.under ty || t.isInterface pat || t.isInterface ty then some σ
          else none
      else direct <|>
        if exact then none
        else if ty.hasName && isLiteral pat then unify t ps false fuel pat (t.under ty) σ
        else
          match t.under pat with
          | .iface ms _ _ => unifyMethods t ps fuel ms ty σ
          | u => if isLiteral ty && !isLiteral pat then unify t ps false fuel u ty σ else none

def unifyList (t : Tables) (ps : List Nat) : Nat → List Ty → List Ty → Bindings → Option Bindings
  | 0, _, _, _ => none
  | _, [], [], σ => some σ
  | fuel + 1, a :: as, b :: bs, σ => (unify t ps true fuel a b σ).bind (unifyList t ps fuel as bs)
  | _, _, _, _ => none

def unifyMethods (t : Tables) (ps : List Nat) : Nat → List Method → Ty → Bindings → Option Bindings
  | 0, _, _, _ => none
  | _, [], _, σ => some σ
  | fuel + 1, m :: ms, ty, σ =>
    let found := match t.lookup ty m.name m.pkg with
      | some (.method _ decl args _) => some (t.methodType decl args)
      | some (.abstract _ m' _) => some m'.type
      | _ => none
    (found.bind fun f => unify t ps true fuel m.type f σ).bind (unifyMethods t ps fuel ms ty)

end

/-- The one underlying type of a constraint, whether types with that underlying type
are meant, and whether the constraint is a single term. -/
def coreTerm (t : Tables) (p : Nat) : Option (Ty × Bool × Bool) :=
  match (t.params.getD p default).constraint with
  | .iface _ (some [x]) _ => some (x.type, x.tilde, true)
  | .iface _ (some (x :: xs)) _ =>
    if xs.all fun y => t.under y.type == t.under x.type then some (t.under x.type, true, false)
    else none
  | _ => none

def fromConstraints (t : Tables) (ps : List Nat) (σ : Bindings) : Option Bindings :=
  let step (acc : Option Bindings) (p : Nat) : Option Bindings :=
    acc.bind fun σ =>
      match coreTerm t p, σ.lookup p with
      | some (core, tilde, _), some bound =>
        let bound := if tilde && !bound.isParam then t.under bound else bound
        unify t ps false 64 core bound σ
      | some (core, tilde, single), none =>
        if single && !tilde then some ((p, core) :: σ) else some σ
      | none, some bound =>
        match (t.params.getD p default).constraint with
        | .iface ms none _ => if ms.isEmpty then some σ else unifyMethods t ps 64 ms bound σ
        | _ => some σ
      | none, none => some σ
  ps.foldl step (some σ)

def rounds (t : Tables) (ps : List Nat) : Nat → Bindings → Option Bindings
  | 0, σ => some σ
  | n + 1, σ => (fromConstraints t ps σ).bind (rounds t ps n)

/-- The type an untyped argument gives a parameter: that of the largest kind of
constant. -/
def largest (kinds : List Basic) : Option Basic := do
  let k :: ks := kinds | none
  let step (acc : Option Basic) (k : Basic) : Option Basic :=
    acc.bind fun a =>
      if a == k then some a
      else if a.isNumeric && k.isNumeric then some (if a.untypedRank > k.untypedRank then a else k)
      else none
  ks.foldl step (some k)

/-- Infer the type arguments for type parameters, given the first few of them and
the parameters with the types of their arguments. -/
def infer (t : Tables) (ps : List Nat) (given : List Ty) (args : List (Ty × Ty)) :
    Option (List Ty) := do
  let σ : Bindings := ps.zip given
  let typed := args.filter fun (_, a) => !a.isUntyped
  let step (acc : Option Bindings) (pa : Ty × Ty) : Option Bindings :=
    acc.bind fun σ => if pa.1.mentions (some ps) then unify t ps false 64 pa.1 pa.2 σ else some σ
  let σ ← typed.foldl step (some σ)
  let σ ← rounds t ps (ps.length + 1) σ
  let untyped (σ : Bindings) (p : Nat) : Option Bindings :=
    if (σ.lookup p).isSome then some σ
    else
      let kinds := args.filterMap fun (pt, a) =>
        match pt, a with
        | .param q, .basic b => if q == p && b.isUntyped && b != .untypedNil then some b else none
        | _, _ => none
      if kinds.isEmpty then some σ
      else (largest kinds).map fun k => (p, .basic k.defaultType) :: σ
  let σ ← ps.foldl (fun acc p => acc.bind (untyped · p)) (some σ)
  let σ ← rounds t ps (ps.length + 1) σ
  let args ← ps.mapM fun p => σ.lookup p
  let settle (p : Nat) (a : Ty) : Ty :=
    if a.mentions (some (ps.filter (· != p))) then (a.subst σ).subst σ else a
  return (ps.zip args).map fun (p, a) => settle p a

end Infer

end FaultRepair.Typing
