/-
# Unwrapping in a closure

Where a closure unwraps a value and goes on with it, the calls that go on are moved into a closure
of their own, over the unwrapped value. Nothing is lost and nothing changes its order: with the
value in place of its parameter, the new closure is the chain without the `Unwrap`.

The parameter is always called `a`. An argument of the moved calls that refers to another `a` would
now refer to the parameter, so the meaning is kept exactly if there is no such argument.
-/

import FaultRepair.Proofs.Repair.Chains
import FaultRepair.Proofs.Source.Scopes

namespace FaultRepair.Repair.Pattern

open Source List

/-- `func(a any) any { return body }` -/
def overValue (body : Expr) (pos : Pos) : Expr :=
  anyFunc [.mk none [⟨pos, "a"⟩] (some (.ident ⟨pos, "any"⟩)) none none] body pos

/-- `recv.Map(func(a any) any { return body })` -/
def mapped (recv body : Expr) (pos rparen : Pos) : Expr :=
  .call (.selector recv ⟨pos, "Map"⟩) pos [overValue body pos] noPos rparen

variable (isField : Ident → Bool)

/-- No argument of the calls refers to the name. -/
def Avoids (x : Text) (calls : List MethodCall) : Prop :=
  ∀ m ∈ calls, ∀ arg ∈ m.args, arg.refersTo isField x = false

/-- Every variable that an argument of the calls refers to is still one outside of the closure. -/
def NoneCaptured (calls : List MethodCall) (closure : Expr) : Prop :=
  ∀ m ∈ calls, ∀ arg ∈ m.args, ∀ v, arg.refersTo isField v → closure.refersTo isField v

namespace Follows

variable {isField : Ident → Bool} {x : Text} {recv e : Expr} {calls : List MethodCall}

theorem refersTo_eq (h : Follows recv calls e) :
    e.refersTo isField x =
      (recv.refersTo isField x || calls.any fun m => m.args.any (Expr.refersTo isField x)) := by
  induction h with
  | nil => simp
  | snoc before sel lparen args ellipsis rparen ih =>
    rw [Expr.refersTo_methodCall, ih, any_append, Bool.or_assoc]
    simp

/-- With the receiver put in place of a name, the calls follow the receiver. -/
theorem inline {pos : Pos} (h : Follows (.ident ⟨pos, x⟩) calls e) (hcalls : Avoids isField x calls)
    (recv : Expr) : Follows recv calls (e.inline isField x recv) := by
  induction h with
  | nil =>
    rw [Expr.inline_ident]
    exact .nil
  | snoc before sel lparen args ellipsis rparen ih =>
    have hargs : args.map (·.inline isField x recv) = args := by
      rw [map_congr_left (g := id), map_id]
      intro arg harg
      exact Expr.inline_of_not_refersTo (hcalls _ mem_concat_self arg harg) recv
    rw [Expr.inline_methodCall, hargs]
    have hbefore := ih fun m hm => hcalls m (mem_append_left _ hm)
    exact hbefore.snoc sel lparen args ellipsis rparen

end Follows

theorem refersTo_overValue (x : Text) (body : Expr) (pos : Pos) :
    (overValue body pos).refersTo isField x =
      (Text.ofString "any" == x || (!(Text.ofString "a" == x) && body.refersTo isField x)) := by
  rw [overValue, anyFunc, Expr.refersTo_closure]
  congr 1
  · cases hany : Text.ofString "any" == x <;>
      simp [refsFuncType, refsFields?, refsFields, refsFieldList, refsField, refsExpr?, refsExpr,
        unlessShadowed, refuse, hany]
  · simp [FuncType.declares, FieldList.declares, FieldList.list, FuncType.typeParams,
      FuncType.params, FuncType.results, Field.names]

/-- An `a` that an argument refers to is captured, and nothing else is. -/
theorem noneCaptured_iff {isField : Ident → Bool} {body : Expr} {pos : Pos}
    {calls : List MethodCall} (h : Follows (.ident ⟨pos, "a"⟩) calls body) :
    NoneCaptured isField calls (overValue body pos) ↔ Avoids isField "a" calls := by
  constructor
  · intro hkept m hm arg harg
    cases hrefers : arg.refersTo isField "a" with
    | false => rfl
    | true =>
      have hclosure := hkept m hm arg harg "a" hrefers
      have hany : (Text.ofString "any" == Text.ofString "a") = false := by decide
      simp [refersTo_overValue, hany] at hclosure
  · intro havoids m hm arg harg v hv
    have hbody : body.refersTo isField v := by
      rw [h.refersTo_eq, Bool.or_eq_true, any_eq_true]
      exact .inr ⟨m, hm, any_eq_true.mpr ⟨arg, harg, hv⟩⟩
    have hne : Text.ofString "a" ≠ v := by
      rintro rfl
      rw [havoids m hm arg harg] at hv
      cases hv
    rw [refersTo_overValue, beq_false_of_ne hne, hbody]
    exact Bool.or_true _

/-- What follows on a value: the value itself, or else its calls in a closure over it. In the
closure are the same calls in the same order. That with the value put in place of the parameter it
is the value followed by the calls, and that none of the variables in their arguments is captured,
is the case exactly if no argument refers to an `a`. -/
structure Resumes (isField : Ident → Bool) (recv : Expr) (after : List MethodCall) (x : Expr) :
    Prop where
  alone : after = [] → x = recv
  closure : after ≠ [] → ∃ body pos rparen, x = mapped recv body pos rparen ∧
    Follows (.ident ⟨pos, "a"⟩) after body ∧
      ((Follows recv after (body.inline isField "a" recv) ∧
        NoneCaptured isField after (overValue body pos)) ↔ Avoids isField "a" after)

theorem exists_withoutUnwrap {result recv : Expr} {outer : List Link}
    (h : splitUnwrap (chain result) = some (outer, recv)) :
    ∃ result', withoutUnwrap result = some result' ∧
      Resumes isField recv (outer.map Link.call).reverse result' := by
  rw [withoutUnwrap, h, Option.map_some]
  refine ⟨_, rfl, ?_, ?_⟩
  · simp_all
  · intro hafter
    have houter : outer ≠ [] := by simpa using hafter
    dsimp only
    rw [if_neg (by simpa using houter)]
    have hbody := follows_foldl outer (.ident ⟨recv.stop, "a"⟩) recv.stop (result.stop - 1)
    refine ⟨_, recv.stop, _, rfl, hbody, ?_⟩
    rw [noneCaptured_iff hbody]
    exact and_iff_right_of_imp fun havoids => hbody.inline havoids recv

/-- A call of `Map` with a closure that unwraps becomes a call of `FilterMap`, however long the
chain is and whatever its arguments are. Its first `Unwrap` is gone, and what came after it goes on
in a closure over the unwrapped value. -/
theorem map_to_filter_map_resumes (isField : Ident → Bool) (role : Role) {c : Invocation}
    {type : FuncType} {lbrace pos rbrace : Pos} {head result : Expr} {calls : List MethodCall}
    {rest : List Expr} (hname : c.sel.name = "Map")
    (hargs : c.args = returning type lbrace pos result rbrace :: rest)
    (hresult : Follows head calls result) (hhead : isMethodCall head = false)
    (hunwrap : ∃ u ∈ calls, u.isUnwrap) :
    ∃ before u recv after result', UnwrapsAt head calls result before u recv after ∧
      Resumes isField recv after result' ∧
      mapToFilterMap role c.expr = some (.revise ((c.renamed "FilterMap").passing
        (returning type lbrace pos result' rbrace :: rest) c.ellipsis).expr) := by
  obtain ⟨before, u, recv, outer, hunwraps, hsplit⟩ := exists_unwrapsAt hresult hhead hunwrap
  obtain ⟨result', hresult', hresumes⟩ := exists_withoutUnwrap isField hsplit
  refine ⟨before, u, recv, _, result', hunwraps, hresumes, ?_⟩
  rw [mapToFilterMap_eq_some_iff]
  exact ⟨c, type, lbrace, pos, result, rbrace, rest, result', rfl, hname, hargs, hresult', rfl⟩

/-- `func(a T) T { return a }`: a closure with an `a` of its own. -/
def ownParameter : Expr :=
  .funcLit (.mk 42 none (.mk 46 [.mk none [⟨47, "a"⟩] (some (.ident ⟨49, "T"⟩)) none none] 50)
    (some (.mk noPos [.mk none [] (some (.ident ⟨52, "T"⟩)) none none] noPos)))
    (.mk 54 [.ret 56 [.ident ⟨63, "a"⟩]] 65)

/-- `p.Get(k).Unwrap().Add(func(a T) T { return a }).Len()` -/
def addThenLength : Expr :=
  .call (.selector (.call (.selector (.call (.selector (.call (.selector
    (.ident ⟨20, "p"⟩) ⟨22, "Get"⟩) 25 [.ident ⟨26, "k"⟩] noPos 27)
    ⟨29, "Unwrap"⟩) 35 [] noPos 36) ⟨38, "Add"⟩) 41 [ownParameter] noPos 66)
    ⟨68, "Len"⟩) 71 [] noPos 72

/-- `r.method(func(p T) R { return result })` -/
def onEach (method : Text) (result : Expr) : Invocation where
  recv := .ident ⟨1, "r"⟩
  sel := ⟨3, method⟩
  lparen := 6
  args := [returning
    (.mk 7 none (.mk 11 [.mk none [⟨12, "p"⟩] (some (.ident ⟨14, "T"⟩)) none none] 15)
      (some (.mk noPos [.mk none [] (some (.ident ⟨17, "R"⟩)) none none] noPos)))
    18 19 result 74]
  ellipsis := noPos
  rparen := 75

theorem add_then_length_resumes :
    ∃ calls, Follows (.ident ⟨20, "p"⟩) calls addThenLength ∧ (∃ u ∈ calls, u.isUnwrap) ∧
      Avoids (fun _ => false) "a" calls ∧
      ∃ before u recv after result',
        UnwrapsAt (.ident ⟨20, "p"⟩) calls addThenLength before u recv after ∧
        Resumes (fun _ => false) recv after result' ∧
        mapToFilterMap .plain (onEach "Map" addThenLength).expr =
          some (.revise (onEach "FilterMap" result').expr) := by
  have hfollows : Follows (.ident ⟨20, "p"⟩) _ addThenLength :=
    (((Follows.nil.snoc ⟨22, "Get"⟩ 25 _ _ _).snoc ⟨29, "Unwrap"⟩ 35 _ _ _).snoc ⟨38, "Add"⟩ 41
      _ _ _).snoc ⟨68, "Len"⟩ 71 _ _ _
  refine ⟨_, hfollows, by decide, ?_, ?_⟩
  · unfold Avoids
    decide
  · exact map_to_filter_map_resumes (c := onEach "Map" addThenLength) (fun _ => false) .plain rfl
      rfl hfollows rfl (by decide)

/-- `p.Get().Unwrap().Add(a)` -/
def addOuter : Expr :=
  .call (.selector (.call (.selector (.call (.selector (.ident ⟨20, "p"⟩)
    ⟨22, "Get"⟩) 25 [] noPos 26) ⟨28, "Unwrap"⟩) 34 [] noPos 35)
    ⟨37, "Add"⟩) 40 [.ident ⟨41, "a"⟩] noPos 42

/-- In `p.Get().Map(func(a any) any { return a.Add(a) })` the argument is no longer the `a` it
was. -/
theorem outer_argument_captured :
    ∃ recv body pos rparen,
      mapToFilterMap .plain (onEach "Map" addOuter).expr =
        some (.revise (onEach "FilterMap" (mapped recv body pos rparen)).expr) ∧
      Follows recv [⟨"Unwrap", [], noPos⟩, ⟨"Add", [.ident ⟨41, "a"⟩], noPos⟩] addOuter ∧
      ¬ NoneCaptured (fun _ => false) [⟨"Add", [.ident ⟨41, "a"⟩], noPos⟩]
        (overValue body pos) := by
  refine ⟨_, _, _, _, rfl,
    (Follows.nil.snoc ⟨28, "Unwrap"⟩ 34 [] noPos 35).snoc ⟨37, "Add"⟩ 40 _ noPos 42, ?_⟩
  intro h
  have hclosure := h _ mem_cons_self _ mem_cons_self "a" (by decide)
  cases hclosure

end FaultRepair.Repair.Pattern
