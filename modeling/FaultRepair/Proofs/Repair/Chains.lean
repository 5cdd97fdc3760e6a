/-
# Chains of method calls

An expression such as `p.Get().Unwrap().Len()` is a receiver followed by method calls. A chain is
collected from the outside in and searched from the inside out; here it is read in the order of
evaluation, and the search finds the first `Unwrap` of that order.
-/

import FaultRepair.Repair.Pattern

namespace FaultRepair.Repair.Pattern

open Source List Option

/-- A call of a method, without its receiver. -/
structure MethodCall where
  method : Text
  args : List Expr
  ellipsis : Pos

/-- The expression is the receiver followed by the calls, in the order of evaluation. -/
inductive Follows (recv : Expr) : List MethodCall → Expr → Prop
  | nil : Follows recv [] recv
  | snoc {calls : List MethodCall} {x : Expr} (before : Follows recv calls x) (sel : Ident)
      (lparen : Pos) (args : List Expr) (ellipsis rparen : Pos) :
      Follows recv (calls ++ [⟨sel.name, args, ellipsis⟩])
        (.call (.selector x sel) lparen args ellipsis rparen)

def isMethodCall : Expr → Bool
  | .call (.selector _ _) _ _ _ _ => true
  | _ => false

def MethodCall.isUnwrap (c : MethodCall) : Bool := c.method == Text.ofString "Unwrap"

/-- A link of a chain, without its receiver. -/
def Link.call (l : Link) : MethodCall := ⟨l.method, l.args, l.ellipsis⟩

theorem chain_of_not_isMethodCall {x : Expr} (h : isMethodCall x = false) : chain x = [] := by
  unfold chain
  split
  · cases h
  · rfl

namespace Follows

variable {recv x : Expr} {calls : List MethodCall}

theorem exists_append {recv' : Expr} {calls' : List MethodCall} (h : Follows recv calls x)
    (hrecv : isMethodCall recv = false) (h' : Follows recv' calls' x) :
    ∃ before, calls = before ++ calls' ∧ Follows recv before recv' := by
  induction h' generalizing calls with
  | nil => exact ⟨calls, (append_nil calls).symm, h⟩
  | snoc before' sel lparen args ellipsis rparen ih =>
    cases h with
    | nil => cases hrecv
    | snoc before => grind

/-- The links of a chain are its calls, the last one first. -/
theorem chain_eq (h : Follows recv calls x) (hrecv : isMethodCall recv = false) :
    (chain x).map Link.call = calls.reverse := by
  induction h with
  | nil => rw [chain_of_not_isMethodCall hrecv]; rfl
  | snoc before sel lparen args ellipsis rparen ih =>
    rw [chain, map_cons, ih, reverse_concat]
    rfl

end Follows

/-! ## The first `Unwrap` -/

theorem isSome_splitUnwrap_cons (l : Link) (links : List Link) :
    (splitUnwrap (l :: links)).isSome ↔ l.call.isUnwrap ∨ (splitUnwrap links).isSome := by
  rw [splitUnwrap]
  cases splitUnwrap links with
  | none => simp [MethodCall.isUnwrap, Link.call]
  | some split => simp

theorem splitUnwrap_eq_none_iff {links : List Link} :
    splitUnwrap links = none ↔ ∀ l ∈ links, l.call.isUnwrap = false := by
  induction links with
  | nil => simp [splitUnwrap]
  | cons l links ih =>
    rw [forall_mem_cons, ← ih, ← not_isSome_iff_eq_none, isSome_splitUnwrap_cons,
      not_or, Bool.not_eq_true, not_isSome_iff_eq_none]

/-- A chain is split at an `Unwrap` with none before it. -/
theorem splitUnwrap_chain {x recv : Expr} {outer : List Link}
    (h : splitUnwrap (chain x) = some (outer, recv)) :
    ∃ u : MethodCall, u.isUnwrap ∧ Follows recv (u :: (outer.map Link.call).reverse) x ∧
      splitUnwrap (chain recv) = none := by
  fun_induction chain x generalizing outer with
  | case1 x sel lparen args ellipsis rparen ih =>
    rw [splitUnwrap] at h
    cases hsplit : splitUnwrap (chain x) with
    | some split =>
      obtain ⟨outer', recv'⟩ := split
      rw [hsplit] at h
      cases h
      obtain ⟨u, hu, hfollows, hnone⟩ := ih hsplit
      refine ⟨u, hu, ?_, hnone⟩
      rw [map_cons, reverse_cons, ← cons_append]
      exact hfollows.snoc sel lparen args ellipsis rparen
    | none =>
      rw [hsplit, ite_none_right_eq_some] at h
      obtain ⟨hunwrap, heq⟩ := h
      cases heq
      exact ⟨⟨sel.name, args, ellipsis⟩, hunwrap,
        Follows.nil.snoc sel lparen args ellipsis rparen, hsplit⟩
  | case2 x => cases h

/-- The expression is a chain of calls, of which the first `Unwrap` is called on `recv`. -/
structure UnwrapsAt (head : Expr) (calls : List MethodCall) (x : Expr) (before : List MethodCall)
    (u : MethodCall) (recv : Expr) (after : List MethodCall) : Prop where
  calls_eq : calls = before ++ u :: after
  isUnwrap : u.isUnwrap
  first : ∀ m ∈ before, m.isUnwrap = false
  front : Follows head before recv
  whole : Follows recv (u :: after) x

theorem exists_unwrapsAt {head x : Expr} {calls : List MethodCall} (h : Follows head calls x)
    (hhead : isMethodCall head = false) (hunwrap : ∃ u ∈ calls, u.isUnwrap) :
    ∃ before u recv outer, UnwrapsAt head calls x before u recv (outer.map Link.call).reverse ∧
      splitUnwrap (chain x) = some (outer, recv) := by
  cases hsplit : splitUnwrap (chain x) with
  | none =>
    obtain ⟨u, hmem, hu⟩ := hunwrap
    have hchain : u ∈ (chain x).map Link.call := by
      rw [h.chain_eq hhead]
      exact mem_reverse.mpr hmem
    obtain ⟨l, hl, rfl⟩ := mem_map.mp hchain
    rw [splitUnwrap_eq_none_iff.mp hsplit l hl] at hu
    cases hu
  | some split =>
    obtain ⟨outer, recv⟩ := split
    obtain ⟨u, hu, hfollows, hnone⟩ := splitUnwrap_chain hsplit
    obtain ⟨before, hcalls, hbefore⟩ := h.exists_append hhead hfollows
    refine ⟨before, u, recv, outer, ⟨hcalls, hu, ?_, hbefore, hfollows⟩, rfl⟩
    intro m hm
    have hchain : m ∈ (chain recv).map Link.call := by
      rw [hbefore.chain_eq hhead]
      exact mem_reverse.mpr hm
    obtain ⟨l, hl, rfl⟩ := mem_map.mp hchain
    exact splitUnwrap_eq_none_iff.mp hnone l hl

/-! ## The edit -/

theorem methodCall?_eq_some_iff {method : Text} {e : Expr} {c : Invocation} :
    methodCall? method e = some c ↔ e = c.expr ∧ c.sel.name = method := by
  constructor
  · intro h
    unfold methodCall? at h
    split at h
    · rw [ite_none_right_eq_some, beq_iff_eq, some.injEq] at h
      obtain ⟨hname, rfl⟩ := h
      exact ⟨rfl, hname⟩
    · cases h
  · rintro ⟨rfl, hname⟩
    rw [Invocation.expr, methodCall?, if_pos (beq_iff_eq.mpr hname)]

/-- A closure that does nothing but return a result. -/
def returning (type : FuncType) (lbrace pos : Pos) (result : Expr) (rbrace : Pos) : Expr :=
  .funcLit type (.mk lbrace [.ret pos [result]] rbrace)

theorem mapToFilterMap_eq_some_iff (role : Role) {e : Expr} {edit : ExprEdit} :
    mapToFilterMap role e = some edit ↔
      ∃ (c : Invocation) (type : FuncType) (lbrace pos : Pos) (result : Expr) (rbrace : Pos)
        (rest : List Expr) (result' : Expr), e = c.expr ∧ c.sel.name = "Map" ∧
        c.args = returning type lbrace pos result rbrace :: rest ∧
        withoutUnwrap result = some result' ∧
        edit = .revise ((c.renamed "FilterMap").passing
          (returning type lbrace pos result' rbrace :: rest) c.ellipsis).expr := by
  constructor
  · intro h
    obtain ⟨c, hcall, hbody⟩ := bind_eq_some_iff.mp h
    obtain ⟨rfl, hname⟩ := methodCall?_eq_some_iff.mp hcall
    split at hbody
    · rename_i type lbrace pos result rbrace rest hargs
      obtain ⟨result', hresult, hedit⟩ := bind_eq_some_iff.mp hbody
      exact ⟨c, type, lbrace, pos, result, rbrace, rest, result', rfl, hname, hargs, hresult,
        (some.inj hedit).symm⟩
    · cases hbody
  · rintro ⟨c, type, lbrace, pos, result, rbrace, rest, result', rfl, hname, hargs, hresult, rfl⟩
    rw [mapToFilterMap, methodCall?_eq_some_iff.mpr ⟨rfl, hname⟩, bind_eq_bind,
      bind_some, hargs]
    dsimp only [returning]
    rw [hresult]
    rfl

/-- The calls in the new closure, on its parameter. -/
theorem follows_foldl (outer : List Link) (start : Expr) (pos rparen : Pos) :
    Follows start (outer.map Link.call).reverse
      (outer.reverse.foldl
        (fun body l => .call (.selector body ⟨pos, l.method⟩) pos l.args l.ellipsis rparen)
        start) := by
  rw [foldl_reverse]
  induction outer with
  | nil => exact .nil
  | cons l outer ih =>
    rw [map_cons, reverse_cons]
    exact ih.snoc ⟨pos, l.method⟩ pos l.args l.ellipsis rparen

end FaultRepair.Repair.Pattern
