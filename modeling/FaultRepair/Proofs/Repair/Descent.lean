/-
# The patterns that descend

All patterns that walk on in what they have changed keep the laws of `Orderly`. Most of them look
no further than the name that is called. The pattern `map-to-filter-map` also looks for an
`Unwrap` in the result of a closure, down a chain of method calls of any length; what it sees of a
part is whether there is one.
-/

import FaultRepair.Proofs.Repair.Chains
import FaultRepair.Proofs.Repair.Settling

namespace FaultRepair.Repair

open Source List Option
open Node (expr)

/-! ## Names -/

namespace Node

/-- The function or the method that a node names, as the function of a call. -/
def called : Node → Option (Text ⊕ Text)
  | .expr _ (.ident id) => some (.inl id.name)
  | .expr _ (.selector _ sel) => some (.inr sel.name)
  | _ => none

theorem called_parts (e : Visitor Id) (n : Node) : (e.parts n).called = n.called := by
  cases n with
  | expr role x => cases x <;> rfl
  | _ => rfl

end Node

variable (role : Role) (fn : Expr) (lparen : Pos) (args : List Expr) (ellipsis rparen : Pos)

namespace Pattern

theorem isSome_methodCall?_iff (method : Text) :
    (methodCall? method (.call fn lparen args ellipsis rparen)).isSome ↔
      (expr .callee fn).called = some (.inr method) := by
  cases fn with
  | selector x sel => simp [methodCall?, Node.called]
  | _ => simp [methodCall?, Node.called]

/-- What a pattern sees of a call does not change if its parts keep what they call. -/
theorem isSome_methodCall?_parts {e : Visitor Id} {x : Expr} (method : Text)
    (h : ∀ c ∈ inExpr x, (e.node c).called = c.called) :
    (methodCall? method (e.exprParts x).run).isSome = (methodCall? method x).isSome := by
  cases x with
  | call fn lparen args ellipsis rparen =>
    have hfn : (expr .callee (e.expr .callee fn).run).called =
        (expr .callee fn).called :=
      h (.expr .callee fn) mem_cons_self
    have hparts := isSome_methodCall?_iff (e.expr .callee fn).run lparen (e.exprs args).run
      ellipsis rparen method
    rw [hfn, ← isSome_methodCall?_iff fn lparen args ellipsis rparen] at hparts
    exact Bool.eq_iff_iff.mpr hparts
  | _ => rfl

/-! ## Renamed methods -/

/-- Where calls of one method are turned into calls of another, not heavier, the pattern is
orderly. -/
theorem orderly_of_methodCall {p : Pattern} {method new : Text} {args : Invocation → List Expr}
    {ellipsis : Invocation → Pos} (hskips : p.skipsTypes = false) (hstmt : ∀ s, p.onStmt s = none)
    (honExpr : ∀ role x, p.onExpr role x = (methodCall? method x).map fun c =>
      .revise ((c.renamed new).passing (args c) (ellipsis c)).expr)
    (hne : new ≠ method)
    (hweight : ∀ c, roomFor new + exprsWeight (args c) ≤ roomFor method + exprsWeight c.args) :
    p.Orderly false Node.called where
  skipsTypes := hskips
  onStmt := hstmt
  call role x h := by
    rw [honExpr, isSome_map] at h
    obtain ⟨c, hc⟩ := isSome_iff_exists.mp h
    exact ⟨_, _, _, _, _, (methodCall?_eq_some_iff.mp hc).1⟩
  edits role x edit h := by
    rw [honExpr, map_eq_some_iff] at h
    obtain ⟨c, -, hc⟩ := h
    exact .inr ⟨rfl, _, hc.symm⟩
  view_parts e n _ := Node.called_parts e n
  onExpr_parts e role x h := by
    rw [honExpr, honExpr, isSome_map, isSome_map]
    exact isSome_methodCall?_parts method h
  revise role x y h := by
    rw [honExpr, map_eq_some_iff] at h
    obtain ⟨c, hc, hy⟩ := h
    obtain ⟨rfl, hname⟩ := methodCall?_eq_some_iff.mp hc
    cases hy
    refine ⟨rfl, rfl, ?_, ?_⟩
    · have := hweight c
      simp only [Invocation.expr, Invocation.passing, Invocation.renamed, exprWeight, hname]
      omega
    · rw [honExpr, map_eq_none_iff]
      simp [Invocation.expr, Invocation.passing, Invocation.renamed, methodCall?, hne]
  wrap role x operand build h := by
    rw [honExpr, map_eq_some_iff] at h
    obtain ⟨c, -, hc⟩ := h
    cases hc

theorem orderly_renameMethod {name method new : Text} (hne : new ≠ method)
    (hroom : roomFor new ≤ roomFor method) :
    Orderly { name, descends := true, onExpr := renameMethod method new } false Node.called :=
  orderly_of_methodCall rfl (fun _ => rfl) (fun _ _ => rfl) hne fun _ =>
    Nat.add_le_add_right hroom _

theorem exprWeight_anyFunc (params : List Field) (result : Expr) (pos : Pos) :
    exprWeight (anyFunc params result pos) = fieldListWeight params + exprWeight result + 6 := by
  simp only [anyFunc, exprWeight, funcTypeWeight, optFieldsWeight, fieldsWeight, fieldListWeight,
    fieldWeight, optExprWeight, blockWeight, stmtsWeight, stmtWeight, exprsWeight]
  omega

theorem orderly_expectToElse {name : Text} :
    Orderly { name, descends := true, onExpr := expectToElse } false Node.called :=
  orderly_of_methodCall rfl (fun _ => rfl) (fun _ _ => rfl) (by decide) fun c => by
    have hroom : roomFor "UnwrapOrElse" = 0 ∧ roomFor "Expect" = 8 := by decide
    simp only [exprsWeight, exprWeight_anyFunc, fieldListWeight, number, exprWeight, hroom]
    omega

theorem orderly_expectToDefault {name : Text} :
    Orderly { name, descends := true, onExpr := expectToDefault } false Node.called :=
  orderly_of_methodCall rfl (fun _ => rfl) (fun _ _ => rfl) (by decide) fun c => by
    have hroom : roomFor "UnwrapOrDefault" ≤ roomFor "Expect" := by decide
    exact Nat.add_le_add hroom (Nat.zero_le _)

/-! ## Absolute values -/

section

variable {P : Node → Prop} {role fn lparen args ellipsis rparen}

theorem holds_call :
    (expr role (.call fn lparen args ellipsis rparen)).Holds P ↔
      P (.expr role (.call fn lparen args ellipsis rparen)) ∨ (expr .callee fn).Holds P ∨
        ∃ a ∈ args, (expr .plain a).Holds P := by
  rw [Node.holds_iff]
  simp [Node.parts, inExpr]

theorem holds_selector {x : Expr} {sel : Ident} :
    (expr role (.selector x sel)).Holds P ↔
      P (.expr role (.selector x sel)) ∨ (expr .plain x).Holds P := by
  rw [Node.holds_iff]
  simp [Node.parts, inExpr]

theorem holds_ident {id : Ident} :
    (expr role (.ident id)).Holds P ↔ P (.expr role (.ident id)) := by
  rw [Node.holds_iff]
  simp [Node.parts, inExpr]

end

/-- The operand of an absolute value, which is written as `x.Abs()` or as `abs(x)`. -/
def absOperand? : Expr → Option Expr
  | .call (.selector x sel) _ [] _ _ => if sel.name == Text.ofString "Abs" then some x else none
  | .call (.ident id) _ [x] _ _ => if id.name == Text.ofString "abs" then some x else none
  | _ => none

theorem saturateAbs_eq_some {role : Role} {e : Expr} {edit : ExprEdit}
    (h : saturateAbs role e = some edit) :
    ∃ fn lparen args ellipsis rparen x, e = .call fn lparen args ellipsis rparen ∧
      absOperand? e = some x ∧ edit = .wrap x (fun y => saturating "Abs" fn.pos rparen [y]) ∧
        ((∃ sel, fn = .selector x sel ∧ args = []) ∨ (∃ id, fn = .ident id ∧ args = [x])) := by
  unfold saturateAbs at h
  split at h
  · split at h
    · rename_i x sel
      rw [ite_none_right_eq_some, some.injEq] at h
      exact ⟨_, _, _, _, _, x, rfl, if_pos h.1, h.2.symm, .inl ⟨sel, rfl, rfl⟩⟩
    · rename_i id x
      rw [ite_none_right_eq_some, some.injEq] at h
      exact ⟨_, _, _, _, _, x, rfl, if_pos h.1, h.2.symm, .inr ⟨id, rfl, rfl⟩⟩
    · cases h
  · cases h

theorem isSome_saturateAbs (e : Expr) :
    (saturateAbs role e).isSome = (absOperand? e).isSome := by
  cases e with
  | call fn lparen args ellipsis rparen =>
    cases fn with
    | selector x sel =>
      cases args with
      | nil => by_cases h : sel.name = "Abs" <;> simp [saturateAbs, absOperand?, h]
      | cons => rfl
    | ident id =>
      cases args with
      | nil => rfl
      | cons x rest =>
        cases rest with
        | nil => by_cases h : id.name = "abs" <;> simp [saturateAbs, absOperand?, h]
        | cons => rfl
    | _ => rfl
  | _ => rfl

theorem isSome_saturateAbs_iff :
    (saturateAbs role (.call fn lparen args ellipsis rparen)).isSome ↔
      (expr .callee fn).called = some (.inr "Abs") ∧ args.length = 0 ∨
        (expr .callee fn).called = some (.inl "abs") ∧ args.length = 1 := by
  cases fn with
  | selector x sel => cases args <;> simp [saturateAbs, Node.called]
  | ident id =>
    cases args with
    | nil => simp [saturateAbs, Node.called]
    | cons a args => cases args <;> simp [saturateAbs, Node.called]
  | _ => simp [saturateAbs, Node.called]

theorem not_of_saturateAbs {P : Node → Prop} {role : Role} {x : Expr}
    (hP : ∀ n, P n → ∃ role x, n = .expr role x ∧ (saturateAbs role x).isSome)
    (hx : saturateAbs role x = none) : ¬ P (.expr role x) := by grind

theorem orderly_saturateAbs {name adds : Text} :
    Orderly { name, descends := true, adds, onExpr := saturateAbs } true Node.called where
  skipsTypes := rfl
  onStmt _ := rfl
  call role x h := by
    obtain ⟨edit, hedit⟩ := isSome_iff_exists.mp h
    grind [saturateAbs_eq_some]
  edits role x edit h := by grind [saturateAbs_eq_some]
  view_parts e n _ := Node.called_parts e n
  onExpr_parts e role x h := by
    cases x with
    | call fn lparen args ellipsis rparen =>
      have hfn : (expr .callee (e.expr .callee fn).run).called =
          (expr .callee fn).called :=
        h (.expr .callee fn) mem_cons_self
      have hargs : (e.exprs args).run.length = args.length := by simp
      have hparts := isSome_saturateAbs_iff role (e.expr .callee fn).run lparen (e.exprs args).run
        ellipsis rparen
      rw [hfn, hargs, ← isSome_saturateAbs_iff role fn lparen args ellipsis rparen] at hparts
      exact Bool.eq_iff_iff.mpr hparts
    | _ => rfl
  revise role x y h := by
    obtain ⟨_, _, _, _, _, _, -, -, hedit, -⟩ := saturateAbs_eq_some h
    cases hedit
  wrap role x operand build h := by
    obtain ⟨fn, lparen, args, ellipsis, rparen, x, rfl, -, hedit, hways⟩ := saturateAbs_eq_some h
    cases hedit
    refine ⟨?_, ?_, fun y => ⟨rfl, rfl, rfl, ?_⟩⟩
    · grind [exprWeight, exprsWeight]
    · intro P hP
      rw [holds_call]
      apply or_congr_right
      obtain ⟨sel, rfl, rfl⟩ | ⟨id, rfl, rfl⟩ := hways
      · have hselector : ¬ P (.expr .callee (.selector operand sel)) := not_of_saturateAbs hP rfl
        simp [holds_selector, hselector]
      · have hident : ¬ P (.expr .callee (.ident id)) := not_of_saturateAbs hP rfl
        simp [holds_ident, hident]
    · intro P hP
      have hselector : ∀ x sel, ¬ P (.expr .callee (.selector x sel)) :=
        fun x sel => not_of_saturateAbs hP rfl
      have hident : ∀ id, ¬ P (.expr .plain (.ident id)) := fun id => not_of_saturateAbs hP rfl
      simp [saturating, holds_call, holds_selector, holds_ident, hselector, hident]

end Pattern

/-! ## Chains -/

namespace Node

open Pattern

/-- Is there an `Unwrap` in the chain of calls? -/
def unwraps : Node → Bool
  | .expr _ x => (splitUnwrap (chain x)).isSome
  | _ => false

/-- Does that which is selected from, or that which is returned, unwrap? -/
def unwrapsWithin : Node → Bool
  | .expr _ (.selector x _) => (splitUnwrap (chain x)).isSome
  | .expr _ (.funcLit _ (.mk _ [.ret _ [result]] _)) => (splitUnwrap (chain result)).isSome
  | .stmt (.ret _ [result]) => (splitUnwrap (chain result)).isSome
  | _ => false

def isFuncLit : Node → Bool
  | .expr _ (.funcLit _ _) => true
  | _ => false

/-- What is seen of a node in the search for an `Unwrap`. -/
structure Look where
  called : Option (Text ⊕ Text)
  isFuncLit : Bool
  unwraps : Bool
  unwrapsWithin : Bool

def look (n : Node) : Look := ⟨n.called, n.isFuncLit, n.unwraps, n.unwrapsWithin⟩

theorem isFuncLit_parts (e : Visitor Id) (n : Node) : (e.parts n).isFuncLit = n.isFuncLit := by
  cases n with
  | expr role x => cases x <;> rfl
  | _ => rfl

/-- A call unwraps if it is an `Unwrap`, or if its receiver unwraps. -/
theorem unwraps_call_iff :
    (expr role (.call fn lparen args ellipsis rparen)).unwraps ↔
      ∃ method, (expr .callee fn).called = some (.inr method) ∧
        (method = "Unwrap" ∨ (expr .callee fn).unwrapsWithin) := by
  cases fn with
  | selector x sel =>
    rw [unwraps, chain, isSome_splitUnwrap_cons]
    simp [MethodCall.isUnwrap, Link.call, called, unwrapsWithin]
  | _ => simp [unwraps, chain, splitUnwrap, called]

theorem unwrapsWithin_funcLit (type : FuncType) (lbrace rbrace : Pos) (s : Stmt) :
    (expr role (.funcLit type (.mk lbrace [s] rbrace))).unwrapsWithin =
      (Node.stmt s).unwrapsWithin := by
  cases s with
  | ret pos results =>
    cases results with
    | nil => rfl
    | cons r results => cases results <;> rfl
  | _ => rfl

section

variable {e : Visitor Id} {n : Node}

theorem unwraps_parts (hcalled : ∀ c ∈ n.parts, (e.node c).called = c.called)
    (hwithin : ∀ c ∈ n.parts, (e.node c).unwrapsWithin = c.unwrapsWithin) :
    (e.parts n).unwraps = n.unwraps := by
  cases n with
  | expr role x =>
    cases x with
    | call fn lparen args ellipsis rparen =>
      have hfn : (expr .callee (e.expr .callee fn).run).called = _ :=
        hcalled (.expr .callee fn) mem_cons_self
      have hfn' : (expr .callee (e.expr .callee fn).run).unwrapsWithin = _ :=
        hwithin (.expr .callee fn) mem_cons_self
      have hparts := unwraps_call_iff role (e.expr .callee fn).run lparen (e.exprs args).run
        ellipsis rparen
      rw [hfn, hfn', ← unwraps_call_iff role fn lparen args ellipsis rparen] at hparts
      exact Bool.eq_iff_iff.mpr hparts
    | _ => rfl
  | _ => rfl

theorem unwrapsWithin_parts (hunwraps : ∀ c ∈ n.parts, (e.node c).unwraps = c.unwraps)
    (hwithin : ∀ c ∈ n.parts, (e.node c).unwrapsWithin = c.unwrapsWithin) :
    (e.parts n).unwrapsWithin = n.unwrapsWithin := by
  cases n with
  | expr role x =>
    cases x with
    | selector x sel => exact hunwraps (.expr .plain x) mem_cons_self
    | funcLit type body =>
      obtain ⟨lbrace, list, rbrace⟩ := body
      cases list with
      | nil => rfl
      | cons s list =>
        cases list with
        | nil =>
          have hmem : Node.stmt s ∈
              (expr role (.funcLit type (.mk lbrace [s] rbrace))).parts := by
            simp [Node.parts, inExpr, inBlock]
          rw [unwrapsWithin_funcLit, ← hwithin (.stmt s) hmem]
          exact unwrapsWithin_funcLit role _ lbrace rbrace _
        | cons => simp [Visitor.parts, Visitor.exprParts, Visitor.block, unwrapsWithin]
    | _ => rfl
  | stmt s =>
    cases s with
    | ret pos results =>
      cases results with
      | nil => rfl
      | cons r results =>
        cases results with
        | nil => exact hunwraps (.expr .plain r) mem_cons_self
        | cons => simp [Visitor.parts, Visitor.stmtParts, unwrapsWithin]
    | _ => rfl
  | _ => rfl

theorem look_parts (h : ∀ c ∈ n.parts, (e.node c).look = c.look) : (e.parts n).look = n.look := by
  grind [unwraps_parts, unwrapsWithin_parts, look, called_parts, isFuncLit_parts]

end

end Node

namespace Pattern

theorem isSome_withoutUnwrap (result : Expr) :
    (withoutUnwrap result).isSome = (splitUnwrap (chain result)).isSome := isSome_map

theorem exists_returning {role : Role} {arg : Expr} (hlit : (expr role arg).isFuncLit)
    (hwithin : (expr role arg).unwrapsWithin) :
    ∃ type lbrace pos result rbrace result', arg = returning type lbrace pos result rbrace ∧
      withoutUnwrap result = some result' := by
  unfold Node.unwrapsWithin at hwithin
  split at hwithin
  · rename_i heq
    cases heq
    cases hlit
  · rename_i _ type lbrace pos result rbrace heq
    cases heq
    rw [← isSome_withoutUnwrap] at hwithin
    obtain ⟨result', hresult⟩ := isSome_iff_exists.mp hwithin
    exact ⟨type, lbrace, pos, result, rbrace, result', rfl, hresult⟩
  · rename_i heq
    cases heq
  · cases hwithin

theorem isSome_mapToFilterMap_iff :
    (mapToFilterMap role (.call fn lparen args ellipsis rparen)).isSome ↔
      (expr .callee fn).called = some (.inr "Map") ∧
        args.head?.any fun arg =>
          (expr .plain arg).isFuncLit && (expr .plain arg).unwrapsWithin := by
  constructor
  · intro h
    obtain ⟨edit, hedit⟩ := isSome_iff_exists.mp h
    obtain ⟨c, type, lbrace, pos, result, rbrace, rest, result', heq, hname, hargs, hresult, -⟩ :=
      (mapToFilterMap_eq_some_iff role).mp hedit
    cases heq
    have hwithin := isSome_withoutUnwrap result
    rw [hresult] at hwithin
    rw [Node.called, hname, hargs]
    exact ⟨rfl, hwithin.symm⟩
  · rintro ⟨hcalled, hargs⟩
    obtain ⟨x, sel, rfl, hname⟩ : ∃ x sel, fn = .selector x sel ∧ sel.name = "Map" := by
      cases fn with
      | selector x sel => exact ⟨x, sel, rfl, Sum.inr.inj (some.inj hcalled)⟩
      | _ => cases hcalled
    cases args with
    | nil => cases hargs
    | cons arg rest =>
      obtain ⟨hlit, hwithin⟩ := Bool.and_eq_true_iff.mp hargs
      obtain ⟨type, lbrace, pos, result, rbrace, result', rfl, hresult⟩ :=
        exists_returning hlit hwithin
      have hedit := (mapToFilterMap_eq_some_iff role).mpr
        ⟨⟨x, sel, lparen, _, ellipsis, rparen⟩, type, lbrace, pos, result, rbrace, rest, result',
          rfl, hname, rfl, hresult, rfl⟩
      exact isSome_of_eq_some hedit

def callsWeight : List MethodCall → Nat
  | [] => 0
  | c :: calls => roomFor c.method + exprsWeight c.args + 2 + callsWeight calls

theorem callsWeight_append (front back : List MethodCall) :
    callsWeight (front ++ back) = callsWeight front + callsWeight back := by
  induction front with
  | nil => exact (Nat.zero_add _).symm
  | cons c front ih =>
    rw [cons_append, callsWeight, callsWeight, ih, Nat.add_assoc _ _ (callsWeight back)]

theorem Follows.exprWeight_eq {recv x : Expr} {calls : List MethodCall} (h : Follows recv calls x) :
    exprWeight x = exprWeight recv + callsWeight calls := by
  induction h with
  | nil => rfl
  | snoc before sel lparen args ellipsis rparen ih =>
    simp only [callsWeight_append, callsWeight, exprWeight, ih]
    omega

/-- The call that is gone had room for the closure that has come. -/
theorem exprWeight_withoutUnwrap {result result' : Expr} (h : withoutUnwrap result = some result') :
    exprWeight result' ≤ exprWeight result := by
  obtain ⟨⟨outer, recv⟩, hsplit, hresult⟩ := map_eq_some_iff.mp h
  obtain ⟨u, hu, hfollows, -⟩ := splitUnwrap_chain hsplit
  have hunwrap : roomFor u.method = 8 := by
    rw [beq_iff_eq.mp hu]
    decide
  have hmap : roomFor "Map" = 0 := by decide
  have hweight : exprWeight result = exprWeight recv +
      (roomFor u.method + exprsWeight u.args + 2 + callsWeight (outer.map Link.call).reverse) :=
    hfollows.exprWeight_eq
  subst hresult
  dsimp only
  split
  · omega
  · have hbody := (follows_foldl outer (.ident ⟨recv.stop, "a"⟩) recv.stop
      (result.stop - 1)).exprWeight_eq
    simp only [exprWeight, exprsWeight, exprWeight_anyFunc, fieldListWeight, fieldWeight,
      optExprWeight, hmap, hbody]
    omega

theorem orderly_mapToFilterMap {name : Text} :
    Orderly { name, descends := true, onExpr := mapToFilterMap } false Node.look where
  skipsTypes := rfl
  onStmt _ := rfl
  call role x h := by
    obtain ⟨edit, hedit⟩ := isSome_iff_exists.mp h
    obtain ⟨c, _, _, _, _, _, _, _, hx, -⟩ := (mapToFilterMap_eq_some_iff role).mp hedit
    exact ⟨_, _, _, _, _, hx⟩
  edits role x edit h := by grind [mapToFilterMap_eq_some_iff]
  view_parts e n h := Node.look_parts h
  onExpr_parts e role x h := by
    cases x with
    | call fn lparen args ellipsis rparen =>
      have hfn : (expr .callee (e.expr .callee fn).run).called = _ :=
        congrArg Node.Look.called (h (.expr .callee fn) mem_cons_self)
      have harg : ∀ arg ∈ args, (expr .plain (e.expr .plain arg).run).look =
          (expr .plain arg).look :=
        fun arg harg => h (.expr .plain arg) (mem_cons_of_mem _ (mem_map_of_mem harg))
      have hhead : ((e.exprs args).run.head?.any fun arg =>
            (expr .plain arg).isFuncLit && (expr .plain arg).unwrapsWithin) =
          args.head?.any fun arg =>
            (expr .plain arg).isFuncLit && (expr .plain arg).unwrapsWithin := by
        cases args with
        | nil => rfl
        | cons arg rest =>
          have hlit : (expr .plain (e.expr .plain arg).run).isFuncLit = _ :=
            congrArg Node.Look.isFuncLit (harg arg mem_cons_self)
          have hwithin : (expr .plain (e.expr .plain arg).run).unwrapsWithin = _ :=
            congrArg Node.Look.unwrapsWithin (harg arg mem_cons_self)
          simp [hlit, hwithin, Node.look]
      have hparts := isSome_mapToFilterMap_iff role (e.expr .callee fn).run lparen
        (e.exprs args).run ellipsis rparen
      rw [hfn, hhead] at hparts
      exact Bool.eq_iff_iff.mpr (hparts.trans (isSome_mapToFilterMap_iff role ..).symm)
    | _ => rfl
  revise role x y h := by
    obtain ⟨c, type, lbrace, pos, result, rbrace, rest, result', rfl, hname, hargs, hresult,
      hedit⟩ := (mapToFilterMap_eq_some_iff role).mp h
    cases hedit
    refine ⟨rfl, ?_, ?_, ?_⟩
    · have hnames : Text.ofString "FilterMap" ≠ "Unwrap" ∧ Text.ofString "Map" ≠ "Unwrap" := by
        decide
      have hunwraps : ∀ args,
          (expr role ((c.renamed "FilterMap").passing args c.ellipsis).expr).unwraps =
            (expr role c.expr).unwraps := by
        intro args
        rw [Bool.eq_iff_iff, Invocation.expr, Invocation.expr, Node.unwraps_call_iff,
          Node.unwraps_call_iff]
        simp [Invocation.passing, Invocation.renamed, Node.called, Node.unwrapsWithin, hname,
          hnames]
      rw [Node.look, hunwraps]
      rfl
    · have hroom : roomFor "FilterMap" = 0 ∧ roomFor "Map" = 0 := by decide
      have hweight := exprWeight_withoutUnwrap hresult
      simp only [Invocation.expr, Invocation.passing, Invocation.renamed, returning, hargs,
        exprWeight, exprsWeight, blockWeight, stmtsWeight, stmtWeight, hname, hroom]
      omega
    · rfl
  wrap role x operand build h := by
    obtain ⟨c, _, _, _, _, _, _, _, -, -, -, -, hedit⟩ := (mapToFilterMap_eq_some_iff role).mp h
    cases hedit

/-! ## The catalogue -/

/-- The patterns that descend are orderly, and only one of them puts anything around an operand. -/
theorem exists_orderly {p : Pattern} (hp : p ∈ catalog) (hdescends : p.descends) :
    ∃ (α : Type) (view : Node → α), p.Orderly (p.name == Text.ofString "saturating-abs") view := by
  simp only [catalog, mem_cons, not_mem_nil, or_false] at hp
  obtain rfl | rfl | rfl | rfl | rfl | rfl | rfl | rfl | rfl := hp
  · cases hdescends
  · cases hdescends
  · exact ⟨_, _, orderly_saturateAbs⟩
  · exact ⟨_, _, orderly_renameMethod (by decide) (by decide)⟩
  · exact ⟨_, _, orderly_renameMethod (by decide) (by decide)⟩
  · exact ⟨_, _, orderly_mapToFilterMap⟩
  · exact ⟨_, _, orderly_expectToElse⟩
  · exact ⟨_, _, orderly_expectToDefault⟩
  · cases hdescends

theorem onExpr_eq_saturateAbs {p : Pattern} (hp : p ∈ catalog) (hname : p.name = "saturating-abs") :
    p.onExpr = saturateAbs := by
  have habs : catalog[2] ∈ catalog := getElem_mem _
  rw [eq_of_name_eq hp habs hname]
  rfl

/-- On the line, an absolute value of an absolute value. -/
def AbsOfAbs (table : LineTable) (line : Int) : Node → Prop
  | .expr _ x =>
    covers table line x.pos x.stop ∧ ∃ y, absOperand? x = some y ∧
      covers table line y.pos y.stop ∧ (absOperand? y).isSome
  | _ => False

theorem stacks_iff_absOfAbs {p : Pattern} {table : LineTable} {line : Int}
    (hp : p.onExpr = saturateAbs) (n : Node) : p.Stacks table line n ↔ AbsOfAbs table line n := by
  cases n with
  | expr role x =>
    rw [Stacks, AbsOfAbs]
    simp only [rewrites_expr_iff, hp, isSome_saturateAbs, editOn?, ite_none_right_eq_some]
    constructor
    · grind [saturateAbs_eq_some]
    · rintro ⟨hcovers, y, hy, hoperand⟩
      have hsome : (saturateAbs role x).isSome := by
        rw [isSome_saturateAbs, hy]
        rfl
      obtain ⟨edit, hedit⟩ := isSome_iff_exists.mp hsome
      grind [saturateAbs_eq_some]
  | _ => rfl

/-- A pattern that descends rewrites all there is to rewrite on its line, whatever is nested in
what, with one exception: where `saturating-abs` meets an absolute value of an absolute value, the
inner one is left. So a second run changes something exactly if there was such a pair. -/
theorem descending_patterns_leave_only_stacks :
    ∀ p ∈ catalog, p.descends → ∀ (f : File) (table : LineTable) (line : Int),
      (HoldsIn (p.Rewrites table line) ((p.edit? f table line).getD f) ↔
        p.name = "saturating-abs" ∧ HoldsIn (AbsOfAbs table line) f) ∧
      (p.edit? ((p.edit? f table line).getD f) table line = none ↔
        ¬ (p.name = "saturating-abs" ∧ HoldsIn (AbsOfAbs table line) f)) := by
  intro p hp hdescends f table line
  obtain ⟨α, view, horderly⟩ := exists_orderly hp hdescends
  have hstacks : HoldsIn (p.Stacks table line) f ↔
      p.name = "saturating-abs" ∧ HoldsIn (AbsOfAbs table line) f := by
    by_cases hname : p.name = "saturating-abs"
    · have hiff : ∀ n, p.Stacks table line n ↔ AbsOfAbs table line n :=
        stacks_iff_absOfAbs (onExpr_eq_saturateAbs hp hname)
      simp only [HoldsIn, Node.Holds, hiff, hname, true_and]
    · refine iff_of_false ?_ fun h => hname h.1
      rintro ⟨n, -, m, -, hm⟩
      exact horderly.not_stacks (beq_eq_false_iff_ne.mpr hname) m hm
  have hleft : HoldsIn (p.Rewrites table line) ((p.edit? f table line).getD f) ↔
      HoldsIn (p.Stacks table line) f := by
    cases hedit : p.edit? f table line with
    | some f' => exact horderly.holdsIn_edit?_iff hedit
    | none =>
      have hnone := (edit?_eq_none_iff horderly.skipsTypes).mp hedit
      refine iff_of_false hnone ?_
      rintro ⟨n, hn, m, hm, hstacks⟩
      exact hnone ⟨n, hn, m, hm, hstacks.rewrites⟩
  refine ⟨hleft.trans hstacks, ?_⟩
  rw [edit?_eq_none_iff horderly.skipsTypes, hleft, hstacks]

/-- A file with one variable, which has this value. -/
def valued (x : Expr) : File :=
  { decls := [.gen (.mk none 12 .kwVar noPos [.value none [⟨16, "y"⟩] none [x] none] noPos)] }

/-- `x.Add(y.Add(z)).Add(w)`: a call in an argument, and both in a receiver. -/
def nestedAdds : Expr :=
  .call (.selector (.call (.selector (.ident ⟨20, "x"⟩) ⟨22, "Add"⟩) 25
    [.call (.selector (.ident ⟨26, "y"⟩) ⟨28, "Add"⟩) 31 [.ident ⟨32, "z"⟩] noPos 33] noPos 34)
    ⟨36, "Add"⟩) 39 [.ident ⟨40, "w"⟩] noPos 41

theorem nested_adds_leave_nothing :
    catalog[4] ∈ catalog ∧ catalog[4].descends ∧
      (catalog[4].edit? (valued nestedAdds) {} 1).isSome ∧
      catalog[4].edit? ((catalog[4].edit? (valued nestedAdds) {} 1).getD (valued nestedAdds)) {} 1 =
        none := by
  have hmem : catalog[4] ∈ catalog := getElem_mem _
  refine ⟨hmem, rfl, by decide, ?_⟩
  exact (descending_patterns_leave_only_stacks catalog[4] hmem rfl (valued nestedAdds) {} 1).2.mpr
    fun h => absurd h.1 (by decide)

/-- `x.Abs().Abs()` becomes `sat.Abs(x.Abs())`, in which there is still an absolute value to
rewrite. -/
theorem stacked_absolute_value_left_over :
    ∃ p ∈ catalog, p.descends ∧ ∃ (f : File) (table : LineTable) (line : Int),
      (p.edit? f table line).isSome ∧
        (p.edit? ((p.edit? f table line).getD f) table line).isSome := by
  refine ⟨catalog[2], getElem_mem _, rfl, valued (.call (.selector (.call (.selector
    (.ident ⟨20, "x"⟩) ⟨22, "Abs"⟩) 25 [] noPos 26) ⟨28, "Abs"⟩) 31 [] noPos 32), {}, 1, ?_⟩
  decide

end Pattern

end FaultRepair.Repair
