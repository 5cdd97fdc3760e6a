/-
# Patterns that finish their work

A pattern that walks on in what it has changed should leave nothing behind that it would change
again. Whether it does depends on the kind of its edits. An expression that is revised is walked
as it is left, so nothing in it is missed. An expression that is wrapped is put around its operand,
and the walk goes on in the parts of the operand: the operand itself is not visited.

So what is left over after a walk are exactly the operands of wrapped expressions that would have
been rewritten themselves, and only the pattern `saturating-abs` can leave any.
-/

import FaultRepair.Proofs.Repair.Walks

namespace FaultRepair.Repair

open Source

namespace Pattern

/-! ## Laws -/

/-- The expression is put around an operand that the pattern rewrites as well, on a line. -/
def Stacks (p : Pattern) (table : LineTable) (line : Int) : Node → Prop
  | .expr role x =>
    ∃ operand build, p.editOn? table line role x = some (.wrap operand build) ∧
      p.Rewrites table line (.expr .plain operand)
  | _ => False

/-- All that the pattern can match in an expression is the expression itself or is in its
operand. -/
def Encloses (p : Pattern) (role : Role) (x operand : Expr) : Prop :=
  ∀ P : Node → Prop, (∀ n, P n → ∃ role x, n = .expr role x ∧ (p.onExpr role x).isSome) →
    ((Node.expr role x).Holds P ↔ P (.expr role x) ∨ (Node.expr .plain operand).Holds P)

/-- A pattern that looks at calls only, and at the parts of a call only through a view that its own
edits do not change. It puts all that it rewrites around an operand, or it revises all of it. -/
structure Orderly (p : Pattern) (wraps : Bool) {α : Type} (view : Node → α) : Prop where
  skipsTypes : p.skipsTypes = false
  onStmt : ∀ s, p.onStmt s = none
  call : ∀ role x, (p.onExpr role x).isSome → ∃ fn lparen args ellipsis rparen,
    x = .call fn lparen args ellipsis rparen
  edits : ∀ role x edit, p.onExpr role x = some edit →
    (wraps = true ∧ ∃ operand build, edit = .wrap operand build) ∨
      (wraps = false ∧ ∃ y, edit = .revise y)
  view_parts : ∀ (e : Visitor Id) (n : Node), (∀ c ∈ n.parts, view (e.node c) = view c) →
    view (e.parts n) = view n
  onExpr_parts : ∀ (e : Visitor Id) (role : Role) (x : Expr),
    (∀ c ∈ inExpr x, view (e.node c) = view c) →
      (p.onExpr role (e.exprParts x).run).isSome = (p.onExpr role x).isSome
  /-- A revised expression is not heavier, and it is not revised again. -/
  revise : ∀ role x y, p.onExpr role x = some (.revise y) →
    y.pos = x.pos ∧ view (.expr role y) = view (.expr role x) ∧ exprWeight y ≤ exprWeight x ∧
      p.onExpr role y = none
  wrap : ∀ role x operand build, p.onExpr role x = some (.wrap operand build) →
    exprWeight operand ≤ exprWeight x ∧ p.Encloses role x operand ∧
      ∀ y, (build y).pos = x.pos ∧ view (.expr role (build y)) = view (.expr role x) ∧
        p.onExpr role (build y) = none ∧ p.Encloses role (build y) y

section

variable {p : Pattern} {table : LineTable} {line : Int}

theorem not_rewrites_of_onExpr {role : Role} {x : Expr} (h : p.onExpr role x = none) :
    ¬ p.Rewrites table line (.expr role x) := by
  simp [rewrites_expr_iff, h]

theorem onExpr_of_editOn? {role : Role} {x : Expr} {edit : ExprEdit}
    (h : p.editOn? table line role x = some edit) : p.onExpr role x = some edit := by
  rw [editOn?, Option.ite_none_right_eq_some] at h
  exact h.2

theorem Stacks.rewrites {n : Node} (h : p.Stacks table line n) : p.Rewrites table line n := by
  cases n with
  | expr role x =>
    obtain ⟨operand, build, hedit, -⟩ := h
    simp [Rewrites, hedit]
  | _ => exact h.elim

namespace Orderly

variable {wraps : Bool} {α : Type} {view : Node → α} (hp : p.Orderly wraps view)

variable {e : Visitor Id} {n : Node}

include hp

theorem exists_expr_of_rewrites (h : p.Rewrites table line n) :
    ∃ role x, n = .expr role x ∧ (p.onExpr role x).isSome := by
  cases n with
  | expr role x => exact ⟨role, x, rfl, (rewrites_expr_iff.mp h).2⟩
  | stmt s => simp [Rewrites, stmtOn?, hp.onStmt] at h
  | _ => exact h.elim

/-- Visiting the parts of a node does not change whether it is rewritten, as long as the parts keep
their places and views. -/
theorem rewrites_parts_iff
    (h : ∀ c ∈ n.parts, (e.node c).start = c.start ∧ view (e.node c) = view c) :
    p.Rewrites table line (e.parts n) ↔ p.Rewrites table line n := by
  cases n with
  | expr role x =>
    have hsome := hp.onExpr_parts e role x fun c hc => (h c hc).2
    by_cases hx : (p.onExpr role x).isSome
    · have hpos := e.pos_exprParts fun c hc => (h c hc).1
      have hstop : (e.exprParts x).run.stop = x.stop := by
        obtain ⟨fn, lparen, args, ellipsis, rparen, rfl⟩ := hp.call role x hx
        rfl
      simp only [Visitor.parts, rewrites_expr_iff, hpos, hstop, hsome]
    · have hnone := Option.not_isSome_iff_eq_none.mp hx
      have hnone' := Option.not_isSome_iff_eq_none.mp (hsome ▸ hx)
      exact iff_of_false (not_rewrites_of_onExpr hnone') (not_rewrites_of_onExpr hnone)
  | stmt s => simp [Visitor.parts, Rewrites, stmtOn?, hp.onStmt]
  | _ => rfl

/-! ## What a walk leaves over -/

/-- What a walk does to a node: it keeps its place and its view, and what is left to rewrite in the
result are the stacks there were. -/
structure Leaves (p : Pattern) (table : LineTable) (line : Int) (view : Node → α) (n n' : Node) :
    Prop where
  start : n'.start = n.start
  view : view n' = view n
  holds : n'.Holds (p.Rewrites table line) ↔ n.Holds (p.Stacks table line)

/-- With the parts of a node visited, it may itself be left to rewrite. -/
theorem leaves_parts (h : ∀ c ∈ n.parts, Leaves p table line view c (e.node c)) :
    (e.parts n).start = n.start ∧ view (e.parts n) = view n ∧
      ((e.parts n).Holds (p.Rewrites table line) ↔
        p.Rewrites table line n ∨ ∃ c ∈ n.parts, c.Holds (p.Stacks table line)) := by
  refine ⟨e.start_parts fun c hc => (h c hc).start, hp.view_parts e n fun c hc => (h c hc).view, ?_⟩
  rw [e.holds_parts_iff, hp.rewrites_parts_iff fun c hc => ⟨(h c hc).start, (h c hc).view⟩]
  apply or_congr_right
  apply exists_congr
  intro c
  apply and_congr_right
  intro hc
  exact (h c hc).holds

theorem leaves_of_not_rewrites (hn : ¬ p.Rewrites table line n)
    (h : ∀ c ∈ n.parts, Leaves p table line view c (e.node c)) :
    Leaves p table line view n (e.parts n) := by
  obtain ⟨hstart, hview, hholds⟩ := hp.leaves_parts h
  refine ⟨hstart, hview, hholds.trans ?_⟩
  rw [Node.holds_iff]
  exact or_congr_left (iff_of_false hn fun hstacks => hn hstacks.rewrites)

theorem not_stacks (hwraps : wraps = false) (n : Node) : ¬ p.Stacks table line n := by
  intro hstacks
  cases n with
  | expr role x =>
    obtain ⟨operand, build, hedit, -⟩ := hstacks
    obtain ⟨htrue, -⟩ | ⟨-, y, heq⟩ := hp.edits role x _ (onExpr_of_editOn? hedit)
    · cases hwraps.symm.trans htrue
    · cases heq
  | _ => exact hstacks

theorem leaves_of_revise {role : Role} {x y : Expr} (honExpr : p.onExpr role x = some (.revise y))
    (h : ∀ c ∈ inExpr y, Leaves p table line view c (e.node c)) :
    Leaves p table line view (.expr role x) (e.parts (.expr role y)) := by
  obtain ⟨hpos, hview, -, hnone⟩ := hp.revise role x y honExpr
  have hy := hp.leaves_of_not_rewrites (not_rewrites_of_onExpr hnone) h
  have hstacks : ∀ n : Node, ¬ n.Holds (p.Stacks table line) := by
    rintro n ⟨m, -, hm⟩
    obtain ⟨-, operand, build, heq⟩ | ⟨hwraps, -⟩ := hp.edits role x _ honExpr
    · cases heq
    · exact hp.not_stacks hwraps m hm
  exact ⟨hy.start.trans hpos, hy.view.trans hview,
    hy.holds.trans (iff_of_false (hstacks _) (hstacks _))⟩

theorem leaves_of_wrap {role : Role} {x operand : Expr} {build : Expr → Expr}
    (hedit : p.editOn? table line role x = some (.wrap operand build))
    (h : ∀ c ∈ inExpr operand, Leaves p table line view c (e.node c)) :
    Leaves p table line view (.expr role x) (.expr role (build (e.exprParts operand).run)) := by
  obtain ⟨-, hencloses, hbuild⟩ := hp.wrap role x operand build (onExpr_of_editOn? hedit)
  obtain ⟨hpos, hview, hnone, hencloses'⟩ := hbuild (e.exprParts operand).run
  obtain ⟨-, -, hholds⟩ := hp.leaves_parts (n := .expr .plain operand) h
  have hstacks : p.Stacks table line (.expr role x) ↔
      p.Rewrites table line (.expr .plain operand) := by
    simp [Stacks, hedit]
  refine ⟨hpos, hview, ?_⟩
  calc
    _ ↔ (e.parts (.expr .plain operand)).Holds (p.Rewrites table line) := by
      rw [hencloses' _ fun m hm => hp.exists_expr_of_rewrites hm]
      exact or_iff_right (not_rewrites_of_onExpr hnone)
    _ ↔ p.Rewrites table line (.expr .plain operand) ∨
          (Node.expr .plain operand).Holds (p.Stacks table line) := by
      rw [hholds, Node.holds_iff]
      -- A stack that starts at the operand makes the operand one of those to rewrite.
      constructor
      · exact Or.imp_right .inr
      · rintro (hoperand | hoperand | hpart)
        · exact .inl hoperand
        · exact .inl hoperand.rewrites
        · exact .inr hpart
    _ ↔ (Node.expr role x).Holds (p.Stacks table line) := by
      rw [hencloses _ fun m hm => hp.exists_expr_of_rewrites hm.rewrites, hstacks]

/-- A walk that goes deep enough leaves nothing over but stacks. -/
theorem leaves_visitor {n : Nat} {node : Node} (hn : node.weight ≤ n) :
    Leaves p table line view node ((p.visitor table line n).value.node node) := by
  induction n generalizing node with
  | zero => exact absurd hn (Nat.not_le_of_lt (Nat.zero_lt_of_lt node.totalWeight_parts))
  | succ n ih =>
    -- The parts of any node that is not heavier are in the reach of the rest of the walk.
    have hparts : ∀ m : Node, m.weight ≤ n + 1 →
        ∀ c ∈ m.parts, Leaves p table line view c ((p.visitor table line n).value.node c) :=
      fun m hm c hc => ih (Nat.le_of_lt_succ
        (Nat.lt_of_lt_of_le (Node.weight_lt_of_mem_parts hc) hm))
    by_cases hrewrites : p.Rewrites table line node
    · obtain ⟨role, x, rfl, -⟩ := hp.exists_expr_of_rewrites hrewrites
      obtain ⟨edit, hedit⟩ := Option.isSome_iff_exists.mp hrewrites
      have honExpr := onExpr_of_editOn? hedit
      cases edit with
      | replace y =>
        obtain ⟨-, operand, build, heq⟩ | ⟨-, y', heq⟩ := hp.edits role x _ honExpr
        · cases heq
        · cases heq
      | revise y =>
        rw [node_visitor_revise n hp.skipsTypes hedit]
        apply hp.leaves_of_revise honExpr
        exact hparts (.expr role y) (Nat.le_trans (hp.revise role x y honExpr).2.2.1 hn)
      | wrap operand build =>
        rw [node_visitor_wrap n hp.skipsTypes hedit]
        apply hp.leaves_of_wrap hedit
        exact hparts (.expr .plain operand)
          (Nat.le_trans (hp.wrap role x operand build honExpr).1 hn)
    · rw [node_visitor_succ n hp.skipsTypes hrewrites]
      exact hp.leaves_of_not_rewrites hrewrites (hparts node hn)

/-- What is left to rewrite in a changed file are the stacks there were. -/
theorem holdsIn_edit?_iff {f f' : File} (h : p.edit? f table line = some f') :
    HoldsIn (p.Rewrites table line) f' ↔ HoldsIn (p.Stacks table line) f := by
  have hleaves : ∀ c ∈ nodesOf f.decls,
      Leaves p table line view c ((p.editor f table line).node c) := by
    intro c hc
    apply hp.leaves_visitor
    rw [← totalWeight_nodesOf]
    exact weight_le_totalWeight hc
  constructor
  · rintro ⟨n, hn, hholds⟩
    obtain ⟨c, hc, rfl⟩ := (mem_nodesOf_edit? h n).mp hn
    exact ⟨c, hc, (hleaves c hc).holds.mp hholds⟩
  · rintro ⟨c, hc, hholds⟩
    have hmem := (mem_nodesOf_edit? h _).mpr ⟨c, hc, rfl⟩
    exact ⟨_, hmem, (hleaves c hc).holds.mpr hholds⟩

end Orderly

end

end Pattern

end FaultRepair.Repair
