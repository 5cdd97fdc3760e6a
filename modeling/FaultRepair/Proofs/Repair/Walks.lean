/-
# Walks that apply a pattern

A walk of a pattern carries one bit of state, and all it ever does with the bit is to set it. So a
walk falls into two that need no state: what it makes of a node, and whether it changes it. A
visitor that can be split like this is steady, and one step of a steady walk is steady again. None
of this depends on the bit: a step is stated for any account that a walk may keep, of which the bit
is the smallest.

Whatever occurs in a node is visited if the walk goes deep enough, save what is in a type that the
pattern skips. So a file is changed exactly if the pattern rewrites something in it that is not in
such a type.
-/

import FaultRepair.Proofs.Repair.Nodes
import FaultRepair.Proofs.Source.Gathering
import Mathlib.Data.List.Nodup

namespace FaultRepair.Repair

open Source List

/-! ## Keeping account -/

/-- What a walk can keep account of: it starts with nothing, and more is added after what there
is. -/
class Tally (σ : Type) where
  zero : σ
  add : σ → σ → σ
  zero_add : ∀ c, add zero c = c
  add_zero : ∀ c, add c zero = c
  add_assoc : ∀ c d e, add (add c d) e = add c (add d e)

attribute [simp] Tally.zero_add Tally.add_zero Tally.add_assoc

instance : Tally Bool where
  zero := false
  add := (· || ·)
  zero_add := Bool.false_or
  add_zero := Bool.or_false
  add_assoc := Bool.or_assoc

instance {α : Type} : Tally (List α) where
  zero := []
  add := (· ++ ·)
  zero_add := nil_append
  add_zero := append_nil
  add_assoc := append_assoc

def total {σ α : Type} [Tally σ] (f : α → σ) (xs : List α) : σ :=
  xs.foldr (fun x c => Tally.add (f x) c) Tally.zero

/-- Add something to the account, and go on. -/
def note {σ α : Type} [Tally σ] (c : σ) (m : StateM σ α) : StateM σ α := fun s => m (Tally.add s c)

section

variable {σ α β : Type} [Tally σ] {c d : σ} {m : StateM σ α} {f : α → σ}

@[simp]
theorem total_nil : total f [] = Tally.zero := rfl

@[simp]
theorem total_cons (x : α) (xs : List α) : total f (x :: xs) = Tally.add (f x) (total f xs) := rfl

@[simp]
theorem total_append (xs ys : List α) :
    total f (xs ++ ys) = Tally.add (total f xs) (total f ys) := by
  induction xs with
  | nil => simp
  | cons x xs ih => simp [ih]

@[simp]
theorem total_map (g : β → α) (xs : List β) : total f (xs.map g) = total (fun x => f (g x)) xs := by
  induction xs with
  | nil => rfl
  | cons x xs ih => simp [ih]

@[simp]
theorem total_flatMap (g : β → List α) (xs : List β) :
    total f (xs.flatMap g) = total (fun x => total f (g x)) xs := by
  induction xs with
  | nil => rfl
  | cons x xs ih => simp [ih]

theorem total_eq_any (f : α → Bool) (xs : List α) : total f xs = xs.any f := by
  induction xs with
  | nil => rfl
  | cons x xs ih => exact congrArg (f x || ·) ih

theorem total_eq_flatMap (f : α → List β) (xs : List α) : total f xs = xs.flatMap f := by
  induction xs with
  | nil => rfl
  | cons x xs ih => exact congrArg (f x ++ ·) ih

@[simp]
theorem note_zero : note (Tally.zero : σ) m = m := by
  funext s
  simp [note]

@[simp]
theorem note_note : note c (note d m) = note (Tally.add c d) m := by
  funext s
  simp [note]

@[simp]
theorem note_bind (f : α → StateM σ β) : note c m >>= f = note c (m >>= f) := rfl

@[simp]
theorem map_note (f : α → β) : f <$> note c m = note c (f <$> m) := rfl

@[simp]
theorem markChanged_bind (f : Unit → Visit α) : Pattern.markChanged >>= f = note true (f ()) := by
  funext s
  change f () true = f () (s || true)
  rw [Bool.or_true]

omit [Tally σ] in
@[simp]
theorem pure_apply (a : α) (s : σ) : (pure a : StateM σ α) s = (a, s) := rfl

@[simp]
theorem note_pure_apply (a : α) (s : σ) : note c (pure a : StateM σ α) s = (a, Tally.add s c) := rfl

theorem eq_note_pure {a : α} (h : m = note c (pure a)) :
    m = note (m Tally.zero).2 (pure (m Tally.zero).1) := by
  subst h
  simp

theorem mapM_note {f : α → StateM σ β} {c : α → σ} {g : α → β}
    (hf : ∀ x, f x = note (c x) (pure (g x))) (xs : List α) :
    xs.mapM f = note (total c xs) (pure (xs.map g)) := by
  induction xs with
  | nil => simp
  | cons x xs ih => simp [mapM_cons, hf, ih]

theorem optionMapM_note {f : α → StateM σ β} {c : α → σ} {g : α → β}
    (hf : ∀ x, f x = note (c x) (pure (g x))) (o : Option α) :
    o.mapM f = note (total c o.toList) (pure (o.map g)) := by
  cases o <;> simp [hf]

end

/-! ## Steady visitors -/

namespace Visitor

variable {σ : Type} [Tally σ]

def value (v : Visitor (StateM σ)) : Visitor Id where
  expr role x := pure (v.expr role x Tally.zero).1
  stmt s := pure (v.stmt s Tally.zero).1
  funcType t := pure (v.funcType t Tally.zero).1
  fields role l := pure (v.fields role l Tally.zero).1

def tally (v : Visitor (StateM σ)) : Node → σ
  | .expr role x => (v.expr role x Tally.zero).2
  | .stmt s => (v.stmt s Tally.zero).2
  | .funcType t => (v.funcType t Tally.zero).2
  | .fields role l => (v.fields role l Tally.zero).2

/-- A visitor that does nothing with the account but add to it. -/
structure Steady (v : Visitor (StateM σ)) : Prop where
  expr : ∀ role x, v.expr role x = note (v.tally (.expr role x)) (pure (v.value.expr role x).run)
  stmt : ∀ s, v.stmt s = note (v.tally (.stmt s)) (pure (v.value.stmt s).run)
  funcType : ∀ t, v.funcType t = note (v.tally (.funcType t)) (pure (v.value.funcType t).run)
  fields : ∀ role l,
    v.fields role l = note (v.tally (.fields role l)) (pure (v.value.fields role l).run)

namespace Steady

variable {v : Visitor (StateM σ)} (hv : v.Steady)

include hv

theorem expr? (role : Role) (o : Option Expr) :
    v.expr? role o =
      note (total (fun x => v.tally (.expr role x)) o.toList)
        (pure (v.value.expr? role o).run) := by
  cases o <;> simp [Visitor.expr?, hv.expr]

theorem stmt? (o : Option Stmt) :
    v.stmt? o = note (total (fun s => v.tally (.stmt s)) o.toList)
      (pure (v.value.stmt? o).run) := by
  cases o <;> simp [Visitor.stmt?, hv.stmt]

theorem exprs (xs : List Expr) :
    v.exprs xs =
      note (total (fun x => v.tally (.expr .plain x)) xs) (pure (v.value.exprs xs).run) := by
  simp [Visitor.exprs, mapM_note (hv.expr .plain)]

theorem block (b : Block) :
    v.block b = note (total v.tally (inBlock b)) (pure (v.value.block b).run) := by
  cases b
  simp [Visitor.block, inBlock, mapM_note hv.stmt]

theorem funcTypeParts (t : FuncType) :
    v.funcTypeParts t =
      note (total v.tally (inFuncType t)) (pure (v.value.funcTypeParts t).run) := by
  cases t
  simp [Visitor.funcTypeParts, inFuncType, hv.fields, optionMapM_note (hv.fields _)]

theorem exprParts (x : Expr) :
    v.exprParts x = note (total v.tally (inExpr x)) (pure (v.value.exprParts x).run) := by
  cases x <;> simp [Visitor.exprParts, inExpr, hv.expr, hv.expr?, hv.exprs, hv.block,
    hv.funcTypeParts, hv.fields, hv.funcType]

theorem spec (s : Spec) :
    v.spec s = note (total v.tally (inSpec s)) (pure (v.value.spec s).run) := by
  cases s <;> simp [Visitor.spec, inSpec, hv.expr, hv.expr?, hv.exprs,
    optionMapM_note (hv.fields _)]

theorem genDecl (d : GenDecl) :
    v.genDecl d = note (total v.tally (inGenDecl d)) (pure (v.value.genDecl d).run) := by
  cases d
  simp [Visitor.genDecl, inGenDecl, mapM_note hv.spec]

theorem stmtParts (s : Stmt) :
    v.stmtParts s = note (total v.tally (inStmt s)) (pure (v.value.stmtParts s).run) := by
  cases s <;> simp [Visitor.stmtParts, inStmt, hv.expr, hv.expr?, hv.exprs, hv.block, hv.stmt,
    hv.stmt?, hv.genDecl, mapM_note hv.stmt]

theorem field (f : Field) :
    v.field f =
      note (total v.tally (f.type.toList.map (Node.expr .type))) (pure (v.value.field f).run) := by
  cases f
  simp [Visitor.field, Field.type, hv.expr?]

theorem fieldsOf (l : FieldList) :
    v.fieldsOf l = note (total v.tally (inFields l)) (pure (v.value.fieldsOf l).run) := by
  cases l
  simp [Visitor.fieldsOf, inFields, mapM_note hv.field]

theorem decl (d : Decl) :
    v.decl d = note (total v.tally (inDecl d)) (pure (v.value.decl d).run) := by
  cases d with
  | bad => simp [Visitor.decl, inDecl]
  | gen d => simp [Visitor.decl, inDecl, hv.genDecl]
  | func d =>
    cases hbody : d.body <;> simp [Visitor.decl, inDecl, hbody, hv.block, hv.funcType,
      optionMapM_note (hv.fields _)]

end Steady

end Visitor

/-! ## What a pattern rewrites -/

namespace Pattern

open Visitor (node value tally)

variable (p : Pattern) (table : LineTable) (line : Int)

/-- What the pattern does with an expression, on a line. -/
def editOn? (role : Role) (x : Expr) : Option ExprEdit :=
  if covers table line x.pos x.stop then p.onExpr role x else none

/-- What the pattern puts in place of a statement, on a line. -/
def stmtOn? (s : Stmt) : Option Stmt :=
  if covers table line s.pos s.stop then p.onStmt s else none

/-- The pattern has something else to put in place of this node, on a line. -/
def Rewrites : Node → Prop
  | .expr role x => (p.editOn? table line role x).isSome
  | .stmt s => (p.stmtOn? table line s).isSome
  | .funcType _ | .fields _ _ => False

variable {p table line} in
theorem rewrites_expr_iff {role : Role} {x : Expr} :
    p.Rewrites table line (.expr role x) ↔
      covers table line x.pos x.stop ∧ (p.onExpr role x).isSome := by
  rw [Rewrites, editOn?]
  cases covers table line x.pos x.stop <;> simp

variable {p table line} in
theorem rewrites_stmt_iff {s : Stmt} :
    p.Rewrites table line (.stmt s) ↔ covers table line s.pos s.stop ∧ (p.onStmt s).isSome := by
  rw [Rewrites, stmtOn?]
  cases covers table line s.pos s.stop <;> simp

variable {p table line} in
theorem Rewrites.covers {n : Node} (h : p.Rewrites table line n) : n.covers table line := by
  cases n with
  | expr role x => exact (rewrites_expr_iff.mp h).1
  | stmt s => exact (rewrites_stmt_iff.mp h).1
  | _ => exact h.elim

/-- The pattern leaves the node alone, with all that is in it: a type, on the line. -/
def skips (n : Node) : Bool := p.skipsTypes && n.isType && n.covers table line

/-- Where the pattern has rewritten a node, its walk goes on in these. -/
def visited : Node → List Node
  | .expr role x =>
    match p.editOn? table line role x with
    | some (.revise y) => inExpr y
    | some (.wrap operand _) => inExpr operand
    | _ => []
  | _ => []

/-! ## One step -/

section Step

variable {σ : Type} [Tally σ]

/-- A visit of an expression with an edit, given the visitors for its parts as it stands and for
what is visited after the edit. -/
def carryOut (c : σ) (v deep : Visitor (StateM σ)) (x : Expr) : Option ExprEdit → StateM σ Expr
  | none => v.exprParts x
  | some (.replace y) => note c (pure y)
  | some (.revise y) => note c (deep.exprParts y)
  | some (.wrap operand build) => note c (build <$> deep.exprParts operand)

/-- One step of a walk with an account of its own: what it adds for a node that is rewritten, and
the visitors it goes on with. -/
def step (mark : Node → σ) (v : Visitor (StateM σ)) (deep : Node → Visitor (StateM σ)) :
    Visitor (StateM σ) where
  expr role x :=
    if p.skips table line (.expr role x) then pure x
    else carryOut (mark (.expr role x)) v (deep (.expr role x)) x (p.editOn? table line role x)
  stmt s :=
    (p.stmtOn? table line s).elim (v.stmtParts s) fun t => note (mark (.stmt s)) (pure t)
  funcType t := if p.skips table line (.funcType t) then pure t else v.funcTypeParts t
  fields role l := if p.skips table line (.fields role l) then pure l else v.fieldsOf l

def idle : Visitor (StateM σ) where
  expr _ x := pure x
  stmt s := pure s
  funcType t := pure t
  fields _ l := pure l

variable {p table line} {mark : Node → σ} {v : Visitor (StateM σ)}
  {deep : Node → Visitor (StateM σ)}

theorem carryOut_eq_note {c : σ} {deep : Visitor (StateM σ)} (hv : v.Steady) (hdeep : deep.Steady)
    (x : Expr) (edit : Option ExprEdit) : ∃ d y, carryOut c v deep x edit = note d (pure y) := by
  cases edit with
  | none => exact ⟨_, _, hv.exprParts x⟩
  | some edit =>
    cases edit with
    | replace y => exact ⟨c, y, rfl⟩
    | revise y => exact ⟨_, _, by rw [carryOut, hdeep.exprParts, note_note]⟩
    | wrap operand build =>
      exact ⟨_, _, by rw [carryOut, hdeep.exprParts, map_note, map_pure, note_note]⟩

theorem steady_idle : (idle : Visitor (StateM σ)).Steady where
  expr _ x := eq_note_pure (note_zero (m := pure x)).symm
  stmt s := eq_note_pure (note_zero (m := pure s)).symm
  funcType t := eq_note_pure (note_zero (m := pure t)).symm
  fields _ l := eq_note_pure (note_zero (m := pure l)).symm

theorem steady_step (hv : v.Steady) (hdeep : ∀ n, (deep n).Steady) :
    (p.step table line mark v deep).Steady where
  expr role x := by
    by_cases hskips : p.skips table line (.expr role x)
    · exact eq_note_pure ((if_pos hskips).trans note_zero.symm)
    · obtain ⟨c, y, h⟩ := carryOut_eq_note (c := mark (.expr role x)) hv (hdeep (.expr role x)) x
        (p.editOn? table line role x)
      exact eq_note_pure ((if_neg hskips).trans h)
  stmt s := by
    cases hs : p.stmtOn? table line s with
    | none =>
      have hstep : (p.step table line mark v deep).stmt s = v.stmtParts s := by simp [step, hs]
      exact eq_note_pure (hstep.trans (hv.stmtParts s))
    | some t =>
      have hstep : (p.step table line mark v deep).stmt s = note (mark (.stmt s)) (pure t) := by
        simp [step, hs]
      exact eq_note_pure hstep
  funcType t := by
    by_cases hskips : p.skips table line (.funcType t)
    · exact eq_note_pure ((if_pos hskips).trans note_zero.symm)
    · exact eq_note_pure ((if_neg hskips).trans (hv.funcTypeParts t))
  fields role l := by
    by_cases hskips : p.skips table line (.fields role l)
    · exact eq_note_pure ((if_pos hskips).trans note_zero.symm)
    · exact eq_note_pure ((if_neg hskips).trans (hv.fieldsOf l))

/-! What a step makes of a node and what it adds to the account: one lemma for a node that is
skipped, one for a node that is passed, and one for a node that is rewritten. -/

theorem step_of_skips {n : Node} (hn : p.skips table line n) :
    (p.step table line mark v deep).value.node n = n ∧
      (p.step table line mark v deep).tally n = Tally.zero := by
  cases n with
  | stmt s => simp [skips, Node.isType] at hn
  | expr role x => simp [node, value, tally, step, hn]
  | funcType t => simp [node, value, tally, step, hn]
  | fields role l => simp [node, value, tally, step, hn]

theorem step_of_not_rewrites (hv : v.Steady) {n : Node} (hskips : ¬ p.skips table line n)
    (hn : ¬ p.Rewrites table line n) :
    (p.step table line mark v deep).value.node n = v.value.parts n ∧
      (p.step table line mark v deep).tally n = total v.tally n.parts := by
  cases n with
  | expr role x =>
    have hedit := Option.not_isSome_iff_eq_none.mp hn
    simp [node, value, tally, step, hskips, hedit, carryOut, hv.exprParts,
      Visitor.parts, Node.parts]
  | stmt s =>
    have hedit := Option.not_isSome_iff_eq_none.mp hn
    simp [node, value, tally, step, hedit, hv.stmtParts, Visitor.parts,
      Node.parts]
  | funcType t =>
    simp [node, value, tally, step, hskips, hv.funcTypeParts,
      Visitor.parts, Node.parts]
  | fields role l =>
    simp [node, value, tally, step, hskips, hv.fieldsOf, Visitor.parts,
      Node.parts]

theorem tally_step_of_rewrites (hdeep : ∀ n, (deep n).Steady) {n : Node}
    (hskips : ¬ p.skips table line n) (hn : p.Rewrites table line n) :
    (p.step table line mark v deep).tally n =
      Tally.add (mark n) (total (deep n).tally (p.visited table line n)) := by
  cases n with
  | expr role x =>
    obtain ⟨edit, hedit⟩ := Option.isSome_iff_exists.mp hn
    have hx := hdeep (.expr role x)
    cases edit <;>
      simp [tally, step, hskips, hedit, carryOut, hx.exprParts, visited]
  | stmt s =>
    obtain ⟨t, hedit⟩ := Option.isSome_iff_exists.mp hn
    simp [tally, step, hedit, visited]
  | _ => exact hn.elim

end Step

/-! ## Walks -/

section Walk

variable {p table line} (n : Nat)

/-- A walk goes on by steps that set the bit where something is rewritten. -/
theorem visitor_succ :
    p.visitor table line (n + 1) =
      p.step table line (fun _ => true)
        (p.visitor table line n) fun _ => p.visitor table line n := by
  rw [visitor, step, Visitor.mk.injEq]
  refine ⟨?_, ?_, ?_, ?_⟩
  · funext role x
    have hskips : p.skips table line (.expr role x) = (p.skipsTypes &&
      (role == .type || isTypeLiteral x) && covers table line x.pos x.stop) := rfl
    by_cases hcovers : covers table line x.pos x.stop
    · by_cases htype : p.skipsTypes && (role == .type || isTypeLiteral x)
      · simp [hskips, hcovers, htype]
      · simp only [hskips, editOn?, hcovers, htype, Bool.and_true, Bool.false_eq_true, if_true,
          if_false, markChanged_bind]
        cases p.onExpr role x with
        | none => rfl
        | some edit => cases edit <;> rfl
    · simp only [hskips, editOn?, hcovers, Bool.and_false, Bool.false_eq_true, if_false]
      rfl
  · grind [stmtOn?, markChanged_bind]
  · simp [skips, Node.isType, Node.covers, Node.pos, Node.stop]
  · simp [skips, Node.isType, Node.covers, Node.pos, Node.stop]

theorem steady_visitor : (p.visitor table line n).Steady := by
  induction n with
  | zero => exact steady_idle
  | succ n ih =>
    rw [visitor_succ]
    exact steady_step ih fun _ => ih

theorem tally_visitor_succ (node : Node) :
    (p.visitor table line (n + 1)).tally node ↔ p.skips table line node = false ∧
      (p.Rewrites table line node ∨ ∃ c ∈ node.parts, (p.visitor table line n).tally c) := by
  have hv : (p.visitor table line n).Steady := steady_visitor n
  rw [visitor_succ]
  by_cases hskips : p.skips table line node
  · rw [(step_of_skips hskips).2, hskips]
    exact iff_of_false Bool.false_ne_true fun h => Bool.noConfusion h.1
  · rw [Bool.not_eq_true] at hskips
    by_cases hrewrites : p.Rewrites table line node
    · rw [tally_step_of_rewrites (fun _ => hv) (by simp [hskips]) hrewrites]
      exact iff_of_true rfl ⟨hskips, .inl hrewrites⟩
    · rw [(step_of_not_rewrites hv (by simp [hskips]) hrewrites).2, total_eq_any, any_eq_true]
      simp [hskips, hrewrites]

/-- A walk that goes deep enough changes a node if something in it is rewritten that is not in a
node it skips. -/
theorem tally_visitor_iff {n : Nat} {node : Node} (hn : node.weight ≤ n) :
    (p.visitor table line n).tally node ↔ ∃ m, Node.Exposed (p.skips table line ·) m node ∧
      p.skips table line m = false ∧ p.Rewrites table line m := by
  induction n generalizing node with
  | zero => exact absurd hn (Nat.not_le_of_lt (Nat.zero_lt_of_lt node.totalWeight_parts))
  | succ n ih =>
    have hparts : (∃ c ∈ node.parts, (p.visitor table line n).tally c) ↔ ∃ c ∈ node.parts,
        ∃ m, Node.Exposed (p.skips table line ·) m c ∧
          p.skips table line m = false ∧ p.Rewrites table line m := by
      apply exists_congr
      intro c
      apply and_congr_right
      intro hc
      exact ih (Nat.le_of_lt_succ (Nat.lt_of_lt_of_le (Node.weight_lt_of_mem_parts hc) hn))
    rw [tally_visitor_succ, Node.exists_exposed_iff, hparts, and_or_left, Bool.not_eq_true]

section

variable (hp : p.skipsTypes = false)

include hp

theorem skips_eq_false (node : Node) : p.skips table line node = false := by
  cases node <;> simp [skips, hp]

theorem node_visitor_succ {node : Node} (hnode : ¬ p.Rewrites table line node) :
    (p.visitor table line (n + 1)).value.node node = (p.visitor table line n).value.parts node := by
  rw [visitor_succ]
  exact (step_of_not_rewrites (steady_visitor n) (by simp [skips_eq_false hp]) hnode).1

theorem node_visitor_revise {role : Role} {x y : Expr}
    (hedit : p.editOn? table line role x = some (.revise y)) :
    (p.visitor table line (n + 1)).value.node (.expr role x) =
      (p.visitor table line n).value.parts (.expr role y) := by
  have hv : (p.visitor table line n).Steady := steady_visitor n
  rw [visitor_succ]
  simp [node, value, step, skips_eq_false hp, hedit, carryOut, hv.exprParts,
    Visitor.parts]

theorem node_visitor_wrap {role : Role} {x operand : Expr} {build : Expr → Expr}
    (hedit : p.editOn? table line role x = some (.wrap operand build)) :
    (p.visitor table line (n + 1)).value.node (.expr role x) =
      .expr role (build ((p.visitor table line n).value.exprParts operand).run) := by
  have hv : (p.visitor table line n).Steady := steady_visitor n
  rw [visitor_succ]
  simp [node, value, step, skips_eq_false hp, hedit, carryOut, hv.exprParts]

end

end Walk

end Pattern

/-! ## Files -/

/-- The nodes that the declarations of a file are made of. -/
def nodesOf (decls : List Decl) : List Node := decls.flatMap inDecl

/-- Somewhere in a file there is a node with the property. -/
def HoldsIn (P : Node → Prop) (f : File) : Prop := ∃ n ∈ nodesOf f.decls, n.Holds P

theorem inSpec_movePath (pos : Pos) (s : Spec) : inSpec (s.movePath pos) = inSpec s := by
  cases s <;> rfl

/-- Adding an import adds nothing that a walk visits. -/
theorem mem_nodesOf_addImport (path : Text) (f : File) (table : LineTable) (n : Node) :
    n ∈ nodesOf (f.addImport table path).decls ↔ n ∈ nodesOf f.decls := by
  have hgen : ∀ d, inDecl (.gen d) = d.specs.flatMap inSpec := by
    rintro ⟨⟩
    rfl
  have hnew : ∀ pos, inSpec (.imports none none ⟨pos, .string, Text.quote path⟩ none pos) = [] :=
    fun _ => rfl
  have h := File.flatMap_addImport hgen inSpec_movePath hnew f table
  rw [ite_self] at h
  exact h.mem_iff

theorem totalWeight_nodesOf (decls : List Decl) :
    totalWeight (nodesOf decls) = declsWeight decls := by
  induction decls with
  | nil => rfl
  | cons d decls ih =>
    rw [nodesOf, flatMap_cons, totalWeight_append, totalWeight_inDecl, declsWeight]
    exact congrArg _ ih

theorem nodesOf_map_decl (e : Visitor Id) (decls : List Decl) :
    nodesOf (decls.map fun d => (e.decl d).run) = (nodesOf decls).map e.node := by
  simp only [nodesOf, flatMap_map, map_flatMap, e.inDecl_decl]

namespace Pattern

/-- What a pattern makes of the nodes of a file. -/
def editor (p : Pattern) (f : File) (table : LineTable) (line : Int) : Visitor Id :=
  (p.visitor table line (declsWeight f.decls)).value

variable {p : Pattern} {f f' : File} {table : LineTable} {line : Int}

theorem weight_le_declsWeight {n : Node} (hn : n ∈ nodesOf f.decls) :
    n.weight ≤ declsWeight f.decls := by
  rw [← totalWeight_nodesOf]
  exact weight_le_totalWeight hn

theorem edit?_eq :
    p.edit? f table line =
      if (nodesOf f.decls).any (p.visitor table line (declsWeight f.decls)).tally then
        let f' := { f with decls := f.decls.map fun d => ((p.editor f table line).decl d).run }
        some (if p.adds.isEmpty then f' else f'.addImport table p.adds)
      else none := by
  have hv : (p.visitor table line (declsWeight f.decls)).Steady := steady_visitor _
  rw [edit?, mapM_note hv.decl, nodesOf, ← total_eq_any, total_flatMap]
  simp only [StateT.run, note_pure_apply]
  rfl

/-- A file is changed if something in it is rewritten that is not in a node the pattern skips. -/
theorem isSome_edit?_iff :
    (p.edit? f table line).isSome ↔ ∃ n ∈ nodesOf f.decls,
      ∃ m, Node.Exposed (p.skips table line ·) m n ∧
        p.skips table line m = false ∧ p.Rewrites table line m := by
  rw [edit?_eq]
  dsimp only
  rw [Option.isSome_ite, any_eq_true]
  apply exists_congr
  intro n
  apply and_congr_right
  intro hn
  exact tally_visitor_iff (weight_le_declsWeight hn)

/-- A file is changed if something in it is rewritten. -/
theorem edit?_eq_none_iff (hp : p.skipsTypes = false) :
    p.edit? f table line = none ↔ ¬ HoldsIn (p.Rewrites table line) f := by
  rw [← Option.not_isSome_iff_eq_none, isSome_edit?_iff]
  simp only [skips_eq_false hp, Bool.false_eq_true, Node.exposed_false_iff, true_and]
  rfl

theorem mem_nodesOf_edit? (h : p.edit? f table line = some f') (n : Node) :
    n ∈ nodesOf f'.decls ↔ ∃ c ∈ nodesOf f.decls, (p.editor f table line).node c = n := by
  grind [edit?_eq, nodesOf_map_decl, mem_nodesOf_addImport]

/-- The patterns of the catalogue are told apart by their names. -/
theorem eq_of_name_eq {q : Pattern} (hp : p ∈ catalog) (hq : q ∈ catalog) (h : p.name = q.name) :
    p = q := by
  have hnodup : (catalog.map (·.name)).Nodup := by decide
  exact inj_on_of_nodup_map hnodup hp hq h

end Pattern

end FaultRepair.Repair
