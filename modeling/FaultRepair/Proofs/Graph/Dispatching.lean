/-
# What knowing the callees adds

A build may be told which methods the calls through interfaces reach. The table is asked in one
place only: for an operand that calls a method of an interface. Everywhere else an operand
contributes the same with and without it. A call that is resolved by the table contributes nothing
without it, so the table never takes anything away, and what it adds are the declarations of callees
that it lists alone.
-/

import FaultRepair.Flow.Dispatch
import FaultRepair.Proofs.Graph.Recorded

namespace FaultRepair.Graph

open Source FaultRepair.Module Option

/-! ## Calls through interfaces -/

namespace Program

/-- Does a call of this function call a method of an interface? -/
def callsInterface (p : Program) (file : Nat) (fn : Expr) : Bool :=
  !BuildContext.isTypeOperand (p.checked.state.info.types.get? (file, fn.unparen.anchor)) &&
    match (BuildContext.withoutArgs fn.unparen).unparen with
    | .selector _ sel =>
      (p.checked.state.info.selections.get? (file, sel.pos)).any fun s => !s.isField && s.abstract
    | _ => false

/-- The parenthesis of an operand that calls a method of an interface. -/
def interfaceCall? (p : Program) (file : Nat) : Expr → Option Pos
  | .call fn lparen _ _ _ => if p.callsInterface file fn then some lparen else none
  | _ => none

/-- The builder for a program, with a table of callees or without one. -/
def context (p : Program) (ms : ModuleSet) (d? : Option Flow.Dispatch) : BuildContext :=
  ⟨p, ms, fun file lparen => d?.bind (·.unique? file lparen)⟩

end Program

variable {p : Program} {ms : ModuleSet} {d : Flow.Dispatch} {file : Nat}

theorem call_context (d? : Option Flow.Dispatch) (fn : Expr) (lparen : Pos) :
    (p.context ms d?).call file fn lparen =
      if p.callsInterface file fn then
        (d?.bind (·.unique? file lparen)).elim .unknown (p.context ms none).declaration
      else (p.context ms none).call file fn lparen := by
  simp only [BuildContext.call, Program.callsInterface, Program.context, BuildContext.typeOf?,
    BuildContext.info, BuildContext.objs]
  by_cases htype : BuildContext.isTypeOperand
      (p.checked.state.info.types.get? (file, fn.unparen.anchor)) = true
  · grind
  · simp only [htype, Bool.false_eq_true, if_false, Bool.not_false, Bool.true_and]
    cases hfn : (BuildContext.withoutArgs fn.unparen).unparen with
    | selector x sel =>
      cases hs : p.checked.state.info.selections.get? (file, sel.pos) with
      | none => simp only [hs]; rfl
      | some s =>
        simp only [hs, any_some]
        cases s.isField <;> cases s.abstract <;> try rfl
        cases d?.bind (·.unique? file lparen) <;> rfl
    | _ => rfl

theorem root_context (d? : Option Flow.Dispatch) (e : Expr) :
    (p.context ms d?).root file e = (p.context ms none).root file e := by
  have hinfo : (p.context ms d?).info = (p.context ms none).info := rfl
  fun_induction BuildContext.root (p.context ms none) file e with
  | case1 lparen x rparen ih => exact ih
  | case3 x sel s hs hfield ih => simp only [BuildContext.root, hinfo, hs, hfield, if_true, ih]
  | case4 x sel s hs hfield => simp only [BuildContext.root, hinfo, hs, hfield]; rfl
  | case5 x sel hs obj huse => simp only [BuildContext.root, hinfo, hs, huse]; rfl
  | case6 x sel hs huse => simp only [BuildContext.root, hinfo, hs, huse]
  | case7 pos x ih => exact ih
  | case2 id => rfl
  | case8 e h1 h2 h3 h4 => cases e <;> first | rfl | simp_all

/-- With a table, an operand contributes what it does without one, and the only callee of a call
through an interface. -/
theorem mem_contributions_context {e : Expr} {l : Location} :
    l ∈ ((p.context ms (some d)).contributions file e).locations ↔
      l ∈ ((p.context ms none).contributions file e).locations ∨
        ∃ x ∈ operands e, ∃ lparen, p.interfaceCall? file x = some lparen ∧
          ∃ obj, d.unique? file lparen = some obj ∧
            l ∈ ((p.context ms none).declaration obj).locations := by
  fun_induction operands e with
  | case1 lparen x rparen ih => exact ih
  | case2 x opPos op y ihx ihy => grind [BuildContext.contributions, Contribution.append]
  | case3 e hparen hbinary =>
    simp only [List.mem_singleton, exists_eq_left]
    cases e with
    | paren => exact absurd rfl (hparen _ _ _)
    | binary => exact absurd rfl (hbinary _ _ _ _)
    | call fn lparen args ellipsis rparen =>
      simp only [BuildContext.contributions, Program.interfaceCall?]
      rw [call_context (some d), call_context none]
      by_cases hcalls : p.callsInterface file fn
      · simp only [hcalls, if_true, bind_some, bind_none, elim_none, some.injEq,
          exists_eq_left']
        cases d.unique? file lparen <;> simp [Contribution.unknown]
      · simp [hcalls]
    | selector x sel =>
      simp [BuildContext.contributions, root_context (some d), Program.interfaceCall?]
    | _ => simp [BuildContext.contributions, Program.interfaceCall?] <;> rfl

/-! ## Counts -/

/-- Two builds have looked at as many targets, and passed over as many. -/
def Building.Alike (b b' : Building) : Prop :=
  b.stats.assignments = b'.stats.assignments ∧ b.stats.skipped = b'.stats.skipped

theorem Building.Alike.assignTarget {b b' : Building} (h : b.Alike b') (c c' : BuildContext)
    (file : Nat) (value? : Option Expr) (target : Expr) :
    (assignTarget c file value? b target).Alike (assignTarget c' file value? b' target) := by
  grind [Building.assignTarget, Alike]

/-- What is counted for targets does not depend on what values are computed from. -/
theorem counts_build (c : BuildContext) (u : Nat → Pos → Option Nat) (o : FileFilter) :
    (build c o).stats.assignments = (build { c with unique? := u } o).stats.assignments ∧
      (build c o).stats.skipped = (build { c with unique? := u } o).stats.skipped := by
  suffices h : Building.Alike _ _ from h
  refine List.foldl_rel ⟨rfl, rfl⟩ fun f _ b b' hb => ?_
  refine List.foldl_rel hb fun a _ b b' hb => ?_
  exact List.foldl_rel hb fun target _ b b' hb => hb.assignTarget _ _ _ _ _

/-! ## Additional pairs -/

/-- The table lists one callee alone for the call at a parenthesis. -/
def ListsOnly (d : Flow.Dispatch) (file : Nat) (lparen : Pos) (obj : Nat) : Prop :=
  ∃ site, d.sites.find? (fun s => s.file == file && s.lparen == lparen) = some site ∧
    site.callees = [obj]

theorem unique?_eq_some_iff {lparen : Pos} {obj : Nat} :
    d.unique? file lparen = some obj ↔ ListsOnly d file lparen obj := by
  rw [Flow.Dispatch.unique?, bind_eq_some_iff]
  refine exists_congr fun site => and_congr_right fun _ => ?_
  split <;> simp_all

/-- A pair comes from the table: an operand of the value that is assigned at its left side calls a
method of an interface, and its right side is where the only callee is declared in the modules. -/
def Dispatched (p : Program) (ms : ModuleSet) (o : FileFilter) (d : Flow.Dispatch)
    (key : Position × Position) : Prop :=
  ∃ f ∈ analysed p ms o, ∃ e ∈ assigned f, key.1 = positionAt p f.number e.1.pos ∧
    ∃ x ∈ operands e.2, ∃ lparen, p.interfaceCall? f.number x = some lparen ∧
      ∃ obj, ListsOnly d f.number lparen obj ∧ DeclaredAt p ms obj key.2

/-- **A table of callees only adds pairs.**  For every program, every set of modules and every
table, the pairs of the build with the table are those of the build without it and those that come
from the table. Both builds go through the same files and count the same targets. -/
theorem dispatch_only_adds (p : Program) (ms : ModuleSet) (o : FileFilter) (d : Flow.Dispatch) :
    (∀ key, key ∈ DepGraph.pairKeys (build (p.context ms (some d)) o).graph.pairs ↔
      key ∈ DepGraph.pairKeys (build (p.context ms none) o).graph.pairs ∨ Dispatched p ms o d key) ∧
    (build (p.context ms (some d)) o).files = (build (p.context ms none) o).files ∧
    (build (p.context ms (some d)) o).stats.assignments =
      (build (p.context ms none) o).stats.assignments ∧
    (build (p.context ms (some d)) o).stats.skipped =
    (build (p.context ms none) o).stats.skipped := by
  refine ⟨fun key => ?_, rfl, counts_build (p.context ms (some d)) _ o⟩
  simp only [mem_pairKeys_build]
  constructor
  · rintro ⟨f, hf, e, he, hleft, r, hr, hright⟩
    rcases mem_contributions_context.mp hr with hr | ⟨x, hx, lparen, hcall, obj, hobj, hr⟩
    · exact .inl ⟨f, hf, e, he, hleft, r, hr, hright⟩
    · exact .inr ⟨f, hf, e, he, hleft, x, hx, lparen, hcall, obj, unique?_eq_some_iff.mp hobj,
        (p.context ms none).declaredAt_iff.mpr ⟨r, hr, hright⟩⟩
  · rintro (⟨f, hf, e, he, hleft, r, hr, hright⟩ |
      ⟨f, hf, e, he, hleft, x, hx, lparen, hcall, obj, hobj, hdeclared⟩)
    · exact ⟨f, hf, e, he, hleft, r, mem_contributions_context.mpr (.inl hr), hright⟩
    · obtain ⟨r, hr, hright⟩ := (p.context ms none).declaredAt_iff.mp hdeclared
      exact ⟨f, hf, e, he, hleft, r, mem_contributions_context.mpr
        (.inr ⟨x, hx, lparen, hcall, obj, unique?_eq_some_iff.mpr hobj, hr⟩), hright⟩

end FaultRepair.Graph
