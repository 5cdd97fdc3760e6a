/-
# Sums of strings

Saturating a sum makes no sense if the sum joins strings. The pattern `saturating-arith` leaves
alone what has a string literal for an operand, and it looks no further. Since sums associate to
the left, the literal of a longer sum may stand deeper: `"a" + x + y` is the sum of `"a" + x` and
`y`, and neither of them is a literal.

So the pattern leaves the strings of a file alone exactly if no such sum covers the line, but for
those inside of another sum or difference that is rewritten.
-/

import FaultRepair.Proofs.Repair.Descent
import FaultRepair.Proofs.Repair.Rewritings
import FaultRepair.Proofs.Repair.Shapes

namespace FaultRepair.Repair

open Source

namespace Pattern

/-- Does the expression join strings, as far as its text tells? It is a string literal, or one that
joins strings in parentheses, or a sum with an operand that joins strings. -/
def joinsStrings : Expr → Bool
  | .lit l => l.kind == .string
  | .paren _ x _ => joinsStrings x
  | .binary x _ op y => op == .add && (joinsStrings x || joinsStrings y)
  | _ => false

end Pattern

namespace Node

open Pattern

/-- A sum that joins strings, or the addition of such a value to a variable. -/
def joinsStrings : Node → Bool
  | .expr _ (.binary x _ .add y) => Pattern.joinsStrings x || Pattern.joinsStrings y
  | .stmt (.assign [_] _ .addAssign [y]) => Pattern.joinsStrings y
  | _ => false

/-- It joins strings, but no operand is a literal: all its literals stand deeper. -/
def buriesStrings : Node → Bool
  | .expr _ (.binary x _ .add y) =>
    (Pattern.joinsStrings x || Pattern.joinsStrings y) && !isStringLit x && !isStringLit y
  | .stmt (.assign [_] _ .addAssign [y]) => Pattern.joinsStrings y && !isStringLit y
  | _ => false

end Node

namespace Pattern

variable {p : Pattern} {table : LineTable} {line : Int}

def saturatingArith : Pattern := catalog.get ⟨1, by decide⟩

theorem isSome_saturateExpr_add (role : Role) (x y : Expr) (opPos : Pos) :
    (saturateExpr role (.binary x opPos .add y)).isSome = (!isStringLit x && !isStringLit y) := by
  simp only [saturateExpr, saturatingName?]
  cases isStringLit x <;> cases isStringLit y <;> rfl

theorem isSome_saturateStmt_addAssign (x y : Expr) (tokPos : Pos) :
    (saturateStmt (.assign [x] tokPos .addAssign [y])).isSome = !isStringLit y := by
  simp only [saturateStmt, Token.assignOperator?, Option.bind_some, saturatingName?]
  cases isStringLit y <;> rfl

/-- The pattern rewrites a concatenation on the line exactly if all its literals stand deeper. -/
theorem rewrites_joinsStrings_iff (n : Node) :
    saturatingArith.Rewrites table line n ∧ n.joinsStrings ↔
      n.covers table line ∧ n.buriesStrings := by
  cases n with
  | expr role x =>
    rw [rewrites_expr_iff, and_assoc]
    apply and_congr_right
    rintro -
    change (saturateExpr role x).isSome ∧ _ ↔ _
    unfold Node.joinsStrings Node.buriesStrings
    split
    · grind [isSome_saturateExpr_add]
    · rename_i heq
      cases heq
    · simp
  | stmt s =>
    rw [rewrites_stmt_iff, and_assoc]
    apply and_congr_right
    rintro -
    change (saturateStmt s).isSome ∧ _ ↔ _
    unfold Node.joinsStrings Node.buriesStrings
    grind [isSome_saturateStmt_addAssign]
  | _ => simp [Rewrites, Node.buriesStrings]

/-- No concatenation with a literal for an operand is ever rewritten, in parentheses or not. A
concatenation is rewritten exactly where one covers the line that has its literals deeper, and that
does not stand inside of something which is rewritten itself. -/
theorem concatenation_rewritten_iff_buried :
    ∀ p ∈ catalog, p.name = "saturating-arith" → ∀ (f : File) (table : LineTable) (line : Int),
      p.edit? f table line = p.watched? table line f ∧
      (∀ r ∈ p.rewritings table line f, r.node.joinsStrings → r.node.buriesStrings) ∧
      ((∃ r ∈ p.rewritings table line f, r.node.joinsStrings) ↔
        ∃ n ∈ nodesOf f.decls, ∃ m, Node.Exposed (p.Rewrites table line) m n ∧
          m.covers table line ∧ m.buriesStrings) := by
  intro p hp hname f table line
  have hmem : saturatingArith ∈ catalog := List.get_mem _ _
  obtain rfl : p = saturatingArith := eq_of_name_eq hp hmem hname
  refine ⟨edit?_eq_watched? f, ?_, ?_⟩
  · intro r hr hjoins
    exact ((rewrites_joinsStrings_iff r.node).mp ⟨rewrites_of_mem_rewritings hr, hjoins⟩).2
  · have hvisited : ∀ n, saturatingArith.visited table line n = [] := visited_eq_nil hmem rfl
    rw [exists_mem_rewritings_iff hvisited rfl (P := fun n => n.joinsStrings)]
    simp only [rewrites_joinsStrings_iff]

/-- `"a" + x + z` -/
def literalFirst : Expr :=
  .binary (.binary (.lit ⟨20, .string, "\"a\""⟩) 24 .add (.ident ⟨26, "x"⟩)) 28 .add
    (.ident ⟨30, "z"⟩)

theorem literal_first_buried :
    saturatingArith ∈ catalog ∧ saturatingArith.name = "saturating-arith" ∧
      ∃ r ∈ saturatingArith.rewritings {} 1 (valued literalFirst),
        r.node.joinsStrings ∧ r.node.buriesStrings := by
  have hmem : saturatingArith ∈ catalog := List.get_mem _ _
  obtain ⟨-, hburies, hiff⟩ :=
    concatenation_rewritten_iff_buried saturatingArith hmem rfl (valued literalFirst) {} 1
  obtain ⟨r, hr, hjoins⟩ := hiff.mpr
    ⟨.expr .plain literalFirst, by simp [nodesOf, inDecl, inGenDecl, inSpec, valued],
      .expr .plain literalFirst, .refl, by decide, by decide⟩
  exact ⟨hmem, rfl, r, hr, hjoins, hburies r hr hjoins⟩

/-- The walk replaces `"a" + x + z` by a call of `sat.Add`. -/
theorem concatenation_saturated :
    ∃ p ∈ catalog, p.name = "saturating-arith" ∧ ∃ (f : File) (table : LineTable) (line : Int),
      (p.edit? f table line).isSome ∧ ∃ r ∈ p.rewritings table line f, r.node.joinsStrings := by
  refine ⟨saturatingArith, List.get_mem _ _, rfl, valued literalFirst, {}, 1, by decide,
    ⟨.expr .plain literalFirst, []⟩, ?_, by decide⟩
  exact List.mem_cons_self

end Pattern

end FaultRepair.Repair
