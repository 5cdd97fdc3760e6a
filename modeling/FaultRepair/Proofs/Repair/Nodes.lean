/-
# Nodes of a tree

What a walk visits is a node: an expression in its role, a statement, a function type or a list of
fields. This module names the parts of a node, in source order, and says what one step of a walk
does in these terms alone, so that later arguments need not look at the many kinds of nodes again:
the parts of the result are the results of the parts, a part weighs less than the whole, and a node
keeps its first position if its parts do.

A walk that keeps no account of anything is a visitor in the identity monad.
-/

import FaultRepair.Repair.Variant
import Mathlib.Data.List.Flatten
import Mathlib.Logic.Basic

namespace FaultRepair.Repair

open Source List

/-- What a walk visits. -/
inductive Node where
  | expr (role : Role) (x : Expr)
  | stmt (s : Stmt)
  | funcType (t : FuncType)
  | fields (role : Role) (l : FieldList)

/-! ## Parts -/

def inFields : FieldList → List Node
  | .mk _ list _ => list.flatMap fun f => f.type.toList.map (.expr .type)

def inFuncType : FuncType → List Node
  | .mk _ typeParams params results =>
    typeParams.toList.map (.fields .type) ++ [.fields .plain params] ++
      results.toList.map (.fields .plain)

def inBlock : Block → List Node
  | .mk _ list _ => list.map .stmt

def inExpr : Expr → List Node
  | .bad .. | .ident _ | .lit _ => []
  | .ellipsis _ elt => elt.toList.map (.expr .plain)
  | .funcLit type body => .funcType type :: inBlock body
  | .composite type _ elts _ => type.toList.map (.expr .type) ++ elts.map (.expr .plain)
  | .paren _ x _ | .selector x _ | .star _ x | .unary _ _ x | .chanType _ _ _ x => [.expr .plain x]
  | .index x _ y _ | .binary x _ _ y | .keyValue x _ y | .mapType _ x y =>
    [.expr .plain x, .expr .plain y]
  | .indexList x _ idxs _ => .expr .plain x :: idxs.map (.expr .plain)
  | .slice x _ low high max _ _ =>
    .expr .plain x :: (low.toList ++ high.toList ++ max.toList).map (.expr .plain)
  | .typeAssert x _ type _ => .expr .plain x :: type.toList.map (.expr .type)
  | .call fn _ args _ _ => .expr .callee fn :: args.map (.expr .plain)
  | .arrayType _ len elt => len.toList.map (.expr .plain) ++ [.expr .plain elt]
  | .structType _ fields | .interfaceType _ fields => [.fields .plain fields]
  | .funcType type => inFuncType type

def inSpec : Spec → List Node
  | .imports .. => []
  | .value _ _ type values _ => type.toList.map (.expr .type) ++ values.map (.expr .plain)
  | .type _ _ params _ type _ => params.toList.map (.fields .type) ++ [.expr .type type]

def inGenDecl : GenDecl → List Node
  | .mk _ _ _ _ specs _ => specs.flatMap inSpec

def inStmt : Stmt → List Node
  | .bad .. | .empty .. | .branch .. => []
  | .decl d => inGenDecl d
  | .labeled _ _ stmt => [.stmt stmt]
  | .expr x | .incDec x _ _ | .goCall _ x | .deferCall _ x => [.expr .plain x]
  | .send chan _ value => [.expr .plain chan, .expr .plain value]
  | .assign lhs _ _ rhs => (lhs ++ rhs).map (.expr .plain)
  | .ret _ results => results.map (.expr .plain)
  | .block body | .select _ body => inBlock body
  | .ifElse _ init cond body other =>
    init.toList.map .stmt ++ [.expr .plain cond] ++ inBlock body ++ other.toList.map .stmt
  | .caseClause _ list _ body => list.map (.expr .plain) ++ body.map .stmt
  | .switch _ init tag body =>
    init.toList.map .stmt ++ tag.toList.map (.expr .plain) ++ inBlock body
  | .typeSwitch _ init subject body => init.toList.map .stmt ++ [.stmt subject] ++ inBlock body
  | .commClause _ comm _ body => comm.toList.map .stmt ++ body.map .stmt
  | .loop _ init cond post body =>
    init.toList.map .stmt ++ cond.toList.map (.expr .plain) ++ post.toList.map .stmt ++ inBlock body
  | .range _ key value _ _ _ x body =>
    key.toList.map (.expr .plain) ++ value.toList.map (.expr .plain) ++ [.expr .plain x] ++
      inBlock body

def inDecl : Decl → List Node
  | .bad _ _ => []
  | .gen d => inGenDecl d
  | .func d => d.recv.toList.map (.fields .plain) ++ [.funcType d.type] ++
      (d.body.map inBlock).getD []

namespace Node

def parts : Node → List Node
  | .expr _ x => inExpr x
  | .stmt s => inStmt s
  | .funcType t => inFuncType t
  | .fields _ l => inFields l

def pos : Node → Pos
  | .expr _ x | .stmt x | .fields _ x => x.pos
  | .funcType t => t.start

def stop : Node → Pos
  | .expr _ x | .stmt x | .funcType x | .fields _ x => x.stop

/-- Is the node a type, or where a type is expected? -/
def isType : Node → Bool
  | .expr role x => role == .type || Pattern.isTypeLiteral x
  | .stmt _ => false
  | .funcType _ => true
  | .fields role _ => role == .type

def covers (table : LineTable) (line : Int) (n : Node) : Bool :=
  Pattern.covers table line n.pos n.stop

/-- One node occurs in another, or is it. -/
inductive Within (m : Node) : Node → Prop
  | refl : Within m m
  | part {c n : Node} (mem : c ∈ n.parts) (within : Within m c) : Within m n

/-- Somewhere in the node there is one with the property. -/
def Holds (P : Node → Prop) (n : Node) : Prop := ∃ m, Within m n ∧ P m

theorem holds_iff {P : Node → Prop} {n : Node} :
    n.Holds P ↔ P n ∨ ∃ c ∈ n.parts, c.Holds P := by
  constructor
  · rintro ⟨m, hwithin, hm⟩
    cases hwithin with
    | refl => exact .inl hm
    | part hmem hwithin => exact .inr ⟨_, hmem, m, hwithin, hm⟩
  · rintro (hn | ⟨c, hmem, m, hwithin, hm⟩)
    · exact ⟨n, .refl, hn⟩
    · exact ⟨m, .part hmem hwithin, hm⟩

/-- One node occurs in another, or is it, and no node around it has the property. -/
inductive Exposed (S : Node → Prop) (m : Node) : Node → Prop
  | refl : Exposed S m m
  | part {c n : Node} (open_ : ¬ S n) (mem : c ∈ n.parts) (exposed : Exposed S m c) : Exposed S m n

theorem exists_exposed_iff {S P : Node → Prop} {n : Node} :
    (∃ m, Exposed S m n ∧ P m) ↔ P n ∨ ¬ S n ∧ ∃ c ∈ n.parts, ∃ m, Exposed S m c ∧ P m := by
  constructor
  · rintro ⟨m, hexposed, hm⟩
    cases hexposed with
    | refl => exact .inl hm
    | part hn hmem hexposed => exact .inr ⟨hn, _, hmem, m, hexposed, hm⟩
  · rintro (hn | ⟨hn, c, hmem, m, hexposed, hm⟩)
    · exact ⟨n, .refl, hn⟩
    · exact ⟨m, .part hn hmem hexposed, hm⟩

theorem exposed_false_iff {m n : Node} : Exposed (fun _ => False) m n ↔ Within m n := by
  constructor
  · intro h
    induction h with
    | refl => exact .refl
    | part _ hmem _ ih => exact .part hmem ih
  · intro h
    induction h with
    | refl => exact .refl
    | part hmem _ ih => exact .part id hmem ih

end Node

/-! ## One step of a walk -/

namespace Visitor

variable (e : Visitor Id)

def node : Node → Node
  | .expr role x => .expr role (e.expr role x).run
  | .stmt s => .stmt (e.stmt s).run
  | .funcType t => .funcType (e.funcType t).run
  | .fields role l => .fields role (e.fields role l).run

def parts : Node → Node
  | .expr role x => .expr role (e.exprParts x).run
  | .stmt s => .stmt (e.stmtParts s).run
  | .funcType t => .funcType (e.funcTypeParts t).run
  | .fields role l => .fields role (e.fieldsOf l).run

@[simp]
theorem node_comp_expr (role : Role) :
    e.node ∘ Node.expr role = Node.expr role ∘ fun x => (e.expr role x).run := rfl

@[simp]
theorem node_comp_stmt : e.node ∘ Node.stmt = Node.stmt ∘ fun s => (e.stmt s).run := rfl

@[simp]
theorem node_comp_fields (role : Role) :
    e.node ∘ Node.fields role = Node.fields role ∘ fun l => (e.fields role l).run := rfl

@[simp]
theorem run_expr? (role : Role) (o : Option Expr) :
    (e.expr? role o).run = o.map fun x => (e.expr role x).run := by
  cases o <;> rfl

@[simp]
theorem run_stmt? (o : Option Stmt) : (e.stmt? o).run = o.map fun s => (e.stmt s).run := by
  cases o <;> rfl

@[simp]
theorem run_exprs (xs : List Expr) : (e.exprs xs).run = xs.map fun x => (e.expr .plain x).run := by
  simp [exprs]

@[simp]
theorem run_fields? (role : Role) (o : Option FieldList) :
    (o.mapM (e.fields role)).run = o.map fun l => (e.fields role l).run := by
  cases o <;> rfl

theorem inBlock_block (b : Block) : inBlock (e.block b).run = (inBlock b).map e.node := by
  cases b
  simp [block, inBlock]

theorem inFuncType_funcTypeParts (t : FuncType) :
    inFuncType (e.funcTypeParts t).run = (inFuncType t).map e.node := by
  cases t
  simp [funcTypeParts, inFuncType, node, Option.toList_map]

theorem type_field (f : Field) :
    (e.field f).run.type.toList.map (Node.expr .type) =
      (f.type.toList.map (Node.expr .type)).map e.node := by
  cases f
  simp [field, Field.type, Option.toList_map]

theorem inFields_fieldsOf (l : FieldList) :
    inFields (e.fieldsOf l).run = (inFields l).map e.node := by
  cases l
  simp [fieldsOf, inFields, type_field, flatMap_map, map_flatMap]

theorem inExpr_exprParts (x : Expr) : inExpr (e.exprParts x).run = (inExpr x).map e.node := by
  cases x <;> simp [exprParts, inExpr, inBlock_block, inFuncType_funcTypeParts, node,
    Option.toList_map]

theorem inSpec_spec (s : Spec) : inSpec (e.spec s).run = (inSpec s).map e.node := by
  cases s <;> simp [spec, inSpec, node, Option.toList_map]

theorem inGenDecl_genDecl (d : GenDecl) :
    inGenDecl (e.genDecl d).run = (inGenDecl d).map e.node := by
  cases d
  simp [genDecl, inGenDecl, inSpec_spec, flatMap_map, map_flatMap]

theorem inStmt_stmtParts (s : Stmt) : inStmt (e.stmtParts s).run = (inStmt s).map e.node := by
  cases s <;> simp [stmtParts, inStmt, inBlock_block, inGenDecl_genDecl, node, Option.toList_map]

theorem inDecl_decl (d : Decl) : inDecl (e.decl d).run = (inDecl d).map e.node := by
  cases d with
  | bad => rfl
  | gen d => simp [decl, inDecl, inGenDecl_genDecl]
  | func d =>
    cases hbody : d.body <;> simp [decl, inDecl, inBlock_block, node, hbody, Option.toList_map]

/-- The parts of the result are the results of the parts. -/
theorem parts_parts (n : Node) : (e.parts n).parts = n.parts.map e.node := by
  cases n with
  | expr role x => exact e.inExpr_exprParts x
  | stmt s => exact e.inStmt_stmtParts s
  | funcType t => exact e.inFuncType_funcTypeParts t
  | fields role l => exact e.inFields_fieldsOf l

theorem holds_parts_iff {P : Node → Prop} {n : Node} :
    (e.parts n).Holds P ↔ P (e.parts n) ∨ ∃ c ∈ n.parts, (e.node c).Holds P := by
  rw [Node.holds_iff, parts_parts]
  simp only [mem_map, exists_exists_and_eq_and]

/-! ### Nothing to change -/

section

variable {e}

end

end Visitor

/-! ## Weights -/

namespace Node

def weight : Node → Nat
  | .expr _ x => exprWeight x
  | .stmt s => stmtWeight s
  | .funcType t => funcTypeWeight t
  | .fields _ l => fieldsWeight l

end Node

def totalWeight (ns : List Node) : Nat := ns.foldr (fun n w => n.weight + w) 0

@[simp]
theorem totalWeight_nil : totalWeight [] = 0 := rfl

@[simp]
theorem totalWeight_cons (n : Node) (ns : List Node) :
    totalWeight (n :: ns) = n.weight + totalWeight ns := rfl

@[simp]
theorem totalWeight_append (ms ns : List Node) :
    totalWeight (ms ++ ns) = totalWeight ms + totalWeight ns := by
  induction ms with
  | nil => simp
  | cons m ms ih => simp [ih, Nat.add_assoc]

theorem weight_le_totalWeight {n : Node} {ns : List Node} (h : n ∈ ns) :
    n.weight ≤ totalWeight ns := by
  obtain ⟨front, back, rfl⟩ := append_of_mem h
  rw [totalWeight_append, totalWeight_cons]
  exact Nat.le_trans (Nat.le_add_right _ _) (Nat.le_add_left _ _)

@[simp]
theorem totalWeight_exprs (role : Role) (xs : List Expr) :
    totalWeight (xs.map (.expr role)) = exprsWeight xs := by
  induction xs with
  | nil => rfl
  | cons x xs ih => simp [exprsWeight, ih, Node.weight]

@[simp]
theorem exprsWeight_toList (o : Option Expr) : exprsWeight o.toList = optExprWeight o := by
  cases o <;> rfl

@[simp]
theorem totalWeight_stmts (ss : List Stmt) : totalWeight (ss.map .stmt) = stmtsWeight ss := by
  induction ss with
  | nil => rfl
  | cons s ss ih => simp [stmtsWeight, ih, Node.weight]

@[simp]
theorem stmtsWeight_toList (o : Option Stmt) : stmtsWeight o.toList = optStmtWeight o := by
  cases o <;> rfl

@[simp]
theorem totalWeight_fields? (role : Role) (o : Option FieldList) :
    totalWeight (o.toList.map (.fields role)) = optFieldsWeight o := by
  cases o <;> rfl

@[simp]
theorem totalWeight_inBlock (b : Block) : totalWeight (inBlock b) = blockWeight b := by
  cases b
  simp [inBlock, blockWeight]

@[simp]
theorem totalWeight_inSpec (s : Spec) : totalWeight (inSpec s) = specWeight s := by
  cases s <;> simp [inSpec, specWeight, Node.weight]

@[simp]
theorem totalWeight_inGenDecl (d : GenDecl) : totalWeight (inGenDecl d) = genDeclWeight d := by
  obtain ⟨doc, pos, tok, lparen, specs, rparen⟩ := d
  induction specs with
  | nil => rfl
  | cons s specs ih => simp_all [inGenDecl, genDeclWeight, specsWeight]

theorem totalWeight_inFields (l : FieldList) : totalWeight (inFields l) + 1 = fieldsWeight l := by
  obtain ⟨opening, list, closing⟩ := l
  induction list with
  | nil => rfl
  | cons f list ih =>
    obtain ⟨doc, names, type, tag, comment⟩ := f
    simp_all [inFields, fieldsWeight, fieldListWeight, fieldWeight, Field.type]

theorem totalWeight_inFuncType (t : FuncType) : totalWeight (inFuncType t) < funcTypeWeight t := by
  obtain ⟨pos, typeParams, params, results⟩ := t
  simp only [inFuncType, totalWeight_append, totalWeight_fields?, totalWeight_cons, totalWeight_nil,
    Node.weight, funcTypeWeight]
  omega

theorem totalWeight_inExpr (x : Expr) : totalWeight (inExpr x) < exprWeight x := by
  cases x with
  | funcType t => exact Nat.lt_succ_of_lt (totalWeight_inFuncType t)
  | _ => simp [inExpr, exprWeight, Node.weight] <;> omega

theorem totalWeight_inStmt (s : Stmt) : totalWeight (inStmt s) < stmtWeight s := by
  cases s <;> simp [inStmt, stmtWeight, Node.weight] <;> omega

theorem totalWeight_inDecl (d : Decl) : totalWeight (inDecl d) = declWeight d := by
  cases d with
  | bad => rfl
  | gen d => exact totalWeight_inGenDecl d
  | func d => cases hbody : d.body <;> simp [inDecl, declWeight, Node.weight, hbody, Nat.add_assoc]

namespace Node

theorem totalWeight_parts (n : Node) : totalWeight n.parts < n.weight := by
  cases n with
  | expr role x => exact totalWeight_inExpr x
  | stmt s => exact totalWeight_inStmt s
  | funcType t => exact totalWeight_inFuncType t
  | fields role l => exact Nat.lt_of_succ_le (Nat.le_of_eq (totalWeight_inFields l))

theorem weight_lt_of_mem_parts {c n : Node} (h : c ∈ n.parts) : c.weight < n.weight :=
  Nat.lt_of_le_of_lt (weight_le_totalWeight h) n.totalWeight_parts

end Node

/-! ## First positions -/

/-- The first position of an expression, a function type or a list of fields. Statements are left
out, as no expression starts with one. -/
def Node.start : Node → Pos
  | .expr _ x | .fields _ x => x.pos
  | .stmt _ => noPos
  | .funcType t => t.start

namespace Visitor

variable (e : Visitor Id)

theorem pos_fieldsOf {l : FieldList} (h : ∀ c ∈ inFields l, (e.node c).start = c.start) :
    (e.fieldsOf l).run.pos = l.pos := by
  obtain ⟨opening, list, closing⟩ := l
  cases list with
  | nil => rfl
  | cons f list =>
    obtain ⟨doc, names, type, tag, comment⟩ := f
    cases names with
    | cons name names => simp [fieldsOf, field, FieldList.pos, fieldsPos, Field.pos]
    | nil =>
      cases type with
      | none => simp [fieldsOf, field, FieldList.pos, fieldsPos, Field.pos]
      | some type =>
        have htype : (e.expr .type type).run.pos = type.pos :=
          h (.expr .type type) (by simp [inFields, Field.type])
        simp [fieldsOf, field, FieldList.pos, fieldsPos, Field.pos, htype]

theorem start_funcTypeParts {t : FuncType} (h : ∀ c ∈ inFuncType t, (e.node c).start = c.start) :
    (e.funcTypeParts t).run.start = t.start := by
  obtain ⟨pos, typeParams, params, results⟩ := t
  have hparams : (e.fields .plain params).run.pos = params.pos :=
    h (.fields .plain params) (by simp [inFuncType])
  simp [funcTypeParts, FuncType.start, hparams]

theorem pos_exprParts {x : Expr} (h : ∀ c ∈ inExpr x, (e.node c).start = c.start) :
    (e.exprParts x).run.pos = x.pos := by
  cases x with
  | funcType t => exact e.start_funcTypeParts h
  | composite type lbrace elts rbrace =>
    cases type with
    | none => rfl
    | some type => exact h (.expr .type type) mem_cons_self
  | bad | ident | ellipsis | lit | paren | star | unary | arrayType | structType | interfaceType
  | mapType | chanType => rfl
  | _ => exact h _ mem_cons_self

/-- A node keeps its first position if its parts do. -/
theorem start_parts {n : Node} (h : ∀ c ∈ n.parts, (e.node c).start = c.start) :
    (e.parts n).start = n.start := by
  cases n with
  | expr role x => exact e.pos_exprParts h
  | stmt s => rfl
  | funcType t => exact e.start_funcTypeParts h
  | fields role l => exact e.pos_fieldsOf h

end Visitor

end FaultRepair.Repair
