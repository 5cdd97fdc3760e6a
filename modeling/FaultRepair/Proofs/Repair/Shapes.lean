/-
# Something to repair

Each pattern of the catalogue looks for nodes of one shape. A pattern changes a file exactly if a
node of its shape covers the line, wherever it is; only `index-shift` passes over types, with all
that is in them. The shapes are stated here without the edits, one for each kind of repair.
-/

import FaultRepair.Proofs.Repair.Chains
import FaultRepair.Proofs.Repair.Walks
import Mathlib.Data.List.Forall2

namespace FaultRepair.Repair.Pattern

open Source Option

/-! ## Shapes -/

/-- A string literal, possibly in parentheses. -/
inductive StringLit : Expr → Prop
  | lit {l : BasicLit} (kind : l.kind = .string) : StringLit (.lit l)
  | paren {x : Expr} (lparen rparen : Pos) (inner : StringLit x) :
    StringLit (.paren lparen x rparen)

/-- An index that is neither that of a function which is called nor a string, or a slice. -/
inductive Indexes : Node → Prop
  | index {role : Role} {x idx : Expr} {lbrack rbrack : Pos} (notCalled : role ≠ .callee)
      (notString : ¬ StringLit idx) : Indexes (.expr role (.index x lbrack idx rbrack))
  | slice {role : Role} {x : Expr} {low high max : Option Expr} {three : Bool}
      {lbrack rbrack : Pos} : Indexes (.expr role (.slice x lbrack low high max three rbrack))

/-- A sum or a difference without a string for an operand, or a value other than a string that is
added to or subtracted from one variable. -/
inductive Sums : Node → Prop
  | operator {role : Role} {x y : Expr} {opPos : Pos} {op : Token} (isSum : op = .add ∨ op = .sub)
      (left : ¬ StringLit x) (right : ¬ StringLit y) : Sums (.expr role (.binary x opPos op y))
  | assignment {x y : Expr} {tokPos : Pos} {tok : Token}
    (isSum : tok = .addAssign ∨ tok = .subAssign)
      (value : ¬ StringLit y) : Sums (.stmt (.assign [x] tokPos tok [y]))

/-- `x.Abs()` or `abs(x)` -/
inductive TakesAbs : Node → Prop
  | method {role : Role} {x : Expr} {sel : Ident} {lparen ellipsis rparen : Pos}
      (name : sel.name = "Abs") :
      TakesAbs (.expr role (.call (.selector x sel) lparen [] ellipsis rparen))
  | function {role : Role} {x : Expr} {id : Ident} {lparen ellipsis rparen : Pos}
      (name : id.name = "abs") :
        TakesAbs (.expr role (.call (.ident id) lparen [x] ellipsis rparen))

inductive Calls (method : Text) : Node → Prop
  | mk {role : Role} {x : Expr} {sel : Ident} {lparen : Pos} {args : List Expr}
      {ellipsis rparen : Pos} (name : sel.name = method) :
      Calls method (.expr role (.call (.selector x sel) lparen args ellipsis rparen))

/-- A call of `Map` with a closure that does nothing but return the result of a chain of method
calls, one of which is an `Unwrap`. -/
inductive MapsUnwrapped : Node → Prop
  | mk {role : Role} {x : Expr} {sel : Ident} {lparen : Pos} {type : FuncType} {lbrace pos : Pos}
      {head result : Expr} {calls : List MethodCall} {rbrace : Pos} {rest : List Expr}
      {ellipsis rparen : Pos} (name : sel.name = "Map") (chain : Follows head calls result)
      (unwraps : ∃ u ∈ calls, u.isUnwrap) :
      MapsUnwrapped (.expr role (.call (.selector x sel) lparen
        (returning type lbrace pos result rbrace :: rest) ellipsis rparen))

/-- The statement `copy(dst, src)` -/
inductive Copies : Node → Prop
  | mk {fn : Ident} {lparen rparen : Pos} {dst src : Expr} (name : fn.name = "copy") :
      Copies (.stmt (.expr (.call (.ident fn) lparen [dst, src] noPos rparen)))

/-- The patterns by name, each with the shape that it looks for. -/
def shapes : List (Text × (Node → Prop)) :=
  [ ("index-shift", Indexes),
    ("saturating-arith", Sums),
    ("saturating-abs", TakesAbs),
    ("add-as-bytes", Calls "Add"),
    ("add-as-max", Calls "Add"),
    ("map-to-filter-map", MapsUnwrapped),
    ("expect-to-unwrap-or-else", Calls "Expect"),
    ("expect-to-unwrap-or-default", Calls "Expect"),
    ("copy-to-extend", Copies) ]

/-- Types on the line, which `index-shift` passes over. -/
def PassedOver (name : Text) (table : LineTable) (line : Int) (n : Node) : Prop :=
  name = "index-shift" ∧ n.isType ∧ n.covers table line

/-- There is something to repair: a node of the shape, on the line, such that neither it nor any
node around it is passed over. -/
def Repairable (name : Text) (shape : Node → Prop) (table : LineTable) (line : Int) (f : File) :
    Prop :=
  ∃ n ∈ nodesOf f.decls, ∃ m, Node.Exposed (PassedOver name table line) m n ∧
    ¬ PassedOver name table line m ∧ m.covers table line ∧ shape m

/-! ## What the patterns match -/

theorem stringLit_of_isStringLit (x : Expr) (h : isStringLit x) : StringLit x := by
  cases x with
  | paren lparen x rparen => exact .paren lparen rparen (stringLit_of_isStringLit x h)
  | lit l => exact .lit (beq_iff_eq.mp h)
  | _ => cases h

theorem isStringLit_iff {x : Expr} : isStringLit x ↔ StringLit x := by
  constructor
  · exact stringLit_of_isStringLit x
  · intro h
    induction h with
    | lit hkind => exact beq_iff_eq.mpr hkind
    | paren lparen rparen _ ih => exact ih

theorem not_stringLit_iff {x : Expr} : ¬ StringLit x ↔ isStringLit x = false := by
  rw [← isStringLit_iff, Bool.not_eq_true]

theorem isSome_indexShift_iff (role : Role) (x : Expr) :
    (indexShift role x).isSome ↔ Indexes (.expr role x) := by
  constructor
  · intro h
    unfold indexShift at h
    split at h
    · rename_i x lbrack idx rbrack
      split at h
      · cases h
      · rename_i hneither
        rw [Bool.or_eq_true, not_or, beq_iff_eq, Bool.not_eq_true] at hneither
        exact .index hneither.1 (not_stringLit_iff.mpr hneither.2)
    · exact .slice
    · cases h
  · intro h
    cases h with
    | index hrole hidx => simp [indexShift, hrole, not_stringLit_iff.mp hidx]
    | slice => rfl

theorem isSome_saturatingName?_iff {op : Token} :
    (saturatingName? op).isSome ↔ op = .add ∨ op = .sub := by
  cases op <;> decide

theorem isSome_saturateExpr_iff (role : Role) (x : Expr) :
    (saturateExpr role x).isSome ↔ Sums (.expr role x) := by
  constructor
  · intro h
    unfold saturateExpr at h
    split at h
    · rename_i x opPos op y
      split at h
      · rename_i fn hfn
        split at h
        · cases h
        · rename_i hneither
          rw [Bool.or_eq_true, not_or, isStringLit_iff, isStringLit_iff] at hneither
          exact .operator (isSome_saturatingName?_iff.mp (hfn ▸ rfl)) hneither.1 hneither.2
      · cases h
    · cases h
  · intro h
    cases h with
    | operator hop hx hy =>
      obtain rfl | rfl := hop <;>
        simp [saturateExpr, saturatingName?, not_stringLit_iff.mp hx, not_stringLit_iff.mp hy]

theorem isSome_assignOperator?_iff {tok : Token} :
    (tok.assignOperator?.bind saturatingName?).isSome ↔ tok = .addAssign ∨ tok = .subAssign := by
  cases tok <;> decide

theorem isSome_saturateStmt_iff (s : Stmt) : (saturateStmt s).isSome ↔ Sums (.stmt s) := by
  constructor
  · intro h
    unfold saturateStmt at h
    split at h
    · rename_i x tokPos tok y
      split at h
      · rename_i fn hfn
        split at h
        · cases h
        · rename_i hvalue
          rw [isStringLit_iff] at hvalue
          exact .assignment (isSome_assignOperator?_iff.mp (hfn ▸ rfl)) hvalue
      · cases h
    · cases h
  · intro h
    cases h with
    | assignment htok hvalue =>
      obtain rfl | rfl := htok <;>
        simp [saturateStmt, Token.assignOperator?, saturatingName?, not_stringLit_iff.mp hvalue]

theorem isSome_saturateAbs_iff_takesAbs (role : Role) (x : Expr) :
    (saturateAbs role x).isSome ↔ TakesAbs (.expr role x) := by
  constructor
  · intro h
    unfold saturateAbs at h
    split at h
    · split at h
      · rw [isSome_ite, beq_iff_eq] at h
        exact .method h
      · rw [isSome_ite, beq_iff_eq] at h
        exact .function h
      · cases h
    · cases h
  · intro h
    cases h with
    | method hname => simp [saturateAbs, hname]
    | function hname => simp [saturateAbs, hname]

theorem isSome_methodCall?_iff_calls {method : Text} (role : Role) (x : Expr) :
    (methodCall? method x).isSome ↔ Calls method (.expr role x) := by
  constructor
  · intro h
    obtain ⟨c, hc⟩ := isSome_iff_exists.mp h
    obtain ⟨rfl, hname⟩ := methodCall?_eq_some_iff.mp hc
    exact .mk hname
  · intro h
    cases h with
    | mk hname => simp [methodCall?, hname]

theorem mem_chain_of_follows {recv x : Expr} {calls : List MethodCall} (h : Follows recv calls x)
    {u : MethodCall} (hu : u ∈ calls) : ∃ l ∈ chain x, l.call = u := by
  induction h with
  | nil => cases hu
  | snoc before sel lparen args ellipsis rparen ih =>
    rw [chain]
    obtain hu | hu := List.mem_append.mp hu
    · obtain ⟨l, hl, rfl⟩ := ih hu
      exact ⟨l, List.mem_cons_of_mem _ hl, rfl⟩
    · exact ⟨_, List.mem_cons_self, (List.mem_singleton.mp hu).symm⟩

theorem isSome_mapToFilterMap_iff_maps (role : Role) (x : Expr) :
    (mapToFilterMap role x).isSome ↔ MapsUnwrapped (.expr role x) := by
  constructor
  · intro h
    obtain ⟨edit, hedit⟩ := isSome_iff_exists.mp h
    obtain ⟨c, type, lbrace, pos, result, rbrace, rest, result', rfl, hname, hargs, hresult, -⟩ :=
      (mapToFilterMap_eq_some_iff role).mp hedit
    obtain ⟨⟨outer, recv⟩, hsplit, -⟩ := map_eq_some_iff.mp hresult
    obtain ⟨u, hu, hfollows, -⟩ := splitUnwrap_chain hsplit
    rw [Invocation.expr, hargs]
    exact .mk hname hfollows ⟨u, List.mem_cons_self, hu⟩
  · intro h
    cases h with
    | mk hname hchain hunwraps =>
      rename_i x sel lparen type lbrace pos head result calls rbrace rest ellipsis rparen
      have hresult : (withoutUnwrap result).isSome := by
        rw [withoutUnwrap, isSome_map, ← ne_none_iff_isSome]
        intro hnone
        obtain ⟨u, hmem, hu⟩ := hunwraps
        obtain ⟨l, hl, rfl⟩ := mem_chain_of_follows hchain hmem
        exact absurd hu (by simp [splitUnwrap_eq_none_iff.mp hnone l hl])
      obtain ⟨result', hresult'⟩ := isSome_iff_exists.mp hresult
      exact isSome_iff_exists.mpr ⟨_, (mapToFilterMap_eq_some_iff role).mpr
        ⟨⟨x, sel, lparen, _, ellipsis, rparen⟩, type, lbrace, pos, result, rbrace, rest, result',
          rfl, hname, rfl, hresult', rfl⟩⟩

theorem isSome_copyToExtend_iff (s : Stmt) : (copyToExtend s).isSome ↔ Copies (.stmt s) := by
  constructor
  · intro h
    unfold copyToExtend at h
    split at h
    · rw [isSome_ite, Bool.and_eq_true, beq_iff_eq, beq_iff_eq] at h
      obtain ⟨hname, rfl⟩ := h
      exact .mk hname
    · cases h
  · intro h
    cases h with
    | mk hname => simp [copyToExtend, hname]

/-! ## What the patterns change -/

/-- The pattern matches the nodes of the shape, and no others. -/
structure LooksFor (p : Pattern) (shape : Node → Prop) : Prop where
  expr : ∀ role x, (p.onExpr role x).isSome ↔ shape (.expr role x)
  stmt : ∀ s, (p.onStmt s).isSome ↔ shape (.stmt s)
  funcType : ∀ t, ¬ shape (.funcType t)
  fields : ∀ role l, ¬ shape (.fields role l)
  skipsTypes : p.skipsTypes ↔ p.name = "index-shift"

namespace LooksFor

variable {p : Pattern} {shape : Node → Prop} (h : p.LooksFor shape) {table : LineTable} {line : Int}

include h

theorem rewrites_iff (n : Node) :
    p.Rewrites table line n ↔ n.covers table line ∧ shape n := by
  cases n with
  | expr role x => exact rewrites_expr_iff.trans (and_congr_right fun _ => h.expr role x)
  | stmt s => exact rewrites_stmt_iff.trans (and_congr_right fun _ => h.stmt s)
  | funcType t => exact iff_of_false id fun hn => h.funcType t hn.2
  | fields role l => exact iff_of_false id fun hn => h.fields role l hn.2

theorem skips_iff (n : Node) : p.skips table line n ↔ PassedOver p.name table line n := by
  rw [skips, Bool.and_eq_true, Bool.and_eq_true, h.skipsTypes, and_assoc]
  rfl

theorem isSome_edit?_iff_repairable (f : File) :
    (p.edit? f table line).isSome ↔ Repairable p.name shape table line f := by
  rw [isSome_edit?_iff]
  simp only [h.rewrites_iff, h.skips_iff, ← Bool.not_eq_true, Repairable]

omit h in
theorem of_expr (hstmt : ∀ s, p.onStmt s = none)
    (hexpr : ∀ role x, (p.onExpr role x).isSome ↔ shape (.expr role x))
    (hshape : ∀ n, shape n → ∃ role x, n = .expr role x)
    (hskips : p.skipsTypes ↔ p.name = "index-shift") : p.LooksFor shape where
  expr := hexpr
  stmt s := iff_of_false (by simp [hstmt]) fun hs => by obtain ⟨_, _, ⟨⟩⟩ := hshape _ hs
  funcType t ht := by obtain ⟨_, _, ⟨⟩⟩ := hshape _ ht
  fields role l hl := by obtain ⟨_, _, ⟨⟩⟩ := hshape _ hl
  skipsTypes := hskips

end LooksFor

/-- A pattern that makes something of all calls of a method. -/
theorem looksFor_calls {p : Pattern} {method : Text} (build : Invocation → ExprEdit)
    (hstmt : ∀ s, p.onStmt s = none)
    (hexpr : ∀ role x, p.onExpr role x = (methodCall? method x).map build)
    (hskips : p.skipsTypes ↔ p.name = "index-shift") : p.LooksFor (Calls method) := by
  refine .of_expr hstmt (fun role x => ?_) (fun n h => ?_) hskips
  · rw [hexpr, isSome_map]
    exact isSome_methodCall?_iff_calls role x
  · cases h
    exact ⟨_, _, rfl⟩

/-- Each pattern of the catalogue changes a file exactly if there is something in it to repair. -/
theorem edit_isSome_iff_repairable :
    List.Forall₂ (fun p s => p.name = s.1 ∧ ∀ (f : File) (table : LineTable) (line : Int),
      (p.edit? f table line).isSome ↔ Repairable s.1 s.2 table line f) catalog shapes := by
  have hindex : LooksFor (catalog.get ⟨0, by decide⟩) Indexes :=
    .of_expr (fun _ => rfl) isSome_indexShift_iff
      (fun n h => by cases h <;> exact ⟨_, _, rfl⟩) (by decide)
  have hsums : LooksFor (catalog.get ⟨1, by decide⟩) Sums :=
    { expr := isSome_saturateExpr_iff
      stmt := isSome_saturateStmt_iff
      funcType := nofun
      fields := nofun
      skipsTypes := by decide }
  have habs : LooksFor (catalog.get ⟨2, by decide⟩) TakesAbs :=
    .of_expr (fun _ => rfl) isSome_saturateAbs_iff_takesAbs
      (fun n h => by cases h <;> exact ⟨_, _, rfl⟩) (by decide)
  have hbytes : LooksFor (catalog.get ⟨3, by decide⟩) (Calls "Add") :=
    looksFor_calls _ (fun _ => rfl) (fun _ _ => rfl) (by decide)
  have hmax : LooksFor (catalog.get ⟨4, by decide⟩) (Calls "Add") :=
    looksFor_calls _ (fun _ => rfl) (fun _ _ => rfl) (by decide)
  have hmap : LooksFor (catalog.get ⟨5, by decide⟩) MapsUnwrapped :=
    .of_expr (fun _ => rfl) isSome_mapToFilterMap_iff_maps
      (fun n h => by cases h; exact ⟨_, _, rfl⟩) (by decide)
  have helse : LooksFor (catalog.get ⟨6, by decide⟩) (Calls "Expect") :=
    looksFor_calls _ (fun _ => rfl) (fun _ _ => rfl) (by decide)
  have hdefault : LooksFor (catalog.get ⟨7, by decide⟩) (Calls "Expect") :=
    looksFor_calls _ (fun _ => rfl) (fun _ _ => rfl) (by decide)
  have hcopy : LooksFor (catalog.get ⟨8, by decide⟩) Copies :=
    { expr := fun _ _ => iff_of_false Bool.false_ne_true nofun
      stmt := isSome_copyToExtend_iff
      funcType := nofun
      fields := nofun
      skipsTypes := by decide }
  exact .cons ⟨rfl, fun f _ _ => hindex.isSome_edit?_iff_repairable f⟩ <|
    .cons ⟨rfl, fun f _ _ => hsums.isSome_edit?_iff_repairable f⟩ <|
    .cons ⟨rfl, fun f _ _ => habs.isSome_edit?_iff_repairable f⟩ <|
    .cons ⟨rfl, fun f _ _ => hbytes.isSome_edit?_iff_repairable f⟩ <|
    .cons ⟨rfl, fun f _ _ => hmax.isSome_edit?_iff_repairable f⟩ <|
    .cons ⟨rfl, fun f _ _ => hmap.isSome_edit?_iff_repairable f⟩ <|
    .cons ⟨rfl, fun f _ _ => helse.isSome_edit?_iff_repairable f⟩ <|
    .cons ⟨rfl, fun f _ _ => hdefault.isSome_edit?_iff_repairable f⟩ <|
    .cons ⟨rfl, fun f _ _ => hcopy.isSome_edit?_iff_repairable f⟩ .nil

end FaultRepair.Repair.Pattern
