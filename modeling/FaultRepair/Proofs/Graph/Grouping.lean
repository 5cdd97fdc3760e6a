/-
# Parentheses and operators in a value

What a value depends on is a matter of its operands alone: how binary operators and parentheses
group them makes no difference. Nor do parentheses around a target, around the function of a call
or a generic function in it, or anywhere in a chain of selections.

The second part compares an expression with its bare form, in which there are no such parentheses.
All that the builder looks at is the same in the bare form: names and selections are looked up at
the position of their name, and the type of an expression at the token it is known by.
-/

import FaultRepair.Graph.Build

namespace FaultRepair.Graph

open Source

/-- The operands of a value, from left to right. -/
def operands : Expr → List Expr
  | .paren _ x _ => operands x
  | .binary x _ _ y => operands x ++ operands y
  | e => [e]

/-- The second expression is the first one with one more pair of parentheses: around all of it,
around a base of a selection, around what is called, or around a generic function. -/
inductive Wrapped : Expr → Expr → Prop
  | here (x : Expr) (lparen rparen : Pos) : Wrapped x (.paren lparen x rparen)
  | paren {x x' : Expr} (lparen rparen : Pos) (inner : Wrapped x x') :
      Wrapped (.paren lparen x rparen) (.paren lparen x' rparen)
  | base {x x' : Expr} (sel : Ident) (inner : Wrapped x x') :
      Wrapped (.selector x sel) (.selector x' sel)
  | pointer {x x' : Expr} (pos : Pos) (inner : Wrapped x x') : Wrapped (.star pos x) (.star pos x')
  | callee {fn fn' : Expr} (lparen : Pos) (args : List Expr) (ellipsis rparen : Pos)
      (inner : Wrapped fn fn') :
      Wrapped (.call fn lparen args ellipsis rparen) (.call fn' lparen args ellipsis rparen)
  | generic {x x' : Expr} (lbrack : Pos) (arg : Expr) (rbrack : Pos) (inner : Wrapped x x') :
      Wrapped (.index x lbrack arg rbrack) (.index x' lbrack arg rbrack)
  | generics {x x' : Expr} (lbrack : Pos) (args : List Expr) (rbrack : Pos) (inner : Wrapped x x') :
      Wrapped (.indexList x lbrack args rbrack) (.indexList x' lbrack args rbrack)
  | left {x x' : Expr} (opPos : Pos) (op : Token) (y : Expr) (inner : Wrapped x x') :
      Wrapped (.binary x opPos op y) (.binary x' opPos op y)
  | right (x : Expr) (opPos : Pos) (op : Token) {y y' : Expr} (inner : Wrapped y y') :
      Wrapped (.binary x opPos op y) (.binary x opPos op y')

/-- An expression without all such parentheses. -/
def bare : Expr → Expr
  | .paren _ x _ => bare x
  | .selector x sel => .selector (bare x) sel
  | .star pos x => .star pos (bare x)
  | .call fn lparen args ellipsis rparen => .call (bare fn) lparen args ellipsis rparen
  | .index x lbrack arg rbrack => .index (bare x) lbrack arg rbrack
  | .indexList x lbrack args rbrack => .indexList (bare x) lbrack args rbrack
  | .binary x opPos op y => .binary (bare x) opPos op (bare y)
  | e => e

theorem bare_eq_of_wrapped {e e' : Expr} (h : Wrapped e e') : bare e = bare e' := by
  induction h with
  | here => rfl
  | _ => simp only [bare, *]

/-! ## The bare form -/

def isParen : Expr → Bool
  | .paren _ _ _ => true
  | _ => false

theorem isParen_unparen (e : Expr) : isParen e.unparen = false := by
  fun_induction Expr.unparen e with
  | case1 lparen x rparen ih => exact ih
  | case2 e h =>
    cases e with
    | paren lparen x rparen => exact absurd rfl (h lparen x rparen)
    | _ => rfl

theorem bare_unparen (e : Expr) : bare e.unparen = bare e := by
  fun_induction Expr.unparen e with
  | case1 lparen x rparen ih => exact ih
  | case2 e => rfl

theorem unparen_bare (e : Expr) : (bare e).unparen = bare e := by
  fun_induction bare e with
  | case1 lparen x rparen ih => exact ih
  | case8 e h =>
    cases e with
    | paren lparen x rparen => exact absurd rfl (h lparen x rparen)
    | _ => rfl
  | _ => rfl

theorem anchor_bare {e : Expr} (h : isParen e = false) : (bare e).anchor = e.anchor := by
  cases e with
  | paren => cases h
  | _ => rfl

theorem isPath_bare (e : Expr) : isPath (bare e) = isPath e := by
  fun_induction bare e with
  | case1 lparen x rparen ih => exact ih
  | case2 x sel ih => exact ih
  | _ => rfl

theorem targetName?_bare (e : Expr) : targetName? (bare e) = targetName? e := by
  have hparen := isParen_unparen e
  unfold targetName?
  rw [unparen_bare, ← bare_unparen]
  cases hx : e.unparen with
  | paren => simp [hx, isParen] at hparen
  | selector x sel => simp only [bare, isPath_bare]
  | _ => rfl

namespace BuildContext

variable (c : BuildContext) (file : Nat)

theorem root_bare (e : Expr) : c.root file (bare e) = c.root file e := by
  fun_induction bare e with
  | case1 lparen x rparen ih => exact ih
  | case2 x sel ih => simp only [root, ih]
  | case3 pos x ih => exact ih
  | _ => rfl

theorem withoutArgs_bare {e : Expr} (h : isParen e = false) :
    withoutArgs (bare e) = bare (withoutArgs e) := by
  cases e with
  | paren => cases h
  | _ => rfl

theorem call_bare (fn : Expr) (lparen : Pos) :
    c.call file (bare fn) lparen = c.call file fn lparen := by
  have hparen := isParen_unparen fn
  have hinner := isParen_unparen (withoutArgs fn.unparen)
  unfold call
  simp only [unparen_bare, typeOf?]
  rw [← bare_unparen fn, anchor_bare hparen, withoutArgs_bare hparen, unparen_bare,
    ← bare_unparen (withoutArgs fn.unparen)]
  cases hx : (withoutArgs fn.unparen).unparen with
  | paren => simp [hx, isParen] at hinner
  | _ => rfl

theorem contributions_bare (e : Expr) : c.contributions file (bare e) = c.contributions file e := by
  fun_induction bare e with
  | case1 lparen x rparen ih => exact ih
  | case2 x sel ih => exact c.root_bare file (.selector x sel)
  | case4 fn lparen args ellipsis rparen ih => exact c.call_bare file fn lparen
  | case7 x opPos op y ihx ihy => simp only [contributions, ihx, ihy]
  | _ => rfl

end BuildContext

/-! ## Operands -/

namespace Contribution

/-- What several operands contribute together. -/
def total (ks : List Contribution) : Contribution := ks.foldr append none

theorem total_append (ks ls : List Contribution) :
    total (ks ++ ls) = (total ks).append (total ls) := by
  induction ks with
  | nil => simp [total, append, none]
  | cons k ks ih => grind [total, append]

theorem total_singleton (k : Contribution) : total [k] = k := by
  simp [total, append, none]

end Contribution

theorem BuildContext.contributions_eq_total (c : BuildContext) (file : Nat) (e : Expr) :
    c.contributions file e = .total ((operands e).map (c.contributions file)) := by
  fun_induction operands e with
  | case1 lparen x rparen ih => exact ih
  | case2 x opPos op y ihx ihy =>
    rw [List.map_append, Contribution.total_append, ← ihx, ← ihy]
    rfl
  | case3 e => exact (Contribution.total_singleton _).symm

/-- What a value depends on, and how many of its operands are unresolved, is the same for all
values with the same operands. More parentheses change neither this nor the name that stands for a
target. -/
theorem grouping_keeps_dependencies (c : BuildContext) (file : Nat) (e e' : Expr) :
    (operands e = operands e' → c.contributions file e = c.contributions file e') ∧
      (Wrapped e e' → targetName? e = targetName? e' ∧
        c.contributions file e = c.contributions file e') := by
  constructor
  · intro h
    rw [c.contributions_eq_total, c.contributions_eq_total, h]
  · intro h
    have hbare := bare_eq_of_wrapped h
    constructor
    · rw [← targetName?_bare e, hbare, targetName?_bare]
    · rw [← c.contributions_bare file e, hbare, c.contributions_bare]

/-- A program that uses the variable `a` at 1, the variable `c` at 7 and the function `q` at 22. -/
def someUses : BuildContext where
  program :=
    ⟨[], ⟨{ tables := { objs := #[{ name := "a", pkg := some 0, pos := 40, kind := .var },
                          { name := "c", pkg := some 0, pos := 42, kind := .var },
                          { name := "q", pkg := some 0, pos := 44, kind := .func }],
                        packages := #[{ path := "m" }] }
            info := { uses := (({} : Std.HashMap (Nat × Nat) Nat).insert (0, 1) 0).insertMany
                        [((0, 7), 1), ((0, 22), 2)] } }, []⟩,
      #[{ name := "/m/a.go", size := 50 }], 0⟩
  modules := ⟨⟨"m", "/m", []⟩, []⟩
  unique? _ _ := none

/-- `a + b*c` and `(a - b) + c` have the same operands, and `((p).q)[T]()` is `p.q[T]()` with more
parentheses. -/
theorem regrouped_values_agree :
    let a := Expr.ident ⟨1, "a"⟩
    let b := Expr.ident ⟨5, "b"⟩
    let d := Expr.ident ⟨7, "c"⟩
    let e := Expr.binary a 3 .add (.binary b 6 .mul d)
    let e' := Expr.binary (.paren 1 (.binary a 3 .sub b) 6) 6 .add d
    let f := Expr.index (.selector (.ident ⟨20, "p"⟩) ⟨22, "q"⟩) 23 (.ident ⟨24, "T"⟩) 25
    let f' := Expr.index (.paren 19 (.selector (.paren 20 (.ident ⟨20, "p"⟩) 21) ⟨22, "q"⟩) 23) 23
      (.ident ⟨24, "T"⟩) 25
    let sum : Contribution := ⟨[⟨"a", "/m/a.go", 1, 40⟩, ⟨"c", "/m/a.go", 1, 42⟩], 1⟩
    let result : Contribution := ⟨[⟨"q", "/m/a.go", 1, 44⟩], 0⟩
    operands e = operands e' ∧
      someUses.contributions 0 e = sum ∧ someUses.contributions 0 e' = sum ∧
      someUses.contributions 0 (.call f 26 [] noPos 27) = result ∧
      someUses.contributions 0 (.call f' 26 [] noPos 27) = result := by
  intro a b d e e' f f' sum result
  have huses (p : Nat) : someUses.info.uses.get? (0, p) =
      if p = 22 then some 2 else if p = 7 then some 1 else if p = 1 then some 0 else none := by
    grind [someUses, BuildContext.info]
  have hselections (p : Nat) : someUses.info.selections.get? (0, p) = none :=
    Std.HashMap.getElem?_empty
  have htypes (x : Expr) : someUses.typeOf? 0 x = none := Std.HashMap.getElem?_empty
  have he : someUses.contributions 0 e = sum := by
    simp only [e, a, b, d, BuildContext.contributions, BuildContext.ident, huses]
    rfl
  have hf : someUses.contributions 0 (.call f 26 [] noPos 27) = result := by
    simp only [f, BuildContext.contributions, BuildContext.call, htypes, hselections, huses]
    rfl
  refine ⟨rfl, he, ?_, hf, ?_⟩
  · exact ((grouping_keeps_dependencies someUses 0 e e').1 rfl).symm.trans he
  · rw [← hf, ((grouping_keeps_dependencies someUses 0 (.call f 26 [] noPos 27) _).2
        (.callee 26 [] noPos 27 (.generic 23 _ 25 (.base ⟨22, "q"⟩ (.here _ 20 21))))).2]
    exact ((grouping_keeps_dependencies someUses 0 _ _).2
        (.callee 26 [] noPos 27 (.generic 23 _ 25 (.here _ 19 23)))).2.symm

end FaultRepair.Graph
