/-
# The pairs that a build records

A build is one long run of additions: file by file and target by target, the name of a target is
added together with each declaration that its value is computed from. A pair of positions is
recorded once and never taken back, so the order of the additions does not matter for which pairs
there are: a pair is in the graph exactly if some file gives a name at the one position a value
with a contributor at the other.

Every contributor is a declaration, and declarations are looked at in one place only. So what holds
of a declaration that is let through holds of the right side of every pair.
-/

import FaultRepair.Proofs.Graph.FirstSeen
import FaultRepair.Proofs.Graph.Grouping

namespace FaultRepair.Graph

open Source FaultRepair.Module List

/-- The files that a build goes through. -/
def analysed (p : Program) (ms : ModuleSet) (o : FileFilter) : List LoadedFile :=
  (p.loaded.flatMap (·.files)).filter fun f =>
    f.tree.package != noPos && ms.containsFile f.table.name && !o.skips f.table.name (some f.tree)

/-- The name that stands for a target and the value it is given, if both are there. -/
def assigned? (a : Assignment) (target : Expr × Nat) : Option (Ident × Expr) :=
  (targetName? target.1).bind fun name => (Building.valueFor a target.2).map fun value =>
    (name, value)

/-- The names that a file gives values to, each with its value. -/
def assigned (f : LoadedFile) : List (Ident × Expr) :=
  f.tree.assignments.flatMap fun a => a.targets.zipIdx.flatMap fun target =>
    (assigned? a target).toList

/-- The additions for a name and its value. -/
def BuildContext.additions (c : BuildContext) (file : Nat) (e : Ident × Expr) :
    List (Location × Location) :=
  (c.contributions file e.2).locations.map fun r => (c.nameLocation file e.1, r)

def DepGraph.addAll (g : DepGraph) (additions : List (Location × Location)) : DepGraph :=
  additions.foldl (fun g addition => g.add addition.1 addition.2) g

namespace Building

theorem graph_foldl {step : Building → α → Building} {additions : α → List (Location × Location)}
    (hstep : ∀ b item, (step b item).graph = b.graph.addAll (additions item)) (items : List α)
    (b : Building) : (items.foldl step b).graph = b.graph.addAll (items.flatMap additions) := by
  induction items generalizing b with
  | nil => rfl
  | cons item rest ih => grind [DepGraph.addAll]

theorem graph_assignTarget (c : BuildContext) (file : Nat) (a : Assignment) (b : Building)
    (target : Expr × Nat) :
    (assignTarget c file (valueFor a target.2) b target.1).graph =
      b.graph.addAll ((assigned? a target).toList.flatMap (c.additions file)) := by
  grind [assignTarget, assigned?, DepGraph.addAll, BuildContext.additions, foldl_map]

end Building

/-- A build is a run of additions. -/
theorem graph_build (c : BuildContext) (o : FileFilter) :
    (build c o).graph = .ofAdditions ((analysed c.program c.modules o).flatMap fun f =>
      (assigned f).flatMap (c.additions f.number)) := by
  refine Building.graph_foldl ?_ _ {}
  intro b f
  simp only [assigned, flatMap_assoc]
  refine Building.graph_foldl ?_ _ b
  intro b a
  exact Building.graph_foldl (Building.graph_assignTarget c f.number a) _ b

/-- The position of something in a file, as the line directives of the file have it. -/
def positionAt (p : Program) (file : Nat) (pos : Pos) : Position :=
  ⟨(p.place file pos).file, (p.place file pos).line, (p.place file pos).column⟩

/-- **Which pairs a build records.**  Whatever comes first, a pair of positions is there exactly if
a file gives a name at the one a value that something at the other contributes to. -/
theorem mem_pairKeys_build {c : BuildContext} {o : FileFilter} {key : Position × Position} :
    key ∈ DepGraph.pairKeys (build c o).graph.pairs ↔
      ∃ f ∈ analysed c.program c.modules o, ∃ e ∈ assigned f,
        key.1 = positionAt c.program f.number e.1.pos ∧
        ∃ r ∈ (c.contributions f.number e.2).locations, r.position = key.2 := by
  rw [graph_build, (DepGraph.tracks_ofAdditions _).keys_eq, mem_eraseDups, DepGraph.pairKeys,
    mem_map]
  simp only [mem_flatMap, BuildContext.additions, mem_map]
  constructor
  · rintro ⟨addition, ⟨f, hf, e, he, r, hr, rfl⟩, rfl⟩
    exact ⟨f, hf, e, he, rfl, r, hr, rfl⟩
  · rintro ⟨f, hf, e, he, hkey, r, hr, hright⟩
    exact ⟨_, ⟨f, hf, e, he, r, hr, rfl⟩, Prod.ext hkey.symm hright⟩

/-! ## Contributors -/

/-- An object of a program is declared at a position, in a package and a file of the modules. -/
structure DeclaredAt (p : Program) (ms : ModuleSet) (obj : Nat) (position : Position) : Prop where
  positioned : (p.checked.state.tables.obj obj).pos ≠ noPos
  package_known : ∃ i, (p.checked.state.tables.obj obj).pkg = some i ∧
    ms.knowsPackage (p.checked.state.tables.packages.getD i default).path = true
  position_eq : position =
    positionAt p (p.checked.state.tables.obj obj).file (p.checked.state.tables.obj obj).pos
  file_contained : ms.containsFile position.file = true

namespace BuildContext

variable (c : BuildContext) (file : Nat)

/-- An object contributes where it is declared, if that is in the modules, and nothing else. -/
theorem declaredAt_iff {obj : Nat} {position : Position} :
    DeclaredAt c.program c.modules obj position ↔
      ∃ l ∈ (c.declaration obj).locations, l.position = position := by
  constructor
  · rintro ⟨hpositioned, ⟨i, hpkg, hknown⟩, rfl, hcontained⟩
    refine ⟨⟨(c.objs.obj obj).name, _, _, _⟩, ?_, rfl⟩
    grind [positionAt, declaration, objs]
  · rintro ⟨l, hl, rfl⟩
    unfold declaration at hl
    cases hpkg : (c.objs.obj obj).pkg with
    | none => simp [hpkg, Contribution.unknown] at hl
    | some i =>
      simp only [hpkg] at hl
      -- Only where all tests are passed does anything contribute.
      split_ifs at hl with hpos hknown hcontained
      · cases hl
      · cases hl
      · cases hl
      · obtain rfl := mem_singleton.mp hl
        simp only [Bool.not_eq_true', Bool.not_eq_false] at hknown hcontained
        exact ⟨fun hnone => hpos (beq_iff_eq.mpr hnone), ⟨i, hpkg, hknown⟩, rfl, hcontained⟩

/-- Everything that contributes is a declaration. -/
def Declared (k : Contribution) : Prop :=
  ∀ l ∈ k.locations, ∃ obj, l ∈ (c.declaration obj).locations

theorem declared_declaration (obj : Nat) : c.Declared (c.declaration obj) := fun _ hl => ⟨obj, hl⟩

theorem declared_ident (id : Ident) : c.Declared (c.ident file id) := by
  unfold ident
  repeat' split
  all_goals first | exact c.declared_declaration _ | exact fun _ hl => nomatch hl

theorem declared_root (e : Expr) : c.Declared (c.root file e) := by
  fun_induction root c file e with
  | case1 lparen x rparen ih => exact ih
  | case2 id => exact c.declared_ident file id
  | case3 x sel s hselected hfield ih => exact ih
  | case4 x sel s hselected hfield => exact c.declared_declaration s.decl
  | case5 x sel hselected obj huse => exact c.declared_declaration obj
  | case7 pos x ih => exact ih
  | case6 | case8 => exact fun _ hl => nomatch hl

theorem declared_call (fn : Expr) (lparen : Pos) : c.Declared (c.call file fn lparen) := by
  unfold call
  dsimp only
  repeat' split
  all_goals first | exact c.declared_declaration _ | exact fun _ hl => nomatch hl

theorem declared_contributions (e : Expr) : c.Declared (c.contributions file e) := by
  fun_induction contributions c file e with
  | case1 lparen x rparen ih => exact ih
  | case2 x opPos op y ihx ihy =>
    intro l hl
    rcases mem_append.mp hl with hl | hl
    · exact ihx l hl
    · exact ihy l hl
  | case3 fn lparen args ellipsis rparen => exact c.declared_call file fn lparen
  | case4 x sel => exact c.declared_root file (.selector x sel)
  | case5 id => exact c.declared_ident file id
  | case6 e => exact fun _ hl => nomatch hl

end BuildContext

end FaultRepair.Graph
