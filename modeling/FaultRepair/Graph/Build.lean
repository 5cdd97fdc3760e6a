/-
# Building the dependency graph

Every assignment makes its targets depend on the declarations its value is computed
from. Only declarations in the modules under analysis count.
-/

import FaultRepair.Graph.DepGraph
import FaultRepair.Graph.Program
import FaultRepair.Module.Set
import FaultRepair.Source.Assignment
import FaultRepair.Report.Notice

namespace FaultRepair.Graph

open Source Typing FaultRepair.Module Report

structure BuildStats where
  /-- Assignment targets considered. -/
  assignments : Nat := 0
  /-- Targets that are blank or no path of names. -/
  skipped : Nat := 0
  /-- Operands without a declaration. -/
  unresolved : Nat := 0
  deriving Inhabited

/-- What the builder needs to know: the program, the modules, and the only method a
call through an interface can reach, by file and parenthesis. -/
structure BuildContext where
  program : Program
  modules : ModuleSet
  unique? : Nat → Pos → Option Nat

/-- What an operand contributes: locations, and how many operands were unresolved. -/
structure Contribution where
  locations : List Location := []
  unresolved : Nat := 0

namespace Contribution

def none : Contribution := {}
def unknown : Contribution := { unresolved := 1 }

def append (a b : Contribution) : Contribution :=
  { locations := a.locations ++ b.locations, unresolved := a.unresolved + b.unresolved }

end Contribution

namespace BuildContext

def info (c : BuildContext) : Info := c.program.checked.state.info
variable (c : BuildContext)

def objs : Tables := c.program.checked.state.tables

def nameLocation (file : Nat) (id : Ident) : Location :=
  let p := c.program.place file id.pos
  ⟨id.name, p.file, p.line, p.column⟩

def declaration (obj : Nat) : Contribution :=
  let o := c.objs.obj obj
  match o.pkg with
  | none => .unknown
  | some p =>
    if o.pos == noPos then .unknown
    else if !c.modules.knowsPackage (c.objs.packages.getD p default).path then .none
    else
      let place := c.program.place o.file o.pos
      if !c.modules.containsFile place.file then .none
      else { locations := [⟨o.name, place.file, place.line, place.column⟩] }

def isValueObj (o : Obj) : Bool :=
  match o.kind with
  | .var | .const | .func => true
  | _ => false

def ident (file : Nat) (id : Ident) : Contribution :=
  match c.info.uses.get? (file, id.pos) with
  | some o => if isValueObj (c.objs.obj o) then c.declaration o else .unknown
  | none => .unknown

def root (c : BuildContext) (file : Nat) : Expr → Contribution
  | .paren _ x _ => c.root file x
  | .ident id => c.ident file id
  | .selector x sel =>
    match c.info.selections.get? (file, sel.pos) with
    | some s => if s.isField then c.root file x else c.declaration s.decl
    | none =>
      match c.info.uses.get? (file, sel.pos) with
      | some o => c.declaration o
      | none => .unknown
  | .star _ x => c.root file x
  | _ => .unknown

def typeOf? (file : Nat) (e : Expr) : Option Operand :=
  c.info.types.get? (file, e.anchor)

def isTypeOperand (o : Option Operand) : Bool :=
  match o with
  | some x =>
    match x.mode with
    | .type => true
    | _ => false
  | none => false

def withoutArgs : Expr → Expr
  | .index x .. => x
  | .indexList x .. => x
  | e => e

/-- The function a call resolves to. A call through an interface counts only if it
can reach one method alone; conversions contribute nothing. -/
def call (file : Nat) (fn : Expr) (lparen : Pos) : Contribution :=
  let fn := fn.unparen
  if isTypeOperand (c.typeOf? file fn) then .none
  else
    let isFunc (o : Nat) : Bool := (c.objs.obj o).kind == .func
    match (withoutArgs fn).unparen with
    | .ident id =>
      match c.info.uses.get? (file, id.pos) with
      | some o => if isFunc o then c.declaration o else .unknown
      | none => .unknown
    | .selector _ sel =>
      match c.info.selections.get? (file, sel.pos) with
      | some s =>
        if s.isField then .unknown
        else if s.abstract then
          match c.unique? file lparen with
          | some o => c.declaration o
          | none => .unknown
        else c.declaration s.decl
      | none =>
        match c.info.uses.get? (file, sel.pos) with
        | some o => if isFunc o then c.declaration o else .unknown
        | none => .unknown
    | _ => .unknown

def contributions (c : BuildContext) (file : Nat) : Expr → Contribution
  | .paren _ x _ => c.contributions file x
  | .binary x _ _ y => (c.contributions file x).append (c.contributions file y)
  | .call fn lparen _ _ _ => c.call file fn lparen
  | .selector x sel => c.root file (.selector x sel)
  | .ident id => c.ident file id
  | _ => .unknown

end BuildContext

def isPath : Expr → Bool
  | .paren _ x _ => isPath x
  | .ident _ => true
  | .selector x _ => isPath x
  | _ => false

def targetName? (e : Expr) : Option Ident :=
  match e.unparen with
  | .ident id => if id.name == [95] then none else some id
  | .selector x sel => if isPath x then some sel else none
  | _ => none

structure Building where
  graph : DepGraph := {}
  stats : BuildStats := {}

namespace Building

def assignTarget (c : BuildContext) (file : Nat) (value? : Option Expr) (b : Building)
    (target : Expr) : Building :=
  let b := { b with stats := { b.stats with assignments := b.stats.assignments + 1 } }
  match targetName? target with
  | none => { b with stats := { b.stats with skipped := b.stats.skipped + 1 } }
  | some id =>
    match value? with
    | none => b
    | some v =>
      let k := c.contributions file v
      let l := c.nameLocation file id
      { graph := k.locations.foldl (fun g r => g.add l r) b.graph
        stats := { b.stats with unresolved := b.stats.unresolved + k.unresolved } }

/-- The value for the target with an index: that with the same index, or the only
one. -/
def valueFor (a : Assignment) (i : Nat) : Option Expr :=
  if a.values.length == a.targets.length then a.values[i]?
  else
    match a.values with
    | [v] => some v
    | _ => none

def assign (c : BuildContext) (file : Nat) (b : Building) (a : Assignment) : Building :=
  a.targets.zipIdx.foldl (fun b (t, i) => assignTarget c file (valueFor a i) b t) b

end Building

/-- A dependency graph with the files it was built from and what was seen. -/
structure BuildResult where
  graph : DepGraph
  files : List Text
  stats : BuildStats

def build (c : BuildContext) (o : FileFilter) : BuildResult :=
  let files := (c.program.loaded.flatMap (·.files)).filter fun f =>
    f.tree.package != noPos && c.modules.containsFile f.table.name &&
      !o.skips f.table.name (some f.tree)
  let b := files.foldl (fun b f => f.tree.assignments.foldl (Building.assign c f.number) b) {}
  { graph := b.graph, stats := b.stats
    files := (files.map (·.table.name)).eraseDups }

def BuildResult.notices (r : BuildResult) : List Notice :=
  [.log "Building dependency graph...",
   .log ("Dependency graph: " ++ Text.ofNat r.graph.targets.length ++ " targets, " ++
     Text.ofNat r.graph.size ++ " edges across " ++ Text.ofNat r.files.length ++ " files"),
   .verbose ("  " ++ Text.ofNat r.stats.assignments ++ " assignment targets, " ++
     Text.ofNat r.stats.skipped ++ " skipped, " ++ Text.ofNat r.stats.unresolved ++
     " unresolved operands")]

end FaultRepair.Graph
