/-
# Staying on the line

A pattern is applied on a line. It rewrites only nodes that cover the line, and so it leaves alone
a declaration whose lines do not: what covers the line inside of it would have to reach beyond it.

Only the import that the new code needs is put elsewhere. Then the declarations of imports are
gathered in one, with nothing lost, and all others stay as they were and in their order.
-/

import FaultRepair.Proofs.Repair.Rewritings
import Mathlib.Data.List.Forall2

/-! ## Lines -/

namespace FaultRepair.Source.LineTable

variable (starts : Array Nat)

end FaultRepair.Source.LineTable

namespace FaultRepair.Repair

open Source Text

namespace Visitor

end Visitor

/-- The nodes of a declaration lie between its first position and its last. -/
def SpansNodes (d : Decl) : Prop :=
  ∀ n ∈ inDecl d, ∀ m, Node.Within m n → d.pos ≤ m.pos ∧ m.stop ≤ d.stop

/-- An import specification without its position. -/
def unplaced : Spec → List Spec
  | .value .. | .type .. => []
  | s => [s.moveTo noPos noPos]

def importsIn : Decl → List Spec
  | .gen d => d.specs.flatMap unplaced
  | _ => []

namespace Pattern

variable {p : Pattern} {table : LineTable} {line : Int}

variable (table line) in
/-- A declaration that encloses its nodes is the same afterwards, unless it covers the line. -/
def Keeps (d d' : Decl) : Prop :=
  SpansNodes d → covers table line d.pos d.stop = false → d' = d

/-- `var w = v`, on the line after the sum -/
def nextLine : Decl :=
  .gen (.mk none 49 .kwVar noPos [.value none [⟨53, "w"⟩] none [.ident ⟨57, "v"⟩] none] noPos)

def importPaths (f : File) : List (List Text) :=
  f.decls.map fun d => (importsIn d).map Spec.importPath

end Pattern

end FaultRepair.Repair
