/-
# What a walk rewrites

A walk only tells whether it has changed something. Here the same walk is watched: it takes the
same steps, and its account lists the nodes that it rewrites, each as it is at that moment and with
the rewritten nodes it stands in. A watched walk makes the same of a file, and it changes the file
exactly if the list is not empty.

A pattern that does not descend rewrites the outermost of the nodes it matches, and nothing else.
-/

import FaultRepair.Proofs.Repair.Walks

namespace FaultRepair.Repair

open Source List

/-- A node that a walk rewrites, with the rewritten nodes around it, the nearest first. -/
structure Rewriting where
  node : Node
  inside : List Node

namespace Pattern

variable (p : Pattern) (table : LineTable) (line : Int)

/-- The visitor of a watched walk, inside of some nodes that have been rewritten. -/
def watcher : Nat → List Node → Visitor (StateM (List Rewriting))
  | 0, _ => idle
  | n + 1, inside =>
    p.step table line (fun node => [⟨node, inside⟩]) (watcher n inside)
      fun node => watcher n (node :: inside)

def watch (f : File) : List Decl × List Rewriting :=
  (f.decls.mapM (p.watcher table line (declsWeight f.decls) []).decl).run []

/-- The nodes that the pattern rewrites in a file, in the order in which it does. -/
def rewritings (f : File) : List Rewriting := (p.watch table line f).2

/-- The file as the watched walk leaves it, with the import that the new code needs; none if nothing
was rewritten. -/
def watched? (f : File) : Option File :=
  if (p.rewritings table line f).isEmpty then none
  else
    let f' := { f with decls := (p.watch table line f).1 }
    some (if p.adds.isEmpty then f' else f'.addImport table p.adds)

variable {p table line}

theorem steady_watcher (n : Nat) (inside : List Node) : (p.watcher table line n inside).Steady := by
  induction n generalizing inside with
  | zero => exact steady_idle
  | succ n ih => exact steady_step (ih inside) fun node => ih (node :: inside)

/-! ## The same walk -/

section

variable {σ τ : Type} [Tally σ] [Tally τ] {v : Visitor (StateM σ)} {w : Visitor (StateM τ)}

theorem value_carryOut {c : σ} {d : τ} {deep : Visitor (StateM σ)} {deep' : Visitor (StateM τ)}
    (hv : v.Steady) (hw : w.Steady) (hdeep : deep.Steady) (hdeep' : deep'.Steady)
    (h : v.value = w.value) (h' : deep.value = deep'.value) (x : Expr) (edit : Option ExprEdit) :
    (carryOut c v deep x edit Tally.zero).1 = (carryOut d w deep' x edit Tally.zero).1 := by
  cases edit with
  | none => simp [carryOut, hv.exprParts, hw.exprParts, h]
  | some edit => cases edit <;> simp [carryOut, hdeep.exprParts, hdeep'.exprParts, h']

/-- What a step makes of the nodes does not depend on the account. -/
theorem value_step {mark : Node → σ} {mark' : Node → τ} {deep : Node → Visitor (StateM σ)}
    {deep' : Node → Visitor (StateM τ)} (hv : v.Steady) (hw : w.Steady)
    (hdeep : ∀ n, (deep n).Steady) (hdeep' : ∀ n, (deep' n).Steady) (h : v.value = w.value)
    (h' : ∀ n, (deep n).value = (deep' n).value) :
    (p.step table line mark v deep).value = (p.step table line mark' w deep').value := by
  rw [Visitor.value, Visitor.value, Visitor.mk.injEq]
  refine ⟨?_, ?_, ?_, ?_⟩
  · funext role x
    by_cases hskips : p.skips table line (.expr role x)
    · simp [step, hskips]
    · grind [step, value_carryOut]
  · funext s
    cases hs : p.stmtOn? table line s <;> simp [step, hs, hv.stmtParts, hw.stmtParts, h]
  · funext t
    by_cases hskips : p.skips table line (.funcType t)
    · simp [step, hskips]
    · simp [step, hskips, hv.funcTypeParts, hw.funcTypeParts, h]
  · funext role l
    by_cases hskips : p.skips table line (.fields role l)
    · simp [step, hskips]
    · simp [step, hskips, hv.fieldsOf, hw.fieldsOf, h]

end

theorem value_watcher (n : Nat) (inside : List Node) :
    (p.watcher table line n inside).value = (p.visitor table line n).value := by
  induction n generalizing inside with
  | zero => rfl
  | succ n ih =>
    rw [visitor_succ]
    exact value_step (steady_watcher n inside) (steady_visitor n)
      (fun node => steady_watcher n (node :: inside)) (fun _ => steady_visitor n) (ih inside)
      fun node => ih (node :: inside)

/-- What a watched walk lists for a node: nothing if it is skipped, itself and what is visited in it
if it is rewritten, and otherwise what is listed for its parts. -/
theorem mem_tally_watcher_succ {n : Nat} {inside : List Node} {node : Node} {r : Rewriting} :
    r ∈ (p.watcher table line (n + 1) inside).tally node ↔ p.skips table line node = false ∧
      ((p.Rewrites table line node ∧ (r = ⟨node, inside⟩ ∨
          ∃ c ∈ p.visited table line node, r ∈ (p.watcher table line n (node :: inside)).tally c)) ∨
        (¬ p.Rewrites table line node ∧
          ∃ c ∈ node.parts, r ∈ (p.watcher table line n inside).tally c)) := by
  rw [watcher]
  by_cases hskips : p.skips table line node
  · rw [(step_of_skips hskips).2, hskips]
    exact iff_of_false not_mem_nil fun h => Bool.noConfusion h.1
  · by_cases hrewrites : p.Rewrites table line node
    · rw [tally_step_of_rewrites (fun m => steady_watcher n (m :: inside)) hskips hrewrites,
        total_eq_flatMap]
      rw [Bool.not_eq_true] at hskips
      simp only [hskips, hrewrites, true_and, not_true_eq_false, false_and, or_false]
      exact mem_cons.trans (or_congr_right mem_flatMap)
    · rw [(step_of_not_rewrites (steady_watcher n inside) hskips hrewrites).2, total_eq_flatMap]
      grind

/-- A walk changes a node exactly if it rewrites something there. -/
theorem tally_visitor_iff_watcher (n : Nat) (inside : List Node) (node : Node) :
    (p.visitor table line n).tally node ↔ ∃ r, r ∈ (p.watcher table line n inside).tally node := by
  induction n generalizing inside node with
  | zero => cases node <;> exact iff_of_false Bool.false_ne_true (by rintro ⟨r, hr⟩; cases hr)
  | succ n ih =>
    simp only [tally_visitor_succ, mem_tally_watcher_succ, exists_and_left]
    grind

theorem watch_eq (f : File) :
    p.watch table line f = (f.decls.map fun d => ((p.editor f table line).decl d).run,
      (nodesOf f.decls).flatMap (p.watcher table line (declsWeight f.decls) []).tally) := by
  have hw : (p.watcher table line (declsWeight f.decls) []).Steady := steady_watcher _ _
  rw [watch, mapM_note hw.decl, value_watcher, ← total_eq_flatMap, nodesOf, total_flatMap]
  rfl

theorem rewritings_eq (f : File) : p.rewritings table line f =
    (nodesOf f.decls).flatMap (p.watcher table line (declsWeight f.decls) []).tally := by
  rw [rewritings, watch_eq]

/-- A file is changed exactly if something in it is rewritten, and it becomes what the watched walk
makes of it. -/
theorem edit?_eq_watched? (f : File) : p.edit? f table line = p.watched? table line f := by
  have hany : (nodesOf f.decls).any (p.visitor table line (declsWeight f.decls)).tally =
      !(p.rewritings table line f).isEmpty := by
    rw [Bool.eq_iff_iff, any_eq_true, Bool.not_eq_true', isEmpty_eq_false_iff_exists_mem,
      rewritings_eq]
    simp only [mem_flatMap, tally_visitor_iff_watcher _ []]
    exact ⟨fun ⟨c, hc, r, hr⟩ => ⟨r, c, hc, hr⟩, fun ⟨r, c, hc, hr⟩ => ⟨c, hc, r, hr⟩⟩
  rw [edit?_eq, hany, watched?, watch_eq]
  cases (p.rewritings table line f).isEmpty <;> rfl

/-! ## The nodes that are rewritten -/

theorem rewrites_of_mem_watcher {n : Nat} {inside : List Node} {node : Node} {r : Rewriting}
    (h : r ∈ (p.watcher table line n inside).tally node) : p.Rewrites table line r.node := by
  induction n generalizing inside node with
  | zero => cases node <;> cases h
  | succ n ih =>
    obtain ⟨-, ⟨hrewrites, rfl | ⟨c, -, hr⟩⟩ | ⟨-, c, -, hr⟩⟩ := mem_tally_watcher_succ.mp h
    · exact hrewrites
    · exact ih hr
    · exact ih hr

/-- Whatever is rewritten is matched by the pattern, on the line, as it is at that moment. -/
theorem rewrites_of_mem_rewritings {f : File} {r : Rewriting}
    (h : r ∈ p.rewritings table line f) : p.Rewrites table line r.node := by
  rw [rewritings_eq, mem_flatMap] at h
  obtain ⟨c, -, hr⟩ := h
  exact rewrites_of_mem_watcher hr

section Outermost

variable (hvisited : ∀ n, p.visited table line n = [])

include hvisited

theorem exists_mem_watcher_iff (hp : p.skipsTypes = false) {P : Node → Prop} {n : Nat}
    {inside : List Node} {node : Node} (hn : node.weight ≤ n) :
    (∃ r ∈ (p.watcher table line n inside).tally node, P r.node) ↔
      ∃ m, Node.Exposed (p.Rewrites table line) m node ∧ p.Rewrites table line m ∧ P m := by
  induction n generalizing node with
  | zero => exact absurd hn (Nat.not_le_of_lt (Nat.zero_lt_of_lt node.totalWeight_parts))
  | succ n ih =>
    have hparts : (∃ c ∈ node.parts, ∃ r ∈ (p.watcher table line n inside).tally c, P r.node) ↔
        ∃ c ∈ node.parts, ∃ m, Node.Exposed (p.Rewrites table line) m c ∧
          p.Rewrites table line m ∧ P m := by
      apply exists_congr
      intro c
      apply and_congr_right
      intro hc
      exact ih (Nat.le_of_lt_succ (Nat.lt_of_lt_of_le (Node.weight_lt_of_mem_parts hc) hn))
    rw [Node.exists_exposed_iff, ← hparts]
    simp only [mem_tally_watcher_succ, skips_eq_false hp, hvisited, true_and, not_mem_nil,
      false_and, exists_false, or_false]
    grind

/-- Such a pattern rewrites the outermost of the nodes that it matches. -/
theorem exists_mem_rewritings_iff (hp : p.skipsTypes = false) {P : Node → Prop} {f : File} :
    (∃ r ∈ p.rewritings table line f, P r.node) ↔ ∃ n ∈ nodesOf f.decls,
      ∃ m, Node.Exposed (p.Rewrites table line) m n ∧ p.Rewrites table line m ∧ P m := by
  rw [rewritings_eq]
  simp only [mem_flatMap]
  constructor
  · rintro ⟨r, ⟨c, hc, hr⟩, hP⟩
    exact ⟨c, hc, (exists_mem_watcher_iff hvisited hp (weight_le_declsWeight hc)).mp ⟨r, hr, hP⟩⟩
  · rintro ⟨c, hc, hm⟩
    obtain ⟨r, hr, hP⟩ : ∃ r ∈ (p.watcher table line (declsWeight f.decls) []).tally c, P r.node :=
      (exists_mem_watcher_iff hvisited hp (weight_le_declsWeight hc)).mpr hm
    exact ⟨r, ⟨c, hc, hr⟩, hP⟩

end Outermost

/-! ## The catalogue -/

theorem visited_eq_nil_of_replace (h : ∀ role x edit, p.onExpr role x = some edit →
    ∃ y, edit = .replace y) (n : Node) : p.visited table line n = [] := by
  cases n with
  | expr role x => grind [visited, editOn?]
  | _ => rfl

/-- The patterns of the catalogue that do not descend visit nothing in what they have rewritten. -/
theorem visited_eq_nil (hp : p ∈ catalog) (hdescends : p.descends = false) (n : Node) :
    p.visited table line n = [] := by
  simp only [catalog, mem_cons, not_mem_nil, or_false] at hp
  obtain rfl | rfl | rfl | rfl | rfl | rfl | rfl | rfl | rfl := hp
  · refine visited_eq_nil_of_replace ?_ n
    intro role x edit h
    dsimp only at h
    unfold indexShift at h
    grind
  · refine visited_eq_nil_of_replace ?_ n
    intro role x edit h
    dsimp only at h
    unfold saturateExpr at h
    grind
  · cases hdescends
  · cases hdescends
  · cases hdescends
  · cases hdescends
  · cases hdescends
  · cases hdescends
  · exact visited_eq_nil_of_replace (fun _ _ _ h => by cases h) n

end Pattern

end FaultRepair.Repair
