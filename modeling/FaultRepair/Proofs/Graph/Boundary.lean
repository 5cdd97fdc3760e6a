/-
# Pairs and the boundary of the modules

A build takes a file if the modules contain it under its own name, and it lets a declaration
contribute if they contain the file that line directives put it in. The names of targets are not
looked at once more. So the right side of a pair always lies in the modules, while the left side
can be led out of them by a directive.
-/

import FaultRepair.Proofs.Graph.Recorded

namespace FaultRepair.Graph

open Source FaultRepair.Module List

/-! ## Loaded files -/

namespace Program

/-- Files are numbered in the order of their tables. -/
theorem getElem?_tables {ps : List PackageInput} {n : Nat}
    {entry : PackageInput × List (Parsed × Nat)} (hentry : entry ∈ parseAll.go ps n)
    {f : Parsed × Nat} (hf : f ∈ entry.2) :
    n ≤ f.2 ∧ ((parseAll.go ps n).flatMap fun e => e.2.map (·.1.table))[f.2 - n]? =
      some f.1.table := by
  induction ps generalizing n with
  | nil => cases hentry
  | cons p rest ih =>
    rw [parseAll.go, flatMap_cons]
    rcases mem_cons.mp hentry with rfl | hrest
    · grind [List.getElem?_append_left]
    · obtain ⟨hle, htable⟩ := ih hrest
      refine ⟨Nat.le_trans (Nat.le_add_right ..) hle, ?_⟩
      rw [List.getElem?_append_right (by simp; omega), ← htable]
      congr 1
      simp
      omega

/-- A position of a loaded file is placed by the file's own table. -/
theorem place_load {ps : List PackageInput} {f : LoadedFile}
    (hf : f ∈ (load ps).loaded.flatMap (·.files)) (pos : Pos) :
    (load ps).place f.number pos = f.table.place pos := by
  obtain ⟨package, hpackage, hf⟩ := mem_flatMap.mp hf
  obtain ⟨entry, hentry, rfl⟩ := mem_map.mp (mem_of_mem_filter hpackage)
  obtain ⟨parsed, hparsed, rfl⟩ := mem_map.mp hf
  obtain ⟨-, htable⟩ := getElem?_tables hentry hparsed
  rw [place, load, Array.getD_eq_getD_getElem?, List.getElem?_toArray]
  exact congrArg (fun t? => (t?.getD default).place pos) htable

end Program

theorem containsFile_of_analysed {p : Program} {ms : ModuleSet} {o : FileFilter} {f : LoadedFile}
    (hf : f ∈ analysed p ms o) : ms.containsFile f.table.name = true := by
  have hadmitted := (mem_filter.mp hf).2
  simp only [Bool.and_eq_true] at hadmitted
  exact hadmitted.1.2

/-! ## Both sides of a pair -/

/-- **Pairs stay inside the modules, but for line directives.**  For all packages, modules and
callees: the right side of every pair is a declaration in a package and a file of the modules. The
left sides are in files of the modules exactly if that is where each name is placed that is given a
value with a contributor. A file without line directives places all its names so. -/
theorem pairs_inside_iff (ps : List PackageInput) (ms : ModuleSet)
    (unique? : Nat → Pos → Option Nat) (o : FileFilter) :
    let c : BuildContext := ⟨.load ps, ms, unique?⟩
    (∀ key ∈ DepGraph.pairKeys (build c o).graph.pairs, ∃ obj, DeclaredAt (.load ps) ms obj key.2) ∧
    ((∀ key ∈ DepGraph.pairKeys (build c o).graph.pairs, ms.containsFile key.1.file = true) ↔
      ∀ f ∈ analysed (.load ps) ms o, ∀ e ∈ assigned f,
        (c.contributions f.number e.2).locations ≠ [] →
        ms.containsFile (f.table.place e.1.pos).file = true) ∧
    ∀ f ∈ analysed (.load ps) ms o, f.table.directives = #[] → ∀ pos ≠ noPos,
      ms.containsFile (f.table.place pos).file = true := by
  intro c
  refine ⟨?_, ⟨?_, ?_⟩, ?_⟩
  · intro key hkey
    obtain ⟨f, -, e, -, -, r, hr, hright⟩ := mem_pairKeys_build.mp hkey
    obtain ⟨obj, hobj⟩ := c.declared_contributions f.number e.2 r hr
    exact ⟨obj, c.declaredAt_iff.mpr ⟨r, hobj, hright⟩⟩
  · intro hinside f hf e he hsome
    obtain ⟨r, hr⟩ := exists_mem_of_ne_nil _ hsome
    rw [← Program.place_load (mem_of_mem_filter hf)]
    exact hinside (_, r.position) (mem_pairKeys_build.mpr ⟨f, hf, e, he, rfl, r, hr, rfl⟩)
  · intro hplaced key hkey
    obtain ⟨f, hf, e, he, hleft, r, hr, -⟩ := mem_pairKeys_build.mp hkey
    have hinside := hplaced f hf e he (ne_nil_of_mem hr)
    rw [← Program.place_load (mem_of_mem_filter hf)] at hinside
    rw [hleft]
    exact hinside
  · intro f hf hnone pos hpos
    have hplace : (f.table.place pos).file = f.table.name := by
      simp [LineTable.place, hpos, LineTable.directiveAt?, hnone]
    rw [hplace]
    exact containsFile_of_analysed hf

/-! ## Led outside -/

/-- Two variables, the second after a directive. -/
def strayFile : LoadedFile where
  number := 0
  tree := { package := 1, decls := [
    .gen (.mk none 12 .kwVar noPos
      [.value none [⟨16, "y"⟩] none [.lit ⟨20, .int, "1"⟩] none] noPos),
    .gen (.mk none 40 .kwVar noPos [.value none [⟨44, "z"⟩] none [.ident ⟨48, "y"⟩] none] noPos)] }
  table := { name := "/m/a.go", size := 49, starts := #[0, 10, 11, 21, 22, 39, 49],
             directives := #[⟨39, "/x/b.go", 1, 0⟩] }

def strayProgram : Program where
  packages := [⟨"m", [strayFile], false, false, true⟩]
  checked := ⟨{ tables := { objs := #[{ name := "y", pkg := some 0, pos := 16, kind := .var }],
                            packages := #[{ path := "m" }] },
                info := { uses := ({} : Std.HashMap (Nat × Nat) Nat).insert (0, 48) 0 } }, []⟩
  tables := #[strayFile.table]
  depth := 1

/-- The file is in the module, and so is what the second variable is computed from; but the
directive puts the variable itself into another directory. -/
theorem directive_leads_outside :
    let ms : ModuleSet := ⟨⟨"m", "/m", ""⟩, []⟩
    (⟨"/x/b.go", 1, 0⟩, ⟨"/m/a.go", 3, 5⟩) ∈
        DepGraph.pairKeys (build ⟨strayProgram, ms, fun _ _ => none⟩ {}).graph.pairs ∧
      ms.containsFile "/m/a.go" = true ∧ ms.containsFile "/x/b.go" = false := by
  refine ⟨mem_pairKeys_build.mpr ⟨strayFile, ?_, (⟨44, "z"⟩, .ident ⟨48, "y"⟩), ?_, rfl,
    ⟨"y", "/m/a.go", 3, 5⟩, ?_, rfl⟩, rfl, rfl⟩
  · exact mem_filter.mpr ⟨mem_singleton_self _, rfl⟩
  · exact mem_cons_of_mem _ mem_cons_self
  · have huse : strayProgram.checked.state.info.uses.get? (0, 48) = some 0 :=
      Std.HashMap.getElem?_insert_self
    change _ ∈ (BuildContext.ident _ 0 ⟨48, "y"⟩).locations
    rw [BuildContext.ident]
    simp only [BuildContext.info, huse]
    exact mem_singleton_self _

end FaultRepair.Graph
