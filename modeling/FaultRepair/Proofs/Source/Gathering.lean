/-
# Adding an import

An import that is added goes into a declaration of imports, or into a new one, and then the later
declarations of imports are emptied into the first. Only the imports of `"C"`, which carry a text
of their own, stay where they are. So the declarations that are not gathered stay as they were and
in their order, and no specification is lost.
-/

import FaultRepair.Source.Imports
import Mathlib.Data.List.Basic
import Mathlib.Data.List.Perm.Basic

namespace FaultRepair.Source

open List

namespace File

open Text

/-! ## Where an import goes -/

theorem decl_scanSpecs (path : Text) (i j : Nat) (seen : Bool) (specs : List Spec) (b : Best) :
    (scanSpecs path i seen j specs b).decl = b.decl ∨
      (scanSpecs path i seen j specs b).decl = some i := by
  induction specs generalizing seen j b with
  | nil => exact .inl rfl
  | cons s specs ih => grind [scanSpecs]

/-- The scan of the declarations finds one whose imports are gathered. -/
theorem decl_scanDecls {path : Text} {i k : Nat} {ds : List Decl} {b : Best}
    (h : (scanDecls path i ds b).decl = some k) :
    b.decl = some k ∨ ∃ j g, k = i + j ∧ ds[j]? = some (.gen g) ∧ isMergeable (.gen g) := by
  induction ds generalizing i b with
  | nil => exact .inl h
  | cons d ds ih =>
    unfold scanDecls at h
    obtain hb | ⟨j, g, rfl, hget, hg⟩ := ih h
    · split at hb
      · rename_i g
        split at hb
        · rename_i himport
          split at hb
          · exact .inl hb
          · rename_i hc
            have hg : isMergeable (.gen g) := by simp [isMergeable, himport, hc]
            obtain h | h := decl_scanSpecs path i 0 false g.specs _ <;> rw [h] at hb
            · split at hb
              · exact .inr ⟨0, g, (Option.some.inj hb).symm, rfl, hg⟩
              · exact .inl hb
            · exact .inr ⟨0, g, (Option.some.inj hb).symm, rfl, hg⟩
        · exact .inl hb
      · exact .inl hb
    · exact .inr ⟨j + 1, g, by omega, hget, hg⟩

/-- An import goes into one of the declarations that are gathered, or into a new one. -/
theorem insertImport_eq (f : File) (table : LineTable) (path : Text) :
    ∃ front back g after, isMergeable (.gen g) ∧
      (f.decls = front ++ .gen g :: back ∨ f.decls = front ++ back ∧ g.specs = []) ∧
      f.insertImport table path = front ++ .gen (insertSpec path g after) :: back := by
  unfold insertImport
  extract_lets best
  split
  · rename_i i hi
    obtain hnone | ⟨j, g, rfl, hget, hg⟩ := decl_scanDecls hi
    · cases hnone
    · obtain ⟨hlt, hget⟩ := List.getElem?_eq_some_iff.mp hget
      refine ⟨f.decls.take j, f.decls.drop (j + 1), g, best.spec, hg, .inl ?_, ?_⟩
      · rw [← hget, getElem_cons_drop, take_append_drop]
      · have hset := set_eq_take_append_cons_drop (l := f.decls) (i := j)
          (a := .gen (insertSpec path g best.spec))
        rw [if_pos hlt] at hset
        rw [← hset]
        apply ext_getElem?
        grind
  · rename_i hnone
    split
    rename_i pos i heq
    refine ⟨f.decls.take i, f.decls.drop i, .mk none pos .kwImport noPos [] noPos, none, rfl,
      .inr ⟨(take_append_drop i _).symm, rfl⟩, ?_⟩
    rw [append_assoc]
    rfl

theorem mergeImports_eq (decls : List Decl) :
    mergeImports decls = decls ∨ ∃ front first later merged,
      decls = front ++ .gen first :: later ∧ isMergeable (.gen first) ∧
      merged.tok = first.tok ∧
      merged.specs = first.specs ++ (later.filter isMergeable).flatMap (specsAt first.pos) ∧
      mergeImports decls = front ++ .gen merged :: later.filter (!isMergeable ·) := by
  unfold mergeImports
  split
  · exact .inl rfl
  · rename_i i hi
    split
    · rename_i first hfirst
      extract_lets later moved merged
      obtain ⟨hlt, hget⟩ := List.getElem?_eq_some_iff.mp hfirst
      refine .inr ⟨decls.take i, first, later, merged, ?_, ?_, ?_, ?_, append_assoc _ _ _⟩
      · rw [← hget, getElem_cons_drop, take_append_drop]
      · rw [← hget]
        exact (List.findIdx?_eq_some_iff_getElem.mp hi).2.1
      · simp only [merged]
        split <;> rfl
      · simp only [merged]
        split
        · grind
        · rfl
    · exact .inl rfl

/-! ## What stays -/

section Specs

variable {α : Type} {h : Spec → List α} {g : Decl → List α}
variable (hgen : ∀ d, g (.gen d) = d.specs.flatMap h) (hmove : ∀ pos s, h (s.movePath pos) = h s)

include hgen

include hmove in
theorem flatMap_mergeImports (decls : List Decl) :
    ((mergeImports decls).flatMap g).Perm (decls.flatMap g) := by
  obtain heq | ⟨front, first, later, merged, rfl, -, -, hspecs, heq⟩ := mergeImports_eq decls
  · rw [heq]
  · have hmoved : ((later.filter isMergeable).flatMap (specsAt first.pos)).flatMap h =
        (later.filter isMergeable).flatMap g := by
      rw [flatMap_assoc]
      apply flatMap_congr
      intro d hd
      cases d with
      | gen d => simp only [specsAt, flatMap_map, hmove, hgen]
      | _ => cases (mem_filter.mp hd).2
    rw [heq]
    simp only [flatMap_append, flatMap_cons, hgen, hspecs, hmoved, append_assoc]
    refine List.Perm.append_left _ (List.Perm.append_left _ ?_)
    rw [← flatMap_append]
    exact (filter_append_perm isMergeable later).flatMap_right g

variable {path : Text} {added : List α}
variable (hnew : ∀ pos, h (.imports none none ⟨pos, .string, quote path⟩ none pos) = added)

include hnew

theorem flatMap_insertSpec (d : GenDecl) (after : Option Nat) :
    (g (.gen (insertSpec path d after))).Perm (added ++ g (.gen d)) := by
  grind [insertSpec, GenDecl.specs, perm_append_comm_assoc, take_append_drop]

theorem flatMap_insertImport (f : File) (table : LineTable) :
    ((f.insertImport table path).flatMap g).Perm (added ++ f.decls.flatMap g) := by
  obtain ⟨front, back, d, after, -, hdecls, heq⟩ := insertImport_eq f table path
  have hinsert : ((f.insertImport table path).flatMap g).Perm
      (added ++ (front.flatMap g ++ (g (.gen d) ++ back.flatMap g))) := by
    rw [heq, flatMap_append, flatMap_cons]
    refine (((flatMap_insertSpec hgen hnew d after).append_right _).append_left _).trans ?_
    rw [append_assoc]
    exact perm_append_comm_assoc _ _ _
  grind

include hmove in
/-- Adding an import loses nothing that is read off the specifications, and adds at most what is
read off the new one. -/
theorem flatMap_addImport (f : File) (table : LineTable) :
    ((f.addImport table path).decls.flatMap g).Perm
      ((if f.imports.any fun s =>
        s.importName.isEmpty && s.importPath == path then [] else added) ++
        f.decls.flatMap g) := by
  rw [addImport]
  split
  · exact .refl _
  · dsimp only
    split
    · exact flatMap_insertImport hgen hnew f table
    · exact (flatMap_mergeImports hgen hmove _).trans (flatMap_insertImport hgen hnew f table)

end Specs

section Kept

variable {path : Text} (hpath : ((unquote? (quote path)).getD [] == ("C" : Text)) = false)

include hpath

end Kept

end File

end FaultRepair.Source
