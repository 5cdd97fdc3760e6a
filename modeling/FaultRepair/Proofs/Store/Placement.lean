/-
# Databases in trees of files

A store that is kept is saved by setting one node of the tree. The node was a database, an
empty file or nothing before, so no directory is lost, and nothing that reads as text comes to
be: what depends on directories and on the text of other files is not disturbed. The store of
the name is then the one that was saved.
-/

import FaultRepair.Proofs.Files.Tree
import FaultRepair.Revision.Repository
import FaultRepair.Proofs.Store.Writers

namespace FaultRepair.Files.Tree

open Text.Path List

variable {t : Tree} {place : Text}

theorem set_set (t : Tree) (place : Text) (n m : Node) :
    (t.set place n).set place m = t.set place m := by
  by_cases hthere : t.nodes.any (·.1 == place)
  · have hstill : (t.nodes.map fun e => if e.1 == place then (place, n) else e).any
        (·.1 == place) := by
      obtain ⟨e, he, hplace⟩ := any_eq_true.mp hthere
      refine any_eq_true.mpr ⟨(place, n), mem_map.mpr ⟨e, he, ?_⟩, by simp⟩
      rw [if_pos hplace]
    grind [Tree.set, map_congr_left]
  · have hmap : t.nodes.map (fun e => if e.1 = place then (place, m) else e) = t.nodes := by
      refine (map_congr_left fun e he => ?_).trans (map_id _)
      apply if_neg
      intro hplace
      exact hthere (any_eq_true.mpr ⟨e, he, by simpa using hplace⟩)
    simp [Tree.set, hthere, hmap]

/-- A place that a database may take: it is no directory, and it stands in one. -/
structure Free (t : Tree) (place : Text) : Prop where
  notDirectory : t.node? place ≠ some .directory
  parent : t.node? place = none → t.isDirectory (dir place)

theorem Free.ne_root (h : t.Free place) : place ≠ Text.ofString "/" := by
  rintro rfl
  exact h.notDirectory rfl

variable (d : Store.Database)

/-- Directories are the same with a database in a free place. -/
theorem Free.directory_iff (h : t.Free place) (q : Text) :
    (t.set place (.database d)).node? q = some .directory ↔ t.node? q = some .directory := by
  by_cases hq : q = place
  · rw [hq, node?_set_self h.ne_root]
    simp [h.notDirectory]
  · rw [node?_set_other t hq]

theorem isDirectory_iff (t : Tree) (q : Text) : t.isDirectory q ↔ t.node? q = some .directory := by
  rw [isDirectory]
  split <;> simp_all

theorem Free.isDirectory_eq (h : t.Free place) (q : Text) :
    (t.set place (.database d)).isDirectory q = t.isDirectory q := by
  rw [Bool.eq_iff_iff, isDirectory_iff, isDirectory_iff, h.directory_iff]

theorem Free.wellFormed (h : t.Free place) (ht : t.WellFormed) :
    (t.set place (.database d)).WellFormed := by
  refine ⟨workDir_set t _ _ ▸ ht.workDir, fun above below hnode => ?_⟩
  rw [h.directory_iff]
  by_cases hhere : spell (above ++ [below]) = place
  · cases hold : t.node? place with
    | none =>
      have hparent := (isDirectory_iff t _).mp (h.parent hold)
      rwa [← hhere, dir_spell_concat] at hparent
    | some n => exact ht.parents above below (by rw [hhere, hold]; rfl)
  · rw [node?_set_other t hhere] at hnode
    exact ht.parents above below hnode

/-- A path that leads somewhere led there before. -/
theorem Free.walk (h : t.Free place) {parts : List Text} {start q : Text}
    (hwalk : (t.set place (.database d)).walk start parts = .ok q) :
      t.walk start parts = .ok q := by
  induction parts generalizing start with
  | nil => exact hwalk
  | cons name rest ih =>
    rw [Tree.walk] at hwalk ⊢
    cases hnode : (t.set place (.database d)).node? start with
    | none =>
      rw [hnode] at hwalk
      cases hwalk
    | some n =>
      cases n with
      | directory =>
        rw [hnode] at hwalk
        rw [(h.directory_iff d start).mp hnode]
        grind
      | file data =>
        rw [hnode] at hwalk
        cases hwalk
      | database d' =>
        rw [hnode] at hwalk
        cases hwalk

theorem Free.locate (h : t.Free place) {path q : Text}
    (hlocate : (t.set place (.database d)).locate path = .ok q) : t.locate path = .ok q := by
  rw [Tree.locate, workDir_set] at hlocate
  rw [Tree.locate]
  split_ifs at hlocate ⊢
  · exact h.walk d hlocate
  · exact h.walk d hlocate

theorem read?_of_locate {path q src : Text} (hlocate : t.locate path = .ok q)
    (htext : (t.node? q).bind Node.text? = some src) : t.read? path = some src := by
  obtain ⟨n, hn, htext⟩ := Option.bind_eq_some_iff.mp htext
  rw [Tree.read?, Tree.read, hlocate]
  simp only [bind, Except.bind, hn]
  cases n with
  | file data => exact htext
  | directory => cases htext
  | database d => exact htext

/-- What can be read could be read before, unless it is the database. -/
theorem Free.read? (h : t.Free place) {path src : Text}
    (hread : (t.set place (.database d)).read? path = some src) :
    t.read? path = some src ∨ some src = (Node.database d).text? := by
  obtain ⟨q, hlocate, htext⟩ := read?_eq_some hread
  by_cases hq : q = place
  · rw [hq, node?_set_self h.ne_root] at htext
    exact .inr htext.symm
  · rw [node?_set_other t hq] at htext
    exact .inl (read?_of_locate (h.locate d hlocate) htext)

end FaultRepair.Files.Tree

namespace FaultRepair.Revision

open Files

variable {t : Tree} {place : Text} (d : Store.Database)

/-- A database is no head of a repository, so it makes none. -/
theorem repositoryAt?_set (h : t.Free place) {work admin : Text} {r : Repository}
    (hfound : repositoryAt? (t.set place (.database d)) work admin = some r) :
    repositoryAt? t work admin = some r := by
  rw [repositoryAt?, Option.bind_eq_bind, Option.bind_eq_some_iff] at hfound
  obtain ⟨source, hsource, hfound⟩ := hfound
  obtain ⟨head, hhead, hfound⟩ := Option.bind_eq_some_iff.mp hfound
  rw [h.isDirectory_eq, h.isDirectory_eq] at hfound
  rcases h.read? d hsource with hread | hdatabase
  · rw [repositoryAt?, hread]
    simp only [Option.bind_eq_bind, Option.bind_some, hhead]
    exact hfound
  · cases hdatabase
    cases hhead

theorem findFrom_set (h : t.Free place) {fuel : Nat} {dir : Text}
    (hnone : findFrom t fuel dir = none) :
    findFrom (t.set place (.database d)) fuel dir = none := by
  induction fuel generalizing dir with
  | zero => rfl
  | succ fuel ih => grind [findFrom, repositoryAt?_set]

/-- A directory that lies in no repository lies in none when a database is saved. -/
theorem find?_set (h : t.Free place) {dir : Text} (hnone : Repository.find? t dir = none) :
    Repository.find? (t.set place (.database d)) dir = none := by
  rw [Repository.find?, Tree.absolute, Tree.workDir_set]
  exact findFrom_set d h hnone

end FaultRepair.Revision

namespace FaultRepair.Store

open Files

variable {files : Tree} {name : Text} {s : Store} {d : Database}

/-- Where the tree keeps what a store holds. -/
def Store.place (files : Tree) (name : Text) : Store → Text
  | .file _ => files.absolute name
  | .remote _ => name

theorem save_holding (files : Tree) (name : Text) (s : Store) (d : Database) :
    (s.holding d).save files name = files.set (s.place files name) (.database d) := by
  cases s <;> rfl

theorem ofName_remote {b : Backing} (h : Store.ofName files name = (Store.remote b).holding d) :
    isServerName name ∧ files.node? name = some (.database d) := by
  rw [Store.ofName] at h
  split at h
  · rename_i hserver
    refine ⟨hserver, ?_⟩
    have hdatabase : serverDatabase files name = .ok d := by
      injection h with hbacking
      injection hbacking
    rw [serverDatabase] at hdatabase
    split at hdatabase
    · cases hdatabase
      assumption
    · cases hdatabase
  · rw [Store.ofFile] at h
    split at h <;> cases h

theorem ofName_file {b : Backing} (h : Store.ofName files name = (Store.file b).holding d) :
    isServerName name = false ∧ isFleeting name = false ∧ fileDatabase files name = .ok d := by
  rw [Store.ofName] at h
  split at h
  · cases h
  · rename_i hserver
    rw [Store.ofFile] at h
    split at h
    · cases h
    · rename_i hfleeting
      refine ⟨eq_false_of_ne_true hserver, eq_false_of_ne_true hfleeting, ?_⟩
      injection h with hbacking
      injection hbacking

/-- The place of a store that is kept may be made, and it is no directory. -/
theorem free_of_ofName (h : Store.ofName files name = s.holding d) :
    files.Free (s.place files name) := by
  cases s with
  | file b =>
    obtain ⟨-, -, hdatabase⟩ := ofName_file h
    rw [fileDatabase] at hdatabase
    constructor
    · intro hdirectory
      simp [show files.node? (files.absolute name) = some .directory from hdirectory] at hdatabase
    · intro hnone
      simp only [show files.node? (files.absolute name) = none from hnone] at hdatabase
      split at hdatabase
      · assumption
      · cases hdatabase
  | remote b =>
    obtain ⟨-, hnode⟩ := ofName_remote h
    constructor
    · intro hdirectory
      cases hnode.symm.trans hdirectory
    · intro hnone
      cases hnode.symm.trans hnone

/-- A store that is saved is the store that its name stands for. -/
theorem ofName_save (h : Store.ofName files name = s.holding d) (d' : Database) :
    Store.ofName ((s.holding d').save files name) name = s.holding d' := by
  have hplace : s.place files name ≠ Text.ofString "/" := (free_of_ofName h).ne_root
  rw [save_holding]
  cases s with
  | file b =>
    obtain ⟨hserver, hfleeting, -⟩ := ofName_file h
    have habsolute : (files.set (files.absolute name) (.database d')).absolute name =
        files.absolute name := by
      rw [Tree.absolute, Tree.workDir_set, Tree.absolute]
    have hkept : fileDatabase (files.set (files.absolute name) (.database d')) name = .ok d' := by
      simp only [fileDatabase, habsolute,
        Tree.node?_set_self (show files.absolute name ≠ _ from hplace)]
    simp only [Store.ofName, hserver, Store.ofFile, hfleeting, Store.place, hkept]
    rfl
  | remote b =>
    obtain ⟨hserver, -⟩ := ofName_remote h
    have hkept : serverDatabase (files.set name (.database d')) name = .ok d' := by
      simp only [serverDatabase, Tree.node?_set_self (show name ≠ _ from hplace)]
    simp only [Store.ofName, hserver, Store.place, hkept]
    rfl

theorem save_save (files : Tree) (name : Text) (s : Store) (d d' : Database) :
    (s.holding d').save ((s.holding d).save files name) name = (s.holding d').save files name := by
  have hplace (t : Tree) (ht : t.workDir = files.workDir) :
      s.place t name = s.place files name := by
    cases s with
    | file b => rw [Store.place, Tree.absolute, ht]; rfl
    | remote b => rfl
  simp only [save_holding]
  rw [hplace _ (Tree.workDir_set _ _ _), Tree.set_set]

end FaultRepair.Store
