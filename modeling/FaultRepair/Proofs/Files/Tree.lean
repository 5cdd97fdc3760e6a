/-
# Trees and their places

Reading and writing a tree of files, place by place. In a well-formed tree every node stands in
a directory, and the working directory is a place. Reading a path finds what stands at the place
the path leads to; writing a file changes that place, may make directories on the way down to it,
and leaves all else alone.
-/

import FaultRepair.Files.Tree
import FaultRepair.Proofs.Text.Places

namespace FaultRepair.Files

open Text.Path Option List

def Node.text? : Node → Option Text
  | .file data => some data
  | .directory => none
  | .database _ => some "SQLite format 3\x00"

namespace Tree

/-! ## Single nodes -/

theorem workDir_set (t : Tree) (place : Text) (n : Node) : (t.set place n).workDir = t.workDir := by
  rw [Tree.set]
  split <;> rfl

theorem node?_set_self {t : Tree} {place : Text} (hplace : place ≠ Text.ofString "/") (n : Node) :
    (t.set place n).node? place = some n := by
  have hfound : (t.set place n).nodes.find? (·.1 == place) = some (place, n) := by
    rw [Tree.set]
    split
    · rename_i hold
      -- The nodes that are replaced are those at the place, so the first of them is found.
      rw [find?_map]
      have hsame : ((fun e : Text × Node => e.1 == place) ∘ fun e =>
          if e.1 == place then (place, n) else e) = fun e => e.1 == place := by
        funext e
        by_cases hat : e.1 = place <;> simp [hat]
      rw [hsame]
      cases hfirst : t.nodes.find? (·.1 == place) with
      | none =>
        obtain ⟨e, he, hat⟩ := any_eq_true.mp hold
        exact absurd hat (find?_eq_none.mp hfirst e he)
      | some e =>
        have hat := find?_some hfirst
        simp only [beq_iff_eq] at hat
        simp [hat]
    · rename_i hnew
      have hnone : t.nodes.find? (·.1 == place) = none :=
        find?_eq_none.mpr fun e he hat => hnew (any_eq_true.mpr ⟨e, he, hat⟩)
      rw [find?_append, hnone]
      simp
  rw [Tree.node?, if_neg (by simpa using hplace), hfound]
  rfl

theorem node?_set_other (t : Tree) {place q : Text} (hq : q ≠ place) (n : Node) :
    (t.set place n).node? q = t.node? q := by
  have hfound : (t.set place n).nodes.find? (·.1 == q) = t.nodes.find? (·.1 == q) := by
    rw [Tree.set]
    split
    · have hsame : ((fun e : Text × Node => e.1 == q) ∘ fun e =>
          if e.1 == place then (place, n) else e) = fun e => e.1 == q := by
        funext e
        by_cases hat : e.1 = place <;> simp [hat]
      rw [find?_map, hsame]
      cases hfirst : t.nodes.find? (·.1 == q) with
      | none => rfl
      | some e =>
        have hat : e.1 = q := by simpa using find?_some hfirst
        simp [hat, hq]
    · rw [find?_append]
      simp [Ne.symm hq]
  rw [Tree.node?, Tree.node?, hfound]

@[simp]
theorem node?_root (t : Tree) : t.node? (spell []) = some .directory := by
  rw [Tree.node?, if_pos (by decide)]

theorem spell_ne_root {place : Place} (hplace : place ≠ []) : spell place ≠ Text.ofString "/" :=
  fun hroot => hplace (spell_injective (hroot.trans (by decide : Text.ofString "/" = spell [])))

theorem mem_of_node? {t : Tree} {q : Text} {n : Node} (hq : q ≠ Text.ofString "/")
    (hn : t.node? q = some n) : (q, n) ∈ t.nodes := by
  rw [Tree.node?, if_neg (by simpa using hq), map_eq_some_iff] at hn
  obtain ⟨e, hfound, rfl⟩ := hn
  have hat : e.1 = q := by simpa using find?_some hfound
  exact hat ▸ mem_of_find?_eq_some hfound

/-- What stands somewhere is as it was, or it is a directory where nothing stood. -/
def Kept (t t' : Tree) (q : Text) : Prop :=
  t'.node? q = t.node? q ∨ t.node? q = none ∧ t'.node? q = some .directory

namespace Kept

variable {t t' t'' : Tree} {q : Text}

theorem refl (t : Tree) (q : Text) : Kept t t q := .inl rfl

theorem trans (hfirst : Kept t t' q) (hsecond : Kept t' t'' q) : Kept t t'' q := by
  rcases hfirst with hfirst | ⟨hnone, hfirst⟩
  · rw [Kept, ← hfirst]
    exact hsecond
  · rcases hsecond with hsecond | ⟨hnone', -⟩
    · exact .inr ⟨hnone, hsecond.trans hfirst⟩
    · rw [hfirst] at hnone'
      cases hnone'

theorem eq_of_some (h : Kept t t' q) {n : Node} (hn : t.node? q = some n) :
    t'.node? q = some n := by
  rcases h with hsame | ⟨hnone, -⟩
  · rw [hsame, hn]
  · rw [hnone] at hn
    cases hn

/-- A directory that was made holds no bytes, and neither did nothing. -/
theorem text?_eq (h : Kept t t' q) :
    (t'.node? q).bind Node.text? = (t.node? q).bind Node.text? := by
  rcases h with hsame | ⟨hnone, hmade⟩
  · rw [hsame]
  · rw [hnone, hmade]
    rfl

end Kept

variable {place : Place} {path q src : Text}

/-! ## Well-formed trees -/

/-- Every node stands in a directory, and the working directory is a place. -/
structure WellFormed (t : Tree) : Prop where
  workDir : ∃ home : Place, t.workDir = spell home
  parents : ∀ (dir : Place) (name : Name),
    (t.node? (spell (dir ++ [name]))).isSome → t.node? (spell dir) = some .directory

def home (t : Tree) : Place := goal [] t.workDir

def placeOf (t : Tree) (path : Text) : Place := goal t.home path

variable {t t' : Tree}

theorem WellFormed.workDir_eq (h : t.WellFormed) : t.workDir = spell t.home := by
  obtain ⟨home, hhome⟩ := h.workDir
  rw [Tree.home, hhome, goal_spell]

theorem WellFormed.absolute_eq (h : t.WellFormed) (path : Text) :
    t.absolute path = spell (t.placeOf path) := by
  rw [Tree.absolute, placeOf]
  split
  · rename_i habs
    rw [clean_of_isAbs habs, goal, goal, if_pos habs, if_pos habs]
  · rename_i habs
    rw [h.workDir_eq, joinTwo_spell, goal, if_neg habs]

theorem placeOf_congr (h : t'.workDir = t.workDir) (path : Text) :
    t'.placeOf path = t.placeOf path := by
  rw [placeOf, placeOf, home, home, h]

/-! ## Reading -/

theorem dir_spell (place : Place) : dir (spell place) = spell (reach place [dotdot]) := by
  have hup : reach place [dotdot] = place.dropLast := by simp [reach]
  rw [hup]
  rcases eq_nil_or_concat place with rfl | ⟨front, last, rfl⟩
  · exact dir_root
  · rw [concat_eq_append, dir_spell_concat, dropLast_concat]

/-- A step of a walk starts in a directory and follows the component. -/
theorem walk_cons {c : Text} {rest : List Text} (hc : slash ∉ c)
    (hwalk : t.walk (spell place) (c :: rest) = .ok q) :
    t.node? (spell place) = some .directory ∧ t.walk (spell (reach place [c])) rest = .ok q := by
  rw [walk] at hwalk
  split at hwalk
  · cases hwalk
  · rename_i hdirectory
    refine ⟨hdirectory, ?_⟩
    rcases isName_or hc with hname | rfl | rfl | rfl
    · have hdown : (c == Text.ofString "..") = false := beq_eq_false_iff_ne.mpr hname.ne_dotdot
      rw [if_neg (by simp [hname.ne_nil, hname.ne_dot]), hdown, if_neg Bool.false_ne_true,
        joinTwo_spell, Text.splitAt_of_not_mem hc] at hwalk
      split at hwalk
      · cases hwalk
      · exact hwalk
    · rw [if_pos (by decide)] at hwalk
      rwa [reach_nil_cons, reach_nil]
    · rw [if_pos (by decide)] at hwalk
      have hstays : reach place [Text.ofString "."] = place := by simp [reach]
      rwa [hstays]
    · rw [if_neg (by decide), if_pos (by decide), dir_spell] at hwalk
      exact hwalk
  · cases hwalk

/-- A walk leads where the text of the path says. -/
theorem walk_eq_ok {parts : List Text} (hparts : ∀ c ∈ parts, slash ∉ c)
    (hwalk : t.walk (spell place) parts = .ok q) : q = spell (reach place parts) := by
  induction parts generalizing place with
  | nil =>
    cases hwalk
    rw [reach_nil]
  | cons c rest ih =>
    obtain ⟨-, hrest⟩ := walk_cons (hparts c mem_cons_self) hwalk
    rw [ih (fun d hd => hparts d (mem_cons_of_mem _ hd)) hrest, ← reach_append,
      singleton_append]

/-- The last component of a walk starts in a directory. -/
theorem walk_concat {parts : List Text} {last : Text} (hparts : ∀ c ∈ parts ++ [last], slash ∉ c)
    (hwalk : t.walk (spell place) (parts ++ [last]) = .ok q) :
    ∃ dir : Place, t.node? (spell dir) = some .directory ∧ q = spell (reach dir [last]) := by
  induction parts generalizing place with
  | nil => exact ⟨place, (walk_cons (hparts last mem_cons_self) hwalk).1, walk_eq_ok hparts hwalk⟩
  | cons c rest ih =>
    obtain ⟨-, hrest⟩ := walk_cons (hparts c mem_cons_self) hwalk
    exact ih (fun d hd => hparts d (mem_cons_of_mem _ hd)) hrest

theorem WellFormed.walk_of_locate (h : t.WellFormed) (hlocate : t.locate path = .ok q) :
    t.walk (spell (if isAbs path then [] else t.home)) (Text.splitAt slash path) = .ok q := by
  rw [locate] at hlocate
  split at hlocate
  · cases hlocate
  split at hlocate
  · cases hlocate
  split at hlocate
  · rename_i habs
    rw [if_pos habs]
    exact hlocate
  · rename_i habs
    rw [if_neg habs, ← h.workDir_eq]
    exact hlocate

theorem read?_eq_some (hread : t.read? path = some src) :
    ∃ q, t.locate path = .ok q ∧ (t.node? q).bind Node.text? = some src := by
  rw [read?, read] at hread
  cases hlocate : t.locate path with
  | error fault =>
    rw [hlocate] at hread
    cases hread
  | ok q =>
    refine ⟨q, rfl, ?_⟩
    rw [hlocate] at hread
    simp only [bind, Except.bind] at hread
    split at hread
    · cases hread
    · cases hread
    · rename_i data hn
      rw [hn]
      exact hread
    · rename_i d hn
      rw [hn]
      exact hread

/-- What is read is what stands at the place of the path. -/
theorem WellFormed.text?_of_read? (h : t.WellFormed) (hread : t.read? path = some src) :
    (t.node? (spell (t.placeOf path))).bind Node.text? = some src := by
  obtain ⟨q, hlocate, htext⟩ := read?_eq_some hread
  have hq := walk_eq_ok (fun _ hc => Text.not_mem_of_mem_splitAt hc) (h.walk_of_locate hlocate)
  rw [hq] at htext
  exact htext

/-- From a directory only a name leads to something that is none. -/
theorem WellFormed.isName_of_reach (h : t.WellFormed) {dir : Place} {last : Text}
    (hlast : slash ∉ last) (hdir : t.node? (spell dir) = some .directory)
    (hreach : t.node? (spell (reach dir [last])) ≠ some .directory) : IsName last := by
  rcases isName_or hlast with hname | rfl | rfl | rfl
  · exact hname
  · rw [reach_nil_cons, reach_nil] at hreach
    exact absurd hdir hreach
  · have hstays : reach dir [Text.ofString "."] = dir := by simp [reach]
    rw [hstays] at hreach
    exact absurd hdir hreach
  · rcases eq_nil_or_concat dir with rfl | ⟨front, name, rfl⟩
    · exact absurd t.node?_root hreach
    · have hup : reach (front.concat name) [dotdot] = front := by simp [reach]
      rw [hup] at hreach
      rw [concat_eq_append] at hdir
      exact absurd (h.parents front name (by rw [hdir]; rfl)) hreach

/-- A path that can be read ends in a name. -/
theorem WellFormed.isName_of_read? (h : t.WellFormed) (hread : t.read? path = some src) :
    ∃ last, (Text.splitAt slash path).getLast? = some last ∧ IsName last := by
  obtain ⟨q, hlocate, htext⟩ := read?_eq_some hread
  have hwalk := h.walk_of_locate hlocate
  have hlast := getLast?_eq_some_getLast (Text.splitAt_ne_nil slash path)
  generalize (Text.splitAt slash path).getLast _ = last at hlast
  obtain ⟨parts, hparts⟩ := getLast?_eq_some_iff.mp hlast
  have hfree : ∀ c ∈ parts ++ [last],
      slash ∉ c := fun c hc => Text.not_mem_of_mem_splitAt (hparts ▸ hc)
  rw [hparts] at hwalk
  obtain ⟨dir, hdir, rfl⟩ := walk_concat hfree hwalk
  refine ⟨last, hlast, h.isName_of_reach (hfree last (by simp)) hdir ?_⟩
  intro hdirectory
  rw [hdirectory] at htext
  cases htext

/-! ## Making directories -/

/-- What making some directories does. -/
structure Paved (t t' : Tree) (dirs : List Text) : Prop where
  workDir : t'.workDir = t.workDir
  there : ∀ d ∈ dirs, t'.node? d = some .directory
  elsewhere : ∀ q, q ∉ dirs → t'.node? q = t.node? q
  kept : ∀ q, Kept t t' q

theorem paved_makeDirectory? (hpath : path ≠ Text.ofString "/")
    (hmade : t.makeDirectory? path = some t') : Paved t t' [path] := by
  rw [makeDirectory?] at hmade
  split at hmade
  · rename_i hnone
    cases hmade
    refine ⟨workDir_set t path _, ?_, ?_, ?_⟩
    · exact forall_mem_singleton.mpr (node?_set_self hpath _)
    · exact fun q hq => node?_set_other t (by simpa using hq) _
    · intro q
      by_cases hq : q = path
      · rw [hq]
        exact .inr ⟨hnone, node?_set_self hpath _⟩
      · exact .inl (node?_set_other t hq _)
  · rename_i hdirectory
    cases hmade
    exact ⟨rfl, forall_mem_singleton.mpr hdirectory, fun _ _ => rfl, Kept.refl t⟩
  · cases hmade

theorem Paved.append {t'' : Tree} {first second : List Text} (hfirst : Paved t t' first)
    (hsecond : Paved t' t'' second) : Paved t t'' (first ++ second) where
  workDir := hsecond.workDir.trans hfirst.workDir
  there d hd := by
    rcases mem_append.mp hd with hd | hd
    · exact (hsecond.kept d).eq_of_some (hfirst.there d hd)
    · exact hsecond.there d hd
  elsewhere q hq := by
    rw [mem_append, not_or] at hq
    rw [hsecond.elsewhere q hq.2, hfirst.elsewhere q hq.1]
  kept q := (hfirst.kept q).trans (hsecond.kept q)

theorem paved_foldlM {dirs : List Text} (hdirs : ∀ d ∈ dirs, d ≠ Text.ofString "/")
    (hmade : dirs.foldlM makeDirectory? t = some t') : Paved t t' dirs := by
  induction dirs generalizing t with
  | nil =>
    cases hmade
    exact ⟨rfl, by simp, fun _ _ => rfl, Kept.refl _⟩
  | cons d rest ih =>
    rw [foldlM_cons, bind_eq_bind, bind_eq_some_iff] at hmade
    obtain ⟨next, hfirst, hrest⟩ := hmade
    have hhead := paved_makeDirectory? (hdirs d mem_cons_self) hfirst
    exact hhead.append (ih (fun e he => hdirs e (mem_cons_of_mem _ he)) hrest)

theorem way_spell (place : Place) :
    way (spell place) = (range place.length).map fun i => spell (place.take (i + 1)) := by
  rw [way, components_spell, length_map]
  refine map_congr_left fun i _ => ?_
  rw [← map_take]
  rfl

theorem mem_way_spell {dir : Place} (hdir : dir <+: place) (hne : dir ≠ []) :
    spell dir ∈ way (spell place) := by
  rw [way_spell, List.mem_map]
  obtain ⟨front, last, rfl⟩ := (eq_nil_or_concat dir).resolve_left hne
  refine ⟨front.length, ?_, ?_⟩
  · have hlength := hdir.length_le
    rw [length_concat] at hlength
    exact mem_range.mpr hlength
  · rw [← length_concat (a := last), ← prefix_iff_eq_take.mp hdir]

theorem exists_of_mem_way (hq : q ∈ way (spell place)) : ∃ dir, q = spell dir ∧ dir <+: place ∧
    dir ≠ [] := by
  rw [way_spell, List.mem_map] at hq
  obtain ⟨i, hi, rfl⟩ := hq
  refine ⟨_, rfl, take_prefix _ _, fun hnil => ?_⟩
  rcases take_eq_nil_iff.mp hnil with hzero | rfl
  · cases hzero
  · cases mem_range.mp hi

theorem paved_makeDirectories? (hmade : t.makeDirectories? (spell place) = some t') :
    Paved t t' (way (spell place)) := by
  refine paved_foldlM (fun d hd => ?_) hmade
  obtain ⟨dir, rfl, -, hne⟩ := exists_of_mem_way hd
  exact spell_ne_root hne

/-- Directories are made from the top, each in the one before. -/
theorem WellFormed.makeDirectories? (h : t.WellFormed)
    (hmade : t.makeDirectories? (spell place) = some t') : t'.WellFormed := by
  have hpaved := paved_makeDirectories? hmade
  refine ⟨hpaved.workDir ▸ h.workDir, fun dir name hnode => ?_⟩
  by_cases hnew : spell (dir ++ [name]) ∈ way (spell place)
  · by_cases hdir : dir = []
    · rw [hdir]
      exact t'.node?_root
    · obtain ⟨below, hbelow, habove, -⟩ := exists_of_mem_way hnew
      rw [← spell_injective hbelow] at habove
      exact hpaved.there _ (mem_way_spell ((prefix_append dir [name]).trans habove) hdir)
  · rw [hpaved.elsewhere _ hnew] at hnode
    exact (hpaved.kept _).eq_of_some (h.parents dir name hnode)

/-! ## What stands in a directory -/

/-- What the names right below a directory are spelled after. -/
def lead (place : Place) : Text := (if place = [] then [] else spell place) ++ [slash]

theorem spell_concat_eq (place : Place) (name : Name) :
    spell (place ++ [name]) = lead place ++ name.text := by
  rw [spell_concat, lead, append_assoc, singleton_append]

/-- What a node is in a directory, by the text before the names there. -/
def child? (lead : Text) (e : Text × Node) : Option (Text × Node) :=
  (Text.dropLead? lead e.1).bind fun name =>
    if name.isEmpty || name.any (· == slash) then none else some (name, e.2)

theorem child?_eq_some_iff {lead : Text} {e c : Text × Node} :
    child? lead e = some c ↔ e = (lead ++ c.1, c.2) ∧ c.1 ≠ [] ∧ slash ∉ c.1 := by
  rw [child?, Option.bind_eq_some_iff]
  simp only [Text.dropLead?_eq_some_iff, Option.ite_none_left_eq_some, Bool.or_eq_true,
    List.isEmpty_iff, any_beq', contains_iff_mem, not_or, Option.some.injEq]
  constructor
  · rintro ⟨name, hpath, hname, rfl⟩
    exact ⟨Prod.ext hpath rfl, hname⟩
  · rintro ⟨rfl, hname⟩
    exact ⟨c.1, rfl, hname, rfl⟩

theorem children_eq (t : Tree) (place : Place) : t.children (spell place) =
    (t.nodes.filterMap (child? (lead place))).mergeSort fun a b => !Text.before b.1 a.1 := by
  have hlead : (if spell place == Text.ofString "/" then spell place else spell place ++ "/") =
      lead place := by
    rw [lead]
    by_cases hplace : place = []
    · rw [hplace]
      rfl
    · rw [if_neg hplace, if_neg (by simpa using spell_ne_root hplace)]
      rfl
  rw [children, hlead]
  congr 2
  funext e
  cases hrest : Text.dropLead? (lead place) e.1 <;> simp [child?, hrest]

theorem mem_children_iff {c : Text × Node} : c ∈ t.children (spell place) ↔
    (lead place ++ c.1, c.2) ∈ t.nodes ∧ c.1 ≠ [] ∧ slash ∉ c.1 := by
  simp only [children_eq, mem_mergeSort, mem_filterMap, child?_eq_some_iff]
  exact ⟨fun ⟨e, he, hequal, hname⟩ => ⟨hequal ▸ he, hname⟩, fun ⟨he, hname⟩ => ⟨_, he, rfl, hname⟩⟩

theorem mem_children {name : Name} {n : Node} (hn : t.node? (spell (place ++ [name])) = some n) :
    (name.text, n) ∈ t.children (spell place) := by
  refine mem_children_iff.mpr ⟨?_, name.isName.ne_nil, name.isName.slash_notMem⟩
  rw [← spell_concat_eq]
  exact mem_of_node? (spell_ne_root (by simp)) hn

/-! ## Writing -/

/-- What writing a file does. -/
structure Written (t t' : Tree) (place : Place) (data : Text) : Prop where
  workDir : t'.workDir = t.workDir
  here : t'.node? (spell place) = some (.file data)
  elsewhere : ∀ q, q ≠ spell place → Kept t t' q
  wellFormed : t'.WellFormed

theorem WellFormed.set_file (h : t.WellFormed) {dir : Place} {name : Name}
    (hdir : t.node? (spell dir) = some .directory)
    (hfree : t.node? (spell (dir ++ [name])) = some .directory →
      t.children (spell (dir ++ [name])) = [])
    (data : Text) : (t.set (spell (dir ++ [name])) (.file data)).WellFormed := by
  refine ⟨workDir_set t _ _ ▸ h.workDir, fun above below hnode => ?_⟩
  -- Only a directory with something in it would be missed, and such a one is not replaced.
  by_cases hhere : above ++ [below] = dir ++ [name]
  · obtain ⟨rfl, -⟩ := append_inj' hhere rfl
    rw [node?_set_other t (fun hequal => ?_), hdir]
    have hlength := congrArg length (spell_injective hequal)
    simp at hlength
  · rw [node?_set_other t fun hequal => hhere (spell_injective hequal)] at hnode
    have hparent := h.parents above below hnode
    by_cases habove : above = dir ++ [name]
    · rw [habove] at hnode hparent
      obtain ⟨n, hn⟩ := isSome_iff_exists.mp hnode
      have hchild := mem_children hn
      rw [hfree hparent] at hchild
      cases hchild
    · rw [node?_set_other t fun hequal => habove (spell_injective hequal), hparent]

theorem write?_eq_some {data : Text} (hwrite : t.write? path data = some t') :
    ∃ made, t.makeDirectories? (dir (t.absolute path)) = some made ∧
      t' = made.set (t.absolute path) (.file data) ∧
      (made.node? (t.absolute path) = some .directory →
        made.children (t.absolute path) = [] ∧ t.absolute path ≠ Text.ofString "/") := by
  rw [Tree.write?] at hwrite
  split at hwrite
  · cases hwrite
  simp only at hwrite
  split at hwrite
  · cases hwrite
  simp only [bind_eq_bind, bind_eq_some_iff] at hwrite
  obtain ⟨made, hmade, hwrite⟩ := hwrite
  refine ⟨made, hmade, ?_⟩
  split at hwrite
  · split at hwrite
    · rename_i hempty
      simp only [Bool.and_eq_true, List.isEmpty_iff, bne_iff_ne] at hempty
      cases hwrite
      exact ⟨rfl, fun _ => hempty⟩
    · cases hwrite
  · rename_i hother
    cases hwrite
    exact ⟨rfl, fun hdirectory => absurd hdirectory hother⟩

/-- Writing a file that succeeds does nothing but that. -/
theorem WellFormed.write? (h : t.WellFormed) {data : Text} (hwrite : t.write? path data = some t') :
    Written t t' (t.placeOf path) data := by
  obtain ⟨made, hmade, rfl, hfree⟩ := write?_eq_some hwrite
  rw [h.absolute_eq] at hmade hfree ⊢
  rcases eq_nil_or_concat (t.placeOf path) with hroot | ⟨dir, name, hplace⟩
  · rw [hroot] at hfree
    exact absurd rfl (hfree made.node?_root).2
  rw [concat_eq_append] at hplace
  rw [hplace] at hmade hfree ⊢
  rw [dir_spell_concat] at hmade
  have hpaved := paved_makeDirectories? hmade
  have hdir : made.node? (spell dir) = some .directory := by
    by_cases hempty : dir = []
    · rw [hempty, node?_root]
    · exact hpaved.there _ (mem_way_spell prefix_rfl hempty)
  refine ⟨(workDir_set _ _ _).trans hpaved.workDir, node?_set_self (spell_ne_root (by simp)) _, ?_,
    (h.makeDirectories? hmade).set_file hdir (fun hdirectory => (hfree hdirectory).1) data⟩
  intro q hq
  rw [Kept, node?_set_other made hq]
  exact hpaved.kept q

theorem wellFormed_empty (home : Place) : ({ workDir := spell home } : Tree).WellFormed := by
  refine ⟨⟨home, rfl⟩, fun dir name hnode => ?_⟩
  rw [Tree.node?, if_neg (by simpa using spell_ne_root (by simp : dir ++ [name] ≠ []))] at hnode
  cases hnode

/-- Every tree that is made by writing files is well-formed. -/
theorem wellFormed_of_writes {home : Place} {written : List (Text × Text)}
    (hwritten : written.foldlM (fun (t : Tree) e => t.write? e.1 e.2) { workDir := spell home } =
      some t) : t.WellFormed := by
  have hstart := wellFormed_empty home
  generalize ({ workDir := spell home } : Tree) = start at hwritten hstart
  induction written generalizing start with
  | nil =>
    cases hwritten
    exact hstart
  | cons e rest ih =>
    rw [foldlM_cons, bind_eq_bind, bind_eq_some_iff] at hwritten
    obtain ⟨next, hfirst, hrest⟩ := hwritten
    exact ih next hrest (hstart.write? hfirst).wellFormed

end Tree

/-! ## Addresses

An address that can be followed leads to a place. What is fetched from it is what stands there,
and storing changes that place. -/

/-- The path of an address ends like the address. -/
theorem append_of_pathOf? {address path : Text} (hpath : pathOf? address = some path)
    (hne : path ≠ []) :
    address = path ∨ ∃ front rest, path = slash :: rest ∧ address = front ++ slash :: rest := by
  rw [pathOf?] at hpath
  split at hpath
  · exact .inl (some.inj hpath)
  · rename_i scheme rest hcut
    split at hpath
    · refine .inr ?_
      obtain rfl := some.inj hpath
      obtain ⟨b, tail, htail⟩ := List.exists_cons_of_ne_nil hne
      have hb : b = slash := by
        have hstops := List.head_dropWhile_not (· != slash) hne
        simpa [htail] using hstops
      have hrest := List.takeWhile_append_dropWhile (p := (· != slash)) (l := rest)
      rw [htail, hb] at hrest
      refine ⟨scheme ++ Text.ofString "://" ++ rest.takeWhile (· != slash),
        tail, by rw [htail, hb], ?_⟩
      rw [Text.eq_of_cut? hcut, List.append_assoc _ (rest.takeWhile _), hrest]
    · split at hpath
      · exact .inl (some.inj hpath)
      · cases hpath

namespace Tree

/-- The place that an address leads to, if it can be followed. -/
def placeOf? (t : Tree) (address : Text) : Option Place := (pathOf? address).map t.placeOf

/-- The bytes that stand at the place of an address. -/
def textAt? (t : Tree) (address : Text) : Option Text :=
  (t.placeOf? address).bind fun place => (t.node? (spell place)).bind Node.text?

variable {t t' : Tree} {address data src : Text}

theorem placeOf?_congr (h : t'.workDir = t.workDir) (address : Text) :
    t'.placeOf? address = t.placeOf? address := by
  rw [placeOf?, placeOf?, funext (placeOf_congr h)]

theorem WellFormed.fetch? (h : t.WellFormed) (hfetch : t.fetch? address = some src) :
    t.textAt? address = some src ∧ IsName (base address) := by
  obtain ⟨path, hpath, hread⟩ := bind_eq_some_iff.mp hfetch
  refine ⟨?_, ?_⟩
  · rw [textAt?, placeOf?, hpath, map_some, bind_some, h.text?_of_read? hread]
  · obtain ⟨last, hlast, hname⟩ := h.isName_of_read? hread
    have hne : path ≠ [] := by
      rintro rfl
      cases hlast
      exact not_isName_nil hname
    have hbase : base address = last := by
      refine base_of_getLast? ?_ hname.ne_nil
      rcases append_of_pathOf? hpath hne with rfl | ⟨front, rest, rfl, rfl⟩
      · exact hlast
      · rw [← hlast, Text.getLast?_splitAt_append]
        exact (Text.getLast?_splitAt_append slash [] rest).symm
    rwa [hbase]

/-- Storing that succeeds writes the place of the address. -/
theorem WellFormed.store? (h : t.WellFormed) (hstore : t.store? address data = some t') :
    ∃ place, t.placeOf? address = some place ∧ Written t t' place data := by
  obtain ⟨path, hpath, hwrite⟩ := bind_eq_some_iff.mp hstore
  exact ⟨t.placeOf path, by rw [placeOf?, hpath, map_some], h.write? hwrite⟩

end Tree

end FaultRepair.Files
