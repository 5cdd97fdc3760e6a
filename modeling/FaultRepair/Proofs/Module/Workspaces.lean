/-
# What a workspace is made of

A search for nested modules walks down from a root, names in byte-wise order, and leaves out
hidden directories with all that is below them. What it finds is said here without the walk: the
directories below the root with a module file in them and no hidden name on the way, in the
order of the components of these files. The search is told how deep it may go; the number of
nodes of a tree is enough, since every directory on the way down is one.

A workspace takes the modules of a set and then the nested ones, unless the directory or the
module path of one is there already. One step keeps its members apart, and refuses a module only
for a member that was taken before it.
-/

import FaultRepair.Module.Workspace
import FaultRepair.Proofs.Fault.StableSort
import FaultRepair.Proofs.Files.Tree
import Mathlib

namespace FaultRepair.Text

theorem before_iff {s t : Text} : before s t = true ↔ s < t := by
  rw [before]
  fun_induction compare s t with
  | case1 | case2 | case3 => simp
  | case4 a s b t hlt => simp [List.cons_lt_cons_iff, hlt]
  | case5 a s b t hlt hgt =>
    have hne : a ≠ b := fun hequal => hlt (hequal ▸ hgt)
    simp [List.cons_lt_cons_iff, hlt, hne]
  | case6 a s b t hlt hgt ih =>
    have hequal : a = b := UInt8.le_antisymm (UInt8.not_lt.mp hgt) (UInt8.not_lt.mp hlt)
    simp [hequal, ih]

end FaultRepair.Text

namespace FaultRepair.Files.Tree

open Text.Path List

/-! ## What stands in a directory -/

/-- The nodes stand at different clean paths below the root. -/
structure Regular (t : Tree) : Prop where
  rooted : ∀ e ∈ t.nodes, isAbs e.1 = true ∧ clean e.1 = e.1 ∧ e.1 ≠ Text.ofString "/"
  nodup : (t.nodes.map (·.1)).Nodup

variable {t : Tree} {place : Place}

theorem Regular.exists_place (h : t.Regular) {e : Text × Node} (he : e ∈ t.nodes) :
    ∃ (dir : Place) (name : Name), e.1 = spell (dir ++ [name]) := by
  obtain ⟨habs, hclean, hroot⟩ := h.rooted e he
  rw [clean_of_isAbs habs] at hclean
  rcases eq_nil_or_concat (goal [] e.1) with hnil | ⟨dir, name, hplace⟩
  · rw [hnil] at hclean
    exact absurd (hclean.symm.trans (by decide)) hroot
  · exact ⟨dir, name, by rw [← concat_eq_append, ← hplace, hclean]⟩

theorem Regular.node?_of_mem (h : t.Regular) {e : Text × Node} (he : e ∈ t.nodes) :
    t.node? e.1 = some e.2 := by
  have hfound : t.nodes.find? (·.1 == e.1) = some e := by
    rw [find?_eq_some_iff_append]
    obtain ⟨before, after, hnodes⟩ := append_of_mem he
    refine ⟨beq_self_eq_true _, before, after, hnodes, fun other hother => ?_⟩
    have hnodup := h.nodup
    rw [hnodes, map_append, nodup_append] at hnodup
    simpa using hnodup.2.2 _ (mem_map_of_mem hother) e.1 (by simp)
  rw [Tree.node?, if_neg (by simpa using (h.rooted e he).2.2), hfound]
  rfl

/-- A child's name, spelled after its directory, is the path of a node. -/
theorem Regular.node?_of_mem_children (h : t.Regular) {c : Text × Node}
    (hc : c ∈ t.children (spell place)) :
    ∃ name : Name, c.1 = name.text ∧ t.node? (spell (place ++ [name])) = some c.2 := by
  obtain ⟨hnode, -, hslash⟩ := mem_children_iff.mp hc
  obtain ⟨dir, name, hpath⟩ := h.exists_place hnode
  -- Both texts have their last slash before the name.
  have hcut := congrArg (Text.cutLastAt? slash) hpath
  rw [spell_concat, Text.cutLastAt?_append name.isName.slash_notMem, lead, append_assoc,
    singleton_append, Text.cutLastAt?_append hslash] at hcut
  have hname : c.1 = name.text := (Prod.mk.inj (Option.some.inj hcut)).2
  refine ⟨name, hname, ?_⟩
  rw [spell_concat_eq, ← hname]
  exact h.node?_of_mem hnode

theorem Regular.pairwise_children (h : t.Regular) (place : Place) :
    (t.children (spell place)).Pairwise fun a b => a.1 < b.1 := by
  have hle : ∀ a b : Text × Node, (!Text.before b.1 a.1) = true ↔ a.1 ≤ b.1 := by
    intro a b
    rw [Bool.not_eq_true', ← Bool.not_eq_true, Text.before_iff]
    rfl
  rw [children_eq]
  refine Fault.pairwise_mergeSort_of_nodup (fun a b c => ?_) (fun a b => ?_)
    (fun a b hbefore hne => ?_)
    (?_ : (map Prod.fst _).Nodup)
  · simp only [hle]
    exact List.le_trans
  · simp only [Bool.or_eq_true, hle]
    exact List.le_total a.1 b.1
  · exact Std.lt_of_le_of_ne ((hle a b).mp hbefore) hne
  · refine pairwise_map.mpr (Pairwise.filterMap _ ?_ (pairwise_map.mp h.nodup))
    grind [child?_eq_some_iff]

theorem WellFormed.directory_above (h : t.WellFormed) {names : Place} (hnames : names ≠ [])
    (hnode : (t.node? (spell (place ++ names))).isSome) :
      t.node? (spell place) = some .directory := by
  induction names using reverseRecOn with
  | nil => exact absurd rfl hnames
  | append_singleton names name ih =>
    rw [← append_assoc] at hnode
    have hdirectory := h.parents _ _ hnode
    grind

/-- A place is no deeper than there are nodes: each directory on the way to it is one. -/
theorem WellFormed.length_le (h : t.WellFormed) (hnode : (t.node? (spell place)).isSome) :
    place.length ≤ t.nodes.length := by
  have hnodup : (way (spell place)).Nodup := by
    rw [way_spell]
    refine nodup_range.map_on fun i hi j hj hequal => ?_
    have hlength := congrArg length (spell_injective hequal)
    simp only [mem_range, length_take] at hi hj hlength
    omega
  have hsubset : way (spell place) ⊆ t.nodes.map (·.1) := by
    intro q hq
    obtain ⟨dir, rfl, ⟨below, rfl⟩, hne⟩ := exists_of_mem_way hq
    have hsome : (t.node? (spell dir)).isSome := by
      by_cases hend : below = []
      · rwa [hend, append_nil] at hnode
      · rw [h.directory_above hend hnode]
        rfl
    obtain ⟨n, hn⟩ := Option.isSome_iff_exists.mp hsome
    exact mem_map_of_mem (mem_of_node? (spell_ne_root hne) hn)
  have hlength := (subperm_of_subset hnodup hsubset).length_le
  rwa [way_spell, length_map, length_map, length_range] at hlength

end FaultRepair.Files.Tree

namespace FaultRepair.Module

open Files Text.Path List

/-! ## Nested modules -/

variable {files : Tree} {root place : Place}

def modFile : Name := ⟨modFileName, by decide⟩

/-- A directory has a module file, which is no directory itself. -/
def HasModFile (files : Tree) (place : Place) : Prop :=
  ∃ n, files.node? (spell (place ++ [modFile])) = some n ∧ n ≠ .directory

/-- A directory of this name is searched. -/
structure Searched (name : Text) : Prop where
  ne_vendor : name ≠ Text.ofString "vendor"
  ne_testdata : name ≠ Text.ofString "testdata"
  not_dotted : ¬ Text.ofString "." <+: name

theorem searched_iff {name : Text} : Searched name ↔ isHidden name = false := by
  have hdot : Text.ofString "." <+: name ↔ name.head? = some (Text.byte '.') := by
    rw [head?_eq_some_iff]
    exact exists_congr fun rest => eq_comm
  simp only [isHidden, Bool.or_eq_false_iff, beq_eq_false_iff_ne]
  exact ⟨fun h => ⟨⟨h.ne_vendor, h.ne_testdata⟩, fun hhead => h.not_dotted (hdot.mpr hhead)⟩,
    fun h => ⟨h.1.1, h.1.2, fun hdotted => h.2 (hdot.mp hdotted)⟩⟩

theorem joinTwo_name (place : Place) (name : Name) :
    joinTwo (spell place) name.text = spell (place ++ [name]) := by
  rw [joinTwo_spell, Text.splitAt_of_not_mem name.isName.slash_notMem]
  exact congrArg spell (reach_names place [name])

/-- What a child of a directory adds to a search: the directory itself if it is a module file,
and all that is found further down if it is a directory. -/
def childModules (files : Tree) (root : Text) (fuel : Nat) (place dir : Text) (c : Text × Node) :
    List Text :=
  match c.2 with
  | .directory =>
    if isHidden c.1 then [] else searchModules files root fuel (joinTwo place c.1) (joinTwo dir c.1)
  | _ =>
    let holder := Text.Path.dir (joinTwo dir c.1)
    if c.1 == modFileName && holder != root then [holder] else []

theorem searchModules_succ (files : Tree) (root : Text) (fuel : Nat) (place dir : Text) :
    searchModules files root (fuel + 1) place dir =
      (files.children place).flatMap (childModules files root fuel place dir) := rfl

theorem mem_childModules {fuel : Nat} {name : Name} {n : Node} {d : Text} :
    d ∈ childModules files (spell root) fuel (spell place) (spell place) (name.text, n) ↔
      (n ≠ .directory ∧ name = modFile ∧ place ≠ root ∧ d = spell place) ∨
      (n = .directory ∧ Searched name.text ∧
        d ∈ searchModules files (spell root) fuel (spell (place ++ [name]))
          (spell (place ++ [name]))) := by
  have hmod : (name.text == modFileName && spell place != spell root) = true ↔
      name = modFile ∧ place ≠ root := by
    rw [Bool.and_eq_true, beq_iff_eq, bne_iff_ne, spell_injective.ne_iff]
    exact and_congr_left' ⟨fun htext => by cases name; cases htext; rfl, fun h => h ▸ rfl⟩
  grind [childModules, searched_iff, joinTwo_name, dir_spell_concat]

theorem mem_searchModules_succ (hregular : files.Regular) {fuel : Nat} {d : Text} :
    d ∈ searchModules files (spell root) (fuel + 1) (spell place) (spell place) ↔
      (HasModFile files place ∧ place ≠ root ∧ d = spell place) ∨
      ∃ name : Name, files.node? (spell (place ++ [name])) = some .directory ∧ Searched name.text ∧
        d ∈ searchModules files (spell root) fuel (spell (place ++ [name]))
          (spell (place ++ [name])) := by
  rw [searchModules_succ, mem_flatMap]
  constructor
  · rintro ⟨⟨text, n⟩, hc, hd⟩
    obtain ⟨name, rfl, hn⟩ := hregular.node?_of_mem_children hc
    rcases mem_childModules.mp hd with ⟨hother, rfl, hfound⟩ | ⟨rfl, hfound⟩
    · exact .inl ⟨⟨n, hn, hother⟩, hfound⟩
    · exact .inr ⟨name, hn, hfound⟩
  · rintro (⟨⟨n, hn, hother⟩, hfound⟩ | ⟨name, hn, hfound⟩)
    · exact ⟨_, Tree.mem_children hn, mem_childModules.mpr (.inl ⟨hother, rfl, hfound⟩)⟩
    · exact ⟨_, Tree.mem_children hn, mem_childModules.mpr (.inr ⟨rfl, hfound⟩)⟩

/-- A search that may go deep enough finds just the directories with a module file at or below the
one it starts in. -/
theorem mem_searchModules (hfiles : files.WellFormed) (hregular : files.Regular) {fuel : Nat}
    (hfuel : files.nodes.length < fuel + place.length)
    (hplace : files.node? (spell place) = some .directory) {d : Text} :
    d ∈ searchModules files (spell root) fuel (spell place) (spell place) ↔
      ∃ names, HasModFile files (place ++ names) ∧ place ++ names ≠ root ∧
        d = spell (place ++ names) ∧ ∀ name ∈ names, Searched name.text := by
  induction fuel generalizing place with
  | zero =>
    have hdeep := hfiles.length_le (by rw [hplace]; rfl)
    omega
  | succ fuel ih =>
    rw [mem_searchModules_succ hregular]
    constructor
    · rintro (⟨hmod, hother, rfl⟩ | ⟨name, hdir, hname, hd⟩)
      · exact ⟨[], by simpa using ⟨hmod, hother⟩⟩
      · grind
    · rintro ⟨names, hmod, hother, rfl, hnames⟩
      cases names with
      | nil =>
        rw [append_nil] at hmod hother ⊢
        exact .inl ⟨hmod, hother, rfl⟩
      | cons name names =>
        have hdir : files.node? (spell (place ++ [name])) = some .directory := by
          obtain ⟨n, hn, -⟩ := hmod
          rw [append_assoc, cons_append, append_cons] at hn
          exact hfiles.directory_above (append_ne_nil_of_right_ne_nil _ (cons_ne_nil _ _))
            (by rw [hn]; rfl)
        refine .inr ⟨name, hdir, hnames name mem_cons_self,
          (ih (by simp; omega) hdir).mpr ⟨names, ?_⟩⟩
        grind

theorem components_modFile (place : Place) :
    components (joinTwo (spell place) modFileName) = place.map (·.text) ++ [modFileName] := by
  rw [show modFileName = modFile.text from rfl, joinTwo_name, components_spell, map_append]
  rfl

theorem pairwise_searchModules (hfiles : files.WellFormed) (hregular : files.Regular) {fuel : Nat}
    (hfuel : files.nodes.length < fuel + place.length)
    (hplace : files.node? (spell place) = some .directory) :
    (searchModules files (spell root) fuel (spell place) (spell place)).Pairwise fun d e =>
      components (joinTwo d modFileName) < components (joinTwo e modFileName) := by
  induction fuel generalizing place with
  | zero => exact Pairwise.nil
  | succ fuel ih =>
    -- All that comes from one child has the child's name next.
    have hnext : ∀ c ∈ files.children (spell place),
        ∀ d ∈ childModules files (spell root) fuel (spell place) (spell place) c,
        ∃ rest, components (joinTwo d modFileName) = place.map (·.text) ++ c.1 :: rest := by
      rintro ⟨text, n⟩ hc d hd
      obtain ⟨name, rfl, hn⟩ := hregular.node?_of_mem_children hc
      rcases mem_childModules.mp hd with ⟨-, rfl, -, rfl⟩ | ⟨rfl, -, hd⟩
      · exact ⟨[], components_modFile place⟩
      · grind [mem_searchModules, components_modFile]
    rw [searchModules_succ, pairwise_flatMap]
    constructor
    · rintro ⟨text, n⟩ hc
      obtain ⟨name, rfl, hn⟩ := hregular.node?_of_mem_children hc
      grind [childModules, joinTwo_name]
    · refine (hregular.pairwise_children place).imp_of_mem fun {a b} ha hb hbefore d hd e he => ?_
      obtain ⟨rest, hrest⟩ := hnext a ha d hd
      obtain ⟨rest', hrest'⟩ := hnext b hb e he
      rw [hrest, hrest']
      exact append_left_lt (cons_lt_cons_iff.mpr (.inl hbefore))

/-- **The search for nested modules is exact.**  For every tree of files and every directory in it:
a directory is listed exactly if it is below that one, has a module file in it and no hidden name
on the way down to it. Each is listed once, in the order in which a walk by names comes to the
module files. -/
theorem nestedModules_exact {files : Tree} (hfiles : files.WellFormed) (hregular : files.Regular)
    {root : Place} (hroot : files.node? (spell root) = some .directory) :
    (∀ d, d ∈ nestedModules files (spell root) ↔ ∃ names, names ≠ [] ∧ d = spell (root ++ names) ∧
      HasModFile files (root ++ names) ∧ ∀ name ∈ names, Searched name.text) ∧
    (nestedModules files (spell root)).Nodup ∧
    (nestedModules files (spell root)).Pairwise fun d e =>
      components (joinTwo d modFileName) < components (joinTwo e modFileName) := by
  have hsearch : nestedModules files (spell root) =
      searchModules files (spell root) (files.nodes.length + 1) (spell root) (spell root) := by
    simp [nestedModules, hroot]
  have hfuel : files.nodes.length < files.nodes.length + 1 + root.length := by omega
  rw [hsearch]
  have hsorted := @pairwise_searchModules files root root hfiles hregular _ hfuel hroot
  refine ⟨fun d => ?_, hsorted.imp fun {d e} hbefore hequal => ?_, hsorted⟩
  · rw [mem_searchModules hfiles hregular hfuel hroot]
    refine exists_congr fun names => ?_
    rw [ne_eq, append_right_eq_self]
    tauto
  · rw [hequal] at hbefore
    exact List.lt_irrefl _ hbefore

/-- A root with a hidden name, a module in a directory that is none, and a hidden one beside it. -/
def shelf : Tree where
  nodes := [("/vendor", .directory), ("/vendor/go.mod", .file []), ("/vendor/h", .directory),
    ("/vendor/h/go.mod", .file []), ("/vendor/a", .directory), ("/vendor/a/.b", .directory),
    ("/vendor/a/.b/go.mod", .file []), ("/vendor/a/c", .directory),
      ("/vendor/a/c/go.mod", .file [])]

def shelfRoot : Place := [⟨"vendor", by decide⟩]

theorem shelf_search_exact :
    shelf.WellFormed ∧ shelf.Regular ∧ shelf.node? (spell shelfRoot) = some .directory ∧
      ∀ d, d ∈ nestedModules shelf (spell shelfRoot) ↔ ∃ names, names ≠ [] ∧
        d = spell (shelfRoot ++ names) ∧ HasModFile shelf (shelfRoot ++ names) ∧
        ∀ name ∈ names, Searched name.text := by
  have hwritten : [(Text.ofString "vendor/go.mod", []), (Text.ofString "vendor/h/go.mod", []),
      (Text.ofString "vendor/a/.b/go.mod", []), (Text.ofString "vendor/a/c/go.mod", [])].foldlM
      (fun (t : Tree) e => t.write? e.1 e.2) { workDir := spell [] } = some shelf := rfl
  have hshelf : shelf.WellFormed := Tree.wellFormed_of_writes hwritten
  have hregular : shelf.Regular := ⟨by decide, by decide⟩
  exact ⟨hshelf, hregular, rfl, (nestedModules_exact hshelf hregular rfl).1⟩

example : nestedModules shelf "/vendor" =
    [Text.ofString "/vendor/a/c", Text.ofString "/vendor/h"] := by
  cbv

/-! ## Members -/

/-- Two modules that one workspace does not take together: they have one directory or one path. -/
def Clashes (o m : Member) : Prop := o.dir = m.dir ∨ m.path ≠ [] ∧ o.path = m.path

theorem addMember_cases (ms : List Member) (m : Member) :
    ((∃ o ∈ ms, Clashes o m) ∧ addMember ms m = ms) ∨
      ((∀ o ∈ ms, ¬ Clashes o m) ∧ addMember ms m = ms ++ [m]) := by grind [Clashes, addMember]

/-- What is taken of some modules that are considered in turn. -/
structure Takes (considered ms : List Member) : Prop where
  sublist : ms <+ considered
  apart : ms.Pairwise fun o m => ¬ Clashes o m
  /-- A module that is not taken clashes with one that was taken before it. -/
  complete : ∀ before m after, considered = before ++ m :: after →
    m ∈ ms ∨ ∃ o ∈ before, o ∈ ms ∧ Clashes o m

theorem Takes.add {considered ms : List Member} (h : Takes considered ms) (m : Member) :
    Takes (considered ++ [m]) (addMember ms m) := by
  have hsplit : ∀ before m' after, considered ++ [m] = before ++ m' :: after →
      (before = considered ∧ m' = m) ∨ ∃ rest, considered = before ++ m' :: rest := by
    intro before m' after hequal
    rcases eq_nil_or_concat after with rfl | ⟨rest, last, rfl⟩
    · simp_all
    · grind [append_inj']
  rcases addMember_cases ms m with ⟨⟨o, ho, hclash⟩, hsame⟩ | ⟨hnone, hgrown⟩
  · rw [hsame]
    refine ⟨h.sublist.trans (sublist_append_left _ _), h.apart, fun before m' after hequal => ?_⟩
    rcases hsplit before m' after hequal with ⟨rfl, rfl⟩ | ⟨rest, hrest⟩
    · exact .inr ⟨o, h.sublist.subset ho, ho, hclash⟩
    · exact h.complete before m' rest hrest
  · rw [hgrown]
    refine ⟨h.sublist.append (Sublist.refl _), ?_, fun before m' after hequal => ?_⟩
    · refine pairwise_append.mpr ⟨h.apart, pairwise_singleton _ _, fun o ho m' hm' => ?_⟩
      rw [mem_singleton.mp hm']
      exact hnone o ho
    · rcases hsplit before m' after hequal with ⟨rfl, rfl⟩ | ⟨rest, hrest⟩
      · exact .inl (mem_append_right _ (mem_singleton_self _))
      · rcases h.complete before m' rest hrest with hm' | ⟨o, hbefore, ho, hclash⟩
        · exact .inl (mem_append_left _ hm')
        · exact .inr ⟨o, hbefore, mem_append_left _ ho, hclash⟩

theorem Takes.foldl (considered : List Member) :
    Takes considered (considered.foldl addMember []) := by
  induction considered using reverseRecOn with
  | nil => exact ⟨Sublist.refl _, Pairwise.nil, by simp⟩
  | append_singleton considered m ih =>
    rw [foldl_append]
    exact ih.add m

/-- Members that were taken stay in front. -/
theorem exists_foldl_addMember (ms considered : List Member) :
    ∃ more, more <+ considered ∧ considered.foldl addMember ms = ms ++ more := by
  induction considered generalizing ms with
  | nil => exact ⟨[], Sublist.refl _, by simp⟩
  | cons m rest ih =>
    obtain ⟨more, hmore, hequal⟩ := ih (addMember ms m)
    grind [addMember_cases]

theorem head?_foldl_addMember {ms : List Member} (hms : ms ≠ []) (considered : List Member) :
    (considered.foldl addMember ms).head? = ms.head? := by
  obtain ⟨more, -, hequal⟩ := exists_foldl_addMember ms considered
  rw [hequal, head?_append_of_ne_nil _ hms]

/-- The modules of a set, under the paths that are given for them or else declared. -/
def ownModules (files : Tree) (s : ModuleSet) : List Member :=
  s.modules.map fun m => ⟨m.dir, if m.path = [] then declaredPath files m.dir else m.path⟩

/-- The modules below those of a set, under the paths they declare. -/
def modulesBelow (files : Tree) (s : ModuleSet) : List Member :=
  s.modules.flatMap fun m => (nestedModules files m.dir).map fun d => ⟨d, declaredPath files d⟩

theorem members_eq (files : Tree) (s : ModuleSet) :
    members files s = (ownModules files s ++ modulesBelow files s).foldl addMember [] := by
  simp [members, ownModules, modulesBelow, map_flatMap]

structure Workspace (files : Tree) (s : ModuleSet) (ms : List Member) : Prop where
  dirs_nodup : (ms.map (·.dir)).Nodup
  paths_nodup : ((ms.map (·.path)).filter (· ≠ [])).Nodup
  primary_first : (ms.map (·.dir)).head? = some s.primary.dir
  /-- Members of the set come first, and the order of consideration is kept. -/
  own_first : ∃ own below, ms = own ++ below ∧ own <+ ownModules files s ∧
    below <+ modulesBelow files s
  /-- Who is not a member has the directory or the path of a member that comes before. -/
  complete : ∀ before m after, ownModules files s ++ modulesBelow files s = before ++ m :: after →
    m ∈ ms ∨ ∃ o ∈ before, o ∈ ms ∧ (o.dir = m.dir ∨ m.path ≠ [] ∧ o.path = m.path)

/-- **Members of a workspace are unique and complete.** -/
theorem workspaceMembers_unique_complete (files : Tree) (s : ModuleSet) :
    ∃ ms, workspaceMembers files s = ms.map (·.dir) ∧ Workspace files s ms := by
  have htakes := Takes.foldl (ownModules files s ++ modulesBelow files s)
  rw [← members_eq] at htakes
  refine ⟨members files s, rfl, ?_, ?_, ?_, ?_, htakes.complete⟩
  · exact pairwise_map.mpr (htakes.apart.imp fun hapart hdir => hapart (.inl hdir))
  · rw [Nodup, pairwise_filter, pairwise_map]
    refine htakes.apart.imp fun hapart _ hm hpath => ?_
    exact hapart (.inr ⟨by simpa using hm, hpath⟩)
  · rw [members_eq, ownModules, ModuleSet.modules, map_cons, cons_append, foldl_cons, head?_map,
      head?_foldl_addMember (by simp [addMember])]
    rfl
  · obtain ⟨own, hown, hfirst⟩ := exists_foldl_addMember [] (ownModules files s)
    obtain ⟨below, hbelow, hsecond⟩ := exists_foldl_addMember own (modulesBelow files s)
    refine ⟨own, below, ?_, hown, hbelow⟩
    rw [members_eq, foldl_append, hfirst, nil_append, hsecond]

end FaultRepair.Module
