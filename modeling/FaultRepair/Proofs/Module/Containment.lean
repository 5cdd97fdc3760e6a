/-
# Which files lie in a module

A module's directory and a file's path are both rooted, so each leads to a place, and the file
lies in the directory if the way to the directory is the beginning of the way to the file. The
test looks at the text of the path from the one to the other instead, and takes two dots at
its front for a step up. They are one where the way leads out of the directory; but they can
also begin the name of what stands right below it, and such a file is taken to be outside.
-/

import FaultRepair.Module.Set
import FaultRepair.Proofs.Text.Places

namespace FaultRepair.Text.Path

open List

/-! ## The path between two places -/

theorem dropCommon_append (common rest : List Text) :
    dropCommon common (common ++ rest) = ([], rest) := by
  induction common with
  | nil => cases rest <;> rfl
  | cons c common ih => rw [cons_append, dropCommon, if_pos (beq_self_eq_true c), ih]

/-- Nothing is left of a way only if it is the beginning of the other one. -/
theorem prefix_of_dropCommon {as bs : List Text} (h : (dropCommon as bs).1 = []) : as <+: bs := by
  fun_induction dropCommon as bs with
  | case1 a as b bs hsame ih =>
    rw [eq_of_beq hsame, cons_prefix_cons]
    exact ⟨rfl, ih h⟩
  | case2 a as b bs hdiffer => cases h
  | case3 as bs hshort =>
    rw [show as = [] from h]
    exact nil_prefix

variable {start target : Text}

/-- Up as far as the places differ, then down. -/
theorem relative?_of_isAbs (hstart : isAbs start = true) (htarget : isAbs target = true)
    (hne : components start ≠ components target) :
    let apart := dropCommon (components start) (components target)
    relative? start target = if apart.1.head? == some dotdot then none
      else some (join [slash] (apart.1.map (fun _ => dotdot) ++ apart.2)) := by
  have hparts : ∀ {p : Text}, isAbs p = true → (if (clean p).isEmpty || clean p == [slash] then []
      else splitAt slash ((clean p).drop 1)) = components p := by
    intro p hp
    rw [clean, if_pos hp]
    by_cases hroot : components p = []
    · rw [hroot]
      rfl
    · rw [if_neg, drop_one, tail_cons, splitAt_join_components hroot]
      simpa using fun hbody => hroot (join_components_eq_nil hbody)
  have hclean : (clean start == clean target) = false := by
    rw [beq_eq_false_iff_ne]
    intro hequal
    have hsame := hparts hstart
    rw [hequal, hparts htarget] at hsame
    exact hne hsame.symm
  have hdot : (clean start == Text.ofString ".") = false := by
    rw [clean, if_pos hstart, beq_eq_false_iff_ne]
    rintro ⟨⟩
  grind [relative?, isAbs_clean]

/-- A path starts with two dots just if its first component does. -/
theorem startsWith_join_cons_iff {first : Text} (rest : List Text) :
    startsWith (join [slash] (first :: rest)) ".." = true ↔ dotdot <+: first := by
  have hdots : Text.ofString ".." = [46, 46] := by decide
  have hslash : slash = 47 := by decide
  rw [startsWith, dotdot, isPrefixOf_iff_prefix, hdots, hslash]
  cases rest with
  | nil => rfl
  | cons next rest =>
    rw [join_cons_cons]
    -- The separator stands where a dot would have to.
    rcases first with _ | ⟨b, _ | ⟨c, first⟩⟩ <;> simp [cons_prefix_cons]

end FaultRepair.Text.Path

namespace FaultRepair.Module

open Text.Path List

/-- What stands right below a directory, on the way down to a path, has a name that begins with
two dots. -/
def Dotted (dir path : Text) : Prop :=
  ∃ name rest, components path = components dir ++ name :: rest ∧ dotdot <+: name

theorem containsFile_iff_not_dotted {m : Module} {path : Text} (hdir : isAbs m.dir = true)
    (hpath : isAbs path = true) :
    m.containsFile path = true ↔ components m.dir <+: components path ∧ ¬ Dotted m.dir path := by
  rw [Module.containsFile]
  by_cases hsame : components m.dir = components path
  · have hhere : relative? m.dir path = some "." := by
      rw [relative?, clean, clean, if_pos hdir, if_pos hpath, hsame]
      simp
    have hplain : ¬ Dotted m.dir path := by simp [Dotted, hsame]
    simp only [hhere, hsame, hplain, prefix_rfl, not_false_eq_true, and_self, iff_true]
    decide
  rw [relative?_of_isAbs hdir hpath hsame]
  by_cases hbelow : components m.dir <+: components path
  · obtain ⟨below, hbelow⟩ := hbelow
    obtain ⟨name, rest, rfl⟩ : ∃ name rest, below = name :: rest :=
      exists_cons_of_ne_nil fun hnil => hsame (by rw [← hbelow, hnil, append_nil])
    have hdotted : Dotted m.dir path ↔ dotdot <+: name := by simp [Dotted, ← hbelow]
    rw [hdotted, ← hbelow, dropCommon_append, ← startsWith_join_cons_iff rest]
    simp
  · -- Something is left of the way to the directory, so the path leads up first.
    obtain ⟨first, up, hup⟩ :=
      exists_cons_of_ne_nil fun hnone => hbelow (prefix_of_dropCommon hnone)
    grind [startsWith_join_cons_iff]

/-- **Containment goes by components, but for leading dots.**  For all modules with rooted
directories and every rooted path: the modules contain the file exactly if the components of some
directory begin those of the path, and the name right below the directory does not begin with
two dots. So the answer is that of the components alone, unless a directory is above the path
and a dotted name stands below each one that is. -/
theorem containsFile_by_components {ms : ModuleSet} (hdirs : ∀ m ∈ ms.modules, isAbs m.dir = true)
    {path : Text} (hpath : isAbs path = true) :
    (ms.containsFile path = true ↔
      ∃ m ∈ ms.modules, components m.dir <+: components path ∧ ¬ Dotted m.dir path) ∧
    ((ms.containsFile path = true ↔ ∃ m ∈ ms.modules, components m.dir <+: components path) ↔
      ¬ ((∃ m ∈ ms.modules, components m.dir <+: components path) ∧
        ∀ m ∈ ms.modules, components m.dir <+: components path → Dotted m.dir path)) := by
  have hcontains : ms.containsFile path = true ↔
      ∃ m ∈ ms.modules, components m.dir <+: components path ∧ ¬ Dotted m.dir path := by
    rw [ModuleSet.containsFile, any_eq_true]
    exact exists_congr fun m => and_congr_right fun hm =>
      containsFile_iff_not_dotted (hdirs m hm) hpath
  refine ⟨hcontains, ?_⟩
  rw [hcontains]
  constructor
  · rintro hsame ⟨habove, hdotted⟩
    obtain ⟨m, hm, hbelow, hplain⟩ := hsame.mpr habove
    exact hplain (hdotted m hm hbelow)
  · intro hplain
    refine ⟨fun ⟨m, hm, hbelow, _⟩ => ⟨m, hm, hbelow⟩, fun habove => ?_⟩
    by_contra hnone
    refine hplain ⟨habove, fun m hm hbelow => ?_⟩
    by_contra hdotted
    exact hnone ⟨m, hm, hbelow, hdotted⟩

/-- A module in a directory with a dotted name contains its files, whatever module is around it. -/
theorem dotted_module_contains :
    let ms : ModuleSet := ⟨⟨"m", "/m/.", ""⟩, [⟨"n", "/m/..a", ""⟩]⟩
    (∀ m ∈ ms.modules, isAbs m.dir = true) ∧ isAbs "/m//..a/b.go" = true ∧
      (ms.containsFile "/m//..a/b.go" = true ↔
        ∃ m ∈ ms.modules, components m.dir <+: components "/m//..a/b.go") := by
  intro ms
  have hdirs : ∀ m ∈ ms.modules, isAbs m.dir = true := by decide
  refine ⟨hdirs, rfl, (containsFile_by_components hdirs rfl).2.mpr ?_⟩
  rintro ⟨-, hdotted⟩
  obtain ⟨name, rest, hbelow, hdots⟩ := hdotted ⟨"n", "/m/..a", ""⟩ (by decide) (by decide)
  have hfile : components "/m//..a/b.go" = components "/m/..a" ++ [Text.ofString "b.go"] := by
    decide
  cases append_cancel_left (hfile.symm.trans hbelow)
  exact absurd hdots (by decide)

/-- Without that module they are taken to be outside, though the directory around is above them. -/
theorem dotted_name_left_out :
    let ms : ModuleSet := ⟨⟨"m", "/m", ""⟩, []⟩
    components "/m" <+: components "/m/..a/b.go" ∧ ms.containsFile "/m/..a/b.go" = false ∧
      ms.containsFile "/m/a/b.go" = true := by
  decide

end FaultRepair.Module
