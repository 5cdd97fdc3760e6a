/-
# The output directory

Where variants and the manifest are stored. Names below the output directory lead down from its
place, whatever form its address has; an address that cannot be followed leads nowhere, and neither
does anything below it. A rank and a pattern make the name of a directory of their own.
-/

import FaultRepair.Repair.Patch
import FaultRepair.Proofs.Files.Tree
import FaultRepair.Proofs.Text.Digits
import Mathlib.Data.List.TakeWhile

namespace FaultRepair.Repair

open Files Text Text.Path Option List

variable {output pattern : Text}

def outputPlace? (t : Tree) (output : Text) : Option Place := t.placeOf? (below output ".")

/-! ## Names below an address -/

theorem cut?_clean (p : Text) : cut? (Text.ofString "://") (clean p) = none := by
  rw [← not_isSome_iff_eq_none]
  intro hcut
  have hinfix := contains_iff.mp (hcut : contains (clean p) (Text.ofString "://") = true)
  have hslashes : [slash, slash] <:+: Text.ofString "://" := ⟨[58], [], by decide⟩
  exact not_infix_clean p (hslashes.trans hinfix)

/-- A place below what an address starts with. -/
theorem goal_append_spell (home place : Place) {front : Text} (hfront : front ≠ []) :
    goal home (front ++ spell place) = goal home front ++ place := by
  rw [goal, isAbs_append hfront, spell, splitAt_append_sep, reach_append, goal]
  by_cases hplace : place = []
  · rw [hplace, append_nil]
    exact (reach_nil_cons _ []).trans (reach_nil _)
  · rw [splitAt_join (by simpa using hplace) fun c hc => ?_, reach_names]
    obtain ⟨name, -, rfl⟩ := mem_map.mp hc
    exact name.isName.slash_notMem

theorem below_of_cut? {scheme rest : Text}
    (hcut : cut? (Text.ofString "://") output = some (scheme, rest)) :
    ∃ host top, slash ∉ host ∧ isAbs top = true ∧
      ∀ tail, below output tail = scheme ++ Text.ofString "://" ++ (host ++ joinTwo top tail) := by
  refine ⟨rest.takeWhile (· != slash),
    if (rest.dropWhile (· != slash)).isEmpty then Text.ofString "/"
    else rest.dropWhile (· != slash), ?_, ?_, fun tail => ?_⟩
  · grind [mem_takeWhile_imp]
  · split
    · rfl
    · grind [List.isEmpty_iff, head_dropWhile_not, isAbs, head?_eq_some_head]
  · rw [below, hcut, ← append_assoc]

theorem pathOf?_below_of_cut? {scheme rest host top : Text}
    (hcut : cut? (Text.ofString "://") output = some (scheme, rest)) (hhost : slash ∉ host)
    (htop : isAbs top = true) {tail : Text}
    (hbelow : below output tail = scheme ++ Text.ofString "://" ++ (host ++ joinTwo top tail)) :
    pathOf? (below output tail) =
      if lower scheme == Text.ofString "file" then some (joinTwo top tail)
      else if scheme.any (· == slash) then some (below output tail) else none := by
  have hskip : (host ++ joinTwo top tail).dropWhile (· != slash) = joinTwo top tail := by
    rw [dropWhile_append_of_pos, joinTwo_of_isAbs htop]
    · rfl
    · intro b hb
      simpa using fun hequal : b = slash => hhost (hequal ▸ hb)
  have hscheme : cut? (Text.ofString "://") (below output tail) =
      some (scheme, host ++ joinTwo top tail) := by
    rw [hbelow, cut?_append (by decide) hcut]
  rw [pathOf?, hscheme]
  simp only [hskip]

/-- What stands below an address is reached from one place, as long as only names follow. -/
theorem placeOf?_below_eq (t : Tree) (houtput : output ≠ []) :
    ∃ dir? : Option Place, ∀ (tail : Text) (names : Place),
      (∀ start : Place, reach start (splitAt slash tail) = start ++ names) →
        t.placeOf? (below output tail) = dir?.map (· ++ names) := by
  cases hcut : cut? (Text.ofString "://") output with
  | none =>
    refine ⟨some (goal t.home output), fun tail names htail => ?_⟩
    grind [pathOf?, below, joinTwo_eq, cut?_clean, Tree.placeOf?, Tree.placeOf, goal_joinTwo]
  | some cut =>
    obtain ⟨host, top, hhost, htop, hbelow⟩ := below_of_cut? hcut
    have hpath := fun tail => pathOf?_below_of_cut? hcut hhost htop (hbelow tail)
    by_cases hfile : (lower cut.1 == Text.ofString "file") = true
    · refine ⟨some (goal [] top), fun tail names htail => ?_⟩
      rw [Tree.placeOf?, hpath, if_pos hfile, map_some, Tree.placeOf, joinTwo_of_isAbs htop,
        goal_spell, htail, map_some]
    by_cases hslash : cut.1.any (· == slash) = true
    · refine ⟨some (goal t.home (cut.1 ++ Text.ofString "://" ++ host) ++ goal [] top),
        fun tail names htail => ?_⟩
      have hfront : cut.1 ++ Text.ofString "://" ++ host ≠ [] := by
        intro hnil
        rw [(append_eq_nil_iff.mp (append_eq_nil_iff.mp hnil).1).1] at hslash
        cases hslash
      grind [Tree.placeOf?, Tree.placeOf, joinTwo_of_isAbs, goal_append_spell]
    · refine ⟨none, fun tail names _ => ?_⟩
      rw [Tree.placeOf?, hpath, if_neg hfile, if_neg hslash, map_none, map_none]

/-- Names lead down from the output directory. -/
theorem placeOf?_below (t : Tree) (houtput : output ≠ []) {names : Place} (hnames : names ≠ []) :
    t.placeOf? (below output (join [slash] (names.map (·.text)))) =
      (outputPlace? t output).map (· ++ names) := by
  obtain ⟨dir?, hdir⟩ := placeOf?_below_eq t houtput
  have hself : outputPlace? t output = dir? := by
    rw [outputPlace?, hdir _ [] fun start => ?_]
    · simp
    · rw [splitAt_of_not_mem (by decide)]
      simp [reach]
  rw [hself, hdir _ names fun start => ?_]
  rw [splitAt_join (by simpa using hnames) fun c hc => ?_, reach_names]
  obtain ⟨name, -, rfl⟩ := mem_map.mp hc
  exact name.isName.slash_notMem

/-! ## Variants and the manifest -/

def variantDirectory (rank : Nat) (pattern : Text) : Text :=
  padLeft 48 3 (Text.ofNat rank) ++ Text.ofString "_" ++ pattern

theorem isName_variantDirectory (rank : Nat) (hpattern : slash ∉ pattern) :
    IsName (variantDirectory rank pattern) := by
  have hmark : (95 : UInt8) ∈ variantDirectory rank pattern := by
    rw [variantDirectory, mem_append, mem_append]
    exact .inl (.inr (by decide))
  refine ⟨ne_nil_of_mem hmark, ?_, ?_, ?_⟩
  · intro hdot
    rw [hdot] at hmark
    exact absurd hmark (by decide)
  · intro hdotdot
    rw [hdotdot] at hmark
    exact absurd hmark (by decide)
  · rw [variantDirectory, mem_append, mem_append, not_or, not_or]
    refine ⟨⟨fun hdigit => ?_, by decide⟩, hpattern⟩
    exact absurd (isDigit_of_mem_padLeft hdigit) (by decide)

/-- The name of a directory tells the rank and the pattern. -/
theorem variantDirectory_injective {rank rank' : Nat} {pattern' : Text}
    (h : variantDirectory rank pattern = variantDirectory rank' pattern') :
    rank = rank' ∧ pattern = pattern' := by
  have hmark : ∀ n, (95 : UInt8) ∉ padLeft 48 3 (Text.ofNat n) := fun n hdigit =>
    absurd (isDigit_of_mem_padLeft hdigit) (by decide)
  have hcut : ∀ n p, cutAt? 95 (variantDirectory n p) = some (padLeft 48 3 (Text.ofNat n), p) := by
    intro n p
    rw [variantDirectory, append_assoc]
    exact cutAt?_append (hmark n) p
  grind [toNat?_padLeft]

def variantNames (rank : Nat) {pattern file : Text} (hpattern : slash ∉ pattern)
    (hfile : IsName (base file)) : Place :=
  [⟨variantDirectory rank pattern, isName_variantDirectory rank hpattern⟩, ⟨base file, hfile⟩]

theorem placeOf?_variantPath (t : Tree) (houtput : output ≠ []) (rank : Nat) {file : Text}
    (hpattern : slash ∉ pattern) (hfile : IsName (base file)) :
    t.placeOf? (variantPath output rank pattern file) =
      (outputPlace? t output).map (· ++ variantNames rank hpattern hfile) := by
  have hpath : variantPath output rank pattern file =
      below output (join [slash] ((variantNames rank hpattern hfile).map (·.text))) := rfl
  grind [variantNames, placeOf?_below]

def manifestName : Name := ⟨"patches.yaml", by decide⟩

theorem placeOf?_manifestPath (t : Tree) (houtput : output ≠ []) :
    t.placeOf? (manifestPath output) = (outputPlace? t output).map (· ++ [manifestName]) :=
  placeOf?_below t houtput (cons_ne_nil manifestName [])

end FaultRepair.Repair
