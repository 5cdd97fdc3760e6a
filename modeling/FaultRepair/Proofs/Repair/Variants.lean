/-
# What variants are

The variants of a file are what its patterns yield, in the order of the patterns: one for each
pattern that changes the file on the line. A file that does not parse has none, and one pattern
whose result cannot be printed spoils the others.
-/

import FaultRepair.Repair.Variant
import Mathlib.Data.List.Pairwise

namespace FaultRepair.Repair

namespace Pattern

/-- A pattern turns a file into a text: the file parses, the pattern changes it on the line, and
the text is the standard form of the result. -/
structure Yields (p : Pattern) (file src : Text) (line : Int) (text : Text) : Prop where
  parsed : (Source.parse file src).issues = []
  printed : ∃ f, p.edit? (Source.parse file src).file (Source.parse file src).table line = some f ∧
    f.format? (Source.parse file src).table = some text

/-- A pattern changes a file that was parsed into something that has no standard form. -/
def Garbles (p : Pattern) (parsed : Source.Parsed) (line : Int) : Prop :=
  ∃ f, p.edit? parsed.file parsed.table line = some f ∧ f.format? parsed.table = none

def variant? (p : Pattern) (parsed : Source.Parsed) (line : Int) : Option Variant :=
  (p.edit? parsed.file parsed.table line).bind fun f =>
    (f.format? parsed.table).map fun text => ⟨p.name, text⟩

theorem pattern_of_variant? {p : Pattern} {parsed : Source.Parsed} {line : Int} {v : Variant}
    (h : p.variant? parsed line = some v) : v.pattern = p.name := by
  obtain ⟨f, -, h⟩ := Option.bind_eq_some_iff.mp h
  obtain ⟨text, -, rfl⟩ := Option.map_eq_some_iff.mp h
  rfl

theorem variant?_eq_some {p : Pattern} {file src : Text} {line : Int} {v : Variant}
    (hparsed : (Source.parse file src).issues = []) :
    p.variant? (Source.parse file src) line = some v ↔
      v.pattern = p.name ∧ p.Yields file src line v.source := by
  constructor
  · intro h
    obtain ⟨f, hedit, h⟩ := Option.bind_eq_some_iff.mp h
    obtain ⟨text, hformat, rfl⟩ := Option.map_eq_some_iff.mp h
    exact ⟨rfl, hparsed, f, hedit, hformat⟩
  · rintro ⟨hname, -, f, hedit, hformat⟩
    rw [variant?, hedit, Option.bind_some, hformat, Option.map_some, ← hname]

/-- The names of all patterns, in the order in which they are tried. -/
def catalogNames : List Text := catalog.map (·.name)

/-- One name comes before another in the catalogue. -/
def Earlier (a b : Text) : Prop := catalogNames.idxOf a < catalogNames.idxOf b

theorem slash_notMem_name {p : Pattern} (hp : p ∈ catalog) : Text.Path.slash ∉ p.name := by
  have hall : ∀ name ∈ catalogNames, Text.Path.slash ∉ name := by decide
  exact hall p.name (List.mem_map_of_mem hp)

theorem select_sublist (names : List Text) : (select names).Sublist catalog := by
  rw [select]
  split
  · exact List.Sublist.refl catalog
  · exact List.filter_sublist

theorem pairwise_earlier_select (names : List Text) :
    ((select names).map (·.name)).Pairwise Earlier := by
  have hcatalog : catalogNames.Pairwise fun a b => catalogNames.idxOf a < catalogNames.idxOf b := by
    decide
  exact hcatalog.sublist ((select_sublist names).map _)

end Pattern

section

variable (file : Text) (parsed : Source.Parsed) (line : Int)

/-- One more pattern adds its variant, if it has one, or spoils all. -/
theorem addVariant_cases (done : List Variant) (p : Pattern) :
    addVariant file parsed line done p = .ok (done ++ (p.variant? parsed line).toList) ∨
      p.Garbles parsed line ∧ addVariant file parsed line done p =
        .error (.format file p.name) := by
  rw [addVariant, Pattern.variant?]
  cases hedit : p.edit? parsed.file parsed.table line with
  | none => exact .inl (by simp)
  | some f =>
    cases hformat : f.format? parsed.table with
    | none => exact .inr ⟨⟨f, hedit, hformat⟩, by simp [hformat]⟩
    | some text => exact .inl (by simp [hformat])

theorem foldlM_addVariant (patterns : List Pattern) (done : List Variant) :
    patterns.foldlM (addVariant file parsed line) done =
        .ok (done ++ patterns.filterMap (·.variant? parsed line)) ∨
      ∃ p ∈ patterns, p.Garbles parsed line ∧
        patterns.foldlM (addVariant file parsed line) done = .error (.format file p.name) := by
  induction patterns generalizing done with
  | nil => exact .inl (by rw [List.filterMap_nil, List.append_nil]; rfl)
  | cons p rest ih =>
    rw [List.foldlM_cons]
    rcases addVariant_cases file parsed line done p with hadd | ⟨hgarbles, herror⟩
    · have hfirst : (p :: rest).filterMap (·.variant? parsed line) =
          (p.variant? parsed line).toList ++ rest.filterMap (·.variant? parsed line) := by
        cases hvariant : p.variant? parsed line <;> simp [hvariant]
      rw [hadd, hfirst, ← List.append_assoc]
      rcases ih (done ++ (p.variant? parsed line).toList) with hok | ⟨q, hq, hrest⟩
      · exact .inl hok
      · exact .inr ⟨q, List.mem_cons_of_mem _ hq, hrest⟩
    · rw [herror]
      exact .inr ⟨p, List.mem_cons_self, hgarbles, rfl⟩

end

/-- Variants are refused where the file does not parse or the result of a pattern has no standard
form; else they are those of the patterns. -/
theorem variants_cases (file src : Text) (line : Int) {patterns : List Pattern}
    (hpatterns : patterns ≠ []) :
    ((Source.parse file src).issues ≠ [] ∧ variants file src line patterns =
        .error (.parse file (Source.describeIssues (Source.parse file src).issues))) ∨
      ((Source.parse file src).issues = [] ∧ variants file src line patterns =
        .ok (patterns.filterMap (·.variant? (Source.parse file src) line))) ∨
      ((Source.parse file src).issues = [] ∧
        ∃ p ∈ patterns, p.Garbles (Source.parse file src) line ∧
        variants file src line patterns = .error (.format file p.name)) := by
  grind [variants, foldlM_addVariant]

end FaultRepair.Repair
