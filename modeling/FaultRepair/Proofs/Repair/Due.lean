/-
# What is due

The variants that a patch run has to store are known from the files before it: those of every
candidate, in the order of the ranks and then of the catalogue. So are the candidates that it has
to skip. Each variant has a place of its own below the output directory.
-/

import FaultRepair.Proofs.Repair.Output
import FaultRepair.Proofs.Repair.Variants

namespace FaultRepair.Repair

open Fault Files Text.Path List

/-- A patch and the text that is stored for it. -/
structure Entry where
  patch : Patch
  text : Text

/-- What is reported and stored for a variant of a candidate. -/
def Entry.of (output : Text) (rank : Nat) (c : Candidate) (v : Variant) : Entry :=
  ⟨⟨rank, v.pattern, c.file, variantPath output rank v.pattern c.file, c⟩, v.source⟩

section Due

variable (files : Tree) (output : Text) (patterns : List Pattern)

def dueVariants (c : Candidate) : List Variant :=
  match files.textAt? c.file with
  | none => []
  | some src =>
    if (Source.parse c.file src).issues.isEmpty then
      patterns.filterMap (·.variant? (Source.parse c.file src) c.line)
    else []

def due (ranked : List (Candidate × Nat)) : List Entry :=
  ranked.flatMap fun e => (dueVariants files patterns e.1).map (.of output e.2 e.1)

/-- What is reported of a candidate that does not parse. -/
def skip? (c : Candidate) (rank : Nat) : Option Skipped :=
  (files.textAt? c.file).bind fun src =>
    let issues := (Source.parse c.file src).issues
    if issues.isEmpty then none
    else some ⟨rank, c.file, "parse " ++ c.file ++ ": " ++ Source.describeIssues issues⟩

def skips (ranked : List (Candidate × Nat)) : List Skipped :=
  ranked.filterMap fun e => skip? files e.1 e.2

end Due

section

variable {files : Tree} {output : Text} {patterns : List Pattern}

variable {c : Candidate} {src : Text}

theorem dueVariants_of_parsed {c : Candidate} {src : Text} (hsrc : files.textAt? c.file = some src)
    (hparsed : (Source.parse c.file src).issues = []) :
    dueVariants files patterns c =
      patterns.filterMap (·.variant? (Source.parse c.file src) c.line) := by
  simp only [dueVariants, hsrc, hparsed, isEmpty_nil, if_true]

theorem dueVariants_of_issues (hsrc : files.textAt? c.file = some src)
    (hissues : (Source.parse c.file src).issues ≠ []) : dueVariants files patterns c = [] := by
  simp only [dueVariants, hsrc, List.isEmpty_iff, hissues, if_false]

theorem skip?_of_parsed (hsrc : files.textAt? c.file = some src)
    (hparsed : (Source.parse c.file src).issues = []) (rank : Nat) : skip? files c rank = none := by
  simp only [skip?, hsrc, Option.bind_some, hparsed, isEmpty_nil, if_true]

theorem skip?_of_issues {c : Candidate} {src : Text} (hsrc : files.textAt? c.file = some src)
    (hissues : (Source.parse c.file src).issues ≠ []) (rank : Nat) :
    skip? files c rank =
      some ⟨rank, c.file, Text.ofString "parse " ++ c.file ++ Text.ofString ": " ++
      Source.describeIssues (Source.parse c.file src).issues⟩ := by
  simp only [skip?, hsrc, Option.bind_some, List.isEmpty_iff, hissues, if_false]

theorem mem_dueVariants {v : Variant} (hv : v ∈ dueVariants files patterns c) :
    ∃ src p, files.textAt? c.file = some src ∧ p ∈ patterns ∧ v.pattern = p.name ∧
      p.Yields c.file src c.line v.source := by grind [dueVariants, Pattern.variant?_eq_some]

/-- Every pattern that yields something has its variant. -/
theorem mem_dueVariants_of_yields {text : Text} {p : Pattern}
    (hsrc : files.textAt? c.file = some src) (hp : p ∈ patterns)
    (hyields : p.Yields c.file src c.line text) :
    ⟨p.name, text⟩ ∈ dueVariants files patterns c := by
  rw [dueVariants_of_parsed hsrc hyields.parsed]
  exact mem_filterMap.mpr ⟨p, hp, (Pattern.variant?_eq_some hyields.parsed).mpr ⟨rfl, hyields⟩⟩

theorem pairwise_dueVariants (hpatterns : (patterns.map (·.name)).Pairwise Pattern.Earlier)
    (c : Candidate) :
    (dueVariants files patterns c).Pairwise fun v w => Pattern.Earlier v.pattern w.pattern := by
  grind [dueVariants, Pattern.pattern_of_variant?]

/-- One entry comes before another: by rank, and then in the order of the catalogue. -/
def Patch.Precedes (p q : Patch) : Prop :=
  p.rank < q.rank ∨ p.rank = q.rank ∧ Pattern.Earlier p.pattern q.pattern

theorem pairwise_due (hpatterns : (patterns.map (·.name)).Pairwise Pattern.Earlier)
    (cs : List Candidate) (rank : Nat) :
    (due files output patterns (cs.zipIdx rank)).Pairwise fun a b => a.patch.Precedes b.patch := by
  rw [due, pairwise_flatMap]
  constructor
  · rintro e -
    rw [pairwise_map]
    exact (pairwise_dueVariants hpatterns e.1).imp fun hearlier => .inr ⟨rfl, hearlier⟩
  · have hranks : (cs.zipIdx rank).Pairwise fun a b => a.2 < b.2 := by
      rw [← pairwise_map (f := Prod.snd) (R := (· < ·)), zipIdx_map_snd]
      exact pairwise_lt_range' 1
    refine hranks.imp fun hlt a ha b hb => .inl ?_
    obtain ⟨v, -, rfl⟩ := mem_map.mp ha
    obtain ⟨w, -, rfl⟩ := mem_map.mp hb
    exact hlt

theorem due_append (first second : List (Candidate × Nat)) :
    due files output patterns (first ++ second) =
      due files output patterns first ++ due files output patterns second := flatMap_append

theorem skips_append (first second : List (Candidate × Nat)) :
    skips files (first ++ second) = skips files first ++ skips files second := filterMap_append

theorem mem_due {ranked : List (Candidate × Nat)} {e : Entry}
    (he : e ∈ due files output patterns ranked) :
    ∃ c rank v, (c, rank) ∈ ranked ∧ v ∈ dueVariants files patterns c ∧
      e = .of output rank c v := by
  obtain ⟨⟨c, rank⟩, hranked, he⟩ := mem_flatMap.mp he
  obtain ⟨v, hv, rfl⟩ := mem_map.mp he
  exact ⟨c, rank, v, hranked, hv, rfl⟩

/-! ## Variants in the output directory -/

/-- A patch stands where its rank, pattern and source say. -/
structure Patch.Housed (output : Text) (p : Patch) : Prop where
  output_eq : p.output = variantPath output p.rank p.pattern p.source
  pattern : slash ∉ p.pattern
  source : IsName (base p.source)

namespace Patch.Housed

variable {p q : Patch}

theorem placeOf?_output (houtput : output ≠ []) (h : p.Housed output) :
    files.placeOf? p.output =
      (outputPlace? files output).map (· ++ variantNames p.rank h.pattern h.source) := by
  rw [h.output_eq, placeOf?_variantPath files houtput p.rank h.pattern h.source]

/-- A patch stands below the output directory, and not right below it. -/
theorem exists_names (houtput : output ≠ []) (h : p.Housed output) {place : Place}
    (hplace : files.placeOf? p.output = some place) :
    ∃ dir, outputPlace? files output = some dir ∧
      place = dir ++ variantNames p.rank h.pattern h.source := by
  rw [h.placeOf?_output houtput, Option.map_eq_some_iff] at hplace
  obtain ⟨dir, hdir, rfl⟩ := hplace
  exact ⟨dir, hdir, rfl⟩

/-- Patches that come one before the other stand apart. -/
theorem apart (houtput : output ≠ []) (hp : p.Housed output) (hq : q.Housed output)
    (hpq : p.Precedes q) {place : Place} (hplace : files.placeOf? p.output = some place) :
    files.placeOf? q.output ≠ some place := by
  intro hsame
  obtain ⟨dir, hdir, rfl⟩ := hp.exists_names houtput hplace
  obtain ⟨dir', hdir', hnames⟩ := hq.exists_names houtput hsame
  obtain rfl := Option.some.inj (hdir.symm.trans hdir')
  have hdirectory := congrArg (fun names : Place => names.head?.map (·.text))
    (append_cancel_left hnames)
  obtain ⟨hrank, hpattern⟩ := variantDirectory_injective (Option.some.inj hdirectory)
  rcases hpq with hlt | ⟨-, hearlier⟩
  · exact absurd hrank (Nat.ne_of_lt hlt)
  · rw [Pattern.Earlier, hpattern] at hearlier
    exact absurd hearlier (Nat.lt_irrefl _)

end Patch.Housed

theorem housed_of (hpatterns : ∀ p ∈ patterns, slash ∉ p.name) {c : Candidate}
    (hc : IsName (base c.file)) (rank : Nat) {v : Variant} (hv : v ∈ dueVariants files patterns c) :
    (Entry.of output rank c v).patch.Housed output := by
  obtain ⟨-, p, -, hp, hname, -⟩ := mem_dueVariants hv
  have hslash := hpatterns p hp
  rw [← hname] at hslash
  exact ⟨rfl, hslash, hc⟩

end

end FaultRepair.Repair
