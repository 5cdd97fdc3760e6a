/-
# The account of a patch run

A run leaves a report and a changed tree, whether it comes to its end or stops at a candidate, and
the two tell the same story. One candidate after the other the run stores what is due and reports
it, so at any moment the report is a beginning of what is due, and the tree differs from the first
one by just those files.

Nothing that is read changes on the way, since candidates stand outside the output directory.
-/

import FaultRepair.Proofs.Repair.Due

namespace FaultRepair.Repair

open Fault Files Text.Path List

section

variable {files : Tree} {output : Text} {patterns : List Pattern}

/-! ## Trees that hold entries -/

structure Holds (files : Tree) (entries : List Entry) (after : Tree) : Prop where
  workDir : after.workDir = files.workDir
  wellFormed : after.WellFormed
  written : ∀ e ∈ entries, ∃ place, files.placeOf? e.patch.output = some place ∧
    after.node? (spell place) = some (.file e.text)
  elsewhere : ∀ q, (∀ e ∈ entries, (files.placeOf? e.patch.output).map spell ≠ some q) →
    files.Kept after q

namespace Holds

variable {entries : List Entry} {after next : Tree}

theorem start (h : files.WellFormed) : Holds files [] files :=
  ⟨rfl, h, by simp, fun q _ => Tree.Kept.refl files q⟩

/-- What is stored at a place of its own is held besides the rest. -/
theorem add (h : Holds files entries after) {e : Entry}
    (hstore : after.store? e.patch.output e.text = some next)
    (hapart : ∀ d ∈ entries, ∀ place, files.placeOf? d.patch.output = some place →
      files.placeOf? e.patch.output ≠ some place) : Holds files (entries ++ [e]) next := by
  obtain ⟨place, hplace, hwritten⟩ := h.wellFormed.store? hstore
  rw [Tree.placeOf?_congr h.workDir] at hplace
  refine ⟨hwritten.workDir.trans h.workDir, hwritten.wellFormed, ?_, ?_⟩
  · rw [forall_mem_append, forall_mem_singleton]
    refine ⟨fun d hd => ?_, place, hplace, hwritten.here⟩
    obtain ⟨old, hold, hnode⟩ := h.written d hd
    refine ⟨old, hold, (hwritten.elsewhere _ fun hequal => ?_).eq_of_some hnode⟩
    rw [spell_injective hequal] at hold
    exact hapart d hd place hold hplace
  · intro q hq
    rw [forall_mem_append, forall_mem_singleton] at hq
    refine (h.elsewhere q hq.1).trans (hwritten.elsewhere q fun hequal => hq.2 ?_)
    rw [hplace, hequal, Option.map_some]

end Holds

/-! ## Stages of a run -/

/-- What a run is given: somewhere to write, and patterns of the catalogue in its order. -/
structure Assigned (output : Text) (patterns : List Pattern) : Prop where
  output_ne : output ≠ []
  patterns_ne : patterns ≠ []
  plain : ∀ p ∈ patterns, slash ∉ p.name
  ordered : (patterns.map (·.name)).Pairwise Pattern.Earlier

theorem assigned_select (houtput : output ≠ []) {names : List Text}
    (hselect : Pattern.select names ≠ []) :
    Assigned output (Pattern.select names) where
  output_ne := houtput
  patterns_ne := hselect
  plain _ hp := Pattern.slash_notMem_name ((Pattern.select_sublist names).subset hp)
  ordered := Pattern.pairwise_earlier_select names

/-- The output directory holds the place of an address. -/
def Encloses (files : Tree) (output address : Text) : Prop :=
  ∃ dir ∈ outputPlace? files output, ∃ place ∈ files.placeOf? address, dir <+: place

instance (files : Tree) (output address : Text) : Decidable (Encloses files output address) :=
  inferInstanceAs (Decidable (∃ dir ∈ outputPlace? files output,
    ∃ place ∈ files.placeOf? address, dir <+: place))

theorem encloses_of_spell {address : Text} {dir names place : Place}
    (hdir : outputPlace? files output = some dir) (hplace : files.placeOf? address = some place)
    (hspell : spell (dir ++ names) = spell place) : Encloses files output address :=
  ⟨dir, hdir, place, hplace, spell_injective hspell ▸ prefix_append _ _⟩

/-- A run has stored and reported some entries, and reported what it skipped. -/
structure Stage (files : Tree) (output : Text) (entries : List Entry) (skipped : List Skipped)
    (p : Patching) : Prop where
  patches : p.report.patches = entries.map (·.patch)
  skipped : p.report.skipped = skipped
  housed : ∀ e ∈ entries, e.patch.Housed output
  holds : Holds files entries p.files

/-- Why a run stops at a candidate. -/
inductive Stops (files : Tree) (output : Text) (patterns : List Pattern) (after : Tree)
    (c : Candidate) (rank : Nat) : PatchFault → Prop
  | unreadable : after.fetch? c.file = none →
      Stops files output patterns after c rank (.unreadable c.file)
  | unprintable {src : Text} {p : Pattern} : files.textAt? c.file = some src →
      (Source.parse c.file src).issues = [] → p ∈ patterns →
        p.Garbles (Source.parse c.file src) c.line →
      Stops files output patterns after c rank (.unprintable c.file p.name)
  | unwritable {src text : Text} {p : Pattern} : files.textAt? c.file = some src → p ∈ patterns →
      p.Yields c.file src c.line text →
      after.store? (variantPath output rank p.name c.file) text = none →
      Stops files output patterns after c rank (.unwritable (variantPath output rank p.name c.file))

namespace Stage

variable {entries : List Entry} {skipped : List Skipped} {p : Patching} {c : Candidate} {rank : Nat}

/-- Places outside the output directory are left alone. -/
theorem kept (houtput : output ≠ []) (h : Stage files output entries skipped p) {address : Text}
    (houtside : ¬ Encloses files output address) {place : Place}
    (hplace : files.placeOf? address = some place) : files.Kept p.files (spell place) := by
  refine h.holds.elsewhere _ fun e he hequal => houtside ?_
  obtain ⟨other, hother, hspell⟩ := Option.map_eq_some_iff.mp hequal
  obtain ⟨dir, hdir, rfl⟩ := (h.housed e he).exists_names houtput hother
  exact encloses_of_spell hdir hplace hspell

theorem textAt?_eq (houtput : output ≠ []) (h : Stage files output entries skipped p)
    {address : Text} (houtside : ¬ Encloses files output address) :
      p.files.textAt? address = files.textAt? address := by
  rw [Tree.textAt?, Tree.textAt?, Tree.placeOf?_congr h.holds.workDir]
  cases hplace : files.placeOf? address with
  | none => rfl
  | some place => exact (h.kept houtput houtside hplace).text?_eq

/-- One variant is stored and reported, or nothing happens. -/
theorem store (houtput : output ≠ []) (h : Stage files output entries skipped p) {v : Variant}
    (hhoused : (Entry.of output rank c v).patch.Housed output)
    (hbefore : ∀ e ∈ entries, e.patch.Precedes (Entry.of output rank c v).patch) :
    (∃ p', p.store output rank c v = .ok p' ∧
        Stage files output (entries ++ [.of output rank c v]) skipped p') ∨
      p.store output rank c v = .error (p, .unwritable (variantPath output rank v.pattern c.file)) ∧
        p.files.store? (variantPath output rank v.pattern c.file) v.source = none := by
  rw [Patching.store]
  cases hstore : p.files.store? (variantPath output rank v.pattern c.file) v.source with
  | none => exact .inr ⟨rfl, rfl⟩
  | some files' =>
    refine .inl ⟨_, rfl, ?_, h.skipped, ?_, h.holds.add hstore ?_⟩
    · simp [PatchReport.add, h.patches, Entry.of]
    · rw [forall_mem_append, forall_mem_singleton]
      exact ⟨h.housed, hhoused⟩
    · exact fun e he place hplace => (h.housed e he).apart houtput hhoused (hbefore e he) hplace

theorem storeAll (houtput : output ≠ []) (h : Stage files output entries skipped p)
    {vs : List Variant} (hhoused : ∀ v ∈ vs, (Entry.of output rank c v).patch.Housed output)
    (horder : (entries ++ vs.map (Entry.of output rank c)).Pairwise fun a b =>
      a.patch.Precedes b.patch) :
    (∃ p', vs.foldlM (Patching.store output rank c) p = .ok p' ∧
        Stage files output (entries ++ vs.map (Entry.of output rank c)) skipped p') ∨
      ∃ stored v rest p', vs = stored ++ v :: rest ∧
        vs.foldlM (Patching.store output rank c) p =
          .error (p', .unwritable (variantPath output rank v.pattern c.file)) ∧
        Stage files output (entries ++ stored.map (Entry.of output rank c)) skipped p' ∧
        p'.files.store? (variantPath output rank v.pattern c.file) v.source = none := by
  induction vs generalizing entries p with
  | nil => exact .inl ⟨p, rfl, by simpa using h⟩
  | cons v rest ih =>
    rw [foldlM_cons]
    have hbefore : ∀ e ∈ entries, e.patch.Precedes (Entry.of output rank c v).patch := fun e he =>
      (pairwise_append.mp horder).2.2 e he _ mem_cons_self
    rcases h.store houtput (hhoused v mem_cons_self) hbefore with
      ⟨next, hstore, hnext⟩ | ⟨herror, hnone⟩
    · rw [hstore]
      rw [map_cons, append_cons] at horder
      rcases ih hnext (fun w hw => hhoused w (mem_cons_of_mem _ hw)) horder with
        ⟨p', hrest, hstage⟩ | ⟨stored, w, left, p', rfl, hrest, hstage, hnone⟩
      · refine .inl ⟨p', hrest, ?_⟩
        rwa [map_cons, append_cons]
      · refine .inr ⟨v :: stored, w, left, p', rfl, hrest, ?_, hnone⟩
        rwa [map_cons, append_cons]
    · rw [herror]
      exact .inr ⟨[], v, rest, p, rfl, rfl, by simpa using h, hnone⟩

/-- A candidate is patched or skipped, or the run stops at it. -/
theorem candidate (ha : Assigned output patterns) (h : Stage files output entries skipped p)
    (houtside : ¬ Encloses files output c.file)
    (horder : (entries ++ due files output patterns [(c, rank)]).Pairwise fun a b =>
      a.patch.Precedes b.patch) :
    (∃ p', p.candidate output patterns rank c = .ok p' ∧ (files.textAt? c.file).isSome ∧
        Stage files output (entries ++ due files output patterns [(c, rank)])
          (skipped ++ skips files [(c, rank)]) p') ∨
      ∃ part p' fault, part <+: due files output patterns [(c, rank)] ∧
        p.candidate output patterns rank c = .error (p', fault) ∧
        Stage files output (entries ++ part) skipped p' ∧
        Stops files output patterns p'.files c rank fault := by
  have hdue : due files output patterns [(c, rank)] =
      (dueVariants files patterns c).map (Entry.of output rank c) := by
    rw [due, flatMap_singleton]
  have hskips : skips files [(c, rank)] = (skip? files c rank).toList := by
    rw [skips]
    cases hskip : skip? files c rank <;> simp [hskip]
  rw [hdue] at horder ⊢
  rw [hskips, Patching.candidate]
  cases hfetch : p.files.fetch? c.file with
  | none => exact .inr ⟨[], p, _, nil_prefix, rfl, by simpa using h, .unreadable hfetch⟩
  | some src =>
    obtain ⟨htext, hbase⟩ := h.holds.wellFormed.fetch? hfetch
    rw [h.textAt?_eq ha.output_ne houtside] at htext
    have hread : (files.textAt? c.file).isSome := Option.isSome_iff_exists.mpr ⟨src, htext⟩
    have hhoused : ∀ v ∈ dueVariants files patterns c,
        (Entry.of output rank c v).patch.Housed output :=
      fun v hv => housed_of ha.plain hbase rank hv
    rcases variants_cases c.file src c.line ha.patterns_ne with
      ⟨hissues, hvariants⟩ | ⟨hparsed, hvariants⟩ | ⟨hparsed, q, hq, hgarbles, hvariants⟩
    · have hnone : dueVariants files patterns c = [] := dueVariants_of_issues htext hissues
      simp only [hvariants]
      refine .inl ⟨_, rfl, hread, ?_, ?_, ?_, ?_⟩
      · simpa [hnone, PatchReport.skip] using h.patches
      · simp [PatchReport.skip, h.skipped, skip?_of_issues htext hissues]
      · simpa [hnone] using h.housed
      · simpa [hnone] using h.holds
    · rw [skip?_of_parsed htext hparsed, Option.toList_none, append_nil]
      rw [← dueVariants_of_parsed htext hparsed] at hvariants
      simp only [hvariants]
      rcases h.storeAll ha.output_ne hhoused horder with
        ⟨p', hstored, hstage⟩ | ⟨stored, v, rest, p', hvs, herror, hstage, hnone⟩
      · exact .inl ⟨p', hstored, hread, hstage⟩
      · obtain ⟨src', q, hsrc', hq, hname, hyields⟩ :=
          mem_dueVariants (hvs ▸ mem_append_right stored mem_cons_self :
            v ∈ dueVariants files patterns c)
        rw [hname] at herror hnone
        refine .inr ⟨stored.map (Entry.of output rank c), p', _, ?_, herror, hstage,
          .unwritable hsrc' hq hyields hnone⟩
        rw [hvs, map_append]
        exact prefix_append _ _
    · simp only [hvariants]
      exact .inr ⟨[], p, _, nil_prefix, rfl, by simpa using h,
        .unprintable htext hparsed hq hgarbles⟩

theorem candidates (ha : Assigned output patterns) (h : Stage files output entries skipped p)
    {cs : List Candidate} (houtside : ∀ c ∈ cs, ¬ Encloses files output c.file)
    (horder : (entries ++ due files output patterns (cs.zipIdx rank)).Pairwise fun a b =>
      a.patch.Precedes b.patch) :
    (∃ p', Patching.candidates output patterns rank p cs = .ok p' ∧
        (∀ c ∈ cs, (files.textAt? c.file).isSome) ∧
        Stage files output (entries ++ due files output patterns (cs.zipIdx rank))
          (skipped ++ skips files (cs.zipIdx rank)) p') ∨
      ∃ done c part p' fault, cs[done]? = some c ∧
        part <+: due files output patterns [(c, rank + done)] ∧
        Patching.candidates output patterns rank p cs = .error (p', fault) ∧
        (∀ c ∈ cs.take done, (files.textAt? c.file).isSome) ∧
        Stage files output (entries ++
          (due files output patterns ((cs.take done).zipIdx rank) ++ part))
          (skipped ++ skips files ((cs.take done).zipIdx rank)) p' ∧
        Stops files output patterns p'.files c (rank + done) fault := by
  induction cs generalizing rank p entries skipped with
  | nil => exact .inl ⟨p, rfl, by simp, by simpa [due, skips] using h⟩
  | cons c rest ih =>
    have hdue : ∀ cs : List Candidate, due files output patterns ((c :: cs).zipIdx rank) =
        due files output patterns [(c, rank)] ++ due files output patterns (cs.zipIdx (rank + 1)) :=
      fun cs => due_append [(c, rank)] (cs.zipIdx (rank + 1))
    have hskips : ∀ cs : List Candidate, skips files ((c :: cs).zipIdx rank) =
        skips files [(c, rank)] ++ skips files (cs.zipIdx (rank + 1)) :=
      fun cs => skips_append [(c, rank)] (cs.zipIdx (rank + 1))
    rw [hdue, ← append_assoc] at horder
    rw [Patching.candidates]
    rcases h.candidate ha (houtside c mem_cons_self)
        (pairwise_append.mp horder).1 with
      ⟨next, hcandidate, hread, hnext⟩ | ⟨part, p', fault, hpart, hcandidate, hstage, hstops⟩
    · rw [hcandidate]
      rcases ih hnext (fun d hd => houtside d (mem_cons_of_mem _ hd)) horder with
        ⟨p', hrest, hreads, hstage⟩ |
        ⟨done, d, part, p', fault, hd, hpart, hrest, hreads, hstage, hstops⟩
      · refine .inl ⟨p', hrest, forall_mem_cons.mpr ⟨hread, hreads⟩, ?_⟩
        simpa only [hdue, hskips, append_assoc] using hstage
      · have hrank : rank + 1 + done = rank + (done + 1) := by omega
        rw [hrank] at hpart hstops
        refine .inr ⟨done + 1, d, part, p', fault, hd, hpart, hrest,
          forall_mem_cons.mpr ⟨hread, hreads⟩, ?_, hstops⟩
        simpa only [take_succ_cons, hdue, hskips, append_assoc] using hstage
    · rw [hcandidate]
      exact .inr ⟨0, c, part, p', fault, rfl, hpart, rfl, by simp,
        by simpa [due, skips] using hstage, hstops⟩

end Stage

/-! ## The account -/

/-- How a run ends, and how many candidates it has dealt with by then. -/
inductive Ended (files : Tree) (output : Text) (patterns : List Pattern) (cs : List Candidate)
    (r : PatchReport) (after : Tree) : Nat → Option PatchFault → Prop
  | completed : Ended files output patterns cs r after cs.length none
  | noManifest : after.store? (manifestPath output) r.document.render = none →
      Ended files output patterns cs r after cs.length (some (.unwritable (manifestPath output)))
  | stopped {done : Nat} {c : Candidate} {fault : PatchFault} : cs[done]? = some c →
      Stops files output patterns after c (done + 1) fault →
      Ended files output patterns cs r after done (some fault)

/-- A report and a tree tell the same story of a run on some files. -/
structure Account (files : Tree) (output : Text) (patterns : List Pattern) (cs : List Candidate)
    (r : PatchReport) (after : Tree) (fault : Option PatchFault) : Prop where
  outputs : (r.patches.map (·.output)).Nodup
  /-- Every output holds what its pattern makes of its candidate's file on its line. -/
  contents : ∀ p ∈ r.patches, ∃ src q text place, files.textAt? p.fault.file = some src ∧
    q ∈ patterns ∧
    p.pattern = q.name ∧ q.Yields p.fault.file src p.fault.line text ∧
    files.placeOf? p.output = some place ∧ after.node? (spell place) = some (.file text)
  /-- A run that succeeds leaves a manifest. -/
  manifest : fault = none → ∃ place, files.placeOf? (manifestPath output) = some place ∧
    after.node? (spell place) = some (.file r.document.render)
  /-- Nothing else is written, the manifest of a run that fails included. -/
  others : ∀ q, (∀ p ∈ r.patches, (files.placeOf? p.output).map spell ≠ some q) →
    (fault = none → (files.placeOf? (manifestPath output)).map spell ≠ some q) → files.Kept after q
  /-- Patches come by candidate and then in the order of the catalogue. -/
  ordered : r.patches.Pairwise Patch.Precedes
  /-- A rank is the position of the candidate, counted from one, and names the output. -/
  ranked : ∀ p ∈ r.patches, 1 ≤ p.rank ∧ cs[p.rank - 1]? = some p.fault ∧ p.source = p.fault.file ∧
    p.output = variantPath output p.rank p.pattern p.source
  /-- The candidates dealt with were read. Those that do not parse are listed, each once and with
  its rank, and the others have all their variants. -/
  processed : ∃ done, Ended files output patterns cs r after done fault ∧
    (∀ c ∈ cs.take done, (files.textAt? c.file).isSome) ∧
    r.skipped = skips files ((cs.take done).zipIdx 1) ∧
    ∀ c rank, (c, rank) ∈ (cs.take done).zipIdx 1 → ∀ src q text, files.textAt? c.file = some src →
      q ∈ patterns → q.Yields c.file src c.line text → ∃ p ∈ r.patches, p.rank = rank ∧
        p.pattern = q.name
  separate : ∀ s ∈ r.skipped, ∀ p ∈ r.patches, p.rank ≠ s.rank
  sources : ∀ c ∈ cs, ∀ place n, files.placeOf? c.file = some place →
    files.node? (spell place) = some n →
    after.node? (spell place) = some n

/-- There is an account of a run, whether it succeeds or fails. -/
def Accounted (files : Tree) (output : Text) (patterns : List Pattern) (cs : List Candidate)
    (r : Except (Patching × PatchFault) Patching) : Prop :=
  (∃ p, r = .ok p ∧ Account files output patterns cs p.report p.files none) ∨
    ∃ p f, r = .error (p, f) ∧ Account files output patterns cs p.report p.files (some f)

/-- How far a run has come with what is due. -/
structure Progress (files : Tree) (output : Text) (patterns : List Pattern) (cs : List Candidate)
    (done : Nat) (entries : List Entry) (skipped : List Skipped) : Prop where
  begun : entries <+: due files output patterns (cs.zipIdx 1)
  finished : due files output patterns ((cs.take done).zipIdx 1) <+: entries
  read : ∀ c ∈ cs.take done, (files.textAt? c.file).isSome
  skipped : skipped = skips files ((cs.take done).zipIdx 1)

theorem mem_skips {ranked : List (Candidate × Nat)} {s : Skipped} (hs : s ∈ skips files ranked) :
    ∃ c src, (c, s.rank) ∈ ranked ∧ files.textAt? c.file = some src ∧
      (Source.parse c.file src).issues ≠ [] := by
  obtain ⟨⟨c, rank⟩, hranked, hskip⟩ := mem_filterMap.mp hs
  obtain ⟨src, hsrc, hskip⟩ := Option.bind_eq_some_iff.mp hskip
  grind

namespace Progress

variable {cs : List Candidate} {done : Nat} {entries : List Entry} {skipped : List Skipped}

theorem mem_entries (h : Progress files output patterns cs done entries skipped) {e : Entry}
    (he : e ∈ entries) :
    ∃ c rank v, 1 ≤ rank ∧ cs[rank - 1]? = some c ∧ v ∈ dueVariants files patterns c ∧
      e = .of output rank c v := by
  obtain ⟨c, rank, v, hranked, hv, rfl⟩ := mem_due (h.begun.subset he)
  grind

theorem pairwise (hpatterns : (patterns.map (·.name)).Pairwise Pattern.Earlier)
    (h : Progress files output patterns cs done entries skipped) :
    entries.Pairwise fun a b => a.patch.Precedes b.patch :=
  (pairwise_due hpatterns cs 1).sublist h.begun.sublist

theorem separate (h : Progress files output patterns cs done entries skipped) {s : Skipped}
    (hs : s ∈ skipped) {e : Entry} (he : e ∈ entries) : e.patch.rank ≠ s.rank := by
  intro hrank
  obtain ⟨c, rank, v, -, hc, hv, rfl⟩ := h.mem_entries he
  rw [h.skipped] at hs
  obtain ⟨d, src, hranked, hsrc, hissues⟩ := mem_skips hs
  obtain ⟨src', q, hsrc', -, -, hyields⟩ := mem_dueVariants hv
  have hd : cs[s.rank - 1]? = some d := by
    obtain ⟨-, htake⟩ := mk_mem_zipIdx_iff_le_and_getElem?_sub.mp hranked
    rw [List.getElem?_take] at htake
    split at htake
    · exact htake
    · cases htake
  have hrank : rank = s.rank := hrank
  rw [hrank, hd] at hc
  obtain rfl := Option.some.inj hc
  obtain rfl := Option.some.inj (hsrc.symm.trans hsrc')
  exact hissues hyields.parsed

end Progress

namespace Stage

variable {entries : List Entry} {skipped : List Skipped} {p : Patching} {cs : List Candidate}
  {done : Nat}
  {after : Tree} {fault : Option PatchFault} (ha : Assigned output patterns)
  (houtside : ∀ c ∈ cs, ¬ Encloses files output c.file)

include ha houtside

/-- A stage that holds what it reports, with a manifest if there is to be one, makes an account. -/
theorem account (h : Stage files output entries skipped p)
    (hprogress : Progress files output patterns cs done entries skipped)
    (hended : Ended files output patterns cs p.report after done fault)
    (hwritten : ∀ e ∈ entries, ∃ place, files.placeOf? e.patch.output = some place ∧
      after.node? (spell place) = some (.file e.text))
    (hmanifest : fault = none → ∃ place, files.placeOf? (manifestPath output) = some place ∧
      after.node? (spell place) = some (.file p.report.document.render))
    (hothers : ∀ q, (∀ e ∈ entries, (files.placeOf? e.patch.output).map spell ≠ some q) →
      (fault = none → (files.placeOf? (manifestPath output)).map spell ≠ some q) →
        files.Kept after q) :
    Account files output patterns cs p.report after fault := by
  have horder := hprogress.pairwise ha.ordered
  refine
    { outputs := ?_
      contents := ?_
      manifest := hmanifest
      others := ?_
      ordered := ?_
      ranked := ?_
      processed := ⟨done, hended, hprogress.read, h.skipped.trans hprogress.skipped, ?_⟩
      separate := ?_
      sources := ?_ }
  · rw [h.patches, map_map]
    refine pairwise_map.mpr (horder.imp_of_mem fun {a b} hfirst hsecond hab hequal => ?_)
    obtain ⟨place, hplace, -⟩ := hwritten a hfirst
    refine (h.housed a hfirst).apart ha.output_ne (h.housed b hsecond) hab hplace ?_
    rw [← hplace]
    exact congrArg files.placeOf? hequal.symm
  · rw [h.patches, forall_mem_map]
    intro e he
    obtain ⟨place, hplace, hnode⟩ := hwritten e he
    obtain ⟨c, rank, v, -, -, hv, rfl⟩ := hprogress.mem_entries he
    obtain ⟨src, q, hsrc, hq, hname, hyields⟩ := mem_dueVariants hv
    exact ⟨src, q, v.source, place, hsrc, hq, hname, hyields, hplace, hnode⟩
  · intro q hq
    rw [h.patches, forall_mem_map] at hq
    exact hothers q hq
  · rw [h.patches]
    exact pairwise_map.mpr horder
  · rw [h.patches, forall_mem_map]
    intro e he
    obtain ⟨c, rank, v, hrank, hc, -, rfl⟩ := hprogress.mem_entries he
    exact ⟨hrank, hc, rfl, rfl⟩
  · intro c rank hranked src q text hsrc hq hyields
    have hv := mem_dueVariants_of_yields hsrc hq hyields
    have he : Entry.of output rank c ⟨q.name, text⟩ ∈ entries :=
      hprogress.finished.subset (mem_flatMap.mpr ⟨(c, rank), hranked, mem_map_of_mem hv⟩)
    exact ⟨_, h.patches ▸ mem_map_of_mem he, rfl, rfl⟩
  · rw [h.skipped, h.patches]
    intro s hs
    rw [forall_mem_map]
    exact fun e he => hprogress.separate hs he
  · intro c hc place n hplace hn
    refine (hothers _ (fun e he hequal => houtside c hc ?_) fun _ hequal =>
      houtside c hc ?_).eq_of_some hn
    · obtain ⟨other, hother, hspell⟩ := Option.map_eq_some_iff.mp hequal
      obtain ⟨dir, hdir, rfl⟩ := (h.housed e he).exists_names ha.output_ne hother
      exact encloses_of_spell hdir hplace hspell
    · rw [placeOf?_manifestPath files ha.output_ne] at hequal
      obtain ⟨other, hother, hspell⟩ := Option.map_eq_some_iff.mp hequal
      obtain ⟨dir, hdir, rfl⟩ := Option.map_eq_some_iff.mp hother
      exact encloses_of_spell hdir hplace hspell

/-- A run that stops at a candidate leaves what it has stored so far. -/
theorem account_of_stopped {f : PatchFault} (h : Stage files output entries skipped p)
    (hprogress : Progress files output patterns cs done entries skipped)
    (hended : Ended files output patterns cs p.report p.files done (some f)) :
    Account files output patterns cs p.report p.files (some f) :=
  h.account ha houtside hprogress hended h.holds.written (fun hnone => by cases hnone)
    fun q hq _ => h.holds.elsewhere q hq

/-- A run that has dealt with all candidates stores the manifest, or fails at that. -/
theorem finish (h : Stage files output entries skipped p)
    (hprogress : Progress files output patterns cs cs.length entries skipped) :
    Accounted files output patterns cs (p.finish output) := by
  rw [Patching.finish]
  cases hstore : p.files.store? (manifestPath output) p.report.document.render with
  | none =>
    exact .inr ⟨p, _, rfl, h.account_of_stopped ha houtside hprogress (.noManifest hstore)⟩
  | some after =>
    obtain ⟨place, hplace, hwritten⟩ := h.holds.wellFormed.store? hstore
    rw [Tree.placeOf?_congr h.holds.workDir] at hplace
    have haccount : Account files output patterns cs p.report after none := by
      refine h.account ha houtside hprogress .completed ?_
        (fun _ => ⟨place, hplace, hwritten.here⟩) ?_
      · -- Variants stand two levels below the output directory, and the manifest one.
        intro e he
        obtain ⟨other, hother, hnode⟩ := h.holds.written e he
        refine ⟨other, hother, (hwritten.elsewhere _ fun hequal => ?_).eq_of_some hnode⟩
        obtain ⟨dir, hdir, hnames⟩ := (h.housed e he).exists_names ha.output_ne hother
        rw [placeOf?_manifestPath files ha.output_ne, hdir, Option.map_some,
          ← spell_injective hequal, hnames] at hplace
        have hlength := congrArg List.length (append_cancel_left (Option.some.inj hplace))
        cases hlength
      · intro q hq hmanifest
        refine (h.holds.elsewhere q hq).trans (hwritten.elsewhere q fun hequal => hmanifest rfl ?_)
        rw [hplace, hequal, Option.map_some]
    exact .inl ⟨_, rfl, haccount⟩

theorem run (h : Stage files output [] [] p) : Accounted files output patterns cs
    ((Patching.candidates output patterns 1 p cs).bind (Patching.finish output)) := by
  have horder : (due files output patterns (cs.zipIdx 1)).Pairwise fun a b =>
      a.patch.Precedes b.patch :=
    pairwise_due ha.ordered cs 1
  rcases h.candidates ha houtside horder with
    ⟨p', hrun, hread, hstage⟩ | ⟨done, c, part, p', f, hc, hpart, hrun, hread, hstage, hstops⟩
  · rw [hrun]
    refine hstage.finish ha houtside ⟨?_, ?_, ?_, ?_⟩
    · exact prefix_rfl
    · rw [take_length]
      exact prefix_rfl
    · rwa [take_length]
    · rw [take_length, nil_append]
  · rw [hrun]
    obtain ⟨hlt, hat⟩ := List.getElem?_eq_some_iff.mp hc
    have hsplit : cs.zipIdx 1 =
        (cs.take done).zipIdx 1 ++ (c, 1 + done) :: (cs.drop (done + 1)).zipIdx (1 + done + 1) := by
      have hcs : cs = cs.take done ++ c :: cs.drop (done + 1) := by
        rw [← hat, getElem_cons_drop, take_append_drop]
      conv => lhs; rw [hcs, zipIdx_append, length_take, Nat.min_eq_left (Nat.le_of_lt hlt)]
      rfl
    refine .inr ⟨p', f, rfl, hstage.account_of_stopped ha houtside ⟨?_, ?_, hread, ?_⟩
      (.stopped hc (Nat.add_comm 1 done ▸ hstops))⟩
    · grind [append_cons, due_append, prefix_append_right_inj]
    · exact prefix_append _ _
    · rw [nil_append]

end Stage

/-- The report and the output directory tell the same story, whether a run succeeds or stops. -/
theorem report_tells_output (hfiles : files.WellFormed) (houtput : output ≠ []) {names : List Text}
    (hselect : Pattern.select names ≠ []) {cs : List Candidate}
    (houtside : ∀ c ∈ cs, ¬ Encloses files output c.file) :
    ∃ r, (generate files output (Pattern.select names) cs).report = some r ∧
      Account files output (Pattern.select names) cs r
        (generate files output (Pattern.select names) cs).files
        (generate files output (Pattern.select names) cs).fault := by
  have hstart : Stage files output [] [] (.start files (Pattern.select names) cs) :=
    ⟨rfl, rfl, by simp, Holds.start hfiles⟩
  rw [generate, if_neg (by simpa using houtput)]
  rcases hstart.run (assigned_select houtput hselect) houtside with
    ⟨p, hrun, haccount⟩ | ⟨p, f, hrun, haccount⟩
  · simp only [hrun]
    exact ⟨_, rfl, haccount⟩
  · simp only [hrun]
    exact ⟨_, rfl, haccount⟩

def lookupSource : Text :=
  "package calc\n\nfunc at(xs []int, i int) int \x7b\n\treturn xs[i]\n\x7d\n"

/-- Two files of one name, and one that does not parse. -/
def workshop : Tree where
  nodes := [("/w", .directory), ("/w/calc.go", .file lookupSource), ("/w/lib", .directory),
    ("/w/lib/calc.go", .file lookupSource), ("/w/broken.go", .file "package")]
  workDir := "/w"

/-- A file that comes twice, one of the same name, one that does not parse, and one missing. -/
def workshopFaults : List Candidate :=
  [{ ident := "at", line := 4, col := 9, file := "calc.go" },
    { ident := "at", line := 4, col := 9, file := "lib/calc.go" },
    { ident := "", line := 1, col := 1, file := "broken.go" },
    { ident := "at", line := 4, col := 9, file := "/w/lib/../calc.go" },
    { ident := "at", line := 4, col := 9, file := "missing.go" }]

theorem wellFormed_workshop : workshop.WellFormed := by
  have hwritten : [(Text.ofString "calc.go", lookupSource),
    (Text.ofString "lib/calc.go", lookupSource),
      (Text.ofString "broken.go", Text.ofString "package")].foldlM
        (fun (t : Tree) e => t.write? e.1 e.2)
      { workDir := spell [⟨"w", by decide⟩] } = some workshop := rfl
  exact Tree.wellFormed_of_writes hwritten

theorem workshop_report_tells_output :
    workshop.WellFormed ∧ (∀ c ∈ workshopFaults, ¬ Encloses workshop "out" c.file) ∧
      ∃ r, (generate workshop "out" (Pattern.select []) workshopFaults).report = some r ∧
        Account workshop "out" (Pattern.select []) workshopFaults r
          (generate workshop "out" (Pattern.select []) workshopFaults).files
          (generate workshop "out" (Pattern.select []) workshopFaults).fault := by
  have hselect : Pattern.select [] ≠ [] := cons_ne_nil _ _
  have houtside : ∀ c ∈ workshopFaults, ¬ Encloses workshop "out" c.file := by decide
  exact ⟨wellFormed_workshop, houtside,
    report_tells_output wellFormed_workshop (by decide) hselect houtside⟩

end

end FaultRepair.Repair
