/-
# One pass and three stages

The tool can build a graph, localize a trace in it and write repairs in one pass, or stage by
stage. In one pass the candidates are handed over in memory; between stages they go through a
file, the settings are read anew and the store is opened anew.

Both leave the same files. Up to the graph both do the same. The store that is opened again is
the one that was saved, and it has its tables, so opening it changes nothing. The file of
candidates is what the next stage finds at its place, and saving a database brings no repository
about, so the revision that one pass notes down is as empty as that of the stages.
-/

import FaultRepair.Command.Execute
import FaultRepair.Proofs.Command.Replacement

namespace FaultRepair.Command

open Config Fault Files FaultRepair.Graph Repair
open Revision Store

namespace Action

variable {trail after : Trail}

variable {cs : List Candidate} {o : Settings} {built : Store × GraphCounts} {s : Store}
  {x : Action α} {path dir : Text}

/-! ## Parts of a command -/

/-- A whole that succeeds has a first part that succeeded. -/
theorem run_bind_eq_ok {f : α → Action β} {b : β} (h : (x >>= f).run.run trail = (.ok b, after)) :
    ∃ a mid, x.run.run trail = (.ok a, mid) ∧ (f a).run.run mid = (.ok b, after) := by
  cases hx : x.run.run trail with
  | mk result mid =>
    cases result with
    | error e =>
      rw [run_bind_error hx] at h
      cases h
    | ok a =>
      rw [run_bind_ok hx] at h
      exact ⟨a, mid, rfl, h⟩

def Keeps (x : Action α) : Prop := ∀ trail, (x.run.run trail).2.files = trail.files

theorem Keeps.files_eq (h : Keeps x) {result : Except CommandFault α}
    (hrun : x.run.run trail = (result, after)) : after.files = trail.files := by
  have hfiles := h trail
  rw [hrun] at hfiles
  exact hfiles

theorem Keeps.bind {f : α → Action β} (hx : Keeps x) (hf : ∀ a, Keeps (f a)) : Keeps (x >>= f) := by
  intro trail
  cases hrun : x.run.run trail with
  | mk result mid =>
    cases result with
    | error e =>
      rw [run_bind_error hrun]
      exact hx.files_eq hrun
    | ok a =>
      rw [run_bind_ok hrun]
      exact (hf a mid).trans (hx.files_eq hrun)

theorem keeps_pure (a : α) : Keeps (pure a : Action α) := fun _ => rfl

theorem keeps_throw (e : CommandFault) : Keeps (throw e : Action α) := fun _ => rfl

theorem keeps_files : Keeps files := fun _ => rfl

theorem keeps_note (notices : List Report.Notice) : Keeps (note notices) := fun _ => rfl

theorem keeps_moduleSet (o : Settings) (dir : Text) : Keeps (moduleSet o dir) := by
  refine keeps_files.bind fun t => ?_
  cases Module.primaryModule t dir with
  | error f => exact keeps_throw _
  | ok primary => exact keeps_files.bind fun t' => (keeps_note _).bind fun _ => keeps_pure _

theorem keeps_program (o : Settings) (ms : Module.ModuleSet) : Keeps (program o ms) := by
  refine (keeps_note _).bind fun _ => keeps_files.bind fun t => ?_
  cases Module.seenModules? t ms with
  | none => exact keeps_throw _
  | some seen =>
    refine keeps_files.bind fun t' => (keeps_note _).bind fun _ => (keeps_note _).bind fun _ => ?_
    dsimp only
    split
    · exact (keeps_note _).bind fun _ => keeps_pure _
    · exact keeps_pure _

theorem keeps_graph (o : Settings) (ms : Module.ModuleSet) (p : Program) : Keeps (graph o ms p) :=
  (keeps_note _).bind fun _ => (keeps_note _).bind fun _ => keeps_pure _

/-- A build that succeeds ends with the replacement of what the store held, and has changed no
file before. -/
theorem run_buildGraph_ok (h : (buildGraph o dir s).run.run trail = (.ok built, after)) :
    ∃ place r mid, mid.files = trail.files ∧
      (replace o place s r).run.run mid = (.ok built, after) := by
  obtain ⟨ms, t₁, h₁, h⟩ := run_bind_eq_ok h
  obtain ⟨_, t₂, h₂, h⟩ := run_bind_eq_ok h
  obtain ⟨_, t₃, h₃, h⟩ := run_bind_eq_ok h
  obtain ⟨_, t₄, h₄, h⟩ := run_bind_eq_ok h
  obtain ⟨p, t₅, h₅, h⟩ := run_bind_eq_ok h
  obtain ⟨r, t₆, h₆, h⟩ := run_bind_eq_ok h
  refine ⟨_, r, t₆, ?_, h⟩
  calc t₆.files = t₅.files := (keeps_graph o ms p).files_eq h₆
    _ = t₄.files := (keeps_program o ms).files_eq h₅
    _ = t₃.files := (keeps_note _).files_eq h₄
    _ = t₂.files := keeps_files.files_eq h₃
    _ = t₁.files := (keeps_note _).files_eq h₂
    _ = trail.files := (keeps_moduleSet o dir).files_eq h₁

theorem run_replace_eq_ok {prior : Database} {r : BuildResult}
    (hprior : Store.ofName trail.files o.db = s.holding prior)
    (h : (replace o dir (s.holding prior) r).run.run trail = (.ok built, after)) :
    ∃ final : Database, Initialised final ∧ built.1 = s.holding final ∧
      after.files = (s.holding final).save trail.files o.db := by
  obtain ⟨outcome, final, notices, hrun, hending⟩ := ending_of_holding (t := none) hprior rfl dir r
  have hmeeting (d : Database) : (s.holding d).meeting none = s.holding d := by cases s <;> rfl
  rw [hmeeting, h] at hrun
  injection hrun with houtcome hafter
  subst houtcome hafter
  obtain ⟨⟨statements, hstore⟩, hinitialised⟩ := hending.of_ok
  rw [Option.map_none, hmeeting] at hstore
  exact ⟨final, hinitialised final (database?_holding s final), hstore, rfl⟩

theorem run_openStore_ok (h : Store.connect trail.files o.db = .ok s) :
    (openStore o).run.run trail = (.ok s, { trail with files := s.save trail.files o.db }) := by
  rw [openStore, run_bind_ok (run_files trail), h]
  rfl

theorem run_openStore_eq_ok (h : (openStore o).run.run trail = (.ok s, after)) :
    Store.connect trail.files o.db = .ok s ∧
      after = { trail with files := s.save trail.files o.db } := by
  cases hconnect : Store.connect trail.files o.db with
  | error f =>
    rw [openStore, run_bind_ok (run_files trail), hconnect] at h
    cases h
  | ok s' =>
    rw [run_openStore_ok hconnect] at h
    cases h
    exact ⟨rfl, rfl⟩

/-- A store that lasts only as long as one operation takes no graph. -/
theorem run_replace_fleeting {r : BuildResult} :
    (replace o dir fleeting r).run.run trail ≠ (.ok built, after) := by
  intro h
  have hreset : fleeting.reset = .ok (fleeting.meeting none) := rfl
  obtain ⟨notices, hrun⟩ := run_replace_of_reset trail o hreset dir r
  obtain ⟨fault, hpersist⟩ := persist_fleeting (t := none)
    ((fleeting.meeting none).save trail.files o.db) r.graph r.files
    ((Revision.revision? ((fleeting.meeting none).save trail.files o.db) dir).getD [])
  rw [hrun] at h
  simp only [hpersist] at h
  cases h

theorem run_localizeTrace_ok (h : (Command.localizeTrace trail.files s o).result = .ok cs) :
    ∃ notices, (localizeTrace o s).run.run trail = (.ok cs, { trail with notices := notices }) := by
  rw [localizeTrace, run_bind_ok (run_files trail)]
  generalize Command.localizeTrace trail.files s o = outcome at h
  obtain ⟨notices, result⟩ := outcome
  cases h
  exact ⟨_, rfl⟩

theorem run_localizeTrace_eq_ok (h : (localizeTrace o s).run.run trail = (.ok cs, after)) :
    (Command.localizeTrace trail.files s o).result = .ok cs ∧ after.files = trail.files := by
  cases hresult : (Command.localizeTrace trail.files s o).result with
  | error f =>
    rw [localizeTrace, run_bind_ok (run_files trail)] at h
    generalize Command.localizeTrace trail.files s o = outcome at h hresult
    obtain ⟨notices, result⟩ := outcome
    cases hresult
    cases h
  | ok cs' =>
    obtain ⟨notices, hrun⟩ := run_localizeTrace_ok hresult
    rw [hrun] at h
    cases h
    exact ⟨rfl, rfl⟩

theorem run_writeCandidates_ok {revision : Text} {t : Tree}
    (h : trail.files.store? path (CandidateFile.mk revision cs).render = some t) :
    (writeCandidates path revision cs).run.run trail = (.ok (), { trail with files := t }) := by
  rw [writeCandidates, run_bind_ok (run_files trail), h]
  rfl

theorem run_writeCandidates_eq_ok {revision : Text}
    (h : (writeCandidates path revision cs).run.run trail = (.ok (), after)) :
    trail.files.store? path (CandidateFile.mk revision cs).render = some after.files := by
  cases hstore : trail.files.store? path (CandidateFile.mk revision cs).render with
  | none =>
    rw [writeCandidates, run_bind_ok (run_files trail), hstore] at h
    cases h
  | some t =>
    rw [run_writeCandidates_ok hstore] at h
    cases h
    rfl

theorem run_readCandidates_eq_ok (h : (readCandidates path).run.run trail = (.ok cs, after)) :
    after = trail ∧ ∃ source, trail.files.fetch? path = some source ∧
      (CandidateFile.read? source).map (·.candidates) = some cs := by
  rw [readCandidates, run_bind_ok (run_files trail)] at h
  cases hfetch : trail.files.fetch? path with
  | none =>
    rw [hfetch] at h
    cases h
  | some source =>
    rw [hfetch] at h
    cases hread : CandidateFile.read? source with
    | none =>
      simp only [hread] at h
      cases h
    | some f =>
      simp only [hread] at h
      cases h
      exact ⟨rfl, source, rfl, by rw [hread]; rfl⟩

theorem run_generatePatches_ok
    (h : (generate trail.files o.output (Pattern.select o.patterns) cs).fault = none) :
    ∃ report notices, (generatePatches o cs).run.run trail = (.ok report, { trail with
      files := (generate trail.files o.output (Pattern.select o.patterns) cs).files
      notices := notices }) := by
  rw [generatePatches, run_bind_ok (run_files trail)]
  generalize generate trail.files o.output (Pattern.select o.patterns) cs = r at h
  refine ⟨r.report.getD {}, trail.notices ++ r.notices, ?_⟩
  dsimp only
  rw [h]
  rfl

theorem run_generatePatches_eq_ok {report : PatchReport}
    (h : (generatePatches o cs).run.run trail = (.ok report, after)) :
    (generate trail.files o.output (Pattern.select o.patterns) cs).fault = none ∧
      after.files = (generate trail.files o.output (Pattern.select o.patterns) cs).files := by
  cases hfault : (generate trail.files o.output (Pattern.select o.patterns) cs).fault with
  | some f =>
    rw [generatePatches, run_bind_ok (run_files trail)] at h
    generalize generate trail.files o.output (Pattern.select o.patterns) cs = r at h hfault
    dsimp only at h
    rw [hfault] at h
    cases h
  | none => grind [run_generatePatches_ok]

end Action

open Action

/-! ## The store between the stages -/

/-- A store that opens and takes a graph keeps its database. -/
theorem connect_ofName {files : Tree} {name : Text} {s : Store}
    (h : Store.connect files name = .ok s) :
    (∃ (kind : Store) (d : Database), Store.ofName files name = kind.holding d ∧
      s = kind.holding d.init) ∨ s = fleeting := by
  rw [Store.connect] at h
  rcases ofName_cases files name with ⟨kind, d, hd⟩ | ⟨cause, hcause⟩ | hfleeting
  · have hinit : (kind.holding d).init = .ok (kind.holding d.init) := by cases kind <;> rfl
    rw [hd, hinit] at h
    cases h
    exact .inl ⟨kind, d, hd, rfl⟩
  · simp [Store.init, Store.alter, Store.write, Backing.change, hcause, Except.map] at h
  · rw [hfleeting] at h
    cases h
    exact .inr rfl

theorem connect_save {files : Tree} {name : Text} {kind : Store} {prior final : Database}
    (hprior : Store.ofName files name = kind.holding prior) (hfinal : Initialised final) :
    Store.connect ((kind.holding final).save files name) name = .ok (kind.holding final) := by
  have hinit : final.init = final := by
    simp [Database.init, hfinal.locations, hfinal.dependencies, hfinal.sources]
  have hopen : (kind.holding final).init = .ok (kind.holding final.init) := by cases kind <;> rfl
  rw [Store.connect, ofName_save hprior, hopen, hinit]

/-- What a build that succeeds was made of, from opening the store on. -/
structure Built (o : Settings) (dir : Text) (trail after : Trail) (s : Store) (counts : GraphCounts)
    (kind : Store) (prior final : Database) : Prop where
  prior : Store.ofName trail.files o.db = kind.holding prior
  initialised : Initialised final
  opened : (openStore o).run.run trail =
    (.ok s, { trail with files := s.save trail.files o.db })
  run : (buildGraph o dir s).run.run { trail with files := s.save trail.files o.db } =
    (.ok (kind.holding final, counts), after)
  files : after.files = (kind.holding final).save trail.files o.db

theorem built_of_run {o : Settings} {dir : Text} {trail opened after : Trail} {s : Store}
    {built : Store × GraphCounts} (hopen : (openStore o).run.run trail = (.ok s, opened))
    (hbuild : (buildGraph o dir s).run.run opened = (.ok built, after)) :
    ∃ kind prior final, Built o dir trail after s built.2 kind prior final := by
  obtain ⟨hconnect, rfl⟩ := run_openStore_eq_ok hopen
  obtain ⟨place, r, mid, hmid, hreplace⟩ := run_buildGraph_ok hbuild
  rcases connect_ofName hconnect with ⟨kind, prior, hprior, rfl⟩ | rfl
  · have hsaved : Store.ofName mid.files o.db = kind.holding prior.init := by
      rw [hmid]
      exact ofName_save hprior prior.init
    obtain ⟨final, hfinal, hstore, hfiles⟩ := run_replace_eq_ok hsaved hreplace
    refine ⟨kind, prior, final, hprior, hfinal, hopen, ?_, ?_⟩
    · rw [hbuild, ← hstore]
    · rw [hfiles, hmid, save_save]
  · exact absurd hreplace run_replace_fleeting

/-! ## Commands under settings -/

/-- A command that is given under these settings succeeds and leaves these files. -/
def Leaves (color : Bool) (env : Variables) (o : Settings) (c : Command)
    (files files' : Tree) : Prop :=
  ∃ flags, loadWithFlags files env flags = .ok o ∧
    ((⟨c, flags⟩ : Request).execute color files env).fault = none ∧
    ((⟨c, flags⟩ : Request).execute color files env).files = files'

section

variable {color : Bool} {env : Variables} {o : Settings} {files files' : Tree}

theorem execute_of_run {c : Command} {flags : Arguments}
    (hload : loadWithFlags files env flags = .ok o) {after : Trail}
    (hrun : (c.perform color o).run.run { files := files } = (.ok (), after)) :
    ((⟨c, flags⟩ : Request).execute color files env).fault = none ∧
      ((⟨c, flags⟩ : Request).execute color files env).files = after.files := by
  simp [Request.execute, hload, hrun]

theorem Leaves.run {c : Command} (h : Leaves color env o c files files') :
    ∃ after, (c.perform color o).run.run { files := files } = (.ok (), after) ∧
      after.files = files' := by
  obtain ⟨flags, hload, hfault, hfiles⟩ := h
  grind [Request.execute]

theorem Leaves.build {dir : Text} (h : Leaves color env o (.build dir) files files') :
    ∃ after s counts kind prior final,
      Built o dir { files := files } after s counts kind prior final ∧
      files' = (kind.holding final).save files o.db := by
  obtain ⟨after, hrun, hfiles⟩ := h.run
  obtain ⟨s, opened, hopen, hrun⟩ := run_bind_eq_ok hrun
  obtain ⟨built, mid, hbuild, hrun⟩ := run_bind_eq_ok hrun
  obtain ⟨kind, prior, final, hbuilt⟩ := built_of_run hopen hbuild
  refine ⟨mid, s, built.2, kind, prior, final, hbuilt, ?_⟩
  rw [← hfiles, ← hbuilt.files]
  exact (keeps_note _).files_eq hrun

/-- The stage that localizes, in a store that opens as it is. -/
theorem Leaves.localize {shown : Bool} {s : Store} (hconnect : Store.connect files o.db = .ok s)
    (hsaved : s.save files o.db = files) (h : Leaves color env o (.localize shown) files files') :
    ∃ cs, (localizeTrace files s o).result = .ok cs ∧
      files.store? o.candidates (CandidateFile.mk [] cs).render = some files' := by
  obtain ⟨after, hrun, hfiles⟩ := h.run
  obtain ⟨_, opened, hopen, hrun⟩ := run_bind_eq_ok hrun
  obtain ⟨hsame, rfl⟩ := run_openStore_eq_ok hopen
  rw [hconnect] at hsame
  cases hsame
  obtain ⟨cs, mid, hlocalize, hrun⟩ := run_bind_eq_ok hrun
  obtain ⟨hresult, hmid⟩ := run_localizeTrace_eq_ok hlocalize
  simp only [hsaved] at hresult hmid
  refine ⟨cs, hresult, ?_⟩
  have hwrite : ∃ shownAt notices, shownAt.files = files ∧
      (writeCandidates o.candidates [] cs >>= fun _ => note notices).run.run shownAt =
        (.ok (), after) := by
    cases shown with
    | true =>
      obtain ⟨_, shownAt, hshow, hrun⟩ := run_bind_eq_ok hrun
      cases hshow
      refine ⟨_, _, ?_, hrun⟩
      exact hmid
    | false => exact ⟨mid, _, hmid, hrun⟩
  obtain ⟨shownAt, notices, hshown, hrun⟩ := hwrite
  obtain ⟨_, written, hwritten, hrun⟩ := run_bind_eq_ok hrun
  rw [← hshown, run_writeCandidates_eq_ok hwritten, ← hfiles]
  exact congrArg some ((keeps_note _).files_eq hrun).symm

/-- The stage that writes repairs, of all candidates. -/
theorem Leaves.patch {top : Int} (htop : top ≤ 0)
    (h : Leaves color env o (.patch top) files files') :
    ∃ source cs, files.fetch? o.candidates = some source ∧
      (CandidateFile.read? source).map (·.candidates) = some cs ∧
      (generate files o.output (Pattern.select o.patterns) cs).fault = none ∧
      files' = (generate files o.output (Pattern.select o.patterns) cs).files := by
  obtain ⟨after, hrun, hfiles⟩ := h.run
  obtain ⟨cs, mid, hread, hrun⟩ := run_bind_eq_ok hrun
  obtain ⟨rfl, source, hfetch, hcandidates⟩ := run_readCandidates_eq_ok hread
  obtain ⟨report, patched, hpatch, hrun⟩ := run_bind_eq_ok hrun
  rw [if_neg (by omega)] at hpatch
  obtain ⟨hfault, hpatched⟩ := run_generatePatches_eq_ok hpatch
  cases hrun
  exact ⟨source, cs, hfetch, hcandidates, hfault, hfiles.symm.trans hpatched⟩

/-- One pass, where the settings name a trace, an output and a file of candidates. -/
theorem run_onePass {dir : Text} {trail built : Trail} {s : Store} {counts : GraphCounts}
    {kind : Store} {prior final : Database} {cs : List Candidate} {localized : Tree}
    (hbuilt : Built o dir trail built s counts kind prior final)
    (hresult : (localizeTrace built.files (kind.holding final) o).result = .ok cs)
    (hplain : Repository.find? built.files dir = none)
    (hstore : built.files.store? o.candidates (CandidateFile.mk [] cs).render = some localized)
    (hfault : (generate localized o.output (Pattern.select o.patterns) cs).fault = none) :
    ∃ after, ((Command.run dir).perform color o).run.run trail = (.ok (), after) ∧
      after.files = (generate localized o.output (Pattern.select o.patterns) cs).files := by
  have htrace : o.trace ≠ [] := by
    intro hempty
    rw [localizeTrace, hempty] at hresult
    cases hresult
  have houtput : o.output ≠ [] := by
    intro hempty
    rw [generate, hempty] at hfault
    cases hfault
  have hcandidates : o.candidates ≠ [] := by
    intro hempty
    rw [hempty] at hstore
    cases hstore
  obtain ⟨said, hlocalize⟩ := run_localizeTrace_ok hresult
  have hrevision : Revision.revision? built.files dir = none := by
    rw [Revision.revision?, hplain]
    rfl
  simp only [Command.perform, List.isEmpty_iff, htrace, houtput, if_false]
  rw [run_bind_ok hbuilt.opened, run_bind_ok hbuilt.run]
  dsimp only
  rw [run_bind_ok hlocalize]
  have hshow : (show_ color cs).run.run ⟨built.files, said, built.output⟩ =
      (.ok (), ⟨built.files, said, built.output ++ listing color cs⟩) := rfl
  rw [run_bind_ok hshow, if_pos (by simpa using hcandidates)]
  obtain ⟨asked, hasked⟩ :=
    run_revision ⟨built.files, said, built.output ++ listing color cs⟩ dir
  simp only [hrevision, Option.getD_none] at hasked
  rw [run_bind_ok hasked]
  have hwrite : (writeCandidates o.candidates [] cs).run.run
      ⟨built.files, asked, built.output ++ listing color cs⟩ =
        (.ok (), ⟨localized, asked, built.output ++ listing color cs⟩) :=
    run_writeCandidates_ok hstore
  rw [run_bind_ok hwrite]
  obtain ⟨report, notices, hpatched⟩ : ∃ report notices, (generatePatches o cs).run.run
      ⟨localized, asked, built.output ++ listing color cs⟩ =
        (.ok report, ⟨(generate localized o.output (Pattern.select o.patterns) cs).files, notices,
          built.output ++ listing color cs⟩) :=
    run_generatePatches_ok hfault
  rw [run_bind_ok hpatched]
  exact ⟨_, rfl, rfl⟩

/-- **One pass equals three stages.**  Outside a repository, under settings that every command
finds as they are, and where the candidates read back from their file, the tool leaves the same
files in one pass as stage by stage: the store, the file of candidates and what lies below the
output directory. If the stages succeed, so does the one pass. -/
theorem one_pass_eq_stages {dir : Text} {shown : Bool} {top : Int} {built localized patched : Tree}
    (hfiles : files.WellFormed) (hplain : Repository.find? files dir = none)
    (hbuild : Leaves color env o (.build dir) files built)
    (hlocalize : Leaves color env o (.localize shown) built localized)
    (htop : top ≤ 0) (hpatch : Leaves color env o (.patch top) localized patched)
    (hback : ∀ cs, (localizeTrace built (Store.ofName built o.db) o).result = .ok cs →
      (CandidateFile.read? (CandidateFile.mk [] cs).render).map (·.candidates) = some cs)
    {flags : Arguments} (hflags : loadWithFlags files env flags = .ok o) :
    ((⟨.run dir, flags⟩ : Request).execute color files env).fault = none ∧
      ((⟨.run dir, flags⟩ : Request).execute color files env).files = patched := by
  obtain ⟨after, s, counts, kind, prior, final, hbuilt, rfl⟩ := hbuild.build
  have hprior : Store.ofName files o.db = kind.holding prior := hbuilt.prior
  have hfree := free_of_ofName hprior
  obtain ⟨cs, hresult, hstore⟩ := hlocalize.localize (connect_save hprior hbuilt.initialised)
    (save_save files o.db kind final final)
  obtain ⟨source, found, hfetch, hread, hfault, rfl⟩ := hpatch.patch htop
  -- What the third stage reads is what the second one wrote.
  have hsource : source = (CandidateFile.mk [] cs).render := by
    rw [save_holding] at hstore
    obtain ⟨place, hplace, hwritten⟩ := (hfree.wellFormed final hfiles).store? hstore
    obtain ⟨htext, -⟩ := hwritten.wellFormed.fetch? hfetch
    rw [Tree.textAt?, Tree.placeOf?_congr hwritten.workDir, hplace, Option.bind_some,
      hwritten.here] at htext
    exact (Option.some.inj htext).symm
  have hfound : found = cs := by
    rw [ofName_save hprior] at hback
    rw [hsource, hback cs hresult] at hread
    exact (Option.some.inj hread).symm
  subst hfound
  have hafter : after.files = (kind.holding final).save files o.db := hbuilt.files
  rw [← hafter] at hresult hstore
  have hstill : Repository.find? after.files dir = none := by
    rw [hafter, save_holding]
    exact find?_set final hfree hplain
  obtain ⟨left, hrun, hleft⟩ := run_onePass hbuilt hresult hstill hstore hfault
  rw [← hleft]
  exact execute_of_run hflags hrun

end

/-- A module without packages, a file to repair, and a trace with one frame in it. -/
def bench : Tree where
  nodes := [("/m", .directory), ("/m/go.mod", .file "module m\n"),
    ("/a.go", .file "package p\n\nfunc f(xs []int, i int) int \x7b\n\treturn xs[i]\n\x7d\n"),
    ("/t", .file "0: 0x1 - f\n at /a.go:4:2\n")]
  workDir := "/"

def benchFlags : Arguments := { flags := [("trace", .text "t"), ("output", .text "out")] }

def benchSettings : Settings :=
  { Settings.defaults bench.goRoot with trace := "t", output := "out" }

/-- The files after some commands on the bench, one after the other. -/
def benchAfter (commands : List Command) : Tree :=
  commands.foldl (fun files c => ((⟨c, benchFlags⟩ : Request).execute false files []).files) bench

theorem wellFormed_bench : bench.WellFormed := by
  have hwritten : [(Text.ofString "m/go.mod", Text.ofString "module m\n"),
      (Text.ofString "a.go",
        Text.ofString "package p\n\nfunc f(xs []int, i int) int \x7b\n\treturn xs[i]\n\x7d\n"),
      (Text.ofString "t", Text.ofString "0: 0x1 - f\n at /a.go:4:2\n")].foldlM
        (fun (t : Tree) e => t.write? e.1 e.2) { workDir := Text.Path.spell [] } = some bench := rfl
  exact Tree.wellFormed_of_writes hwritten

/-- The command succeeds on what some commands have left of the bench. -/
theorem bench_leaves (commands : List Command) {c : Command}
    (hload : loadWithFlags (benchAfter commands) [] benchFlags = .ok benchSettings)
    (hfault : ((⟨c, benchFlags⟩ : Request).execute false (benchAfter commands) []).fault = none) :
    Leaves false [] benchSettings c (benchAfter commands) (benchAfter (commands ++ [c])) := by
  refine ⟨benchFlags, hload, hfault, ?_⟩
  rw [benchAfter, benchAfter, List.foldl_append]
  rfl

theorem bench_one_pass :
    bench.WellFormed ∧ Repository.find? bench "m" = none ∧
      Leaves false [] benchSettings (.build "m") bench (benchAfter [.build "m"]) ∧
      Leaves false [] benchSettings (.localize true) (benchAfter [.build "m"])
        (benchAfter [.build "m", .localize true]) ∧
      Leaves false [] benchSettings (.patch 0) (benchAfter [.build "m", .localize true])
        (benchAfter [.build "m", .localize true, .patch 0]) ∧
      ((⟨.run "m", benchFlags⟩ : Request).execute false bench []).fault = none ∧
      ((⟨.run "m", benchFlags⟩ : Request).execute false bench []).files =
        benchAfter [.build "m", .localize true, .patch 0] := by
  have hplain : Repository.find? bench "m" = none := by decide +kernel
  have hload : loadWithFlags bench [] benchFlags = .ok benchSettings := by decide +kernel
  have hbuild : Leaves false [] benchSettings (.build "m") bench (benchAfter [.build "m"]) :=
    bench_leaves [] hload (by decide +kernel)
  have hlocalize : Leaves false [] benchSettings (.localize true) (benchAfter [.build "m"])
      (benchAfter [.build "m", .localize true]) :=
    bench_leaves [.build "m"] (by decide +kernel) (by decide +kernel)
  have hpatch : Leaves false [] benchSettings (.patch 0) (benchAfter [.build "m", .localize true])
      (benchAfter [.build "m", .localize true, .patch 0]) :=
    bench_leaves [.build "m", .localize true] (by decide +kernel) (by decide +kernel)
  have hresult : (localizeTrace (benchAfter [.build "m"])
      (Store.ofName (benchAfter [.build "m"]) benchSettings.db) benchSettings).result =
      .ok [{ ident := "f", line := 4, col := 2, file := "/a.go", depth := 1
             score := ⟨0x3FF0000000000000⟩ }] := by decide +kernel
  refine ⟨wellFormed_bench, hplain, hbuild, hlocalize, hpatch,
    one_pass_eq_stages wellFormed_bench hplain hbuild hlocalize (Int.le_refl 0) hpatch ?_ hload⟩
  intro cs hcs
  rw [hresult] at hcs
  cases hcs
  decide +kernel

end FaultRepair.Command
