/-
# Warnings about files that have changed

When a graph is written, the fingerprints of the analysed files go with it. Localizing compares the
file of a frame with the fingerprint that is stored for it, once for every file and before it looks
whether the frame adds anything.

The warnings of a run are told apart from its other notices, and an induction over the frames says
that they are those of the distinct files, in the order in which the trace first names them. What
is stored for a file comes from the fingerprint of its last recording; all recordings of a build
read the same files, so they agree.
-/

import FaultRepair.Proofs.Fault.Emission
import FaultRepair.Proofs.Store.History
import FaultRepair.Proofs.Store.Writers

namespace FaultRepair.Fault

open FaultRepair.Graph Store Files Report Trace List

def warnings (notices : List Notice) : List Notice := notices.filter (·.level = .warning)

@[simp]
theorem warnings_append (first second : List Notice) :
    warnings (first ++ second) = warnings first ++ warnings second :=
  filter_append ..

theorem flatMap_ite (p : α → Bool) (g : α → β) (items : List α) :
    (items.flatMap fun a => if p a then [g a] else []) = (items.filter p).map g := by
  induction items with
  | nil => rfl
  | cons a rest ih => cases h : p a <;> simp [h, ih]

def staleWarning (revision file : Text) : Notice :=
  .warning (file ++ " changed since the graph was built (revision " ++ revision ++
    "); locations may be stale")

/-- The file can be read in both states, and what is in it has different fingerprints. -/
def changedSince (before after : Tree) (file : Text) : Bool :=
  match before.read file, after.read file with
  | .ok old, .ok new =>
    Fingerprint.render (Fingerprint.ofSource new) != Fingerprint.render (Fingerprint.ofSource old)
  | _, _ => false

/-! ## The warnings of a run -/

section Run

variable {files : Tree} {s : Store} {depth : Nat} {l l' : Localizing}

/-- What comes from the locations of a frame is no warning. -/
theorem Localizing.frame_warnings {f : Frame} (h : l.frame s depth f = .ok l') :
    warnings l'.notices = warnings l.notices ∧ l'.checked = l.checked := by
  unfold Localizing.frame at h
  dsimp only at h
  split at h
  · cases h
    exact ⟨rfl, rfl⟩
  · obtain ⟨⟨roots, notes⟩, hroots, hafter⟩ := bind_eq_ok.mp h
    obtain ⟨⟨rows, seen⟩, -, hresult⟩ := bind_eq_ok.mp hafter
    cases hresult
    have hnotes : warnings notes = [] := by
      unfold rootsOf at hroots
      split at hroots
      · cases hrows : s.findOnLine f.file f.line <;> rw [hrows] at hroots <;> cases hroots
        rfl
      · split at hroots <;> cases hroots <;> rfl
    exact ⟨by rw [warnings_append, hnotes, append_nil], rfl⟩

/-- The files of a trace are checked one after the other, each when it is first named. -/
theorem Localizing.frames_warnings {frames : List Frame}
    (h : Localizing.frames files s depth l frames = .ok l') :
    warnings l'.notices = warnings l.notices ++
      ((frames.map (·.file)).filter (· ∉ l.checked)).eraseDups.flatMap fun file =>
        warnings (staleness files s file) := by
  induction frames generalizing l with
  | nil =>
    cases h
    simp
  | cons f rest ih =>
    rw [Localizing.frames] at h
    split at h
    · cases h
    · rename_i middle hframe
      obtain ⟨hwarnings, hchecked⟩ := Localizing.frame_warnings hframe
      rw [ih h, hwarnings, hchecked, Localizing.check]
      by_cases hknown : f.file ∈ l.checked
      · simp [hknown]
      · have hbeq (file : Text) : (file == f.file) = decide (file = f.file) := by
          by_cases hfile : file = f.file <;> simp [hfile]
        simp [hknown, eraseDups_cons, filter_filter, hbeq]

end Run

/-! ## What is stored for a file -/

/-- What was recorded last for a file is its fingerprint, if it was among those recorded. -/
theorem getLast?_fingerprints {files : Tree} {revision : Text} {paths : List Text}
    {sources : List SourceFile} (h : fingerprints files revision paths = .ok sources)
    (file : Text) : (sources.filter (·.path = file)).getLast? =
      if file ∈ paths then (fingerprint files revision file).toOption else none := by
  induction paths generalizing sources with
  | nil =>
    cases h
    rfl
  | cons path rest ih =>
    rw [fingerprints, mapM_cons] at h
    obtain ⟨source, hsource, hafter⟩ := bind_eq_ok.mp h
    obtain ⟨others, hothers, hresult⟩ := bind_eq_ok.mp hafter
    cases hresult
    have hpath : source.path = path := by
      unfold fingerprint at hsource
      split at hsource <;> cases hsource
      rfl
    by_cases hfile : path = file
    · subst hfile
      rw [filter_cons_of_pos (by simpa using hpath), getLast?_cons, ih hothers, hsource]
      by_cases hrest : path ∈ rest <;> simp [hrest, Except.toOption]
    · rw [filter_cons_of_neg (by simpa [hpath] using hfile), ih hothers]
      simp [Ne.symm hfile]

/-- A file is warned about if it is among those recorded and has changed. -/
theorem warnings_staleness {before after : Tree} {revision : Text} {paths : List Text}
    {sources : List SourceFile} (hsources : fingerprints before revision paths = .ok sources)
    {d : Database} (hd : d.sources = some (sources.foldl Database.upsert [])) (file : Text) :
    warnings (staleness after d.store file) =
      if paths.contains file && changedSince before after file then [staleWarning revision file]
      else [] := by
  rw [staleness, Database.store_sourceHash hd, find?_foldl_upsert, getLast?_fingerprints hsources]
  by_cases hfile : file ∈ paths
  · simp only [hfile, if_true, fingerprint, changedSince, contains_eq_mem, decide_true,
      Bool.true_and]
    cases before.read file with
    | error f => rfl
    | ok old =>
      cases after.read file with
      | error f => rfl
      | ok new =>
        simp only [Except.toOption, Store.found]
        split <;> simp_all [warnings, staleWarning, Notice.warning]
  · simp [hfile, Store.found, warnings]

/-- **Warnings are exact.**  Let a graph be written to a database that was reset, by either writer.
Under any later state of the files, localizing any trace warns about the files that the trace names,
that were recorded, that can be read and that have another fingerprint now: about each of them once,
in the order in which they are first named. If the recorded files are as they were, there is no
warning. -/
theorem changed_files_warned {before : Tree} {prior : Database} {cleared : Store} {rows : Bool}
    {g : DepGraph} {paths : List Text} {revision : Text} {counts : GraphCounts}
    (hreset : prior.store.reset = .ok cleared)
    (hwritten : (persist before cleared rows g paths revision).outcome = .ok counts)
    (after : Tree) (depth : Int) (frames : List Frame) :
    ∃ candidates notices,
      localize after (persist before cleared rows g paths revision).store depth frames =
        .ok (candidates, notices) ∧
      warnings notices = ((frames.map (·.file)).eraseDups.filter fun file =>
        paths.contains file && changedSince before after file).map (staleWarning revision) ∧
      ((∀ path ∈ paths, after.read path = before.read path) → warnings notices = []) := by
  have hcleared : cleared = prior.reset.store := (Except.ok.inj hreset).symm
  subst hcleared
  cases hsources : fingerprints before revision paths with
  | error f => simp [persist, hsources] at hwritten
  | ok sources =>
    obtain ⟨d, happended, hleaves⟩ := persist_leaves (d := prior.reset) ⟨rfl, rfl, rfl⟩ hsources g
    have hstore : (persist before prior.reset.store rows g paths revision).store = d.store :=
      (hleaves rows).store_eq
    obtain ⟨locations, -, hlocations⟩ := happended.locations
    obtain ⟨dependencies, number, -, hdependencies, -⟩ := happended.dependencies
    obtain ⟨recorded, hrecorded, hd⟩ := happended.sources
    cases hrecorded
    obtain ⟨l, hframes⟩ :=
      Localizing.frames_ok (answers_of_tables hlocations hdependencies) after depth.toNat {} frames
    have hwarnings : warnings l.notices = ((frames.map (·.file)).eraseDups.filter fun file =>
        paths.contains file && changedSince before after file).map (staleWarning revision) := by
      rw [Localizing.frames_warnings hframes]
      simp only [warnings_staleness hsources hd, flatMap_ite]
      simp [warnings]
    have hnotices (opening closing : Text) :
        warnings (.log opening :: l.notices ++ [.log closing]) = warnings l.notices := by
      simp [warnings, Notice.log]
    rw [hstore, localize, hframes]
    refine ⟨_, _, rfl, (hnotices ..).trans hwarnings, ?_⟩
    intro hsame
    rw [hnotices, hwarnings, map_eq_nil_iff, filter_eq_nil_iff]
    intro file _ hchanged
    obtain ⟨hfile, hchanged⟩ := Bool.and_eq_true_iff.mp hchanged
    rw [changedSince, hsame file (contains_iff_mem.mp hfile)] at hchanged
    cases hread : before.read file <;> simp [hread] at hchanged

/-- The file is recorded twice, has one more line now, and two frames at one position name it. -/
theorem grown_file_warned :
    let before : Tree := { nodes := [("/a.go", .file "package a\n")] }
    let after : Tree := { nodes := [("/a.go", .file "package a\n\n")] }
    let frame : Frame := ⟨"f", "/a.go", 1, 1, 0⟩
    let written := persist before (Database.reset {}).store false .empty ["/a.go", "/a.go"] "r1"
    ∃ candidates notices,
      localize after written.store 1 [frame, frame] = .ok (candidates, notices) ∧
        warnings notices = [staleWarning "r1" "/a.go"] := by
  intro before after frame written
  have hreset : (Database.store {}).reset = .ok (Database.reset {}).store := rfl
  have hwritten : written.outcome = .ok ⟨0, 0, 2⟩ := rfl
  obtain ⟨candidates, notices, hlocalize, hwarnings, -⟩ :=
    changed_files_warned hreset hwritten after 1 [frame, frame]
  exact ⟨candidates, notices, hlocalize, hwarnings.trans rfl⟩

end FaultRepair.Fault
