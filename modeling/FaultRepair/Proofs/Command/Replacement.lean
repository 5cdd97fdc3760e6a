/-
# Replacing the graph of a store

A build empties the store and then writes the new graph, each in a transaction of its own.
Between the two the analysed files are read for their fingerprints, and one that cannot be
read ends the build. So a build does not always leave the old graph or the new one: it may
leave none.

Besides, there may be trouble at any statement. A store that cannot be emptied is left as it
was. Once it is empty, a database file takes the graph as a whole or not at all. A server takes
it row by row, so it is left with the first rows of the graph, up to the one that failed.
-/

import FaultRepair.Command.Stages
import FaultRepair.Proofs.Store.Interrupted
import FaultRepair.Proofs.Store.Placement

namespace FaultRepair.Command

open Config Files FaultRepair.Graph Store
open Store.Store (ofName)

/-! ## Parts of a build -/

namespace Action

variable {trail after : Trail}

theorem run_bind_ok {x : Action α} {f : α → Action β} {a : α}
    (hx : x.run.run trail = (.ok a, after)) : (x >>= f).run.run trail = (f a).run.run after := by
  rw [ExceptT.run_bind, StateT.run_bind, hx]
  rfl

theorem run_bind_error {x : Action α} {f : α → Action β} {e : CommandFault}
    (hx : x.run.run trail = (.error e, after)) : (x >>= f).run.run trail = (.error e, after) := by
  rw [ExceptT.run_bind, StateT.run_bind, hx]
  rfl

variable (o : Settings) (trail)

theorem run_files : files.run.run trail = (.ok trail.files, trail) := rfl

theorem run_reset_ok {s cleared : Store} (hreset : s.reset = .ok cleared) :
    (reset o s).run.run trail =
    (.ok cleared, { trail with files := cleared.save trail.files o.db }) := by
  rw [reset, hreset]
  rfl

theorem run_reset_error {s : Store} {fault : StoreFault} (hreset : s.reset = .error fault) :
    (reset o s).run.run trail = (.error (.build (.reset fault)), trail) := by
  rw [reset, hreset]
  rfl

theorem run_revision (dir : Text) :
    ∃ notices, (Action.revision dir).run.run trail =
      (.ok ((Revision.revision? trail.files dir).getD []), { trail with notices := notices }) := by
  rw [revision, run_bind_ok (run_files trail)]
  cases Revision.revision? trail.files dir with
  | some r => exact ⟨trail.notices, rfl⟩
  | none => exact ⟨_, rfl⟩

theorem run_persist (s : Store) (r : BuildResult) (revision : Text) :
    ∃ notices, (persist o s r revision).run.run trail =
      let written := Store.persist trail.files s false r.graph r.files revision
      ((written.outcome.map fun counts => (written.store, counts)).mapError fun f =>
        .build (.persist f),
          { trail with files := written.store.save trail.files o.db, notices := notices }) := by
  rw [persist, run_bind_ok (run_files trail)]
  generalize Store.persist trail.files s false r.graph r.files revision = written
  obtain ⟨store, notices, outcome⟩ := written
  cases outcome with
  | error f => exact ⟨_, rfl⟩
  | ok counts => exact ⟨_, rfl⟩

/-- A build whose store is emptied goes on to write the graph. -/
theorem run_replace_of_reset {s cleared : Store} (hreset : s.reset = .ok cleared) (dir : Text)
    (r : BuildResult) :
    ∃ notices, (replace o dir s r).run.run trail =
      let files := cleared.save trail.files o.db
      let written := Store.persist files cleared false r.graph r.files
        ((Revision.revision? files dir).getD [])
      ((written.outcome.map fun counts => (written.store, counts)).mapError fun f =>
        .build (.persist f),
          { trail with files := written.store.save files o.db, notices := notices }) := by
  obtain ⟨said, hrevision⟩ := run_revision { trail with files := cleared.save trail.files o.db } dir
  obtain ⟨notices, hpersist⟩ := run_persist
    { trail with files := cleared.save trail.files o.db, notices := said } o cleared r
    ((Revision.revision? (cleared.save trail.files o.db) dir).getD [])
  refine ⟨notices, ?_⟩
  rw [replace, run_bind_ok (run_reset_ok trail o hreset), run_bind_ok hrevision, hpersist]

end Action

/-! ## Stores of names -/

/-- A store that lasts only as long as one operation. -/
def fleeting : Store := .file { database := .ok .blank, kept := false }

/-- A store of a name keeps a database, in a file or on a server, or it keeps nothing. -/
theorem ofName_cases (files : Tree) (name : Text) :
    (∃ (s : Store) (d : Database), ofName files name = s.holding d) ∨
      (∃ cause, (ofName files name).backing.database = .error cause) ∨
      ofName files name = fleeting := by
  rw [ofName]
  split
  · cases hdatabase : serverDatabase files name with
    | error cause => exact .inr (.inl ⟨cause, rfl⟩)
    | ok d => exact .inl ⟨.remote { database := .ok d }, d, rfl⟩
  · rw [Store.ofFile]
    split
    · exact .inr (.inr rfl)
    · cases hdatabase : fileDatabase files name with
      | error cause => exact .inr (.inl ⟨cause, rfl⟩)
      | ok d => exact .inl ⟨d.store, d, rfl⟩

theorem reset_unopened {s : Store} {cause : Cause} (h : s.backing.database = .error cause) :
    ∃ fault, s.reset = .error fault := by
  simp [Store.reset, Store.alter, Store.write, Backing.change, h, Except.map]

section

variable (s : Store) (d : Database) {t : Option Trouble}

theorem backing_meeting_holding : ((s.holding d).meeting t).backing = ⟨.ok d, true, t⟩ := by
  cases s <;> rfl

theorem database?_holding : (s.holding d).database? = some d := by cases s <;> rfl

theorem save_meeting (files : Tree) (name : Text) :
    ((s.holding d).meeting t).save files name = (s.holding d).save files name := by
  cases s <;> rfl

theorem reset_meeting (ht : cutShort t 1 = false) :
    ((s.holding d).meeting t).reset = .ok ((s.holding d.reset).meeting (t.map (·.later 1))) := by
  have hstep : (fun d : Database => some d.reset) d = some d.reset := rfl
  rw [Store.reset, Database.alter_eq_ok (backing_meeting_holding s d) ht hstep]
  cases s <;> rfl

theorem reset_meeting_cutShort (ht : cutShort t 1 = true) :
    ∃ fault, ((s.holding d).meeting t).reset = .error fault :=
  Database.alter_cutShort (backing_meeting_holding s d) ht none _

end

/-! ## The endings -/

/-- Fingerprints fail only for a file that cannot be read, and name it. -/
theorem unreadable_of_fingerprints {files : Tree} {revision : Text} {paths : List Text}
    {fault : PersistFault} (hfailed : fingerprints files revision paths = .error fault) :
    ∃ path ∈ paths, ∃ cause, files.read path = .error cause ∧ fault = .unreadable path cause := by
  induction paths with
  | nil => cases hfailed
  | cons path rest ih =>
    rw [fingerprints, List.mapM_cons] at hfailed
    cases hread : files.read path with
    | error cause =>
      simp only [fingerprint, hread] at hfailed
      cases hfailed
      exact ⟨path, List.mem_cons_self, cause, hread, rfl⟩
    | ok data =>
      have hrest : fingerprints files revision rest = .error fault := by
        rw [fingerprints]
        cases hmore : rest.mapM (fingerprint files revision) with
        | error other =>
          simp only [fingerprint, hread, hmore] at hfailed
          cases hfailed
          rfl
        | ok sources =>
          simp only [fingerprint, hread, hmore] at hfailed
          cases hfailed
      obtain ⟨unread, hmem, hcause⟩ := ih hrest
      exact ⟨unread, List.mem_cons_of_mem path hmem, hcause⟩

/-- The files of a store and a directory as they are once the store was emptied, and the
fingerprints that are taken of them then. -/
def fingerprintsAfterReset (files : Tree) (name dir : Text) (cleared : Store) (r : BuildResult) :
    Except PersistFault (List Store.SourceFile) :=
  fingerprints (cleared.save files name)
    ((Revision.revision? (cleared.save files name) dir).getD []) r.files

/-- How the replacement of the graph in a named store may end, where there may be trouble after
some statements: the outcome, and the store that the name stands for afterwards. -/
inductive Ending (files : Tree) (name dir : Text) (t : Option Trouble) (r : BuildResult) :
    Except CommandFault (Store × GraphCounts) → Store → Prop where
  /-- The store holds the new graph with its fingerprints, and nothing before it. -/
  | replaced {s : Store} {prior final : Database} {sources : List Store.SourceFile}
    {statements : Nat}
      (hprior : ofName files name = s.holding prior)
      (hsources : fingerprintsAfterReset files name dir (s.holding prior.reset) r = .ok sources)
      (hfinal : HoldsRows r.graph (rowsOf r.graph sources) final) :
      Ending files name dir t r
        (.ok ((s.holding final).meeting (t.map (·.later statements)),
          ⟨r.graph.locations.length, (edgeOrder r.graph).length, sources.length⟩))
        (s.holding final)
  /-- The store keeps no database, or there is trouble before it is emptied, and it is as it
  was. -/
  | kept {fault : BuildFault}
      (hkept : (∀ (s : Store) (prior : Database), ofName files name ≠ s.holding prior) ∨
        cutShort t 1 = true) :
      Ending files name dir t r (.error (.build fault)) (ofName files name)
  /-- A file cannot be read, and the store was emptied before that was noticed. -/
  | unread {s : Store} {prior : Database} {path : Text} {cause : ReadFault}
      (hprior : ofName files name = s.holding prior) (hpath : path ∈ r.files)
      (hread : ((s.holding prior.reset).save files name).read path = .error cause) :
      Ending files name dir t r (.error (.build (.persist (.unreadable path cause))))
        (s.holding prior.reset)
  /-- There is trouble in the transaction that writes to a database file, and the file was
  emptied before. -/
  | undone {prior : Database} {sources : List Store.SourceFile} {cause : Cause}
      (hprior : ofName files name = prior.store)
      (hsources : fingerprintsAfterReset files name dir prior.reset.store r = .ok sources)
      (htrouble : cutShort (t.map (·.later 1)) (wholeStatements r.graph sources) = true) :
      Ending files name dir t r
        (.error (.build (.persist (.store (.failed (some .writeGraph) cause)))))
        prior.reset.store
  /-- A row cannot be written to a server, which holds the rows before it. -/
  | part {prior final : Database} {sources : List Store.SourceFile} {done rest : List Row}
    {row : Row}
      {fault : StoreFault} (hprior : ofName files name = prior.served)
      (hsources : fingerprintsAfterReset files name dir prior.reset.served r = .ok sources)
      (hrows : rowsOf r.graph sources = done ++ row :: rest) (hfinal : HoldsRows r.graph done final)
      (hstops : Stops (t.map (·.later 1)) done row fault) :
      Ending files name dir t r (.error (.build (.persist (.store fault)))) final.served

variable {o : Settings} {trail : Trail} {t : Option Trouble}

/-- Only a replacement that leaves the new graph succeeds, and it hands on the store. -/
theorem Ending.of_ok {files : Tree} {name dir : Text} {r : BuildResult}
    {built : Store × GraphCounts} {left : Store} (h : Ending files name dir t r (.ok built) left) :
    (∃ statements, built.1 = left.meeting (t.map (·.later statements))) ∧
      ∀ d, left.database? = some d → Initialised d := by
  cases h with
  | replaced hprior hsources hfinal =>
    refine ⟨⟨_, rfl⟩, fun d hd => ?_⟩
    rw [database?_holding] at hd
    cases hd
    exact hfinal.initialised

/-- What is written to an emptied store ends a replacement. -/
theorem ending_of_writeGraph {files : Tree} {name dir : Text} {s : Store} {prior : Database}
    {r : BuildResult} {sources : List Store.SourceFile}
    (hprior : ofName files name = s.holding prior)
    (hsources : fingerprintsAfterReset files name dir (s.holding prior.reset) r = .ok sources) :
    ∃ final statements outcome,
      ((s.holding prior.reset).meeting (t.map (·.later 1))).writeGraph false r.graph sources =
        ((s.holding final).meeting (t.map (·.later statements)), outcome) ∧
      Ending files name dir t r
        ((outcome.mapError PersistFault.store).map (fun counts =>
            ((s.holding final).meeting (t.map (·.later statements)), counts))
          |>.mapError fun f => .build (.persist f))
        (s.holding final) := by
  cases s with
  | file b =>
    cases htrouble : cutShort (t.map (·.later 1)) (wholeStatements r.graph sources) with
    | true =>
      obtain ⟨cause, hwrite⟩ := prior.reset.writeWhole_cutShort htrouble
      exact ⟨prior.reset, 1, _, hwrite, .undone hprior hsources htrouble⟩
    | false =>
      obtain ⟨tally, final, -, halong, hcounts, hgraph⟩ :=
        Database.exists_along (d := prior.reset) ⟨rfl, rfl, rfl⟩ r.graph sources
      rw [hcounts] at hgraph
      have hwrite := Database.writeWhole_meeting htrouble hgraph
      rw [map_later_later] at hwrite
      exact ⟨final, _, _, hwrite, .replaced hprior hsources (holdsRows_of_grows halong.grows)⟩
  | remote b =>
    have hserved := writeRows_served prior r.graph sources (t.map (·.later 1))
    have hrows : ((Store.remote b).holding prior.reset).meeting (t.map (·.later 1)) =
        prior.reset.served.meeting (t.map (·.later 1)) := rfl
    rw [hrows, Store.writeGraph]
    · generalize Store.writeRows _ r.graph sources = written at hserved
      cases hserved with
      | whole hd =>
        rw [map_later_later]
        exact ⟨_, _, _, rfl, .replaced hprior hsources hd⟩
      | part hrows hd hstops =>
        rw [map_later_later]
        exact ⟨_, _, _, rfl, .part hprior hsources hrows hd hstops⟩
    · intro b hfile
      cases hfile

/-- The run of a replacement in a store that is emptied: the files are read after that. -/
theorem ending_of_holding {s : Store} {prior : Database}
    (hprior : ofName trail.files o.db = s.holding prior) (ht : cutShort t 1 = false) (dir : Text)
    (r : BuildResult) :
    ∃ outcome final notices, (Action.replace o dir ((s.holding prior).meeting t) r).run.run trail =
        (outcome,
          { trail with files := (s.holding final).save trail.files o.db, notices := notices }) ∧
      Ending trail.files o.db dir t r outcome (s.holding final) := by
  obtain ⟨notices, hrun⟩ :=
    Action.run_replace_of_reset trail o (reset_meeting s prior ht) dir r
  rw [save_meeting] at hrun
  rw [hrun]
  cases hsources : fingerprintsAfterReset trail.files o.db dir (s.holding prior.reset) r with
  | error fault =>
    obtain ⟨path, hpath, cause, hread, rfl⟩ := unreadable_of_fingerprints hsources
    rw [fingerprintsAfterReset] at hsources
    refine ⟨_, prior.reset, notices, ?_, .unread hprior hpath hread⟩
    simp only [Store.persist, hsources, save_meeting, save_save]
    rfl
  | ok sources =>
    obtain ⟨final, statements, outcome, hwrite, hending⟩ :=
      ending_of_writeGraph (t := t) hprior hsources
    obtain ⟨hstore, houtcome⟩ := persist_eq hsources
      ((s.holding prior.reset).meeting (t.map (·.later 1))) false r.graph
    rw [hwrite] at hstore houtcome
    refine ⟨_, final, notices, ?_, hending⟩
    simp only [hstore, houtcome, save_meeting, save_save]

/-- A store that lasts only as long as one operation has no tables when the graph is to be
written. -/
theorem persist_fleeting (files : Tree) (g : DepGraph) (paths : List Text) (revision : Text) :
    ∃ fault, Store.persist files (fleeting.meeting t) false g paths revision =
      { store := fleeting.meeting t, outcome := .error fault } := by
  cases hsources : fingerprints files revision paths with
  | error fault => exact ⟨fault, by simp only [Store.persist, hsources]⟩
  | ok sources =>
    refine ⟨.store (.failed (some .writeGraph) .refused), ?_⟩
    simp only [Store.persist, hsources]
    rfl

theorem reset_fleeting {cleared : Store} (h : (fleeting.meeting t).reset = .ok cleared) :
    ∃ left, cleared = fleeting.meeting left := by
  cases t with
  | none =>
    cases h
    exact ⟨none, rfl⟩
  | some t =>
    by_cases hnow : t.after < 1
    · have hfails : (fleeting.meeting (some t)).reset = .error (.failed none t.cause) := by
        simp [fleeting, Store.meeting, Store.reset, Store.alter, Store.write, Backing.change,
          Backing.spend, Store.backing, Store.withBacking, Except.map, hnow]
      cases hfails.symm.trans h
    · refine ⟨some (t.later 1), ?_⟩
      have hcleared : (fleeting.meeting (some t)).reset =
          .ok (fleeting.meeting (some (t.later 1))) := by
        simp [fleeting, Store.meeting, Store.reset, Store.alter, Store.write, Backing.change,
          Backing.spend, Backing.commit, Store.backing, Store.withBacking, Except.map, hnow]
      exact Except.ok.inj (h.symm.trans hcleared)

/-- **The endings of a replacement.**  Whatever the store held, whatever is to be written,
whatever the files are and wherever there is trouble, a replacement leaves the new graph; or the
store as it was, where it could not be emptied; or a store without rows, where a file cannot be
read or a database file does not take the graph; or, on a server alone, the rows before the one
that it did not take. -/
theorem replacement_ends (o : Settings) (dir : Text) (t : Option Trouble) (r : BuildResult)
    (trail : Trail) :
    Ending trail.files o.db dir t r
      ((Action.replace o dir ((Store.ofName trail.files o.db).meeting t) r).run.run trail).1
      (Store.ofName
        ((Action.replace o dir ((Store.ofName trail.files o.db).meeting t) r).run.run trail).2.files
        o.db) := by
  have hkept {fault : StoreFault}
      (hreset : ((ofName trail.files o.db).meeting t).reset = .error fault) :
      (Action.replace o dir ((ofName trail.files o.db).meeting t) r).run.run trail =
        (.error (.build (.reset fault)), trail) :=
    Action.run_bind_error (Action.run_reset_error trail o hreset)
  rcases ofName_cases trail.files o.db with ⟨s, prior, hprior⟩ | ⟨cause, hcause⟩ | hfleeting
  · cases ht : cutShort t 1 with
    | true =>
      obtain ⟨fault, hreset⟩ := reset_meeting_cutShort s prior ht
      rw [hkept (by rw [hprior]; exact hreset)]
      exact .kept (.inr ht)
    | false =>
      obtain ⟨outcome, final, notices, hrun, hending⟩ := ending_of_holding hprior ht dir r
      rw [hprior, hrun, ofName_save hprior]
      exact hending
  · have hunopened : ((ofName trail.files o.db).meeting t).backing.database = .error cause := by
      rw [← hcause]
      cases ofName trail.files o.db <;> rfl
    obtain ⟨fault, hreset⟩ := reset_unopened hunopened
    rw [hkept hreset]
    refine .kept (.inl fun s prior hprior => ?_)
    rw [hprior] at hcause
    cases s <;> cases hcause
  · have hnone (s : Store) (prior : Database) : ofName trail.files o.db ≠ s.holding prior := by
      rw [hfleeting]
      intro hholding
      cases s <;> cases hholding
    cases hreset : ((ofName trail.files o.db).meeting t).reset with
    | error fault =>
      rw [hkept hreset]
      exact .kept (.inl hnone)
    | ok cleared =>
      obtain ⟨notices, hrun⟩ := Action.run_replace_of_reset trail o hreset dir r
      rw [hfleeting] at hreset
      obtain ⟨left, rfl⟩ := reset_fleeting hreset
      obtain ⟨fault, hpersist⟩ := persist_fleeting (t := left) trail.files r.graph r.files
        ((Revision.revision? trail.files dir).getD [])
      have hfiles : (fleeting.meeting left).save trail.files o.db = trail.files := rfl
      rw [hrun]
      simp only [hfiles, hpersist]
      exact .kept (.inl hnone)

/-! ## A graph that is lost -/

def smallDatabase : Database where
  locations := some ⟨[⟨1, ⟨"a", "/a.go", 1, 1⟩⟩], 1⟩
  dependencies := some {}
  sources := some []

/-- The store of the default settings holds a location; there are no other files. -/
def smallTrail : Trail := { files := { nodes := [("/faultfix.db", .database smallDatabase)] } }

/-- A graph without pairs, from a file that is gone. -/
def goneResult : BuildResult where
  graph := .empty
  files := ["/gone.go"]
  stats := default

/-- The replacement fails, and the location that the store held is lost. -/
theorem failed_replacement_loses_graph :
    ((Action.replace (.defaults "") "/"
      (Store.ofName smallTrail.files "faultfix.db") goneResult).run.run
        smallTrail).1 = .error (.build (.persist (.unreadable "/gone.go" .missing))) ∧
      (Store.ofName smallTrail.files "faultfix.db").findById 1 = .ok ⟨1, ⟨"a", "/a.go", 1, 1⟩⟩ ∧
      (Store.ofName ((Action.replace (.defaults "") "/"
        (Store.ofName smallTrail.files "faultfix.db")
        goneResult).run.run smallTrail).2.files "faultfix.db").findById 1 = .error .notFound := by
  refine ⟨rfl, rfl, rfl⟩

/-- A server that is lost after one row keeps it, although the row depends on one that was not
written. -/
example :
    let address : Text := "postgres://h/db"
    let files : Tree := { nodes := [(address, .database smallDatabase)] }
    let r : BuildResult :=
      { goneResult with
        graph := .ofAdditions [(⟨"x", "/b.go", 2, 1⟩, ⟨"y", "/b.go", 1, 1⟩)]
        files := [] }
    let ended := (Action.replace { Settings.defaults "" with db := address } "/"
      ((Store.ofName files address).meeting (some ⟨2, .unreachable⟩)) r).run.run { files := files }
    (Store.ofName ended.2.files address).findById 1 = .ok ⟨1, ⟨"x", "/b.go", 2, 1⟩⟩ ∧
      (Store.ofName ended.2.files address).findById 2 = .error .notFound ∧
        ended.1.toOption = none := by
  refine ⟨rfl, rfl, rfl⟩

end FaultRepair.Command
