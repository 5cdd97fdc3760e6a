/-
# Writing a store

What single writes do to a store that is a file: each succeeds where the database takes it,
and the store then holds what the database has become.

A database counts the changes that were committed to it. Whatever is written, either nothing
changes at all or the count goes up, so between two moments with the same count nothing was
changed.
-/

import FaultRepair.Proofs.Store.Reading
import FaultRepair.Proofs.Store.Rows

namespace FaultRepair.Store

open FaultRepair.Graph Option

namespace Database

variable {d d' : Database}

/-- What the database takes is written, if there is no trouble within the transaction. -/
theorem change_eq_ok {t : Option Trouble} {statements : Nat} (ht : cutShort t statements = false)
    {task : Option Task} {named : Bool} {step : Database → Option (α × Database)} {a : α}
    (h : step d = some (a, d')) :
    Backing.change ⟨.ok d, true, t⟩ task named statements step =
      .ok (a, ⟨.ok d', true, t.map (·.later statements)⟩) := by
  cases t with
  | none => simp [Backing.change, h, Backing.spend, Backing.commit]
  | some t =>
    have hafter : ¬ t.after < statements := by simpa [cutShort] using ht
    simp [Backing.change, h, Backing.spend, hafter, Backing.commit]

/-- Trouble within a transaction makes it fail. -/
theorem change_eq_trouble {t : Trouble} {statements : Nat} (ht : t.after < statements)
    {step : Database → Option (α × Database)} {row : α × Database} (h : step d = some row)
    (task : Option Task) (named : Bool) :
    Backing.change ⟨.ok d, true, some t⟩ task named statements step =
      .error (.failed task t.cause) := by
  simp [Backing.change, h, Backing.spend, ht]

theorem change_cutShort (d : Database) {t : Option Trouble} {statements : Nat}
    (ht : cutShort t statements = true) (task : Option Task) (named : Bool)
    (step : Database → Option (α × Database)) :
    ∃ cause, Backing.change ⟨.ok d, true, t⟩ task named statements step =
      .error (.failed task cause) := by
  cases t with
  | none => cases ht
  | some t =>
    cases h : step d with
    | none => exact ⟨.refused, by simp [Backing.change, h]⟩
    | some row => exact ⟨t.cause, change_eq_trouble (by simpa [cutShort] using ht) h task named⟩

section

variable {s : Store} {t : Option Trouble} {task : Option Task}

theorem write_eq_ok (hs : s.backing = ⟨.ok d, true, t⟩) (ht : cutShort t 1 = false)
    {step : Database → Option (α × Database)} {a : α} (h : step d = some (a, d')) :
    s.write task step = .ok (a, s.withBacking ⟨.ok d', true, t.map (·.later 1)⟩) := by
  rw [Store.write, hs, change_eq_ok ht h]
  rfl

theorem alter_eq_ok (hs : s.backing = ⟨.ok d, true, t⟩) (ht : cutShort t 1 = false)
    {step : Database → Option Database} (h : step d = some d') :
    s.alter task step = .ok (s.withBacking ⟨.ok d', true, t.map (·.later 1)⟩) := by
  have hstep : (step d).map (fun d => ((), d)) = some ((), d') := by rw [h, map_some]
  rw [Store.alter, write_eq_ok hs ht hstep]
  rfl

theorem write_eq_trouble {t : Trouble} (hs : s.backing = ⟨.ok d, true, some t⟩) (ht : t.after < 1)
    {step : Database → Option (α × Database)} {row : α × Database} (h : step d = some row) :
    s.write task step = .error (.failed task t.cause) := by
  rw [Store.write, hs, change_eq_trouble ht h]
  rfl

theorem alter_eq_trouble {t : Trouble} (hs : s.backing = ⟨.ok d, true, some t⟩) (ht : t.after < 1)
    {step : Database → Option Database} (h : step d = some d') :
    s.alter task step = .error (.failed task t.cause) := by
  have hstep : (step d).map (fun d => ((), d)) = some ((), d') := by rw [h, map_some]
  rw [Store.alter, write_eq_trouble hs ht hstep]
  rfl

theorem write_cutShort (hs : s.backing = ⟨.ok d, true, t⟩) (ht : cutShort t 1 = true)
    (task : Option Task) (step : Database → Option (α × Database)) :
    ∃ fault, s.write task step = .error fault := by
  obtain ⟨cause, hcause⟩ := d.change_cutShort ht task s.isRemote step
  exact ⟨.failed task cause, by rw [Store.write, hs, hcause]; rfl⟩

theorem alter_cutShort (hs : s.backing = ⟨.ok d, true, t⟩) (ht : cutShort t 1 = true)
    (task : Option Task) (step : Database → Option Database) :
    ∃ fault, s.alter task step = .error fault := by
  obtain ⟨fault, hwrite⟩ := write_cutShort hs ht task fun d => (step d).map fun d => ((), d)
  exact ⟨fault, by rw [Store.alter, hwrite]; rfl⟩

end

theorem store_insertLocation {l : Location} {id : Int} (h : d.insertLocation? l = some (id, d')) :
    d.store.insertLocation l = .ok (id, d'.store) := write_eq_ok (t := none) rfl rfl h

theorem store_insertEdge {lhs rhs : Int} (h : d.insertEdge? lhs rhs = some d') :
    d.store.insertEdge lhs rhs = .ok d'.store := alter_eq_ok (t := none) rfl rfl h

theorem store_recordSource {source : SourceFile} (h : d.recordSource? source = some d') :
    d.store.recordSource source = .ok d'.store := alter_eq_ok (t := none) rfl rfl h

theorem writeWhole_meeting {g : DepGraph} {sources : List SourceFile} {counts : GraphCounts}
    {t : Option Trouble} (ht : cutShort t (wholeStatements g sources) = false)
    (h : d.writeGraph? g sources = some (counts, d')) :
    Store.writeWhole ⟨.ok d, true, t⟩ g sources =
      (d'.store.meeting (t.map (·.later (wholeStatements g sources))), .ok counts) := by
  rw [Store.writeWhole, change_eq_ok ht h]
  rfl

/-- A graph that is not written as a whole is not written at all. -/
theorem writeWhole_cutShort (d : Database) {g : DepGraph} {sources : List SourceFile}
    {t : Option Trouble} (ht : cutShort t (wholeStatements g sources) = true) :
    ∃ cause, Store.writeWhole ⟨.ok d, true, t⟩ g sources =
      (d.store.meeting t, .error (.failed (some .writeGraph) cause)) := by
  obtain ⟨cause, hcause⟩ := d.change_cutShort ht (some .writeGraph) true (·.writeGraph? g sources)
  exact ⟨cause, by rw [Store.writeWhole, hcause]; rfl⟩

theorem store_writeWhole {g : DepGraph} {sources : List SourceFile} {counts : GraphCounts}
    (h : d.writeGraph? g sources = some (counts, d')) :
    Store.writeWhole { database := .ok d } g sources = (d'.store, .ok counts) :=
  writeWhole_meeting (t := none) rfl h

end Database

/-! ## Committed changes -/

/-- One database follows another: it is the same, or something was committed since. -/
def Follows (d d' : Database) : Prop := d' = d ∨ d.version < d'.version

namespace Follows

variable {d d' d'' : Database}

theorem refl (d : Database) : Follows d d := .inl rfl

theorem trans (hfirst : Follows d d') (hsecond : Follows d' d'') : Follows d d'' := by
  rcases hfirst with rfl | hfirst
  · exact hsecond
  · rcases hsecond with rfl | hsecond
    · exact .inr hfirst
    · exact .inr (Nat.lt_trans hfirst hsecond)

theorem version_le (h : Follows d d') : d.version ≤ d'.version := by
  rcases h with rfl | hlt
  · exact Nat.le_refl _
  · exact Nat.le_of_lt hlt

theorem eq_of_version (h : Follows d d') (hversion : d'.version = d.version) : d' = d := by
  rcases h with hequal | hlt
  · exact hequal
  · exact absurd hversion (Nat.ne_of_gt hlt)

/-- A run of steps that each follow leads to a database that follows. -/
theorem foldlM {body : τ → α → Option τ} (held : τ → Database)
    (hstep : ∀ t a t', body t a = some t' → Follows (held t) (held t')) {items : List α} {t t' : τ}
    (hrun : items.foldlM body t = some t') : Follows (held t) (held t') := by
  induction items generalizing t with
  | nil =>
    cases hrun
    exact refl _
  | cons a rest ih =>
    rw [List.foldlM_cons, bind_eq_bind, bind_eq_some_iff] at hrun
    obtain ⟨next, hfirst, hrest⟩ := hrun
    exact (hstep t a next hfirst).trans (ih hrest)

theorem insertLocation? {l : Location} {id : Int} (h : d.insertLocation? l = some (id, d')) :
    Follows d d' := by
  obtain ⟨t, -, hequal⟩ := map_eq_some_iff.mp h
  cases hequal
  exact .inr (Nat.lt_succ_self _)

theorem insertEdge? {lhs rhs : Int} (h : d.insertEdge? lhs rhs = some d') : Follows d d' := by
  obtain ⟨t, -, rfl⟩ := map_eq_some_iff.mp h
  exact .inr (Nat.lt_succ_self _)

theorem recordSource? {source : SourceFile} (h : d.recordSource? source = some d') :
    Follows d d' := by
  obtain ⟨t, -, rfl⟩ := map_eq_some_iff.mp h
  exact .inr (Nat.lt_succ_self _)

theorem put? {n : Numbering} {row : Row} {id : Int} (h : d.put? n row = some (id, d')) :
    Follows d d' := by
  cases row with
  | location l => exact insertLocation? h
  | pair p =>
    obtain ⟨d'', hinsert, hequal⟩ := map_eq_some_iff.mp h
    cases hequal
    exact insertEdge? hinsert
  | source f =>
    obtain ⟨d'', hrecord, hequal⟩ := map_eq_some_iff.mp h
    cases hequal
    exact recordSource? hrecord

/-- A transaction is made of single writes, and one of nothing commits nothing. -/
theorem writeGraph? {g : DepGraph} {sources : List SourceFile} {counts : GraphCounts}
    (h : d.writeGraph? g sources = some (counts, d')) : Follows d d' := by
  rw [Database.writeGraph?] at h
  split at h
  · cases h
  · simp only [bind_eq_bind, bind_eq_some_iff] at h
    obtain ⟨⟨t, final⟩, hrun, hfinal⟩ := h
    cases hfinal
    refine foldlM Prod.snd ?_ hrun
    rintro ⟨t, d⟩ row ⟨t', d'⟩ hstep
    obtain ⟨⟨id, d''⟩, hput, hequal⟩ := map_eq_some_iff.mp hstep
    cases hequal
    exact put? hput

end Follows

/-! ## Writes of any kind -/

/-- A write to a store. -/
inductive Write where
  | insertLocation (l : Location)
  | insertEdge (lhs rhs : Int)
  | recordSource (source : SourceFile)
  | reset
  | writeGraph (g : DepGraph) (sources : List SourceFile)

namespace Database

/-- The database after an operation of its store; one that fails leaves it as it was. -/
def settle (d : Database) : Except StoreFault Store → Database
  | .ok s => s.database?.getD d
  | .error _ => d

def after (d : Database) : Write → Database
  | .insertLocation l => d.settle ((d.store.insertLocation l).map (·.2))
  | .insertEdge lhs rhs => d.settle (d.store.insertEdge lhs rhs)
  | .recordSource source => d.settle (d.store.recordSource source)
  | .reset => d.settle d.store.reset
  | .writeGraph g sources =>
    let written := Store.writeWhole { database := .ok d } g sources
    d.settle (written.2.map fun _ => written.1)

/-- A write that is refused changes nothing, and one that is taken is committed. -/
theorem follows_settle_write (d : Database) (t : Option Task)
    {step : Database → Option (α × Database)} (hstep : ∀ row, step d = some row → Follows d row.2) :
    Follows d (d.settle ((d.store.write t step).map (·.2))) := by
  cases h : step d with
  | none =>
    exact .inl (by simp [Store.write, store, Store.backing, Backing.change, h, Except.map, settle])
  | some row =>
    have hwritten : d.store.write t step = .ok (row.1, row.2.store) :=
      write_eq_ok (t := none) rfl rfl h
    rw [hwritten]
    exact hstep row h

theorem follows_after (d : Database) (w : Write) : Follows d (d.after w) := by
  cases w with
  | insertLocation l => exact d.follows_settle_write _ fun row hrow => Follows.insertLocation? hrow
  | insertEdge lhs rhs =>
    refine d.follows_settle_write _ fun row hrow => ?_
    obtain ⟨d', hinsert, rfl⟩ := map_eq_some_iff.mp hrow
    exact Follows.insertEdge? hinsert
  | recordSource source =>
    refine d.follows_settle_write _ fun row hrow => ?_
    obtain ⟨d', hinsert, rfl⟩ := map_eq_some_iff.mp hrow
    exact Follows.recordSource? hinsert
  | reset => exact .inr (Nat.lt_succ_self _)
  | writeGraph g sources =>
    rw [after]
    cases h : d.writeGraph? g sources with
    | none => exact .inl (by simp [Store.writeWhole, Backing.change, h, Except.map, settle])
    | some written =>
      simp only [store_writeWhole h]
      exact Follows.writeGraph? h

end Database

end FaultRepair.Store
