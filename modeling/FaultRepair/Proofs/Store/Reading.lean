/-
# Reading a store

What the answers of a store say about its rows. A store that is a file with its tables
in place answers every question, if only by saying that nothing was found; any other
store may refuse, and then nothing is said here.
-/

import FaultRepair.Store.Access
import Mathlib.Data.List.Basic

namespace FaultRepair.Store

open FaultRepair.Graph

theorem bind_eq_ok {x : Except ε α} {f : α → Except ε β} {b : β} :
    x >>= f = .ok b ↔ ∃ a, x = .ok a ∧ f a = .ok b := by
  cases x with
  | error e => simp [bind, Except.bind]
  | ok a => simp [bind, Except.bind]

/-- The row found under a number has that number. -/
theorem id_of_findById {s : Store} {id : Int} {row : StoredLocation}
    (hfound : s.findById id = .ok row) :
    row.id = id := by
  obtain ⟨answer, hanswer, hrow⟩ := bind_eq_ok.mp hfound
  cases answer with
  | none => simp [Store.found] at hrow
  | some other =>
    cases hrow
    cases hdatabase : s.backing.database with
    | error c => simp [Backing.ask, hdatabase] at hanswer
    | ok d =>
      cases hlocations : d.locations with
      | none => simp [Backing.ask, hdatabase, Database.findById?, hlocations] at hanswer
      | some t => grind [Backing.ask, Database.findById?]

/-! ## Files with their tables -/

/-- The store, in a file or on a server, with this database behind it. -/
def Store.holding (s : Store) (d : Database) : Store := s.withBacking { database := .ok d }

namespace Database

def store (d : Database) : Store := .file { database := .ok d }

variable {d : Database} {t : Numbered StoredLocation}

theorem store_findById (ht : d.locations = some t) (id : Int) :
    d.store.findById id = Store.found (t.rows.find? (·.id == id)) := by
  simp [store, Store.findById, Store.backing, Backing.ask, findById?, ht, bind, Except.bind]

theorem store_findLocation (ht : d.locations = some t) (file : Text) (line col : Int) :
    d.store.findLocation file line col = Store.found (t.rows.find? fun r =>
      r.location.file == file && r.location.line == line && r.location.col == col) := by
  simp [store, Store.findLocation, Store.backing, Backing.ask, findLocation?, ht, bind, Except.bind]

theorem store_findOnLine (ht : d.locations = some t) (file : Text) (line : Int) :
    d.store.findOnLine file line = .ok ((t.rows.filter fun r =>
      r.location.file == file && r.location.line == line).mergeSort columnOrder) := by
  simp [store, Store.findOnLine, Store.backing, Backing.ask, onLine?, ht]

theorem store_edgesFrom {t : Numbered Dependency} (ht : d.dependencies = some t) (id : Int) :
    d.store.edgesFrom id = .ok (t.rows.filter (·.lhs == id)) := by
  simp [store, Store.edgesFrom, Store.backing, Backing.ask, edgesFrom?, ht]

end Database

/-- A row is found if it is the only one that fits. -/
theorem find?_eq_some_of_unique {rows : List α} {fits : α → Bool} {row : α} (hrow : row ∈ rows)
    (hfits : fits row = true) (hunique : ∀ other ∈ rows, fits other = true → other = row) :
    rows.find? fits = some row := by
  cases hfound : rows.find? fits with
  | none => exact absurd hfits (List.find?_eq_none.mp hfound row hrow)
  | some other =>
    rw [hunique other (List.mem_of_find?_eq_some hfound) (List.find?_some hfound)]

/-- A store that never refuses: what is asked for is there, or it is not found. -/
structure Answers (s : Store) : Prop where
  findById : ∀ id, (∃ row, s.findById id = .ok row) ∨ s.findById id = .error .notFound
  findLocation : ∀ file line col,
    (∃ row, s.findLocation file line col = .ok row) ∨
      s.findLocation file line col = .error .notFound
  findOnLine : ∀ file line, ∃ rows, s.findOnLine file line = .ok rows
  edgesFrom : ∀ id, ∃ edges, s.edgesFrom id = .ok edges

/-- Looking for a row finds one or says that there is none. -/
theorem found_ok_or (row? : Option StoredLocation) :
    (∃ row, Store.found row? = .ok row) ∨ Store.found row? = .error .notFound := by
  cases row? with
  | none => exact .inr rfl
  | some row => exact .inl ⟨row, rfl⟩

theorem answers_of_tables {d : Database} {locations : Numbered StoredLocation}
    {dependencies : Numbered Dependency} (hlocations : d.locations = some locations)
    (hdependencies : d.dependencies = some dependencies) : Answers d.store where
  findById id := by
    rw [Database.store_findById hlocations]
    exact found_ok_or _
  findLocation file line col := by
    rw [Database.store_findLocation hlocations]
    exact found_ok_or _
  findOnLine file line := ⟨_, Database.store_findOnLine hlocations file line⟩
  edgesFrom id := ⟨_, Database.store_edgesFrom hdependencies id⟩

end FaultRepair.Store
