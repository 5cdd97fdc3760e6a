/-
# Writing that is interrupted

A server takes a graph row by row, each row in a transaction of its own. Whatever interrupts it,
the rows before stay. So what a server holds in the end are the first rows of the graph, as many
as were written, and never anything else.

One row keeps this: it is written, and then there is one row more, or there is trouble, and then
there are the rows of before. A run is as many rows as go well.
-/

import FaultRepair.Proofs.Store.Writers

namespace FaultRepair.Store

open FaultRepair.Graph List

/-- The store of a server that holds a database. -/
def Database.served (d : Database) : Store := .remote { database := .ok d }

/-- The tables hold some rows of a graph, numbered from one, and nothing else. -/
structure HoldsRows (g : DepGraph) (rows : List Row) (d : Database) : Prop where
  locations : d.locations =
    some (Numbered.extend {} StoredLocation.mk (rows.flatMap Row.locations))
  dependencies : d.dependencies = some (Numbered.extend {}
    (fun id pair => ⟨id, numberIn g pair.1, numberIn g pair.2⟩) (rows.flatMap Row.pairs))
  sources : d.sources = some ((rows.flatMap Row.sources).foldl Database.upsert [])

variable {prior d : Database} {g : DepGraph} {sources : List SourceFile} {done rest rows : List Row}
  {row : Row} {t : Option Trouble}

theorem HoldsRows.initialised (h : HoldsRows g rows d) : Initialised d := by
  constructor
  · rw [h.locations]
    rfl
  · rw [h.dependencies]
    rfl
  · rw [h.sources]
    rfl

theorem holdsRows_of_grows
    (h : prior.reset.Grows (numberingFrom prior.reset.lastNumber g.locations).of rows d) :
    HoldsRows g rows d := ⟨h.locations, h.dependencies, h.sources⟩

/-! ## One row -/

/-- Why a row is not written after some others: it is a location with coordinates that the server
has no room for, or now comes the trouble. -/
inductive Stops (t : Option Trouble) (done : List Row) : Row → StoreFault → Prop where
  | range {l : Location} {fault : RangeFault} (h : narrow l.line l.col = .error fault) :
      Stops t done (.location l) (.outOfRange l fault)
  | trouble {row : Row} {cause : Cause} (h : t = some ⟨done.length, cause⟩) (task : Option Task) :
      Stops t done row (.failed task cause)

/-- Some rows were written, on a server that met with no trouble until then. -/
structure Progress (prior : Database) (g : DepGraph) (t : Option Trouble) (done : List Row)
    (w : Tally × Store) : Prop where
  store : ∃ d, w.2 = d.served.meeting (t.map (·.later done.length)) ∧
    prior.reset.Along g done w.1 d
  calm : cutShort t done.length = false

/-- After some rows there is trouble at once, or none for one more row. -/
theorem trouble_cases {n : Nat} (ht : cutShort t n = false) :
    (∃ cause, t = some ⟨n, cause⟩) ∨
      cutShort (t.map (·.later n)) 1 = false ∧ cutShort t (n + 1) = false := by
  cases t with
  | none => exact .inr ⟨rfl, rfl⟩
  | some t =>
    obtain ⟨after, cause⟩ := t
    have hle : n ≤ after := by simpa [cutShort] using ht
    by_cases hnow : after = n
    · exact .inl ⟨cause, by rw [hnow]⟩
    · refine .inr ⟨?_, ?_⟩
      · simp only [cutShort, Trouble.later, Option.map_some, Option.any_some,
          decide_eq_false_iff_not]
        omega
      · simp only [cutShort, Option.any_some, decide_eq_false_iff_not]
        omega

theorem map_later_later (t : Option Trouble) (n m : Nat) :
    (t.map (·.later n)).map (·.later m) = t.map (·.later (n + m)) := by
  cases t with
  | none => rfl
  | some t => simp [Trouble.later, Nat.sub_sub]

theorem map_alter (s : Store) (task : Option Task) (step : Database → Option Database) (a : α) :
    (s.alter task step).map (fun s => (a, s)) =
      s.write task fun d => (step d).map fun d => (a, d) := by
  simp only [Store.alter, Store.write, Backing.change]
  cases s.backing.database with
  | error cause => rfl
  | ok d =>
    cases hstep : step d with
    | none => simp [hstep, Except.map]
    | some d' => cases s.backing.spend 1 <;> simp [hstep, Except.map]

/-- A row is a write, unless the server has no room for it. -/
theorem put_eq_write (s : Store) (n : Numbering) (row : Row) :
    (∃ task, s.put n row = s.write task (·.put? n row)) ∨
      ∃ l fault, row = .location l ∧ narrow l.line l.col = .error fault ∧
        s.put n row = .error (.outOfRange l fault) := by
  cases row with
  | location l =>
    simp only [Store.put, Store.insertLocation]
    split
    · exact .inr ⟨l, _, rfl, by assumption, rfl⟩
    · exact .inl ⟨_, rfl⟩
  | pair p => exact .inl ⟨_, map_alter s _ _ 0⟩
  | source f => exact .inl ⟨_, map_alter s _ _ 0⟩

/-- The database always has room for the next row, so only the server or trouble keeps it from
being written. -/
theorem Progress.step {w : Tally × Store} (hrows : rowsOf g sources = done ++ row :: rest)
    (h : Progress prior g t done w) :
    (∃ w', Store.step w row = .ok w' ∧ Progress prior g t (done ++ [row]) w') ∨
      ∃ fault, Store.step w row = .error fault ∧ Stops t done row fault := by
  obtain ⟨⟨d, hstore, halong⟩, hcalm⟩ := h
  obtain ⟨tally, s⟩ := w
  subst hstore
  obtain ⟨id, d', hput, hnext⟩ := halong.put? ⟨rfl, rfl, rfl⟩ hrows
  rw [Store.step]
  obtain ⟨task, hwrite⟩ | ⟨l, fault, rfl, hrange, hrefused⟩ := put_eq_write
    (d.served.meeting (t.map (·.later done.length))) tally.numbers row
  · rw [hwrite]
    rcases trouble_cases hcalm with ⟨cause, rfl⟩ | ⟨hnow, hlater⟩
    · refine .inr ⟨.failed task cause, ?_, .trouble rfl task⟩
      rw [Database.write_eq_trouble (t := Trouble.later ⟨done.length, cause⟩ done.length) rfl
        (by simp [Trouble.later]) hput]
      rfl
    · rw [Database.write_eq_ok rfl hnow hput, map_later_later]
      refine .inl ⟨_, rfl, ⟨⟨d', ?_, hnext⟩, ?_⟩⟩
      · rw [length_append]
        rfl
      · rwa [length_append]
  · rw [hrefused]
    exact .inr ⟨_, rfl, .range hrange⟩

/-! ## A run of rows -/

/-- Steps that each succeed or stop for a reason all succeed, or stop at the first that does not. -/
theorem advance_cases {step : σ → α → Except StoreFault σ} {P : List α → σ → Prop}
    {Q : List α → α → StoreFault → Prop} {items rest done : List α} {s : σ}
    (hstep : ∀ {done a rest s}, items = done ++ a :: rest → P done s →
      (∃ s', step s a = .ok s' ∧ P (done ++ [a]) s') ∨ ∃ fault, step s a = .error fault ∧
        Q done a fault)
    (hitems : items = done ++ rest) (h : P done s) :
    (∃ s', advance step s rest = (s', none) ∧ P items s') ∨
      ∃ done a rest' s' fault, items = done ++ a :: rest' ∧
        advance step s rest = (s', some fault) ∧ P done s' ∧ Q done a fault := by
  induction rest generalizing done s with
  | nil => exact .inl ⟨s, rfl, by rwa [hitems, append_nil]⟩
  | cons a rest ih =>
    rcases hstep hitems h with ⟨s', hfirst, hs'⟩ | ⟨fault, hfirst, hfault⟩
    · rw [advance, hfirst]
      exact ih (by rw [hitems, append_assoc]; rfl) hs'
    · exact .inr ⟨done, a, rest, s, fault, hitems, by rw [advance, hfirst], h, hfault⟩

/-- What a server holds after a graph was written to it, and how the writer reports it. -/
inductive Served (g : DepGraph) (sources : List SourceFile) (t : Option Trouble) :
    Store × Except StoreFault GraphCounts → Prop where
  | whole {d : Database} (hd : HoldsRows g (rowsOf g sources) d) :
      Served g sources t (d.served.meeting (t.map (·.later (rowsOf g sources).length)),
        .ok ⟨g.locations.length, (edgeOrder g).length, sources.length⟩)
  | part {done rest : List Row} {row : Row} {d : Database} {fault : StoreFault}
      (hrows : rowsOf g sources = done ++ row :: rest) (hd : HoldsRows g done d)
      (hstops : Stops t done row fault) :
      Served g sources t (d.served.meeting (t.map (·.later done.length)), .error fault)

/-- A graph that is written to an emptied server is written up to the row that is not written. -/
theorem writeRows_served (prior : Database) (g : DepGraph) (sources : List SourceFile)
    (t : Option Trouble) :
      Served g sources t ((prior.reset.served.meeting t).writeRows g sources) := by
  have hstart : Progress prior g t [] ({}, prior.reset.served.meeting t) :=
    ⟨⟨prior.reset, by cases t <;> rfl, prior.reset.along_nil g⟩, by cases t <;> simp [cutShort]⟩
  rw [Store.writeRows]
  rcases advance_cases (Q := Stops t) Progress.step (nil_append _).symm hstart with
    ⟨⟨tally, s⟩, hrun, ⟨⟨d, hstore, halong⟩, -⟩⟩ |
      ⟨done, row, rest, ⟨tally, s⟩, fault, hrows, hrun, ⟨⟨d, hstore, halong⟩, -⟩, hstops⟩
  · dsimp only at hstore halong
    rw [hrun, hstore]
    dsimp only
    rw [halong.counts, Database.countsOf_rowsOf]
    exact .whole (holdsRows_of_grows halong.grows)
  · dsimp only at hstore
    rw [hrun, hstore]
    exact .part hrows (holdsRows_of_grows halong.grows) hstops

end FaultRepair.Store
