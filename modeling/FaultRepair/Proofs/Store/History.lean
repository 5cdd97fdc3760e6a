/-
# Whole histories of a store

A store is judged here by everything that was ever done to it. A journal notes what was
inserted and recorded since the last reset, in order, and knows nothing of tables; operations
that fail leave no note. Whatever the history, the answers of the store are those that the
journal gives: rows are numbered from one as they come, the oldest row is found first, the last
fingerprint counts.

One operation keeps the tables in step with the journal, and every answer follows from that.
-/

import FaultRepair.Proofs.Fault.StableSort
import FaultRepair.Proofs.Store.Representation
import FaultRepair.Proofs.Store.Writing
import Mathlib.Data.List.Induction
import Mathlib.Data.List.Pairwise

namespace FaultRepair.Store

open FaultRepair.Graph List

/-! ## Operations -/

inductive Reply where
  | done
  | number (id : Int)
  | counts (c : GraphCounts)

/-- A graph that is written was made by additions. -/
def Write.Built : Write → Prop
  | .writeGraph g _ => ∃ calls, g = .ofAdditions calls
  | _ => True

/-- How many statements a write takes. -/
def Write.statements : Write → Nat
  | .writeGraph g sources => wholeStatements g sources
  | _ => 1

/-- An operation on a store, and the trouble that it meets with. -/
structure Operation where
  write : Write
  built : write.Built
  trouble : Option Trouble := none

/-- An operation is cancelled if its caller gives up before it is done, or if something else keeps
one of its statements from being carried out. -/
def Operation.cancelled (op : Operation) : Bool := cutShort op.trouble op.write.statements

def Operation.insertion (l : Location) : Operation :=
  { write := .insertLocation l, built := trivial }

/-- The answer to a write of a single row, and the store afterwards. -/
def settled (s : Store) : Except StoreFault (Reply × Store) → Except StoreFault Reply × Store
  | .ok (reply, s) => (.ok reply, s)
  | .error fault => (.error fault, s)

/-- A write to a store. -/
def tryWrite (s : Store) : Write → Except StoreFault Reply × Store
  | .insertLocation l => settled s ((s.insertLocation l).map fun r => (.number r.1, r.2))
  | .insertEdge lhs rhs => settled s ((s.insertEdge lhs rhs).map fun s => (.done, s))
  | .recordSource source => settled s ((s.recordSource source).map fun s => (.done, s))
  | .reset => settled s (s.reset.map fun s => (.done, s))
  | .writeGraph g sources =>
    let written := s.writeGraph false g sources
    (written.2.map .counts, written.1)

/-- What an operation reports, and the store afterwards. -/
def perform (s : Store) (op : Operation) : Except StoreFault Reply × Store :=
  let answer := tryWrite (s.meeting op.trouble) op.write
  (answer.1, answer.2.meeting none)

def afterAll (s : Store) (history : List Operation) : Store :=
  history.foldl (fun s op => (perform s op).2) s

/-! ## The journal -/

/-- What was inserted and recorded since the last reset, oldest first. -/
structure Journal where
  locations : List Location := []
  edges : List (Int × Int) := []
  sources : List SourceFile := []

namespace Journal

/-- The number of a location of a graph that is written after the locations so far. -/
def numberAfter (j : Journal) (g : DepGraph) (l : Location) : Int :=
  (j.locations.length + g.locations.idxOf l + 1 : Nat)

def note (j : Journal) : Write → Journal
  | .insertLocation l => { j with locations := j.locations ++ [l] }
  | .insertEdge lhs rhs => { j with edges := j.edges ++ [(lhs, rhs)] }
  | .recordSource source => { j with sources := j.sources ++ [source] }
  | .reset => {}
  | .writeGraph g sources =>
    { locations := j.locations ++ g.locations
      edges :=
        j.edges ++ (edgeOrder g).map fun pair => (j.numberAfter g pair.1, j.numberAfter g pair.2)
      sources := j.sources ++ sources }

def reply (j : Journal) : Write → Reply
  | .insertLocation _ => .number (j.locations.length + 1 : Nat)
  | .writeGraph g sources => .counts ⟨g.locations.length, (edgeOrder g).length, sources.length⟩
  | _ => .done

def ofHistory (history : List Operation) : Journal :=
  history.foldl (fun j op => if op.cancelled then j else j.note op.write) {}

/-- The locations with their numbers: the first since the last reset has number one. -/
def locationRows (j : Journal) : List StoredLocation := numberFrom 0 StoredLocation.mk j.locations

def edgeRows (j : Journal) : List Dependency :=
  numberFrom 0 (fun id e => ⟨id, e.1, e.2⟩) j.edges

end Journal

/-! ## Tables in step with a journal -/

/-- Rows may be made of values or of what the values stand for. -/
theorem Numbered.extend_map (t : Numbered β) (row : Int → γ → β) (value : α → γ) (values : List α) :
    t.extend row (values.map value) = t.extend (fun id v => row id (value v)) values := by
  have hrows : ∀ last, numberFrom last row (values.map value) =
      numberFrom last (fun id v => row id (value v)) values := by
    induction values with
    | nil => exact fun _ => rfl
    | cons first rest ih =>
      intro last
      rw [map_cons, numberFrom_cons, numberFrom_cons, ih]
  simp [extend, hrows]

/-- The numbering of a graph's locations counts on from the rows before. -/
theorem of_numberingFrom {ls : List Location} (hnodup : (ls.map Location.position).Nodup)
    (last : Nat) {l : Location} (hl : l ∈ ls) :
    (numberingFrom last ls).of l = ((last + ls.idxOf l + 1 : Nat) : Int) := by
  induction ls generalizing last with
  | nil => cases hl
  | cons first rest ih =>
    rw [map_cons, nodup_cons] at hnodup
    by_cases hfirst : l = first
    · simp [hfirst, numberingFrom, Numbering.of]
    · have hrest : l ∈ rest := mem_of_ne_of_mem hfirst hl
      have hposition : l.position ≠ first.position := fun hequal =>
        hnodup.1 (hequal ▸ mem_map_of_mem hrest)
      have hskip : (numberingFrom last (first :: rest)).of l =
          (numberingFrom (last + 1) rest).of l := by
        simp [numberingFrom, Numbering.of, lookup_cons, beq_eq_false_iff_ne.mpr hposition]
      grind

/-- The tables hold the rows of a journal, and the fingerprints that it left. -/
structure InStep (d : Database) (j : Journal) : Prop where
  locations : d.locations = some (Numbered.extend {} StoredLocation.mk j.locations)
  dependencies : d.dependencies = some (Numbered.extend {} (fun id e => ⟨id, e.1, e.2⟩) j.edges)
  sources : d.sources = some (j.sources.foldl Database.upsert [])

namespace InStep

variable {d : Database} {j : Journal}

theorem start : InStep Database.blank.init {} := ⟨rfl, rfl, rfl⟩

theorem last_extend (row : Int → α → β) (values : List α) :
    (Numbered.extend {} row values).last = values.length := Nat.zero_add _

/-- A write takes place: it reports what the journal says, and leaves a database in step. -/
def Takes (d : Database) (j : Journal) (t : Option Trouble) (w : Write) : Prop :=
  ∃ d' t', Store.tryWrite (d.store.meeting t) w = (.ok (j.reply w), d'.store.meeting t') ∧
    InStep d' (j.note w)

variable {t : Option Trouble}

theorem insertLocation (h : InStep d j) (ht : cutShort t 1 = false) (l : Location) :
    Takes d j t (.insertLocation l) := by
  have hinsert := Database.insertLocation?_eq h.locations l
  rw [Numbered.extend_extend, last_extend] at hinsert
  have hwritten : (d.store.meeting t).insertLocation l = _ := Database.write_eq_ok rfl ht hinsert
  have hreply := congrArg (fun row => settled (d.store.meeting t)
    (Except.map (fun r => (Reply.number r.1, r.2)) row)) hwritten
  exact ⟨_, _, hreply, ⟨rfl, h.dependencies, h.sources⟩⟩

theorem insertEdge (h : InStep d j) (ht : cutShort t 1 = false) (lhs rhs : Int) :
    Takes d j t (.insertEdge lhs rhs) := by
  have hinsert : d.insertEdge? lhs rhs = some
      { d with
        dependencies :=
          some (Numbered.extend {} (fun id e => ⟨id, e.1, e.2⟩) (j.edges ++ [(lhs, rhs)]))
        version := d.version + 1 } := by
    rw [Database.insertEdge?, h.dependencies, ← Numbered.extend_extend]
    rfl
  have hwritten : (d.store.meeting t).insertEdge lhs rhs = _ := Database.alter_eq_ok rfl ht hinsert
  have hreply := congrArg (fun left => settled (d.store.meeting t)
    (Except.map (fun s => (Reply.done, s)) left)) hwritten
  exact ⟨_, _, hreply, ⟨h.locations, rfl, h.sources⟩⟩

theorem recordSource (h : InStep d j) (ht : cutShort t 1 = false) (source : SourceFile) :
    Takes d j t (.recordSource source) := by
  have hrecord := Database.recordSource?_eq h.sources source
  have hwritten : (d.store.meeting t).recordSource source = _ := Database.alter_eq_ok rfl ht hrecord
  have hreply := congrArg (fun left => settled (d.store.meeting t)
    (Except.map (fun s => (Reply.done, s)) left)) hwritten
  exact ⟨_, _, hreply, ⟨h.locations, h.dependencies, by simp [Journal.note]⟩⟩

theorem reset (d : Database) (j : Journal) (ht : cutShort t 1 = false) : Takes d j t .reset := by
  have hwritten : (d.store.meeting t).reset = _ := Database.alter_eq_ok rfl ht rfl
  have hreply := congrArg (fun left => settled (d.store.meeting t)
    (Except.map (fun s => (Reply.done, s)) left)) hwritten
  exact ⟨_, _, hreply, ⟨rfl, rfl, rfl⟩⟩

/-- The edges of a graph are written under the numbers that its locations have just been
given. -/
theorem extend_edgeOrder {g : DepGraph} (hg : g.WellFormed) (j : Journal)
    (t : Numbered Dependency) :
    t.extend (fun id pair => ⟨id, (numberingFrom j.locations.length g.locations).of pair.1,
        (numberingFrom j.locations.length g.locations).of pair.2⟩) (edgeOrder g) =
      t.extend (fun id e => ⟨id, e.1, e.2⟩)
        ((edgeOrder g).map fun pair => (j.numberAfter g pair.1, j.numberAfter g pair.2)) := by
  have hnumber : ∀ l ∈ g.locations,
      (numberingFrom j.locations.length g.locations).of l = j.numberAfter g l := fun l hl =>
    of_numberingFrom (DepGraph.nodup_positions_locations g) j.locations.length hl
  have hnumbers : (edgeOrder g).map (fun pair => (j.numberAfter g pair.1, j.numberAfter g pair.2)) =
      (edgeOrder g).map fun pair => ((numberingFrom j.locations.length g.locations).of pair.1,
        (numberingFrom j.locations.length g.locations).of pair.2) := by
    refine map_congr_left fun pair hpair => ?_
    obtain ⟨t, ht, hdep⟩ := mem_flatMap.mp hpair
    obtain ⟨r, hr, rfl⟩ := mem_map.mp hdep
    rw [hnumber t (hg.mem_locations_of_mem_targets ht),
      hnumber r (hg.mem_locations_of_mem_deps ht hr)]
  rw [hnumbers, Numbered.extend_map]

theorem writeGraph (h : InStep d j) {g : DepGraph} (hg : g.WellFormed) (sources : List SourceFile)
    (ht : cutShort t (wholeStatements g sources) = false) :
      Takes d j t (.writeGraph g sources) := by
  have hwritten := Database.writeGraph?_eq h.locations h.dependencies h.sources g sources
  rw [last_extend, extend_edgeOrder hg j, Numbered.extend_extend, Numbered.extend_extend,
    ← foldl_append] at hwritten
  have hwhole : (d.store.meeting t).writeGraph false g sources = _ :=
    Database.writeWhole_meeting ht hwritten
  have hreply := congrArg (fun written => (Except.map Reply.counts written.2, written.1)) hwhole
  exact ⟨_, _, hreply, ⟨rfl, rfl, rfl⟩⟩

/-- A write that is not cut short succeeds, reports what the journal says, and keeps the tables in
step. -/
theorem tryWrite (h : InStep d j) {w : Write} (hw : w.Built)
    (ht : cutShort t w.statements = false) :
    Takes d j t w := by
  cases w with
  | insertLocation l => exact h.insertLocation ht l
  | insertEdge lhs rhs => exact h.insertEdge ht lhs rhs
  | recordSource source => exact h.recordSource ht source
  | reset => exact InStep.reset d j ht
  | writeGraph g sources =>
    obtain ⟨calls, rfl⟩ := hw
    exact h.writeGraph (DepGraph.wellFormed_ofAdditions calls) sources ht

end InStep

/-- A write that is cut short fails and changes nothing, wherever the trouble comes. -/
theorem tryWrite_cutShort (d : Database) {t : Option Trouble} {w : Write}
    (ht : cutShort t w.statements = true) :
    ∃ fault, tryWrite (d.store.meeting t) w = (.error fault, d.store.meeting t) := by
  cases w with
  | insertLocation l =>
    obtain ⟨fault, hfault⟩ :=
      Database.write_cutShort (s := d.store.meeting t) rfl ht (some (.insertLocation l))
        (·.insertLocation? l)
    have hfailed : (d.store.meeting t).insertLocation l = .error fault := hfault
    exact ⟨fault, by rw [tryWrite, hfailed]; rfl⟩
  | insertEdge lhs rhs =>
    obtain ⟨fault, hfault⟩ :=
      Database.alter_cutShort (s := d.store.meeting t) rfl ht (some (.insertEdge lhs rhs))
        (·.insertEdge? lhs rhs)
    have hfailed : (d.store.meeting t).insertEdge lhs rhs = .error fault := hfault
    exact ⟨fault, by rw [tryWrite, hfailed]; rfl⟩
  | recordSource source =>
    obtain ⟨fault, hfault⟩ :=
      Database.alter_cutShort (s := d.store.meeting t) rfl ht (some (.recordSource source.path))
      (·.recordSource? source)
    have hfailed : (d.store.meeting t).recordSource source = .error fault := hfault
    exact ⟨fault, by rw [tryWrite, hfailed]; rfl⟩
  | reset =>
    obtain ⟨fault, hfault⟩ :=
      Database.alter_cutShort (s := d.store.meeting t) rfl ht none fun d => some d.reset
    have hfailed : (d.store.meeting t).reset = .error fault := hfault
    exact ⟨fault, by rw [tryWrite, hfailed]; rfl⟩
  | writeGraph g sources =>
    obtain ⟨cause, hcut⟩ := d.writeWhole_cutShort ht
    have hfailed : (d.store.meeting t).writeGraph false g sources = _ := hcut
    exact ⟨_, by rw [tryWrite, hfailed]; rfl⟩

namespace InStep

variable {d : Database} {j : Journal}

theorem perform_cancelled (d : Database) {op : Operation} (hop : op.cancelled = true) :
    ∃ fault, perform d.store op = (.error fault, d.store) := by
  obtain ⟨fault, hrefused⟩ := tryWrite_cutShort d hop
  exact ⟨fault, by rw [perform, hrefused]; rfl⟩

theorem perform_done (h : InStep d j) {op : Operation} (hop : op.cancelled = false) :
    ∃ d', perform d.store op = (.ok (j.reply op.write), d'.store) ∧
      InStep d' (j.note op.write) := by
  obtain ⟨d', t', hwritten, hstep⟩ := h.tryWrite op.built hop
  refine ⟨d', ?_, hstep⟩
  rw [perform, hwritten]
  rfl

/-- A whole history keeps the tables in step. -/
theorem afterAll (h : InStep d j) (history : List Operation) :
    ∃ d', Store.afterAll d.store history = d'.store ∧
      InStep d' (history.foldl (fun j op => if op.cancelled then j else j.note op.write) j) := by
  induction history generalizing d j with
  | nil => exact ⟨d, rfl, h⟩
  | cons op rest ih =>
    rw [Store.afterAll, foldl_cons, foldl_cons]
    cases hop : op.cancelled with
    | true =>
      obtain ⟨fault, hperform⟩ := perform_cancelled d hop
      rw [hperform]
      exact ih h
    | false =>
      obtain ⟨d', hperform, hstep⟩ := h.perform_done hop
      rw [hperform]
      exact ih hstep

end InStep

/-! ## Answers -/

theorem Database.store_sourceHash {d : Database} {t : List SourceFile} (ht : d.sources = some t)
    (path : Text) : d.store.sourceHash path = Store.found (t.find? (·.path == path)) := by
  simp [Database.store, Store.sourceHash, Store.backing, Backing.ask, Database.sourceHash?, ht,
    bind, Except.bind]

theorem found_eq_ok {row? : Option α} {row : α} : Store.found row? = .ok row ↔ row? = some row := by
  cases row? with
  | none => simp [Store.found]
  | some other => simp [Store.found]

theorem found_eq_notFound {row? : Option α} : Store.found row? = .error .notFound ↔
    row? = none := by
  cases row? with
  | none => simp [Store.found]
  | some other => simp [Store.found]

theorem find?_eq_oldest {rows : List StoredLocation} (hrows : rows.Pairwise fun a b => a.id < b.id)
    {fits : StoredLocation → Bool} {row : StoredLocation} :
    rows.find? fits = some row ↔
      row ∈ rows ∧ fits row = true ∧ ∀ other ∈ rows, fits other = true → row.id ≤ other.id := by
  have holdest : ∀ row, rows.find? fits = some row →
      row ∈ rows ∧ fits row = true ∧ ∀ other ∈ rows, fits other = true → row.id ≤ other.id := by
    intro row hfound
    refine ⟨mem_of_find?_eq_some hfound, find?_some hfound, ?_⟩
    obtain ⟨-, before, after, rfl, hnone⟩ := find?_eq_some_iff_append.mp hfound
    intro other hother hfits
    rcases mem_append.mp hother with hbefore | hafter
    · simpa [hfits] using hnone other hbefore
    · rcases mem_cons.mp hafter with rfl | hlater
      · exact Int.le_refl _
      · have hgrows := (pairwise_append.mp hrows).2.1
        exact Int.le_of_lt ((pairwise_cons.mp hgrows).1 other hlater)
  refine ⟨holdest row, ?_⟩
  rintro ⟨hrow, hfits, hleast⟩
  cases hfound : rows.find? fits with
  | none => exact absurd hfits (find?_eq_none.mp hfound row hrow)
  | some other =>
    obtain ⟨hother, hotherFits, hotherLeast⟩ := holdest other hfound
    have hid : other.id = row.id :=
      Int.le_antisymm (hotherLeast row hrow hfits) (hleast other hother hotherFits)
    have hnodup : (rows.map (·.id)).Nodup :=
      pairwise_map.mpr (hrows.imp fun hlt => Int.ne_of_lt hlt)
    rw [inj_on_of_nodup_map hnodup hother hrow hid]

/-- Numbers are keys: at most one row is found under a number. -/
theorem find?_id_iff {rows : List StoredLocation} (hrows : rows.Pairwise fun a b => a.id < b.id)
    {id : Int} {row : StoredLocation} :
    rows.find? (·.id == id) = some row ↔ row ∈ rows ∧ row.id = id := by grind [find?_eq_oldest]

/-- A fingerprint replaces the one of its path and leaves the others. -/
theorem find?_upsert (t : List SourceFile) (source : SourceFile) (path : Text) :
    (Database.upsert t source).find? (·.path == path) =
      if source.path = path then some source else t.find? (·.path == path) := by
  rw [Database.upsert]
  split
  · rename_i hknown
    have hpaths : ((·.path == path) ∘ fun o : SourceFile =>
      if o.path == source.path then source else o) =
        (·.path == path) := by
      funext o
      by_cases ho : o.path = source.path <;> simp [ho]
    rw [find?_map, hpaths]
    cases hfound : t.find? (·.path == path) with
    | none => grind
    | some o => grind
  · grind

/-- The fingerprint that counts is the last one of its path. -/
theorem find?_foldl_upsert (sources : List SourceFile) (path : Text) :
    (sources.foldl Database.upsert []).find? (·.path == path) =
      (sources.filter (·.path = path)).getLast? := by
  induction sources using reverseRecOn with
  | nil => rfl
  | append_singleton sources source ih =>
    rw [foldl_append, foldl_cons, foldl_nil, find?_upsert, filter_append, ih]
    by_cases hpath : source.path = path
    · rw [if_pos hpath, filter_cons_of_pos (by simpa using hpath), filter_nil,
        getLast?_concat]
    · rw [if_neg hpath, filter_cons_of_neg (by simpa using hpath), filter_nil,
        append_nil]

theorem pairwise_columnOrder {rows : List StoredLocation} (hrows : (rows.map (·.id)).Nodup) :
    (rows.mergeSort Database.columnOrder).Pairwise fun a b =>
      a.location.col < b.location.col ∨ a.location.col = b.location.col ∧ a.id < b.id := by
  grind [Database.columnOrder, Fault.pairwise_mergeSort_of_nodup]

/-! ## The contract -/

theorem pairwise_numberFrom (row : Int → α → β) (number : β → Int)
    (hnumber : ∀ id v, number (row id v) = id) (last : Nat) (values : List α) :
    (numberFrom last row values).Pairwise fun a b => number a < number b := by
  rw [← pairwise_map (f := number) (R := (· < ·)), map_numberFrom_number last row number hnumber,
    pairwise_map]
  exact (pairwise_lt_range' 1).imp Int.ofNat_lt.mpr

/-- What a store owes to a journal. -/
structure Contract (s : Store) (j : Journal) : Prop where
  cancelled : ∀ op : Operation, op.cancelled = true → ∃ fault, perform s op = (.error fault, s)
  /-- Every other one succeeds, and an insertion reports the number after the last. -/
  done : ∀ op : Operation, op.cancelled = false → (perform s op).1 = .ok (j.reply op.write)
  locationNumbers : j.locationRows.Pairwise fun a b => a.id < b.id
  edgeNumbers : j.edgeRows.Pairwise fun a b => a.id < b.id
  findById : ∀ id row, s.findById id = .ok row ↔ row ∈ j.locationRows ∧ row.id = id
  findById_none : ∀ id, s.findById id = .error .notFound ↔ ∀ row ∈ j.locationRows, row.id ≠ id
  /-- The oldest row at the coordinates is found. -/
  findLocation : ∀ file line col row, s.findLocation file line col = .ok row ↔
    row ∈ j.locationRows ∧ row.location.position = ⟨file, line, col⟩ ∧
      ∀ other ∈ j.locationRows, other.location.position = ⟨file, line, col⟩ → row.id ≤ other.id
  findLocation_none : ∀ file line col, s.findLocation file line col = .error .notFound ↔
    ∀ row ∈ j.locationRows, row.location.position ≠ ⟨file, line, col⟩
  /-- The rows on a line are there, each once, by column and then by number. -/
  findOnLine : ∀ file line, ∃ rows, s.findOnLine file line = .ok rows ∧
    rows.Perm (j.locationRows.filter fun row => row.location.file = file ∧
      row.location.line = line) ∧
    rows.Pairwise fun a b =>
      a.location.col < b.location.col ∨ a.location.col = b.location.col ∧ a.id < b.id
  edgesFrom : ∀ id, s.edgesFrom id = .ok (j.edgeRows.filter (·.lhs = id))
  /-- The last fingerprint of a path counts. -/
  sourceHash : ∀ path source, s.sourceHash path = .ok source ↔
    (j.sources.filter (·.path = path)).getLast? = some source
  sourceHash_none : ∀ path, s.sourceHash path = .error .notFound ↔
    ∀ source ∈ j.sources, source.path ≠ path

namespace InStep

variable {d : Database} {j : Journal}

theorem contract (h : InStep d j) : Contract d.store j := by
  have hnumbers : j.locationRows.Pairwise fun a b => a.id < b.id :=
    pairwise_numberFrom _ _ (fun _ _ => rfl) 0 j.locations
  have hnodup : (j.locationRows.map (·.id)).Nodup :=
    pairwise_map.mpr (hnumbers.imp fun hlt => Int.ne_of_lt hlt)
  have hrows : (Numbered.extend {} StoredLocation.mk j.locations).rows = j.locationRows := rfl
  have hat : ∀ file line col (row : StoredLocation),
      (row.location.file == file && row.location.line == line && row.location.col == col) = true ↔
        row.location.position = ⟨file, line, col⟩ := by
    intro file line col row
    simp [Location.position, and_assoc]
  refine
    { cancelled := fun op hop => perform_cancelled d hop
      done := ?_
      locationNumbers := hnumbers
      edgeNumbers := pairwise_numberFrom _ _ (fun _ _ => rfl) 0 j.edges
      findById := ?_
      findById_none := ?_
      findLocation := ?_
      findLocation_none := ?_
      findOnLine := ?_
      edgesFrom := ?_
      sourceHash := ?_
      sourceHash_none := ?_ }
  · intro op hop
    obtain ⟨d', hperform, -⟩ := h.perform_done hop
    rw [hperform]
  · intro id row
    rw [Database.store_findById h.locations, found_eq_ok, hrows, find?_id_iff hnumbers]
  · intro id
    rw [Database.store_findById h.locations, found_eq_notFound, hrows, find?_eq_none]
    simp only [beq_iff_eq, ne_eq]
  · intro file line col row
    rw [Database.store_findLocation h.locations, found_eq_ok, hrows, find?_eq_oldest hnumbers]
    simp only [hat]
  · intro file line col
    rw [Database.store_findLocation h.locations, found_eq_notFound, hrows, find?_eq_none]
    simp only [hat, ne_eq]
  · intro file line
    refine ⟨_, Database.store_findOnLine h.locations file line, ?_, pairwise_columnOrder ?_⟩
    · grind [mergeSort_perm]
    · exact hnodup.sublist (filter_sublist.map _)
  · intro id
    rw [Database.store_edgesFrom h.dependencies]
    rfl
  · intro path source
    rw [Database.store_sourceHash h.sources, found_eq_ok, find?_foldl_upsert]
  · intro path
    rw [Database.store_sourceHash h.sources, found_eq_notFound, find?_foldl_upsert,
      getLast?_eq_none_iff, filter_eq_nil_iff]
    simp only [decide_eq_true_eq, ne_eq]

end InStep

namespace Journal

/-- Without a reset locations are only added. -/
theorem locations_prefix_note (j : Journal) {w : Write} (hw : w ≠ .reset) :
    j.locations <+: (j.note w).locations := by
  cases w with
  | insertLocation l => exact prefix_append _ _
  | insertEdge lhs rhs => exact prefix_rfl
  | recordSource source => exact prefix_rfl
  | reset => exact absurd rfl hw
  | writeGraph g sources => exact prefix_append _ _

theorem locations_prefix_foldl (j : Journal) {later : List Operation}
    (hlater : ∀ op ∈ later, op.cancelled = false → op.write ≠ .reset) :
    j.locations <+:
      (later.foldl (fun j op => if op.cancelled then j else j.note op.write) j).locations := by
  induction later generalizing j with
  | nil => exact prefix_rfl
  | cons op rest ih =>
    have hrest := fun j => ih j fun op hop => hlater op (mem_cons_of_mem _ hop)
    rw [foldl_cons]
    cases hop : op.cancelled with
    | true => exact hrest j
    | false => exact (j.locations_prefix_note (hlater op mem_cons_self hop)).trans (hrest _)

/-- A location keeps the number that its place in the journal gives it. -/
theorem mem_locationRows {j : Journal} {before : List Location} {l : Location}
    (hlead : before ++ [l] <+: j.locations) : ⟨(before.length + 1 : Nat), l⟩ ∈ j.locationRows := by
  obtain ⟨after, hafter⟩ := hlead
  rw [locationRows, ← hafter, numberFrom_append, numberFrom_append]
  simp

end Journal

/-- Whatever the history of a store that was initialised, it honours the contract with the
journal of that history; and until the next reset a location is found, unchanged, under the
number that its insertion reported. -/
theorem history_honoured :
    ∃ fresh, Database.blank.store.init = .ok fresh ∧
      (∀ history, Contract (afterAll fresh history) (.ofHistory history)) ∧
      ∀ before l later, (∀ op ∈ later, op.cancelled = false → op.write ≠ .reset) →
        ∃ number, (perform (afterAll fresh before) (.insertion l)).1 = .ok (.number number) ∧
          (afterAll fresh (before ++ .insertion l :: later)).findById number = .ok ⟨number, l⟩ := by
  have hhonoured : ∀ history,
      Contract (afterAll Database.blank.init.store history) (.ofHistory history) := by
    intro history
    obtain ⟨d, hd, hstep⟩ := InStep.start.afterAll history
    rw [hd]
    exact hstep.contract
  refine ⟨Database.blank.init.store, rfl, hhonoured, ?_⟩
  intro before l later hlater
  refine ⟨((Journal.ofHistory before).locations.length + 1 : Nat),
    (hhonoured before).done _ rfl, ?_⟩
  rw [(hhonoured _).findById]
  refine ⟨Journal.mem_locationRows ?_, rfl⟩
  have hhistory : Journal.ofHistory (before ++ .insertion l :: later) = later.foldl
      (fun j op => if op.cancelled then j else j.note op.write)
      ((Journal.ofHistory before).note (.insertLocation l)) := foldl_append
  rw [hhistory]
  exact ((Journal.ofHistory before).note (.insertLocation l)).locations_prefix_foldl hlater

/-! ## Tables with numbers as keys

A table keeps its rows in the order of their numbers and gives no number twice. This is all
that is known of the contents of a database: rows may share coordinates, and an edge may name
any numbers, also such as no row has. -/

/-- The tables are there, and their rows stand in the order of their numbers. -/
structure Database.Keyed (d : Database) (locations : Numbered StoredLocation)
    (dependencies : Numbered Dependency) : Prop where
  locations_eq : d.locations = some locations
  dependencies_eq : d.dependencies = some dependencies
  locations_ordered : locations.rows.Pairwise fun a b => a.id < b.id
  dependencies_ordered : dependencies.rows.Pairwise fun a b => a.id < b.id

namespace Database.Keyed

variable {d : Database} {locations : Numbered StoredLocation} {dependencies : Numbered Dependency}

theorem nodup_id (hd : d.Keyed locations dependencies) : (locations.rows.map (·.id)).Nodup := by
  apply List.pairwise_map.mpr
  exact hd.locations_ordered.imp fun hlt => Int.ne_of_lt hlt

theorem eq_of_id (hd : d.Keyed locations dependencies) {row other : StoredLocation}
    (hrow : row ∈ locations.rows) (hother : other ∈ locations.rows) (hid : row.id = other.id) :
    row = other :=
  List.inj_on_of_nodup_map hd.nodup_id hrow hother hid

theorem findById_iff (hd : d.Keyed locations dependencies) {id : Int} {row : StoredLocation} :
    d.store.findById id = .ok row ↔ row ∈ locations.rows ∧ row.id = id := by
  rw [Database.store_findById hd.locations_eq, found_eq_ok, find?_id_iff hd.locations_ordered]

end Database.Keyed

/-- Tables that are in step with a journal are keyed. -/
theorem InStep.keyed {d : Database} {j : Journal} (h : InStep d j) :
    ∃ locations dependencies, d.Keyed locations dependencies ∧ locations.rows = j.locationRows ∧
      dependencies.rows = j.edgeRows := by
  have hlocations : j.locationRows.Pairwise fun a b => a.id < b.id :=
    pairwise_numberFrom _ _ (fun _ _ => rfl) 0 j.locations
  have hedges : j.edgeRows.Pairwise fun a b => a.id < b.id :=
    pairwise_numberFrom _ _ (fun _ _ => rfl) 0 j.edges
  exact ⟨_, _, ⟨h.locations, h.dependencies, hlocations, hedges⟩, rfl, rfl⟩

/-- **Histories keep tables keyed.**  The rows are those of the journal. -/
theorem keyed_of_history {history : List Operation} {d : Database}
    (hd : afterAll Database.blank.init.store history = d.store) :
    ∃ locations dependencies, d.Keyed locations dependencies ∧
      locations.rows = (Journal.ofHistory history).locationRows ∧
      dependencies.rows = (Journal.ofHistory history).edgeRows := by
  obtain ⟨other, hother, hstep⟩ := InStep.start.afterAll history
  obtain rfl : other = d := by
    have hsame := hother.symm.trans hd
    simpa [Database.store] using hsame
  exact hstep.keyed

end FaultRepair.Store
