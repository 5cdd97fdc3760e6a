/-
# Rows and the numbers they are given

The writers of a graph insert locations and pairs one by one, and each insertion extends
a table by one row with the next number. Here a whole run of insertions is described at
once: the rows that it appends, the numbering that it returns and what it leaves alone.
Nothing is assumed of the rows that a table held before.

The numbering is a translation table. It is faithful exactly when the inserted locations
have distinct positions: then every one of them is found again under the number that the
numbering gives for it.
-/

import FaultRepair.Store.Persist
import FaultRepair.Proofs.Graph.Discovery

namespace FaultRepair.Store

open FaultRepair.Graph List

/-! ## Consecutive numbers -/

variable (last : Nat)

/-- Rows made of some values in turn, with the numbers that follow `last`. -/
def numberFrom (row : Int → α → β) (values : List α) : List β :=
  (values.zipIdx (last + 1)).map fun v => row v.2 v.1

@[simp]
theorem numberFrom_nil (row : Int → α → β) : numberFrom last row [] = [] := rfl

@[simp]
theorem numberFrom_cons (row : Int → α → β) (value : α) (values : List α) :
    numberFrom last row (value :: values) =
      row (last + 1 : Nat) value :: numberFrom (last + 1) row values := rfl

/-- What rows keep of their values does not depend on the numbers. -/
theorem map_numberFrom (row : Int → α → β) (view : β → γ) (value : α → γ)
    (hview : ∀ id v, view (row id v) = value v) (values : List α) :
    (numberFrom last row values).map view = values.map value := by
  induction values generalizing last with
  | nil => rfl
  | cons first rest ih => simp [hview, ih]

/-- The numbers themselves run on from `last`, whatever the values are. -/
theorem map_numberFrom_number (row : Int → α → β) (number : β → Int)
    (hnumber : ∀ id v, number (row id v) = id) (values : List α) :
    (numberFrom last row values).map number =
      (range' (last + 1) values.length).map fun n : Nat => (n : Int) := by
  induction values generalizing last with
  | nil => rfl
  | cons first rest ih => simp [hnumber, ih, range'_succ]

theorem nodup_numberFrom_number (row : Int → α → β) (number : β → Int)
    (hnumber : ∀ id v, number (row id v) = id) (values : List α) :
    ((numberFrom last row values).map number).Nodup := by
  rw [map_numberFrom_number last row number hnumber]
  exact (nodup_range').map fun _ _ hequal => Int.ofNat.inj hequal

/-- Selecting rows by what they are made of selects the values. -/
theorem map_filter_numberFrom (row : Int → α → β) (view : β → γ) (value : α → γ)
    (hview : ∀ id v, view (row id v) = value v) (keep : β → Bool) (wanted : α → Bool)
    (values : List α) (hkeep : ∀ v ∈ values, ∀ id, keep (row id v) = wanted v) :
    ((numberFrom last row values).filter keep).map view = (values.filter wanted).map value := by
  induction values generalizing last with
  | nil => rfl
  | cons first rest ih => grind [numberFrom_cons]

theorem numberFrom_append (row : Int → α → β) (first second : List α) :
    numberFrom last row (first ++ second) =
      numberFrom last row first ++ numberFrom (last + first.length) row second := by
  induction first generalizing last with
  | nil => rfl
  | cons value rest ih => grind [numberFrom_cons]

def Numbered.extend (t : Numbered β) (row : Int → α → β) (values : List α) : Numbered β where
  rows := t.rows ++ numberFrom t.last row values
  last := t.last + values.length

theorem Numbered.extend_extend (t : Numbered β) (row : Int → α → β) (first second : List α) :
    (t.extend row first).extend row second = t.extend row (first ++ second) := by
  simp [extend, numberFrom_append, Nat.add_assoc]

/-- The numbering that inserting some locations after `last` rows gives. -/
def numberingFrom (ls : List Location) : Numbering :=
  numberFrom last (fun id l => (l.position, id)) ls

theorem length_numberingFrom (ls : List Location) :
    (numberingFrom last ls).length = ls.length := by
  simp [numberingFrom, numberFrom]

/-- A position that has no number yet gets one at the end. -/
theorem Numbering.set_of_not_mem {n : Numbering} {p : Position} (hp : p ∉ n.map (·.1)) (id : Int) :
    n.set p id = n ++ [(p, id)] := by grind [set]

/-- The numbering leads from a location back to its row. -/
theorem mem_numberFrom_of {ls : List Location} (hnodup : (ls.map Location.position).Nodup)
    (last : Nat) {l : Location} (hl : l ∈ ls) :
    (⟨(numberingFrom last ls).of l, l⟩ : StoredLocation) ∈ numberFrom last
      StoredLocation.mk ls := by
  induction ls generalizing last with
  | nil => cases hl
  | cons first rest ih => grind [numberingFrom, Numbering.of, numberFrom_cons]

/-! ## Runs of rows -/

namespace Row

@[simp]
def locations : Row → List Location
  | .location l => [l]
  | _ => []

@[simp]
def pairs : Row → List (Location × Location)
  | .pair p => [p]
  | _ => []

@[simp]
def sources : Row → List SourceFile
  | .source f => [f]
  | _ => []

end Row

section

theorem flatMap_nothing (l : List α) : (l.flatMap fun _ => ([] : List β)) = [] := by simp

variable (g : DepGraph) (sources : List SourceFile)

theorem flatMap_locations_rowsOf : (rowsOf g sources).flatMap Row.locations = g.locations := by
  simp [rowsOf, flatMap_map, Row.locations]

theorem flatMap_pairs_rowsOf : (rowsOf g sources).flatMap Row.pairs = edgeOrder g := by
  simp [rowsOf, flatMap_map, Row.pairs, flatMap_nothing]

theorem flatMap_sources_rowsOf : (rowsOf g sources).flatMap Row.sources = sources := by
  simp [rowsOf, flatMap_map, Row.sources, flatMap_nothing]

end

/-- All locations are written before the first pair. -/
theorem locations_before_pair {g : DepGraph} {sources : List SourceFile} {done rest : List Row}
    {pair : Location × Location} (h : rowsOf g sources = done ++ .pair pair :: rest) :
    done.flatMap Row.locations = g.locations := by
  rw [rowsOf, append_assoc] at h
  obtain ⟨others, rfl, hothers⟩ | ⟨left, hleft, hpair⟩ := append_eq_append_iff.mp h
  · have hnone : others.flatMap Row.locations = [] := by
      rw [flatMap_eq_nil_iff]
      intro row hrow
      have hmem : row ∈ (edgeOrder g).map Row.pair ++ sources.map Row.source := by
        rw [hothers]
        exact mem_append_left _ hrow
      grind [Row.locations]
    simp [flatMap_map, Row.locations, hnone]
  · cases left with
    | nil =>
      rw [append_nil] at hleft
      simp [← hleft, flatMap_map, Row.locations]
    | cons row more =>
      have hmem : row ∈ g.locations.map Row.location := by simp [hleft]
      grind

structure Initialised (d : Database) : Prop where
  locations : d.locations.isSome
  dependencies : d.dependencies.isSome
  sources : d.sources.isSome

namespace Database

theorem insertLocation?_eq {d : Database} {t : Numbered StoredLocation} (ht : d.locations = some t)
    (l : Location) :
    d.insertLocation? l = some (((t.last + 1 : Nat) : Int),
      { d with locations := some (t.extend StoredLocation.mk [l]), version := d.version + 1 }) := by
  rw [insertLocation?, ht]
  rfl

theorem insertEdge?_eq {d : Database} {t : Numbered Dependency} (ht : d.dependencies = some t)
    (n : Numbering) (pair : Location × Location) :
    d.insertEdge? (n.of pair.1) (n.of pair.2) = some
      { d with
        dependencies := some (t.extend (fun id pair => ⟨id, n.of pair.1, n.of pair.2⟩) [pair])
        version := d.version + 1 } := by
  rw [insertEdge?, ht]
  rfl

theorem recordSource?_eq {d : Database} {t : List SourceFile} (ht : d.sources = some t)
    (source : SourceFile) :
    d.recordSource? source = some
      { d with sources := some (upsert t source), version := d.version + 1 } := by
  rw [recordSource?, ht]
  rfl

/-- The tables hold what they held and some rows after it, where a pair is written under the
numbers of its locations. -/
structure Grows (d : Database) (number : Location → Int) (rows : List Row) (d' : Database) :
    Prop where
  locations : d'.locations =
    d.locations.map (·.extend StoredLocation.mk (rows.flatMap Row.locations))
  dependencies : d'.dependencies = d.dependencies.map
    (·.extend (fun id pair => ⟨id, number pair.1, number pair.2⟩) (rows.flatMap Row.pairs))
  sources : d'.sources = d.sources.map ((rows.flatMap Row.sources).foldl upsert ·)
  version : d'.version = d.version + rows.length

/-- The last number that a location was given. -/
def lastNumber (d : Database) : Nat := (d.locations.getD {}).last

/-- How many rows of each kind there are. -/
def countsOf (rows : List Row) : GraphCounts where
  locations := (rows.flatMap Row.locations).length
  edges := (rows.flatMap Row.pairs).length
  sources := (rows.flatMap Row.sources).length

/-- The first rows of a graph were written to a database, and this is what is remembered of them. -/
structure Along (d : Database) (g : DepGraph) (done : List Row) (t : Tally) (d' : Database) :
    Prop where
  grows : d.Grows (numberingFrom d.lastNumber g.locations).of done d'
  numbers : t.numbers = numberingFrom d.lastNumber (done.flatMap Row.locations)
  counts : t.counts = countsOf done

variable {d d' : Database} {g : DepGraph} {sources : List SourceFile} {done rest : List Row}
  {row : Row} {t : Tally}

/-- One row more: it always fits in, if the tables are there. -/
theorem Along.put? (hd : Initialised d) (hrows : rowsOf g sources = done ++ row :: rest)
    (h : d.Along g done t d') :
    ∃ id d'', d'.put? t.numbers row = some (id, d'') ∧
      d.Along g (done ++ [row]) (t.add id row) d'' := by
  obtain ⟨⟨hlocations, hdependencies, hsources, hversion⟩, hnumbers, hcounts⟩ := h
  obtain ⟨locations, hl⟩ := Option.isSome_iff_exists.mp hd.locations
  obtain ⟨dependencies, hp⟩ := Option.isSome_iff_exists.mp hd.dependencies
  obtain ⟨recorded, hs⟩ := Option.isSome_iff_exists.mp hd.sources
  rw [hl, Option.map_some] at hlocations
  rw [hp, Option.map_some] at hdependencies
  rw [hs, Option.map_some] at hsources
  have hlast : d.lastNumber = locations.last := by rw [lastNumber, hl]; rfl
  cases row with
  | location l =>
    have hfresh : l.position ∉ t.numbers.map (·.1) := by
      rw [hnumbers, numberingFrom,
        map_numberFrom _ (fun id (l : Location) => (l.position, id)) (·.1)
        Location.position fun _ _ => rfl]
      have hnodup := DepGraph.nodup_positions_locations g
      rw [← flatMap_locations_rowsOf g sources, hrows, flatMap_append, map_append, nodup_append]
        at hnodup
      intro hmem
      exact hnodup.2.2 _ hmem _ mem_cons_self rfl
    refine ⟨_, _, insertLocation?_eq hlocations l, ⟨?_, ?_, ?_, ?_⟩, ?_, ?_⟩
    · simp [hl, Numbered.extend_extend]
    · simp [hp, hdependencies]
    · simp [hs, hsources]
    · simp [hversion, Nat.add_assoc]
    · rw [Tally.add, Numbering.set_of_not_mem hfresh, hnumbers, hlast]
      simp [numberingFrom, numberFrom_append, Numbered.extend]
    · simp [Tally.add, hcounts, countsOf]
  | pair p =>
    have hput : d'.put? t.numbers (.pair p) = _ :=
      congrArg (Option.map fun d => ((0 : Int), d)) (insertEdge?_eq hdependencies t.numbers p)
    refine ⟨_, _, hput, ⟨?_, ?_, ?_, ?_⟩, ?_, ?_⟩
    · simp [hl, hlocations]
    · rw [hnumbers, locations_before_pair hrows]
      simp [hp, Numbered.extend_extend]
    · simp [hs, hsources]
    · simp [hversion, Nat.add_assoc]
    · simp [Tally.add, hnumbers]
    · simp [Tally.add, hcounts, countsOf]
  | source f =>
    have hput : d'.put? t.numbers (.source f) = _ :=
      congrArg (Option.map fun d => ((0 : Int), d)) (recordSource?_eq hsources f)
    refine ⟨_, _, hput, ⟨?_, ?_, ?_, ?_⟩, ?_, ?_⟩
    · simp [hl, hlocations]
    · simp [hp, hdependencies]
    · simp [hs]
    · simp [hversion, Nat.add_assoc]
    · simp [Tally.add, hnumbers]
    · simp [Tally.add, hcounts, countsOf]

theorem Along.run (hd : Initialised d) (hrows : rowsOf g sources = done ++ rest)
    (h : d.Along g done t d') :
    ∃ t' d'', rest.foldlM step? (t, d') = some (t', d'') ∧ d.Along g (rowsOf g sources) t' d'' := by
  induction rest generalizing done t d' with
  | nil =>
    rw [append_nil] at hrows
    exact ⟨t, d', rfl, hrows ▸ h⟩
  | cons row rest ih =>
    obtain ⟨id, d'', hput, hnext⟩ := h.put? hd hrows
    obtain ⟨t', final, hrun, hfinal⟩ := ih (by rw [hrows, append_assoc]; rfl) hnext
    refine ⟨t', final, ?_, hfinal⟩
    rw [foldlM_cons, step?, hput]
    exact hrun

theorem along_nil (d : Database) (g : DepGraph) : d.Along g [] {} d := by
  refine ⟨⟨?_, ?_, ?_, rfl⟩, rfl, rfl⟩ <;> simp [Numbered.extend]

theorem countsOf_rowsOf (g : DepGraph) (sources : List SourceFile) :
    countsOf (rowsOf g sources) = ⟨g.locations.length, (edgeOrder g).length, sources.length⟩ := by
  rw [countsOf, flatMap_locations_rowsOf, flatMap_pairs_rowsOf, flatMap_sources_rowsOf]

/-- A transaction takes all rows of a graph. -/
theorem exists_along (hd : Initialised d) (g : DepGraph) (sources : List SourceFile) :
    ∃ t final, (rowsOf g sources).foldlM step? ({}, d) = some (t, final) ∧
      d.Along g (rowsOf g sources) t final ∧
      t.counts = ⟨g.locations.length, (edgeOrder g).length, sources.length⟩ ∧
      d.writeGraph? g sources = some (t.counts, final) := by
  obtain ⟨t, final, hrun, hfinal⟩ := (d.along_nil g).run hd (nil_append (rowsOf g sources)).symm
  have htables : (d.locations.isNone || d.dependencies.isNone) = false := by
    simp [← Option.not_isSome, hd.locations, hd.dependencies]
  have hcounts := hfinal.counts.trans (countsOf_rowsOf g sources)
  have hnumbers := congrArg length hfinal.numbers
  rw [flatMap_locations_rowsOf, length_numberingFrom] at hnumbers
  refine ⟨t, final, hrun, hfinal, hcounts, ?_⟩
  simp [writeGraph?, htables, hrun, hcounts, hnumbers]

/-- A whole graph, written to a database that has its tables: the locations, then the
pairs under the numbers that the locations were given, then the fingerprints. -/
theorem writeGraph?_eq {locations : Numbered StoredLocation} {dependencies : Numbered Dependency}
    {recorded : List SourceFile} (hlocations : d.locations = some locations)
    (hdependencies : d.dependencies = some dependencies) (hrecorded : d.sources = some recorded)
    (g : DepGraph) (sources : List SourceFile) :
    d.writeGraph? g sources = some (⟨g.locations.length, (edgeOrder g).length, sources.length⟩,
      { locations := some (locations.extend StoredLocation.mk g.locations)
        dependencies := some (dependencies.extend
          (fun id pair => ⟨id, (numberingFrom locations.last g.locations).of pair.1,
            (numberingFrom locations.last g.locations).of pair.2⟩) (edgeOrder g))
        sources := some (sources.foldl upsert recorded)
        version := d.version + (rowsOf g sources).length }) := by
  obtain ⟨t, final, -, ⟨hgrows, -⟩, hcounts, hwritten⟩ := exists_along (d := d)
    ⟨by simp [hlocations], by simp [hdependencies], by simp [hrecorded]⟩ g sources
  obtain ⟨rows, edges, files, version⟩ := final
  obtain ⟨rfl, rfl, rfl, rfl⟩ := hgrows
  simp [hwritten, hcounts, lastNumber, hlocations, hdependencies, hrecorded,
    flatMap_locations_rowsOf, flatMap_pairs_rowsOf, flatMap_sources_rowsOf]

end Database

end FaultRepair.Store
