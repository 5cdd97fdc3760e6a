/-
# Two writers of a graph

A database file takes a graph in one transaction; any store takes it row by row, each row in
an operation of its own. The two keep their own numberings and count differently: the
transaction reports the size of its numbering, the other the rows it has written.

The row by row writer follows the transaction: a row that the transaction takes is taken by
the other with the same outcome, so a whole transaction is a whole run. What is left is the
size of the numbering, which is the number of rows because no position is repeated among the
locations of a graph.
-/

import FaultRepair.Proofs.Store.Representation
import FaultRepair.Proofs.Store.Writing

namespace FaultRepair.Store

open FaultRepair.Graph Files Option

/-! ## Following a transaction -/

variable {sources : List SourceFile} {counts : GraphCounts} {paths : List Text} {d d' : Database}
  {g : DepGraph} {files : Tree}

/-- A row that the database takes is taken by its store. -/
theorem store_put {n : Numbering} {row : Row} {id : Int} (h : d.put? n row = some (id, d')) :
    d.store.put n row = .ok (id, d'.store) := by
  cases row with
  | location l => exact Database.store_insertLocation h
  | pair p =>
    obtain ⟨d'', hinsert, hequal⟩ := map_eq_some_iff.mp h
    cases hequal
    rw [Store.put, Database.store_insertEdge hinsert]
    rfl
  | source f =>
    obtain ⟨d'', hrecord, hequal⟩ := map_eq_some_iff.mp h
    cases hequal
    rw [Store.put, Database.store_recordSource hrecord]
    rfl

/-- Whatever a transaction does, single rows do. -/
theorem advance_of_foldlM {rows : List Row} {t t' : Tally}
    (h : rows.foldlM Database.step? (t, d) = some (t', d')) :
    advance Store.step (t, d.store) rows = ((t', d'.store), none) := by
  induction rows generalizing t d with
  | nil =>
    cases h
    rfl
  | cons row rest ih =>
    rw [List.foldlM_cons, bind_eq_bind, bind_eq_some_iff] at h
    obtain ⟨⟨next, d''⟩, hfirst, hrest⟩ := h
    obtain ⟨⟨id, d₁⟩, hput, hequal⟩ := map_eq_some_iff.mp hfirst
    cases hequal
    rw [advance, Store.step, store_put hput]
    exact ih hrest

/-! ## Agreement -/

/-- A database holds what another held and a graph after it: every location and every pair
has a new row, pairs are written under the numbers of the new rows, and fingerprints are
replaced or added. -/
structure Appended (d : Database) (g : DepGraph) (sources : List SourceFile) (d' : Database) :
    Prop where
  locations : ∃ t, d.locations = some t ∧
    d'.locations = some (t.extend StoredLocation.mk g.locations)
  dependencies : ∃ (t : Numbered Dependency) (number : Location → Int), d.dependencies = some t ∧
    d'.dependencies = some (t.extend (fun id pair => ⟨id, number pair.1, number pair.2⟩)
      (edgeOrder g)) ∧
    ∀ l ∈ g.locations, ∃ t', d'.locations = some t' ∧ ⟨number l, l⟩ ∈ t'.rows
  sources : ∃ t, d.sources = some t ∧ d'.sources = some (sources.foldl Database.upsert t)

theorem appended_of_grows (hd : Initialised d)
    (h : d.Grows (numberingFrom d.lastNumber g.locations).of (rowsOf g sources) d') :
    Appended d g sources d' := by
  obtain ⟨locations, hlocations⟩ := isSome_iff_exists.mp hd.locations
  obtain ⟨dependencies, hdependencies⟩ := isSome_iff_exists.mp hd.dependencies
  obtain ⟨recorded, hrecorded⟩ := isSome_iff_exists.mp hd.sources
  have hrows := h.locations
  have hpairs := h.dependencies
  have hsources := h.sources
  rw [hlocations, map_some, flatMap_locations_rowsOf] at hrows
  rw [hdependencies, map_some, flatMap_pairs_rowsOf] at hpairs
  rw [hrecorded, map_some, flatMap_sources_rowsOf] at hsources
  refine ⟨⟨locations, hlocations, hrows⟩, ⟨dependencies, _, hdependencies, hpairs, ?_⟩,
    ⟨recorded, hrecorded, hsources⟩⟩
  intro l hl
  refine ⟨_, hrows, List.mem_append_right _ ?_⟩
  rw [Database.lastNumber, hlocations]
  exact mem_numberFrom_of (DepGraph.nodup_positions_locations g) locations.last hl

/-- Writing ended well, left a database behind and reported some counts. -/
structure Persisted.Leaves (p : Persisted) (d : Database) (counts : GraphCounts) : Prop where
  store_eq : p.store = d.store
  outcome_eq : p.outcome = .ok counts

/-- With the fingerprints at hand, what is left to be done is up to the store. -/
theorem persist_eq {revision : Text} (hsources : fingerprints files revision paths = .ok sources)
    (s : Store) (rows : Bool) (g : DepGraph) :
    (persist files s rows g paths revision).store = (s.writeGraph rows g sources).1 ∧
      (persist files s rows g paths revision).outcome =
        (s.writeGraph rows g sources).2.mapError .store := by
  simp only [persist, hsources]
  rcases s.writeGraph rows g sources with ⟨left, fault | counts⟩
  · exact ⟨rfl, rfl⟩
  · exact ⟨rfl, rfl⟩

/-- A graph fits into every database that has its tables, in both ways. -/
theorem persist_leaves {revision : Text} (hd : Initialised d)
    (hsources : fingerprints files revision paths = .ok sources) (g : DepGraph) :
    ∃ d', Appended d g sources d' ∧ ∀ rows, (persist files d.store rows g paths revision).Leaves d'
      ⟨g.locations.length, (edgeOrder g).length, sources.length⟩ := by
  obtain ⟨t, final, hrun, halong, hcounts, hwhole⟩ := Database.exists_along hd g sources
  refine ⟨final, appended_of_grows hd halong.grows, fun rows => ?_⟩
  have hgraph : d.store.writeGraph rows g sources = (final.store, .ok t.counts) := by
    cases rows with
    | false => exact Database.store_writeWhole hwhole
    | true =>
      change d.store.writeRows g sources = _
      rw [Store.writeRows, advance_of_foldlM hrun]
  obtain ⟨hstore, houtcome⟩ := persist_eq hsources d.store rows g
  rw [hgraph, hcounts] at houtcome
  rw [hgraph] at hstore
  exact ⟨hstore, houtcome⟩

theorem exists_fingerprints (revision : Text)
    (hreadable : ∀ path ∈ paths, ∃ data, files.read path = .ok data) :
    ∃ sources, fingerprints files revision paths = .ok sources ∧
      sources.length = paths.length := by
  induction paths with
  | nil => exact ⟨[], rfl, rfl⟩
  | cons path rest ih =>
    obtain ⟨data, hdata⟩ := hreadable path List.mem_cons_self
    obtain ⟨sources, hsources, hlength⟩ := ih fun p hp => hreadable p (List.mem_cons_of_mem path hp)
    rw [fingerprints] at hsources
    refine ⟨⟨path, Fingerprint.render (Fingerprint.ofSource data), revision⟩ :: sources, ?_, by
      simp [hlength]⟩
    rw [fingerprints, List.mapM_cons, hsources, fingerprint, hdata]
    rfl

/-- Both writers end well, report the same counts and leave the same rows under the same
numbers, namely what the database held and the graph after it. -/
structure WritersAgree (files : Tree) (d : Database) (calls : List (Location × Location))
    (paths : List Text) (revision : Text) (counts : GraphCounts) (whole rows : Database) :
      Prop where
  whole_leaves : (persist files d.store false (.ofAdditions calls) paths revision).Leaves
    whole counts
  rows_leaves : (persist files d.store true (.ofAdditions calls) paths revision).Leaves rows counts
  locations_eq : whole.locations = rows.locations
  dependencies_eq : whole.dependencies = rows.dependencies
  sources_eq : whole.sources = rows.sources
  appended : ∃ sources, fingerprints files revision paths = .ok sources ∧
    Appended d (.ofAdditions calls) sources whole

/-- **The two writers agree.**  A graph made by additions and the fingerprints of readable
files go into every database that has its tables, whatever rows it holds; and it does not
matter for the rows or the counts which writer puts them there. -/
theorem writers_agree {files : Tree} {d : Database} {paths : List Text} (hd : Initialised d)
    (hreadable : ∀ path ∈ paths, ∃ data, files.read path = .ok data)
    (calls : List (Location × Location)) (revision : Text) :
    ∃ whole rows, WritersAgree files d calls paths revision
      ⟨(DepGraph.addedPositions calls).dedup.length, (DepGraph.ofAdditions calls).size,
        paths.length⟩ whole rows := by
  obtain ⟨sources, hsources, hlength⟩ := exists_fingerprints revision hreadable
  obtain ⟨final, happended, hleaves⟩ := persist_leaves hd hsources (.ofAdditions calls)
  rw [DepGraph.length_locations_ofAdditions,
    (edgeOrder_perm (DepGraph.wellFormed_ofAdditions calls)).length_eq, hlength] at hleaves
  exact ⟨final, final, {
    whole_leaves := hleaves false
    rows_leaves := hleaves true
    locations_eq := rfl
    dependencies_eq := rfl
    sources_eq := rfl
    appended := ⟨sources, hsources, happended⟩ }⟩

/-- Two rows at one position, a gap in the numbers, an edge to a number that no row has, and
an old fingerprint. -/
def crowdedDatabase : Database where
  locations := some ⟨[⟨2, ⟨"a", "/a.go", 1, 1⟩⟩, ⟨5, ⟨"b", "/a.go", 1, 1⟩⟩], 7⟩
  dependencies := some ⟨[⟨1, 5, 9⟩], 1⟩
  sources := some [⟨"/a.go", "0", "r"⟩]

/-- A pair that depends on itself, a repeated pair under other identifiers, and a file that is
named twice. -/
theorem crowded_writers_agree :
    ∃ whole rows, WritersAgree { nodes := [("/a.go", .file [1, 2, 3])] } crowdedDatabase
      [(⟨"a", "/a.go", 1, 1⟩, ⟨"a", "/a.go", 1, 1⟩), (⟨"a", "/a.go", 1, 1⟩, ⟨"c", "/a.go", 2, 1⟩),
        (⟨"x", "/a.go", 1, 1⟩, ⟨"y", "/a.go", 2, 1⟩)]
      ["/a.go", "/a.go"] "r" ⟨2, 2, 2⟩ whole rows := by
  refine writers_agree ⟨rfl, rfl, rfl⟩ ?_ _ _
  intro path hpath
  have hequal : path = Text.ofString "/a.go" := by simpa using hpath
  exact ⟨[1, 2, 3], by rw [hequal]; rfl⟩

end FaultRepair.Store
