/-
# A store that represents a graph

Resetting a store and writing a graph to it makes the store an exact image of the graph:
one row for every location, numbered from one in the order of the graph, one edge for
every pair, and nothing that was there before.

Edges are written under numbers that are looked up by position, and a position that is
not found would silently become number zero. That this never happens rests on what
additions keep of a graph, so the image is exact for graphs made by additions.
-/

import FaultRepair.Proofs.Store.Reading
import FaultRepair.Proofs.Store.Rows

namespace FaultRepair.Store

open FaultRepair.Graph List

variable {g : DepGraph}

/-! ## The order in which pairs are written -/

/-- Rows grouped by a key, one group after the other, are the same rows. -/
theorem flatMap_filter_perm [DecidableEq κ] (key : α → κ) (keys : List κ) (rows : List α)
    (hnodup : keys.Nodup) (hkeys : ∀ row ∈ rows, key row ∈ keys) :
    (keys.flatMap fun k => rows.filter fun row => key row = k).Perm rows := by
  induction keys generalizing rows with
  | nil =>
    have hnone : rows = [] := eq_nil_iff_forall_not_mem.mpr fun row hrow => by
      simpa using hkeys row hrow
    simp [hnone]
  | cons k rest ih =>
    rw [nodup_cons] at hnodup
    -- The groups of the other keys are groups of the rows that are left.
    have hothers : (rest.flatMap fun k' => rows.filter fun row => key row = k') =
        rest.flatMap fun k' =>
          (rows.filter fun row => !decide (key row = k)).filter fun row => key row = k' := by
      refine flatMap_congr fun k' hk' => ?_
      rw [filter_filter]
      refine filter_congr fun row _ => ?_
      have hne : k' ≠ k := fun hequal => hnodup.1 (hequal ▸ hk')
      by_cases hkey : key row = k' <;> simp [hkey, hne]
    rw [flatMap_cons, hothers]
    refine ((ih _ hnodup.2 ?_).append_left _).trans (filter_append_perm _ rows)
    grind

theorem filter_flatMap_key [DecidableEq κ] (group : κ → List α) (key : α → κ) (keys : List κ)
    (hgroup : ∀ k ∈ keys, ∀ row ∈ group k, key row = k) (hnodup : keys.Nodup) {k : κ}
    (hk : k ∈ keys) : (keys.flatMap group).filter (fun row => key row = k) = group k := by
  induction keys with
  | nil => cases hk
  | cons first rest ih =>
    rw [nodup_cons] at hnodup
    have hrest : ∀ k ∈ rest, ∀ row ∈ group k, key row = k := fun k hk =>
      hgroup k (mem_cons_of_mem first hk)
    rw [flatMap_cons, filter_append]
    rcases mem_cons.mp hk with rfl | hmem
    · have hwhole : (group k).filter (fun row => key row = k) = group k :=
        filter_eq_self.mpr fun row hrow => by simp [hgroup k mem_cons_self row hrow]
      have hnone : (rest.flatMap group).filter (fun row => key row = k) = [] := by
        refine filter_eq_nil_iff.mpr fun row hrow => ?_
        obtain ⟨other, hother, hrow⟩ := mem_flatMap.mp hrow
        rw [hrest other hother row hrow, decide_eq_true_eq]
        exact fun hequal => hnodup.1 (hequal ▸ hother)
      rw [hwhole, hnone, append_nil]
    · have hnone : (group first).filter (fun row => key row = k) = [] := by
        refine filter_eq_nil_iff.mpr fun row hrow => ?_
        rw [hgroup first mem_cons_self row hrow, decide_eq_true_eq]
        exact fun hequal => hnodup.1 (hequal ▸ hmem)
      rw [hnone, nil_append]
      exact ih hrest hnodup.2 hmem

theorem nodup_targets (g : DepGraph) : g.targets.Nodup :=
  List.Nodup.of_map Location.position (DepGraph.nodup_positions_targets g)

theorem edgeOrder_perm (hg : g.WellFormed) : (edgeOrder g).Perm g.pairs := by
  have hgroups : edgeOrder g =
      g.targets.flatMap fun t => g.pairs.filter fun pair => pair.1 = t := by
    refine flatMap_congr fun t ht => ?_
    obtain ⟨r, hr⟩ := hg.mem_targets_iff.mp ht
    -- A pair at the position of a target is a pair of that very target.
    have hsame : ∀ pair ∈ g.pairs, pair.1.same t = decide (pair.1 = t) := by
      intro pair hpair
      rw [Bool.eq_iff_iff, Location.same_iff, decide_eq_true_eq]
      refine ⟨fun hposition => ?_, fun hequal => by rw [hequal]⟩
      exact hg.onePerPosition _ (DepGraph.fst_mem_ends hpair) _ (DepGraph.fst_mem_ends hr) hposition
    rw [DepGraph.deps, map_map, filter_congr hsame]
    refine (map_congr_left fun pair hpair => ?_).trans (map_id _)
    obtain ⟨l, r'⟩ := pair
    have hfirst : l = t := by simpa using (mem_filter.mp hpair).2
    rw [← hfirst]
    rfl
  rw [hgroups]
  exact flatMap_filter_perm Prod.fst g.targets g.pairs (nodup_targets g) fun pair hpair =>
    hg.mem_targets_iff.mpr ⟨pair.2, hpair⟩

theorem filter_edgeOrder {t : Location} (ht : t ∈ g.targets) :
    (edgeOrder g).filter (fun pair => pair.1 = t) = (g.deps t).map fun d => (t, d) := by
  refine filter_flatMap_key (fun t => (g.deps t).map fun d => (t, d)) Prod.fst g.targets ?_
    (nodup_targets g) ht
  intro k _ pair hpair
  obtain ⟨d, _, rfl⟩ := mem_map.mp hpair
  rfl

/-! ## The image of a graph -/

/-- The number under which a graph's location is written. -/
def numberIn (g : DepGraph) (l : Location) : Int := (numberingFrom 0 g.locations).of l

def locationTable (g : DepGraph) : Numbered StoredLocation :=
  Numbered.extend {} StoredLocation.mk g.locations

def dependencyTable (g : DepGraph) : Numbered Dependency :=
  Numbered.extend {} (fun id pair => ⟨id, numberIn g pair.1, numberIn g pair.2⟩) (edgeOrder g)

/-- The tables of locations and edges are those of a graph. -/
structure Holds (d : Database) (g : DepGraph) : Prop where
  locations : d.locations = some (locationTable g)
  dependencies : d.dependencies = some (dependencyTable g)

theorem map_location_locationTable (g : DepGraph) :
    (locationTable g).rows.map (·.location) = g.locations := by
  simpa [locationTable, Numbered.extend] using
    map_numberFrom 0 StoredLocation.mk (·.location) id (fun _ _ => rfl) g.locations

theorem nodup_id_locationTable (g : DepGraph) : ((locationTable g).rows.map (·.id)).Nodup := by
  simpa [locationTable, Numbered.extend] using
    nodup_numberFrom_number 0 StoredLocation.mk (·.id) (fun _ _ => rfl) g.locations

theorem mem_locationTable {l : Location} (hl : l ∈ g.locations) :
    (⟨numberIn g l, l⟩ : StoredLocation) ∈ (locationTable g).rows := by
  simpa [locationTable, Numbered.extend, numberIn] using
    mem_numberFrom_of (DepGraph.nodup_positions_locations g) 0 hl

/-- The rows of a graph are its locations under their numbers. -/
theorem eq_of_mem_locationTable {row : StoredLocation} (hrow : row ∈ (locationTable g).rows) :
    row.location ∈ g.locations ∧ row = ⟨numberIn g row.location, row.location⟩ := by
  grind [map_location_locationTable, DepGraph.nodup_positions_locations, inj_on_of_nodup_map,
    mem_locationTable]

theorem eq_of_position {row other : StoredLocation} (hrow : row ∈ (locationTable g).rows)
    (hother : other ∈ (locationTable g).rows)
    (hposition : row.location.position = other.location.position) : row = other := by
  obtain ⟨hl, hequal⟩ := eq_of_mem_locationTable hrow
  obtain ⟨hl', hequal'⟩ := eq_of_mem_locationTable hother
  grind [inj_on_of_nodup_map, DepGraph.nodup_positions_locations]

theorem numberIn_injective {l r : Location} (hl : l ∈ g.locations) (hr : r ∈ g.locations)
    (hnumber : numberIn g l = numberIn g r) : l = r :=
  congrArg StoredLocation.location (inj_on_of_nodup_map (nodup_id_locationTable g)
    (mem_locationTable hl) (mem_locationTable hr) hnumber)

/-- An edge stands for a pair of a target and what it is computed from. -/
theorem mem_dependencyTable {e : Dependency} (he : e ∈ (dependencyTable g).rows) :
    ∃ t ∈ g.targets, ∃ d ∈ g.deps t, e.lhs = numberIn g t ∧ e.rhs = numberIn g d := by
  have hmem : e ∈ numberFrom 0
      (fun id pair => (⟨id, numberIn g pair.1, numberIn g pair.2⟩ : Dependency)) (edgeOrder g) := he
  obtain ⟨v, hv, rfl⟩ := mem_map.mp hmem
  obtain ⟨t, ht, hpair⟩ := mem_flatMap.mp (fst_mem_of_mem_zipIdx hv)
  grind

namespace Holds

variable {d : Database} {g : DepGraph} {l : Location}

theorem findById (hd : Holds d g) (hl : l ∈ g.locations) :
    d.store.findById (numberIn g l) = .ok ⟨numberIn g l, l⟩ := by
  have hfound : (locationTable g).rows.find? (·.id == numberIn g l) = some ⟨numberIn g l, l⟩ := by
    apply find?_eq_some_of_unique (mem_locationTable hl) (by simp)
    intro other hother hid
    exact inj_on_of_nodup_map (nodup_id_locationTable g) hother (mem_locationTable hl)
      (beq_iff_eq.mp hid)
  rw [Database.store_findById hd.locations, hfound]
  rfl

theorem findLocation (hd : Holds d g) (hl : l ∈ g.locations) :
    d.store.findLocation l.file l.line l.col = .ok ⟨numberIn g l, l⟩ := by
  have hfound : (locationTable g).rows.find? (fun r => r.location.file == l.file &&
      r.location.line == l.line && r.location.col == l.col) = some ⟨numberIn g l, l⟩ := by
    apply find?_eq_some_of_unique (mem_locationTable hl) (by simp)
    intro other hother hfits
    simp only [Bool.and_eq_true, beq_iff_eq] at hfits
    have hposition : other.location.position = l.position := by
      simp [Location.position, hfits]
    exact eq_of_position hother (mem_locationTable hl) hposition
  rw [Database.store_findLocation hd.locations, hfound]
  rfl

theorem findById_iff (hd : Holds d g) {row : StoredLocation} :
    d.store.findById row.id = .ok row ↔ row ∈ (locationTable g).rows := by
  constructor
  · intro hfound
    rw [Database.store_findById hd.locations] at hfound
    cases hanswer : (locationTable g).rows.find? (·.id == row.id) with
    | none => simp [hanswer, Store.found] at hfound
    | some other =>
      rw [hanswer] at hfound
      cases hfound
      exact mem_of_find?_eq_some hanswer
  · intro hrow
    obtain ⟨hl, hequal⟩ := eq_of_mem_locationTable hrow
    rw [hequal]
    exact hd.findById hl

/-- The edges from a location lead to what it is computed from, in that order. -/
theorem edgesFrom_target (hg : g.WellFormed) (hd : Holds d g) {t : Location} (ht : t ∈ g.targets) :
    ∃ edges, d.store.edgesFrom (numberIn g t) = .ok edges ∧
      edges.map (·.rhs) = (g.deps t).map (numberIn g) := by
  refine ⟨_, Database.store_edgesFrom hd.dependencies _, ?_⟩
  have hkeep : ∀ pair ∈ edgeOrder g, ∀ id : Int,
      ((⟨id, numberIn g pair.1, numberIn g pair.2⟩ : Dependency).lhs == numberIn g t) =
        decide (pair.1 = t) := by
    intro pair hpair _
    have hsource : pair.1 ∈ g.targets :=
      hg.mem_targets_iff.mpr ⟨pair.2, (edgeOrder_perm hg).mem_iff.mp hpair⟩
    rw [Bool.eq_iff_iff, beq_iff_eq, decide_eq_true_eq]
    refine ⟨fun hnumber => ?_, fun hequal => by rw [hequal]⟩
    exact numberIn_injective (hg.mem_locations_of_mem_targets hsource)
      (hg.mem_locations_of_mem_targets ht) hnumber
  have hselected := map_filter_numberFrom 0
    (fun id pair => (⟨id, numberIn g pair.1, numberIn g pair.2⟩ : Dependency)) (·.rhs)
    (fun pair => numberIn g pair.2) (fun _ _ => rfl) (·.lhs == numberIn g t)
    (fun pair => pair.1 = t) (edgeOrder g) hkeep
  rw [filter_edgeOrder ht, map_map] at hselected
  exact hselected

theorem edgesFrom_other (hg : g.WellFormed) (hd : Holds d g) (hl : l ∈ g.locations)
    (hother : l ∉ g.targets) : d.store.edgesFrom (numberIn g l) = .ok [] := by
  rw [Database.store_edgesFrom hd.dependencies, filter_eq_nil_iff.mpr]
  intro e he hlhs
  obtain ⟨t, ht, _, _, hsource, _⟩ := mem_dependencyTable he
  have hequal : t = l := numberIn_injective (hg.mem_locations_of_mem_targets ht) hl
    (hsource.symm.trans (beq_iff_eq.mp hlhs))
  exact hother (hequal ▸ ht)

end Holds

/-! ## Reset and write -/

/-- A store that held `prior` holds `final` after it was reset and a graph was written to
it, and the writer reported `counts`. -/
def Replaces (prior : Database) (g : DepGraph) (sources : List SourceFile) (counts : GraphCounts)
    (final : Database) : Prop :=
  ∃ cleared, prior.store.reset = .ok (.file cleared) ∧
    Store.writeWhole cleared g sources = (final.store, .ok counts)

/-- A reset and a write never fail, and they leave the image of the graph behind. -/
theorem exists_replaces (prior : Database) (g : DepGraph) (sources : List SourceFile) :
    ∃ final, Replaces prior g sources
      ⟨g.locations.length, (edgeOrder g).length, sources.length⟩ final ∧
      Holds final g := by
  have hwritten := Database.writeGraph?_eq (d := prior.reset) rfl rfl rfl g sources
  refine ⟨{
    locations := some (locationTable g)
    dependencies := some (dependencyTable g)
    sources := some (sources.foldl Database.upsert [])
    version := prior.reset.version + (rowsOf g sources).length },
    ⟨{ database := .ok prior.reset }, rfl, ?_⟩, ⟨rfl, rfl⟩⟩
  simp only [Store.writeWhole, Backing.change, hwritten]
  rfl

/-- Whatever a reset and a write leave behind is the image of the graph. -/
theorem Replaces.holds {prior final : Database} {g : DepGraph} {sources : List SourceFile}
    {counts : GraphCounts} (hfinal : Replaces prior g sources counts final) : Holds final g := by
  obtain ⟨other, ⟨cleared, hcleared, hwritten⟩, hholds⟩ := exists_replaces prior g sources
  obtain ⟨cleared', hcleared', hwritten'⟩ := hfinal
  grind [Database.store]

/-- A database with these tables represents a graph and nothing else. -/
structure Represents (d : Database) (g : DepGraph) (locations : Numbered StoredLocation)
    (dependencies : Numbered Dependency) : Prop where
  locations_eq : d.locations = some locations
  dependencies_eq : d.dependencies = some dependencies
  /-- The rows are the locations of the graph, in its order. -/
  rows_eq : locations.rows.map (·.location) = g.locations
  /-- They are numbered from one. -/
  numbers_eq : locations.rows.map (·.id) =
    (range' 1 g.locations.length).map fun n : Nat => (n : Int)
  /-- The row of a target is found at its coordinates, and its edges lead to the rows of
  what the target is computed from, in the order of the graph. -/
  target_found : ∀ t ∈ g.targets, ∃ row edges contributors,
    d.store.findLocation t.file t.line t.col = .ok row ∧ row.location = t ∧
    d.store.edgesFrom row.id = .ok edges ∧
    edges.mapM (fun e => d.store.findById e.rhs) = .ok contributors ∧
    contributors.map (·.location) = g.deps t
  /-- What is no target has no edges. -/
  other_bare : ∀ row ∈ locations.rows, row.location ∉ g.targets →
    d.store.edgesFrom row.id = .ok []
  /-- No edge hangs in the air. -/
  edges_anchored : ∀ e ∈ dependencies.rows,
    (∃ row, d.store.findById e.lhs = .ok row) ∧ ∃ row, d.store.findById e.rhs = .ok row

theorem mapM_findById {s : Store} {ids : List α} {number : α → Int} {row : α → StoredLocation}
    (hfound : ∀ a ∈ ids, s.findById (number a) = .ok (row a)) :
    (ids.map number).mapM s.findById = .ok (ids.map row) := by
  induction ids with
  | nil => rfl
  | cons first rest ih =>
    rw [map_cons, mapM_cons, hfound first mem_cons_self,
      ih fun a ha => hfound a (mem_cons_of_mem first ha)]
    rfl

theorem Holds.represents {d : Database} {g : DepGraph} (hg : g.WellFormed) (hd : Holds d g) :
    Represents d g (locationTable g) (dependencyTable g) where
  locations_eq := hd.locations
  dependencies_eq := hd.dependencies
  rows_eq := map_location_locationTable g
  numbers_eq := by
    simpa [locationTable, Numbered.extend] using
      map_numberFrom_number 0 StoredLocation.mk (·.id) (fun _ _ => rfl) g.locations
  target_found := by
    intro t ht
    obtain ⟨edges, hedges, hrhs⟩ := hd.edgesFrom_target hg ht
    refine ⟨⟨numberIn g t, t⟩, edges, (g.deps t).map fun l => ⟨numberIn g l, l⟩,
      hd.findLocation (hg.mem_locations_of_mem_targets ht), rfl, hedges, ?_,
      by simp [Function.comp_def]⟩
    rw [← Function.comp_def, ← mapM_map, hrhs]
    exact mapM_findById fun l hl => hd.findById (hg.mem_locations_of_mem_deps ht hl)
  other_bare := by
    intro row hrow hother
    obtain ⟨hl, hequal⟩ := eq_of_mem_locationTable hrow
    rw [hequal]
    exact hd.edgesFrom_other hg hl hother
  edges_anchored := by
    intro e he
    obtain ⟨t, ht, l, hl, hlhs, hrhs⟩ := mem_dependencyTable he
    rw [hlhs, hrhs]
    exact ⟨⟨_, hd.findById (hg.mem_locations_of_mem_targets ht)⟩,
      ⟨_, hd.findById (hg.mem_locations_of_mem_deps ht hl)⟩⟩

/-- **Persisting is exact.**  Whatever additions made a graph, there are tables that every
reset and write of it produces, whatever the store held before; they represent the graph
and nothing else, and the writer counts the distinct positions and the pairs. -/
theorem reset_write_represents (calls : List (Location × Location)) :
    ∃ (locations : Numbered StoredLocation) (dependencies : Numbered Dependency),
      ∀ (prior : Database) (sources : List SourceFile), ∃ final : Database,
        Replaces prior (.ofAdditions calls) sources
          ⟨(DepGraph.addedPositions calls).dedup.length, (DepGraph.ofAdditions calls).size,
            sources.length⟩ final ∧
        Represents final (.ofAdditions calls) locations dependencies := by
  have hg := DepGraph.wellFormed_ofAdditions calls
  refine ⟨locationTable (.ofAdditions calls), dependencyTable (.ofAdditions calls), ?_⟩
  intro prior sources
  obtain ⟨final, hfinal, hholds⟩ := exists_replaces prior (.ofAdditions calls) sources
  refine ⟨final, ?_, hholds.represents hg⟩
  rw [DepGraph.length_locations_ofAdditions, (edgeOrder_perm hg).length_eq] at hfinal
  exact hfinal

end FaultRepair.Store
