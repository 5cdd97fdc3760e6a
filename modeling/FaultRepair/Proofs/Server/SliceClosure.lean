/-
# What a slice contains

A slice is answered from two queries. The first lists the rows that walks of a bounded length
lead to, with the length of a shortest one, and cuts the list; the second selects the edges
between the rows that were left. Both results are determined by their members and their
order, so they are described by these alone, and an answer is a slice exactly if it fits the
description and has a row.

Walks may pass through numbers without rows. So they may also start at one, and then a slice
is found although its root is not: whether the root has a row is never asked.
-/

import FaultRepair.Proofs.Server.SliceCache
import FaultRepair.Proofs.Store.History
import FaultRepair.Proofs.Store.SliceReach
import Mathlib

namespace FaultRepair.Server

open FaultRepair.Graph Store List

variable {rows : List StoredLocation} {edges : List Dependency} {root : Int} {depth : Nat}

/-! ## Closures -/

/-- Nearer rows stand first, and equally near ones by their numbers. -/
def Precedes (a b : SliceLocation) : Prop :=
  a.distance < b.distance ∨ a.distance = b.distance ∧ a.row.id < b.row.id

instance : Std.Asymm Precedes where
  asymm a b := by
    unfold Precedes
    omega

/-- The rows that walks of at most `depth` edges lead to, each with the length of a shortest
walk, nearest first. -/
structure Closure (rows : List StoredLocation) (edges : List Dependency) (root : Int) (depth : Nat)
    (all : List SliceLocation) : Prop where
  reached_iff : ∀ row, row ∈ all.map (·.row) ↔
    row ∈ rows ∧ ∃ n ≤ depth, Steps (Links edges) (· = root) n row.id
  shortest : ∀ entry ∈ all, FromRoot edges root entry.distance entry.row.id
  ordered : all.Pairwise Precedes

namespace Closure

variable {all other : List SliceLocation}

theorem mem_iff (hall : Closure rows edges root depth all) {entry : SliceLocation} :
    entry ∈ all ↔
      entry.row ∈ rows ∧ entry.distance ≤ depth ∧
        FromRoot edges root entry.distance entry.row.id := by
  constructor
  · intro hentry
    obtain ⟨hrow, n, hle, hwalk⟩ := (hall.reached_iff entry.row).mp (mem_map_of_mem hentry)
    have hshortest := hall.shortest entry hentry
    refine ⟨hrow, ?_, hshortest⟩
    by_contra hfar
    exact hshortest.2 n (by omega) hwalk
  · rintro ⟨hrow, hle, hn⟩
    obtain ⟨listed, hlisted, hsame⟩ := mem_map.mp
      ((hall.reached_iff entry.row).mpr ⟨hrow, entry.distance, hle, hn.1⟩)
    have hdistance : listed.distance = entry.distance :=
      (hsame ▸ hall.shortest listed hlisted).unique hn
    have hequal : listed = entry := by
      cases listed
      cases entry
      cases hsame
      cases hdistance
      rfl
    exact hequal ▸ hlisted

theorem unique (hall : Closure rows edges root depth all)
    (hother : Closure rows edges root depth other) : all = other := by
  apply hall.ordered.eq_of_mem_iff hother.ordered
  intro entry
  rw [hall.mem_iff, hother.mem_iff]

/-- A root that has a row stands first: nothing else is at distance zero. -/
theorem head?_eq (hall : Closure rows edges root depth all) {row : StoredLocation}
    (hrow : row ∈ rows) (hid : row.id = root) : all.head? = some ⟨row, 0⟩ := by
  have hroot : ⟨row, 0⟩ ∈ all := hall.mem_iff.mpr ⟨hrow, Nat.zero_le _, fromRoot_zero_iff.mpr hid⟩
  cases all with
  | nil => cases hroot
  | cons first rest =>
    rcases mem_cons.mp hroot with rfl | hlater
    · rfl
    · have hfirst := hall.shortest first mem_cons_self
      have hbefore : Precedes first ⟨row, 0⟩ := (pairwise_cons.mp hall.ordered).1 _ hlater
      rcases hbefore with hnearer | ⟨hsame, hless⟩
      · exact absurd hnearer (Nat.not_lt_zero _)
      · rw [hsame] at hfirst
        have hequal := fromRoot_zero_iff.mp hfirst
        simp only [hid, hequal] at hless
        omega

theorem eq_nil_iff (hall : Closure rows edges root depth all) :
    all = [] ↔ ∀ row ∈ rows, ∀ n ≤ depth, ¬ Steps (Links edges) (· = root) n row.id := by
  rw [← map_eq_nil_iff (f := (·.row)), eq_nil_iff_forall_not_mem]
  simp only [hall.reached_iff, not_and, not_exists]

end Closure

/-- Sorting puts entries for different rows into one strict order. -/
theorem pairwise_sliceOrder {entries : List SliceLocation}
    (hentries : (entries.map (·.row.id)).Nodup) :
    (entries.mergeSort sliceOrder).Pairwise Precedes := by
  grind [sliceOrder, Fault.pairwise_mergeSort_of_nodup, Precedes]

/-- Sorting what is reached gives the closure. -/
theorem closure_mergeSort (hrows : (rows.map (·.id)).Nodup) (edges : List Dependency) (root : Int)
    (depth : Nat) :
    Closure rows edges root depth ((sliceRows rows edges root depth).mergeSort sliceOrder) := by
  constructor
  · intro row
    simp only [mem_map, mem_mergeSort, mem_sliceRows]
    constructor
    · rintro ⟨entry, ⟨hrow, hle, hn⟩, rfl⟩
      exact ⟨hrow, entry.distance, hle, hn.1⟩
    · rintro ⟨hrow, n, hle, hwalk⟩
      obtain ⟨m, hm, hdistance⟩ := hwalk.exists_distance
      exact ⟨⟨row, m⟩, ⟨hrow, hm.trans hle, hdistance⟩, rfl⟩
  · intro entry hentry
    exact (mem_sliceRows.mp (mem_mergeSort.mp hentry)).2.2
  · grind [pairwise_sliceOrder, sublist_sliceRows]

/-! ## Edges among rows -/

/-- The edges that have both ends among some numbers, by their own numbers. -/
structure Among (edges : List Dependency) (ids : List Int) (all : List Dependency) : Prop where
  mem_iff : ∀ e, e ∈ all ↔ e ∈ edges ∧ e.lhs ∈ ids ∧ e.rhs ∈ ids
  ordered : all.Pairwise fun a b => a.id < b.id

theorem Among.unique {ids : List Int} {all other : List Dependency} (hall : Among edges ids all)
    (hother : Among edges ids other) : all = other := by
  have hasymm : Std.Asymm fun a b : Dependency => a.id < b.id := ⟨fun a b => Int.lt_asymm⟩
  apply hall.ordered.eq_of_mem_iff hother.ordered
  intro e
  rw [hall.mem_iff, hother.mem_iff]

theorem among_filter (hedges : edges.Pairwise fun a b => a.id < b.id) (ids : List Int) :
    Among edges ids (edges.filter fun e => ids.contains e.lhs && ids.contains e.rhs) where
  mem_iff e := by simp
  ordered := hedges.filter _

/-! ## Slices -/

/-- What a slice should be: the first rows of the closure, and the first edges among them. -/
structure Covers (rows : List StoredLocation) (edges : List Dependency) (root : Int) (depth : Nat)
    (slice : Slice) : Prop where
  root_eq : slice.root = root
  depth_eq : slice.depth = depth
  locations : ∃ all, Closure rows edges root depth all ∧ slice.locations = all.take 500
  edges : ∃ all, Among edges (slice.locations.map (·.row.id)) all ∧ slice.edges = all.take 2000

namespace Covers

variable {slice other : Slice}

theorem unique (hslice : Covers rows edges root depth slice)
    (hother : Covers rows edges root depth other) : slice = other := by
  obtain ⟨all, hall, hlocations⟩ := hslice.locations
  obtain ⟨all', hall', hlocations'⟩ := hother.locations
  have hsame : slice.locations = other.locations := by
    rw [hlocations, hlocations', hall.unique hall']
  obtain ⟨among, hamong, hedges⟩ := hslice.edges
  obtain ⟨among', hamong', hedges'⟩ := hother.edges
  have hsame' : slice.edges = other.edges := by
    rw [← hsame] at hamong'
    rw [hedges, hedges', hamong.unique hamong']
  have hroot : slice.root = other.root := hslice.root_eq.trans hother.root_eq.symm
  have hdepth : slice.depth = other.depth := hslice.depth_eq.trans hother.depth_eq.symm
  cases slice
  cases other
  cases hroot
  cases hdepth
  cases hsame
  cases hsame'
  rfl

/-- A slice is empty only where nothing is reached. -/
theorem locations_eq_nil_iff (hslice : Covers rows edges root depth slice) :
    slice.locations = [] ↔
      ∀ row ∈ rows, ∀ n ≤ depth, ¬ Steps (Links edges) (· = root) n row.id := by
  obtain ⟨all, hall, hlocations⟩ := hslice.locations
  rw [hlocations, ← hall.eq_nil_iff]
  simp

theorem head?_eq (hslice : Covers rows edges root depth slice) {row : StoredLocation}
    (hrow : row ∈ rows) (hid : row.id = root) : slice.locations.head? = some ⟨row, 0⟩ := by
  obtain ⟨all, hall, hlocations⟩ := hslice.locations
  rw [hlocations, head?_take, if_neg (by decide)]
  exact hall.head?_eq hrow hid

end Covers

section Tables

variable {d : Database} {locations : Numbered StoredLocation} {dependencies : Numbered Dependency}
  {c : SliceCache} {requested : Int} {slice : Slice}

/-- The two queries compute the slice, and it is refused if it has no row. -/
theorem exists_covers (hd : d.Keyed locations dependencies) (root requested : Int) :
    ∃ slice, Covers locations.rows dependencies.rows root (sliceDepth requested) slice ∧
      d.slice? root requested = some (if slice.locations = [] then none else some slice) := by
  have hclosure := closure_mergeSort hd.nodup_id dependencies.rows root (sliceDepth requested)
  -- The second query reads what the first left, so its result is named before it is cut.
  generalize hall : (sliceRows locations.rows dependencies.rows root
    (sliceDepth requested)).mergeSort sliceOrder = all at hclosure
  have hlisted : d.sliceLocations? root (sliceDepth requested) = some (all.take 500) := by
    rw [Database.sliceLocations?, hd.locations_eq, hd.dependencies_eq, ← hall]
    rfl
  have hedges := among_filter hd.dependencies_ordered ((all.take 500).map (·.row.id))
  have hselected : d.sliceEdges? (all.take 500) = some ((dependencies.rows.filter fun e =>
      ((all.take 500).map (·.row.id)).contains e.lhs &&
        ((all.take 500).map (·.row.id)).contains e.rhs).take 2000) := by
    rw [Database.sliceEdges?, hd.dependencies_eq]
    rfl
  refine ⟨⟨root, sliceDepth requested, all.take 500, _⟩,
    ⟨rfl, rfl, ⟨all, hclosure, rfl⟩, ⟨_, hedges, rfl⟩⟩, ?_⟩
  by_cases hempty : all.take 500 = []
  · simp [Database.slice?, hlisted, hempty]
  · simp [Database.slice?, hlisted, hselected, hempty]

theorem slice?_eq_some_iff (hd : d.Keyed locations dependencies) :
    d.slice? root requested = some (some slice) ↔ slice.locations ≠ [] ∧
      Covers locations.rows dependencies.rows root (sliceDepth requested) slice := by
  obtain ⟨computed, hcovers, hanswer⟩ := exists_covers hd root requested
  rw [hanswer]
  constructor
  · grind
  · rintro ⟨hsome, hslice⟩
    cases hcovers.unique hslice
    rw [if_neg hsome]

theorem slice?_eq_none_iff (hd : d.Keyed locations dependencies) :
    d.slice? root requested = some none ↔ ∀ row ∈ locations.rows, ∀ n ≤ sliceDepth requested,
      ¬ Steps (Links dependencies.rows) (· = root) n row.id := by
  obtain ⟨computed, hcovers, hanswer⟩ := exists_covers hd root requested
  rw [hanswer, ← hcovers.locations_eq_nil_iff]
  split
  · simp [*]
  · simp [*]

theorem sliceDepth_eq (requested : Int) :
    sliceDepth requested = if 0 < requested ∧ requested ≤ 20 then requested.toNat else 20 := by
  grind [sliceDepth, maxSliceDepth]

/-- **Slices are exact bounded closures.**  Whatever is kept from earlier requests, an answer is
a slice exactly if it has a row and lists the first 500 rows of the closure to the depth asked
for, or to 20, with the first 2000 edges among them. -/
theorem slice_iff_covers (hd : d.Keyed locations dependencies)
    (hc : c.version = some d.version → c.Fresh d) (root requested : Int) (slice : Slice) :
    (c.slice? d root requested).1 = some (some slice) ↔ slice.locations ≠ [] ∧
      Covers locations.rows dependencies.rows root
        (if 0 < requested ∧ requested ≤ 20 then requested.toNat else 20) slice := by
  rw [(SliceCache.slice?_spec hc root requested).1, slice?_eq_some_iff hd, sliceDepth_eq]

end Tables

/-- A location that depends on itself, twice on another one, and on a third through a number
that has no row. -/
def looseDatabase : Database where
  locations :=
    some ⟨[⟨1, ⟨"a", "/a.go", 1, 1⟩⟩, ⟨2, ⟨"b", "/a.go", 2, 1⟩⟩, ⟨3, ⟨"c", "/a.go", 3, 1⟩⟩], 3⟩
  dependencies := some ⟨[⟨1, 1, 1⟩, ⟨2, 1, 9⟩, ⟨3, 9, 2⟩, ⟨4, 1, 3⟩, ⟨5, 1, 3⟩, ⟨6, 3, 1⟩], 6⟩
  sources := some []

/-- Its slice lists the third location last, and no edge of the number without a row. -/
theorem loose_slice_covers :
    let slice : Slice := ⟨1, 20, [⟨⟨1, ⟨"a", "/a.go", 1, 1⟩⟩, 0⟩, ⟨⟨3, ⟨"c", "/a.go", 3, 1⟩⟩, 1⟩,
      ⟨⟨2, ⟨"b", "/a.go", 2, 1⟩⟩, 2⟩], [⟨1, 1, 1⟩, ⟨4, 1, 3⟩, ⟨5, 1, 3⟩, ⟨6, 3, 1⟩]⟩
    ∃ locations dependencies, looseDatabase.Keyed locations dependencies ∧
      ((SliceCache.ofSize 1).slice? looseDatabase 1 0).1 = some (some slice) ∧
      Covers locations.rows dependencies.rows 1 20 slice := by
  intro slice
  have hd : looseDatabase.Keyed _ _ := ⟨rfl, rfl, by decide, by decide⟩
  have hanswer : ((SliceCache.ofSize 1).slice? looseDatabase 1 0).1 = some (some slice) := by
    unfold slice
    cbv
  have hcovers := (slice_iff_covers hd (fun _ => SliceCache.fresh_ofSize 1 _) 1 0 slice).mp hanswer
  exact ⟨_, _, hd, hanswer, hcovers.2⟩

/-! ## Roots without rows -/

/-- What an answer should say of its root: that it is not found if it has no row, and otherwise
it stands first, at distance zero. -/
structure ReportsRoot (rows : List StoredLocation) (root : Int) (answer : Option (Option Slice)) :
    Prop where
  notFound_iff : answer = some none ↔ ∀ row ∈ rows, row.id ≠ root
  root_first : ∀ slice, answer = some (some slice) →
    ∃ row ∈ rows, row.id = root ∧ slice.locations.head? = some ⟨row, 0⟩

/-- A number has a row, or no walk from it leads to one. -/
def Anchored (rows : List StoredLocation) (edges : List Dependency) (root : Int)
    (depth : Nat) : Prop :=
  (∃ row ∈ rows, row.id = root) ∨
    ∀ row ∈ rows, ∀ n ≤ depth, ¬ Steps (Links edges) (· = root) n row.id

/-- A root with a row is a walk of no edges to it. -/
theorem exists_steps_of_row {row : StoredLocation} (hrow : row ∈ rows) (hid : row.id = root) :
    ¬ ∀ row ∈ rows, ∀ n ≤ depth, ¬ Steps (Links edges) (· = root) n row.id :=
  fun hnone => hnone row hrow 0 (Nat.zero_le _) (.here hid)

/-- An answer reports its root exactly where the root is anchored. -/
theorem reportsRoot_iff_anchored {d : Database} {locations : Numbered StoredLocation}
    {dependencies : Numbered Dependency} (hd : d.Keyed locations dependencies)
    (root requested : Int) :
    ReportsRoot locations.rows root (d.slice? root requested) ↔
      Anchored locations.rows dependencies.rows root (sliceDepth requested) := by
  constructor
  · intro hreports
    by_cases hknown : ∃ row ∈ locations.rows, row.id = root
    · exact .inl hknown
    · -- The answer for an unknown root is that it is not found, and then nothing was reached.
      right
      apply (slice?_eq_none_iff hd).mp
      apply hreports.notFound_iff.mpr
      intro row hrow hid
      exact hknown ⟨row, hrow, hid⟩
  · rintro (⟨row, hrow, hid⟩ | hnone)
    · have hfound : d.slice? root requested ≠ some none := fun hanswer =>
        exists_steps_of_row hrow hid ((slice?_eq_none_iff hd).mp hanswer)
      refine ⟨⟨fun hanswer => absurd hanswer hfound,
        fun hunknown => absurd hid (hunknown row hrow)⟩, ?_⟩
      intro slice hslice
      exact ⟨row, hrow, hid, ((slice?_eq_some_iff hd).mp hslice).2.head?_eq hrow hid⟩
    · have hanswer := (slice?_eq_none_iff hd).mpr hnone
      refine ⟨⟨fun _ row hrow hid => exists_steps_of_row hrow hid hnone, fun _ => hanswer⟩, ?_⟩
      intro slice hslice
      rw [hanswer] at hslice
      cases hslice

/-- **Roots are reported where they are anchored.**  After any history of a store, and whatever
is kept from earlier requests, an answer says that its root is not found if and only if no row
has that number, and lists the root first otherwise, exactly if the root has a row or no walk
of the depth asked for leads from it to a row. -/
theorem slice_reports_root_iff {history : List Operation} {d : Database}
    (hd : afterAll Database.blank.init.store history = d.store) {c : SliceCache}
    (hc : c.version = some d.version → c.Fresh d) (root requested : Int) :
    ReportsRoot (Journal.ofHistory history).locationRows root (c.slice? d root requested).1 ↔
      Anchored (Journal.ofHistory history).locationRows (Journal.ofHistory history).edgeRows root
        (sliceDepth requested) := by
  obtain ⟨locations, dependencies, hkeyed, hlocations, hdependencies⟩ := keyed_of_history hd
  rw [(SliceCache.slice?_spec hc root requested).1, ← hlocations, ← hdependencies]
  exact reportsRoot_iff_anchored hkeyed root requested

/-- One location, and an edge to it from a number that no row has. -/
def looseHistory : List Operation :=
  [.insertion ⟨"a", "/p/a.go", 1, 1⟩, { write := .insertEdge 99 1, built := trivial }]

def looseState : Database where
  locations := some ⟨[⟨1, ⟨"a", "/p/a.go", 1, 1⟩⟩], 1⟩
  dependencies := some ⟨[⟨1, 99, 1⟩], 1⟩
  sources := some []
  version := 3

theorem loose_location_reported :
    afterAll Database.blank.init.store looseHistory = looseState.store ∧
      Anchored (Journal.ofHistory looseHistory).locationRows
        (Journal.ofHistory looseHistory).edgeRows
        1 20 ∧
      ReportsRoot (Journal.ofHistory looseHistory).locationRows 1
        ((SliceCache.ofSize 0).slice? looseState 1 0).1 := by
  have hstate : afterAll Database.blank.init.store looseHistory = looseState.store := rfl
  have hanchored : Anchored (Journal.ofHistory looseHistory).locationRows
      (Journal.ofHistory looseHistory).edgeRows 1 (sliceDepth 0) :=
    .inl ⟨⟨1, ⟨"a", "/p/a.go", 1, 1⟩⟩, by decide, rfl⟩
  exact ⟨hstate, hanchored,
    (slice_reports_root_iff hstate (fun _ => SliceCache.fresh_ofSize 0 _) 1 0).mpr hanchored⟩

/-- The number that the edge starts at has no row, and still its slice is found. -/
theorem loose_edge_hides_unknown_root :
    ¬ ∀ (history : List Operation) (d : Database) (size root requested : Int),
      afterAll Database.blank.init.store history = d.store →
      ReportsRoot (Journal.ofHistory history).locationRows root
        ((SliceCache.ofSize size).slice? d root requested).1 := by
  intro hreports
  have hreport := hreports looseHistory looseState 0 99 0 rfl
  have hanswer : ((SliceCache.ofSize 0).slice? looseState 99 0).1 =
      some (some ⟨99, 20, [⟨⟨1, ⟨"a", "/p/a.go", 1, 1⟩⟩, 1⟩], []⟩) := by cbv
  have hunknown : ∀ row ∈ (Journal.ofHistory looseHistory).locationRows, row.id ≠ 99 := by decide
  have hnotFound := hreport.notFound_iff.mpr hunknown
  rw [hanswer] at hnotFound
  cases hnotFound

end FaultRepair.Server
