/-
# Localizing and slicing agree

A location's dependencies are followed twice: by the walk that localizes a failure, one
row at a time, and by the recursive query of the server, from whole tables. On a store that holds
the image of a graph, and within the limits of slices, both list the same locations.

The walk passes through rows only and a slice through any numbers, so the two differ on
stores with loose edges; the image of a graph has none.
-/

import FaultRepair.Proofs.Fault.Emission
import FaultRepair.Proofs.Server.SliceCache
import FaultRepair.Proofs.Store.Representation
import FaultRepair.Proofs.Store.SliceReach
import Mathlib.Data.Set.Card

namespace FaultRepair.Fault

open FaultRepair.Graph Store Files Report Trace List
open Server

variable {d : Database} {g : DepGraph} {x : StoredLocation} {depth : Nat}
  {found : List StoredLocation}

/-! ## The same links -/

/-- In the image of a graph every edge leads to a row. -/
theorem linked_eq_links (hg : g.WellFormed) (hd : Holds d g) :
    Linked d.store = Links (dependencyTable g).rows := by
  funext a b
  apply propext
  rw [Linked, Database.store_edgesFrom hd.dependencies]
  constructor
  · rintro ⟨⟨edges, hedges, e, he, hrhs⟩, -⟩
    cases hedges
    obtain ⟨he, hlhs⟩ := mem_filter.mp he
    exact ⟨e, he, beq_iff_eq.mp hlhs, hrhs⟩
  · rintro ⟨e, he, hlhs, hrhs⟩
    refine ⟨⟨_, rfl, e, mem_filter.mpr ⟨he, by simp [hlhs]⟩, hrhs⟩, ?_⟩
    exact hrhs ▸ ((hd.represents hg).edges_anchored e he).2

theorem atDistance_iff (hg : g.WellFormed) (hd : Holds d g) {n : Nat} {id : Int} :
    AtDistance d.store [x] n id ↔ FromRoot (dependencyTable g).rows x.id n id := by
  have hstart : (· ∈ [x].map (·.id)) = (· = x.id) := by
    funext id
    simp
  rw [AtDistance, linked_eq_links hg hd, hstart]

/-! ## The same list -/

def withDistance (edges : List Dependency) (root : Int) (depth : Nat) (row : StoredLocation) :
    SliceLocation :=
  ⟨row, (leastDepth? (walkRows edges root depth) row.id).getD 0⟩

theorem withDistance_eq {edges : List Dependency} {root : Int} {n : Nat} {row : StoredLocation}
    (hle : n ≤ depth) (hn : FromRoot edges root n row.id) :
    withDistance edges root depth row = ⟨row, n⟩ := by
  rw [withDistance, leastDepth?_walkRows.mpr ⟨hle, hn⟩, Option.getD_some]

section Found

variable (hg : g.WellFormed) (hd : Holds d g) (hx : x ∈ (locationTable g).rows)
  (hfound : Expands d.store [x] depth [x.location.position] found)

include hg hd hx hfound

/-- What the walk from a row finds: every other row in reach. -/
theorem mem_found_iff {row : StoredLocation} : row ∈ found ↔ row ∈ (locationTable g).rows ∧
    ∃ n, 0 < n ∧ n ≤ depth ∧ FromRoot (dependencyTable g).rows x.id n row.id := by
  constructor
  · intro hrow
    obtain ⟨hid, n, hpos, hle, hn⟩ := hfound.sound row hrow
    exact ⟨hd.findById_iff.mp hid, n, hpos, hle, (atDistance_iff hg hd).mp hn⟩
  · rintro ⟨hrow, n, hpos, hle, hn⟩
    have hwithin : Within d.store [x] depth row :=
      ⟨hd.findById_iff.mpr hrow, n, hpos, hle, (atDistance_iff hg hd).mpr hn⟩
    rcases hfound.complete row hwithin with hown | hother
    · -- Only the row itself is at its position, and its distance is zero.
      have hequal : row = x := eq_of_position hrow hx (mem_singleton.mp hown)
      have hzero : n = 0 := hn.unique (fromRoot_zero_iff.mpr (by rw [hequal]))
      omega
    · obtain ⟨other, hmem, hposition⟩ := mem_map.mp hother
      have htable := hd.findById_iff.mp (hfound.sound other hmem).1
      exact eq_of_position htable hrow hposition ▸ hmem

/-- A slice lists the row and what the walk from it finds. -/
theorem sliceRows_perm : (sliceRows (locationTable g).rows (dependencyTable g).rows x.id depth).Perm
      (⟨x, 0⟩ :: found.map (withDistance (dependencyTable g).rows x.id depth)) := by
  have hnodup : (sliceRows (locationTable g).rows (dependencyTable g).rows x.id depth).Nodup :=
    ((nodup_id_locationTable g).of_map.sublist (sublist_sliceRows _ _ _ _)).of_map
  have hnodup' : (⟨x, 0⟩ :: found.map
    (withDistance (dependencyTable g).rows x.id depth)).Nodup := by
    refine List.Nodup.of_map (·.row) ?_
    rw [map_cons, map_map, show (·.row) ∘ withDistance _ _ _ = id from rfl, map_id,
      nodup_cons]
    exact ⟨fun hmem => hfound.fresh x hmem mem_cons_self, hfound.nodup.of_map⟩
  refine (perm_ext_iff_of_nodup hnodup hnodup').mpr fun entry => ?_
  obtain ⟨row, n⟩ := entry
  rw [mem_sliceRows, mem_cons, mem_map]
  constructor
  · rintro ⟨hrow, hle, hn⟩
    by_cases hzero : n = 0
    · subst hzero
      have hequal : row = x := inj_on_of_nodup_map (nodup_id_locationTable g) hrow hx
        (fromRoot_zero_iff.mp hn)
      exact .inl (by rw [hequal])
    · refine .inr ⟨row, (mem_found_iff hg hd hx hfound).mpr ⟨hrow, n, ?_, hle, hn⟩, ?_⟩
      · exact Nat.pos_of_ne_zero hzero
      · exact withDistance_eq hle hn
  · rintro (hown | ⟨other, hother, hequal⟩)
    · cases hown
      exact ⟨hx, Nat.zero_le _, fromRoot_zero_iff.mpr rfl⟩
    · obtain ⟨hrow, m, -, hle, hm⟩ := (mem_found_iff hg hd hx hfound).mp hother
      rw [withDistance_eq hle hm] at hequal
      cases hequal
      exact ⟨hrow, hle, hm⟩

theorem pairwise_distance : (found.map (withDistance (dependencyTable g).rows x.id depth)).Pairwise
      fun near far => near.distance ≤ far.distance := by
  rw [pairwise_map]
  refine hfound.nearest_first.imp_of_mem fun {near far} hnear hfar hordered => ?_
  obtain ⟨-, m, -, hm, hnear⟩ := (mem_found_iff hg hd hx hfound).mp hnear
  obtain ⟨-, n, -, hn, hfar⟩ := (mem_found_iff hg hd hx hfound).mp hfar
  rw [withDistance_eq hm hnear, withDistance_eq hn hfar]
  exact hordered m n ((atDistance_iff hg hd).mpr hnear) ((atDistance_iff hg hd).mpr hfar)

end Found

/-! ## The frame at a row -/

/-- A frame at the coordinates of a row is expanded from that row. -/
theorem rootsOf_row (hd : Holds d g) (hx : x ∈ (locationTable g).rows) (hcol : x.location.col ≠ 0)
    {f : Frame} (hf : f.location.position = x.location.position) :
    rootsOf d.store f = .ok ([x], []) := by
  obtain ⟨hl, hequal⟩ := eq_of_mem_locationTable hx
  obtain ⟨hfile, hline, hcolumn⟩ : f.file = x.location.file ∧ f.line = x.location.line ∧
      f.col = x.location.col := Position.mk.inj hf
  have hfind : d.store.findLocation f.file f.line f.col = .ok x := by
    rw [hfile, hline, hcolumn, hd.findLocation hl, ← hequal]
  grind [rootsOf]

/-- Localizing a single frame emits it and what its expansion finds. -/
theorem localize_single {s : Store} (hs : Answers s) (files : Tree) (depth : Int) {f : Frame}
    {roots : List StoredLocation} {notes : List Notice}
    (hroots : rootsOf s f = .ok (roots, notes)) :
    ∃ found notices,
      localize files s depth [f] =
        .ok (directCandidate f :: found.map (dependentCandidate f), notices) ∧
      Expands s roots depth.toNat [f.location.position] found := by
  obtain ⟨candidates, notices, hrun⟩ := localize_ok hs files depth [f]
  obtain ⟨blocks, htrail, rfl⟩ := trail_of_localize hrun
  cases htrail with
  | frame hblock hrest =>
    cases hrest
    cases hblock with
    | suppressed hknown => exact absurd hknown not_mem_nil
    | @expanded roots' found notes' hnew hroots' hfound =>
      cases hroots.symm.trans hroots'
      rw [flatten_cons, flatten_nil, append_nil] at hrun
      exact ⟨found, notices, hrun, hfound⟩

/-! ## Agreement -/

/-- The rows that some walk of at most `depth` edges leads to. -/
def stepsAway (rows : List StoredLocation) (edges : List Dependency) (root : Int) (depth : Nat) :
    Set StoredLocation :=
  {row | row ∈ rows ∧ ∃ n ≤ depth, Steps (Links edges) (· = root) n row.id}

theorem length_sliceRows_le {rows : List StoredLocation} (hrows : rows.Nodup)
    (edges : List Dependency) (root : Int) (depth : Nat) :
    (sliceRows rows edges root depth).length ≤ (stepsAway rows edges root depth).ncard := by
  classical
  have hnodup := hrows.sublist (sublist_sliceRows rows edges root depth)
  rw [← length_map (·.row), ← toFinset_card_of_nodup hnodup, ← Set.ncard_coe_finset]
  refine Set.ncard_le_ncard ?_ ((finite_toSet rows).subset fun row hrow => hrow.1)
  intro row hrow
  obtain ⟨entry, hentry, rfl⟩ := mem_map.mp (mem_toFinset.mp hrow)
  obtain ⟨hmem, hle, hn⟩ := mem_sliceRows.mp hentry
  exact ⟨hmem, entry.distance, hle, hn.1⟩

/-- There are no more rows in reach than rows. -/
theorem ncard_stepsAway_le (rows : List StoredLocation) (edges : List Dependency) (root : Int)
    (depth : Nat) : (stepsAway rows edges root depth).ncard ≤ rows.length := by
  classical
  have hsubset : stepsAway rows edges root depth ⊆ rows.toFinset :=
    fun row hrow => mem_toFinset.mpr hrow.1
  refine (Set.ncard_le_ncard hsubset (Finset.finite_toSet _)).trans ?_
  rw [Set.ncard_coe_finset]
  exact toFinset_card_le rows

/-- The candidates of a frame at the row `x`, beside a slice from `x`. -/
structure Agreement (f : Frame) (x : StoredLocation) (edges : List Dependency)
    (candidates : List Candidate) (slice : Slice) : Prop where
  nodup : (positionsOf candidates).Nodup
  /-- The positions are those that the slice lists. -/
  positions : (positionsOf candidates).Perm (slice.locations.map (·.row.location.position))
  /-- The frame is first, and then the other rows in the order of their listed distances. -/
  ordered : ∃ found, slice.locations.Perm (⟨x, 0⟩ :: found) ∧
    candidates = directCandidate f :: found.map (fun entry => dependentCandidate f entry.row) ∧
    found.Pairwise fun near far => near.distance ≤ far.distance
  /-- The listed distances are lengths of shortest walks. -/
  distances : ∀ entry ∈ slice.locations, FromRoot edges x.id entry.distance entry.row.id

/-- What the walk finds agrees with a slice that lists all its rows. -/
theorem agreement_of_listed (hg : g.WellFormed) (hd : Holds d g) (hx : x ∈ (locationTable g).rows)
    (hfound : Expands d.store [x] depth [x.location.position] found) {f : Frame}
    (hf : f.location.position = x.location.position) {slice : Slice}
    (hlisted : slice.locations.Perm
      (sliceRows (locationTable g).rows (dependencyTable g).rows x.id depth)) :
    Agreement f x (dependencyTable g).rows (directCandidate f :: found.map (dependentCandidate f))
      slice where
  nodup := by
    rw [positionsOf_direct_cons, positionsOf_dependent, hf, nodup_cons]
    refine ⟨fun hmem => ?_, hfound.nodup⟩
    obtain ⟨row, hrow, hposition⟩ := mem_map.mp hmem
    exact hfound.fresh row hrow (mem_singleton.mpr hposition)
  positions := by
    have hall := (hlisted.trans (sliceRows_perm hg hd hx hfound)).map (·.row.location.position)
    rw [map_cons, map_map] at hall
    rw [positionsOf_direct_cons, positionsOf_dependent, hf]
    exact hall.symm
  ordered := by
    refine ⟨found.map (withDistance (dependencyTable g).rows x.id depth), ?_, ?_, ?_⟩
    · exact hlisted.trans (sliceRows_perm hg hd hx hfound)
    · rw [map_map]
      rfl
    · exact pairwise_distance hg hd hx hfound
  distances := fun entry hentry => (mem_sliceRows.mp (hlisted.mem_iff.mp hentry)).2.2

/-- **The two searches agree.**  After a graph was written, localizing a frame at a stored
location and slicing from that location give the same locations, if there are not more of
them than a slice can list. -/
theorem localize_agrees_with_slice {calls : List (Location × Location)} {prior final : Database}
    {sources : List SourceFile} {counts : GraphCounts}
    (hfinal : Replaces prior (.ofAdditions calls) sources counts final)
    {locations : Numbered StoredLocation} (hlocations : final.locations = some locations)
    {dependencies : Numbered Dependency} (hdependencies : final.dependencies = some dependencies)
    {x : StoredLocation} (hx : x ∈ locations.rows) (hcol : x.location.col ≠ 0)
    {depth : Int} (hleast : 1 ≤ depth) (hgreatest : depth ≤ maxSliceDepth)
    (hfew : (stepsAway locations.rows dependencies.rows x.id depth.toNat).ncard ≤ maxSliceLocations)
    {f : Frame} (hf : f.location.position = x.location.position) (files : Tree) :
    ∃ candidates notices slice,
      localize files final.store depth [f] = .ok (candidates, notices) ∧
      (∀ size, ((SliceCache.ofSize size).slice? final x.id depth).1 = some (some slice)) ∧
      Agreement f x dependencies.rows candidates slice := by
  have hg := DepGraph.wellFormed_ofAdditions calls
  have hd := hfinal.holds
  obtain rfl : locationTable _ = locations := Option.some.inj (hd.locations.symm.trans hlocations)
  obtain rfl : dependencyTable _ = dependencies :=
    Option.some.inj (hd.dependencies.symm.trans hdependencies)
  obtain ⟨found, notices, hrun, hfound⟩ := localize_single
    (answers_of_tables hlocations hdependencies) files depth (rootsOf_row hd hx hcol hf)
  rw [hf] at hfound
  have hdepth : sliceDepth depth = depth.toNat := by
    rw [sliceDepth, if_neg]
    simp only [Bool.or_eq_true, decide_eq_true_eq]
    omega
  have hfits := (length_sliceRows_le (nodup_id_locationTable _).of_map _ _ _).trans hfew
  have hsome := ne_nil_of_mem ((sliceRows_perm hg hd hx hfound).mem_iff.mpr mem_cons_self)
  rw [← hdepth] at hfits hsome
  obtain ⟨slice, hslice, hlisted⟩ := Database.exists_slice? hlocations hdependencies hfits hsome
  rw [hdepth] at hlisted
  refine ⟨_, notices, slice, hrun, fun size => ?_, agreement_of_listed hg hd hx hfound hf hlisted⟩
  rw [ofSize_slice?, hslice]

/-- Three locations in a cycle, with a shortcut. -/
def cyclicCalls : List (Location × Location) :=
  [(sampleLocation 1, sampleLocation 2), (sampleLocation 2, sampleLocation 3),
    (sampleLocation 3, sampleLocation 1), (sampleLocation 1, sampleLocation 3)]

/-- From the first location of the cycle, in a store that held something else before. -/
theorem cyclic_localize_agrees_with_slice :
    ∃ counts final locations dependencies,
      Replaces tangled (.ofAdditions cyclicCalls) [] counts final ∧
      final.locations = some locations ∧ final.dependencies = some dependencies ∧
      (⟨1, sampleLocation 1⟩ : StoredLocation) ∈ locations.rows ∧
      (stepsAway locations.rows dependencies.rows 1 2).ncard ≤ maxSliceLocations ∧
      ∃ candidates notices slice,
        localize {} final.store 2 [sampleFrame 1 0] = .ok (candidates, notices) ∧
        (∀ size, ((SliceCache.ofSize size).slice? final 1 2).1 = some (some slice)) ∧
        Agreement (sampleFrame 1 0) ⟨1, sampleLocation 1⟩ dependencies.rows candidates slice := by
  obtain ⟨final, hfinal, hd⟩ := exists_replaces tangled (.ofAdditions cyclicCalls) []
  have hx : (⟨1, sampleLocation 1⟩ : StoredLocation) ∈
      (locationTable (.ofAdditions cyclicCalls)).rows := by decide
  have hlength : (locationTable (.ofAdditions cyclicCalls)).rows.length ≤ maxSliceLocations := by
    decide
  have hfew := (ncard_stepsAway_le (locationTable (.ofAdditions cyclicCalls)).rows
    (dependencyTable (.ofAdditions cyclicCalls)).rows 1 2).trans hlength
  exact ⟨_, final, _, _, hfinal, hd.locations, hd.dependencies, hx, hfew,
    localize_agrees_with_slice hfinal hd.locations hd.dependencies hx (by decide)
      (show (1 : Int) ≤ 2 by decide) (by decide) hfew rfl {}⟩

end FaultRepair.Fault
