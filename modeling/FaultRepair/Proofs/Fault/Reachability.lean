/-
# Expansion over the rows of a database

An expansion asks a store for one row and its edges at a time. Here it is compared with the
tables as a whole: with walks along edges of which every end has a row. What is emitted are
the positions of the rows that such walks lead to, other than the roots, and nothing else.

Two sets prune the walk, numbers and positions, and neither hides anything: a row whose
position was seen is not emitted but still walked through.
-/

import FaultRepair.Proofs.Fault.Emission
import FaultRepair.Proofs.Store.History
import FaultRepair.Proofs.Store.SliceReach

namespace FaultRepair.Fault

open FaultRepair.Graph Store

variable {rows roots found : List StoredLocation} {edges : List Dependency} {depth : Nat}

/-- An edge between two numbers that both have rows. -/
def Joined (rows : List StoredLocation) (edges : List Dependency) (a b : Int) : Prop :=
  Links edges a b ∧ a ∈ rows.map (·.id) ∧ b ∈ rows.map (·.id)

/-- A row that is not a root, at the end of a walk of at least one edge and at most `depth`
edges, with a row at each of its numbers. -/
def Reached (rows : List StoredLocation) (edges : List Dependency) (roots : List StoredLocation)
    (depth : Nat) (row : StoredLocation) : Prop :=
  row ∈ rows ∧ row ∉ roots ∧
    ∃ n, 1 ≤ n ∧ n ≤ depth ∧ Steps (Joined rows edges) (· ∈ roots.map (·.id)) n row.id

/-- What an expansion that starts with `seen` should find, and have seen in the end. -/
structure ReachesExactly (rows : List StoredLocation) (edges : List Dependency)
    (roots : List StoredLocation) (depth : Nat) (seen : List Position) (found : List StoredLocation)
    (seen' : List Position) : Prop where
  nodup : (found.map (·.location.position)).Nodup
  fresh : ∀ row ∈ found, row.location.position ∉ seen
  /-- What is found is in reach itself, not only at the position of something in reach. -/
  sound : ∀ row ∈ found, Reached rows edges roots depth row
  /-- A new position is found exactly if a row in reach is there. -/
  occurs_iff : ∀ p, p ∉ seen → (p ∈ found.map (·.location.position) ↔
    ∃ row, Reached rows edges roots depth row ∧ row.location.position = p)
  nearest_first : found.Pairwise fun near far => ∀ m n,
    Distance (Joined rows edges) (· ∈ roots.map (·.id)) m near.id →
    Distance (Joined rows edges) (· ∈ roots.map (·.id)) n far.id → m ≤ n
  seen_iff : ∀ p, p ∈ seen' ↔ p ∈ seen ∨ p ∈ found.map (·.location.position)

section Tables

variable {d : Database} {locations : Numbered StoredLocation} {dependencies : Numbered Dependency}

/-! ## Walks of the store and walks over rows -/

theorem linked_iff_joined (hd : d.Keyed locations dependencies) {a b : Int}
    (ha : a ∈ locations.rows.map (·.id)) :
    Linked d.store a b ↔ Joined locations.rows dependencies.rows a b := by
  have hedges : (∃ edges, d.store.edgesFrom a = .ok edges ∧ ∃ e ∈ edges, e.rhs = b) ↔
      Links dependencies.rows a b := by
    simp [Database.store_edgesFrom hd.dependencies_eq, Links, and_assoc]
  have hrow : (∃ row, d.store.findById b = .ok row) ↔ b ∈ locations.rows.map (·.id) := by
    simp only [hd.findById_iff, List.mem_map]
  rw [Linked, Joined, hedges, hrow]
  simp only [ha, true_and]

/-- From roots that are rows, both follow the same walks. -/
theorem steps_linked_iff (hd : d.Keyed locations dependencies) (hroots : roots ⊆ locations.rows)
    (n : Nat) (id : Int) :
    Steps (Linked d.store) (· ∈ roots.map (·.id)) n id ↔
      Steps (Joined locations.rows dependencies.rows) (· ∈ roots.map (·.id)) n id := by
  -- Every number met has a row: a root by assumption, any other because the store found it.
  apply steps_congr (· ∈ locations.rows.map (·.id))
  · intro a ha
    exact List.map_subset _ hroots ha
  · rintro a b ⟨-, row, hrow⟩
    obtain ⟨hmem, rfl⟩ := hd.findById_iff.mp hrow
    exact List.mem_map_of_mem hmem
  · intro a b ha
    exact linked_iff_joined hd ha

/-- Rows that are not roots are those that are not at distance zero. -/
theorem within_iff_reached (hd : d.Keyed locations dependencies) (hroots : roots ⊆ locations.rows)
    {row : StoredLocation} :
    Within d.store roots depth row ↔
      Reached locations.rows dependencies.rows roots depth row := by
  constructor
  · rintro ⟨hrow, n, hpos, hle, hn⟩
    refine ⟨(hd.findById_iff.mp hrow).1, ?_, n, hpos, hle, (steps_linked_iff hd hroots n _).mp hn.1⟩
    intro hroot
    have hzero : AtDistance d.store roots 0 row.id :=
      distance_zero_iff.mpr (List.mem_map_of_mem hroot)
    exact Nat.ne_of_gt hpos (hn.unique hzero)
  · rintro ⟨hrow, hother, n, -, hle, hwalk⟩
    obtain ⟨m, hm, hdistance⟩ := ((steps_linked_iff hd hroots n _).mpr hwalk).exists_distance
    refine ⟨hd.findById_iff.mpr ⟨hrow, rfl⟩, m, ?_, by omega, hdistance⟩
    -- At distance zero the row would have a root's number, and so be that root.
    apply Nat.pos_of_ne_zero
    rintro rfl
    obtain ⟨root, hroot, hid⟩ := List.mem_map.mp (distance_zero_iff.mp hdistance)
    exact hother (hd.eq_of_id (hroots hroot) hrow hid ▸ hroot)

/-! ## Exact reach -/

/-- **Expansion is exact bounded reachability.**  From any rows of a keyed database, to any
depth and whatever was seen before, an expansion succeeds and finds the positions of the rows
in reach that are new, each once and nearest first. -/
theorem expand_reaches_exactly (hd : d.Keyed locations dependencies)
    (hroots : roots ⊆ locations.rows) (depth : Nat) (seen : List Position) :
    ∃ found seen', expand d.store depth roots seen = .ok (found, seen') ∧
      ReachesExactly locations.rows dependencies.rows roots depth seen found seen' := by
  obtain ⟨found, seen', hexpand⟩ :=
    expand_ok (answers_of_tables hd.locations_eq hd.dependencies_eq) depth roots seen
  obtain ⟨hfound, hseen⟩ := expands_of_expand hexpand
  have hdistance : ∀ n id, AtDistance d.store roots n id ↔
      Distance (Joined locations.rows dependencies.rows) (· ∈ roots.map (·.id)) n id :=
    fun n id => distance_congr (steps_linked_iff hd hroots)
  have hsound : ∀ row ∈ found, Reached locations.rows dependencies.rows roots depth row :=
    fun row hrow => (within_iff_reached hd hroots).mp (hfound.sound row hrow)
  refine ⟨found, seen', hexpand, hfound.nodup, hfound.fresh, hsound, ?_, ?_, hseen⟩
  · intro p hnew
    constructor
    · intro hp
      obtain ⟨row, hrow, hposition⟩ := List.mem_map.mp hp
      exact ⟨row, hsound row hrow, hposition⟩
    · rintro ⟨row, hreached, rfl⟩
      exact (hfound.complete row ((within_iff_reached hd hroots).mpr hreached)).resolve_left hnew
  · apply hfound.nearest_first.imp
    intro near far hordered m n hm hn
    exact hordered m n ((hdistance m near.id).mpr hm) ((hdistance n far.id).mpr hn)

end Tables

/-- From the first row, with the position of the second and the third seen before: the walk
goes through the third to the fourth, and then round the cycle. -/
theorem tangled_reaches_exactly :
    ∃ locations dependencies, tangled.Keyed locations dependencies ∧
      [⟨1, sampleLocation 1⟩] ⊆ locations.rows ∧
      expand tangled.store 3 [⟨1, sampleLocation 1⟩] [(sampleLocation 2).position] =
        .ok ([⟨4, sampleLocation 3⟩], [(sampleLocation 3).position, (sampleLocation 2).position]) ∧
      ReachesExactly locations.rows dependencies.rows [⟨1, sampleLocation 1⟩] 3
        [(sampleLocation 2).position] [⟨4, sampleLocation 3⟩]
        [(sampleLocation 3).position, (sampleLocation 2).position] := by
  have hd : tangled.Keyed _ _ := ⟨rfl, rfl, by decide, by decide⟩
  have hrun : expand tangled.store 3 [⟨1, sampleLocation 1⟩] [(sampleLocation 2).position] =
      .ok ([⟨4, sampleLocation 3⟩], [(sampleLocation 3).position, (sampleLocation 2).position]) :=
        rfl
  refine ⟨_, _, hd, by decide, hrun, ?_⟩
  obtain ⟨found, seen', hexpand, hexact⟩ := expand_reaches_exactly hd
    (show [(⟨1, sampleLocation 1⟩ : StoredLocation)] ⊆ _ by decide) 3 [(sampleLocation 2).position]
  cases hrun.symm.trans hexpand
  exact hexact

end FaultRepair.Fault
