/-
# What a slice lists

A slice is computed from whole tables by a recursive query. A turn joins the rows of the last
one with the edges and unites what is new; a row has a number and the length of a walk to it.
So the query finds every walk up to its bound, each length of each number once, and the least
length of a number is its distance. Walks may pass through numbers without rows.

So before it is cut to its greatest size, a slice lists exactly the rows that some walk of
at most the given length leads to, each with the least such length.
-/

import FaultRepair.Store.Slice
import FaultRepair.Proofs.Graph.Distance
import Mathlib.Data.List.Nodup

namespace FaultRepair.Store

open FaultRepair.Graph List

def Links (edges : List Dependency) (a b : Int) : Prop := ∃ e ∈ edges, e.lhs = a ∧ e.rhs = b

/-- The length of a shortest walk from the root. -/
abbrev FromRoot (edges : List Dependency) (root : Int) (n : Nat) (id : Int) : Prop :=
  Distance (Links edges) (· = root) n id

theorem fromRoot_zero_iff {edges : List Dependency} {root id : Int} :
    FromRoot edges root 0 id ↔ id = root :=
  distance_zero_iff

/-- A walk of `n` edges leads from the root to a number. -/
abbrev Walks (edges : List Dependency) (root : Int) (n : Nat) (id : Int) : Prop :=
  Steps (Links edges) (· = root) n id

/-! ## Turns -/

variable {edges : List Dependency} {root id : Int} {bound n k : Nat} {last all : List WalkRow}

theorem mem_joinRows :
    (id, n) ∈ joinRows edges bound last ↔
      ∃ a m, (a, m) ∈ last ∧ m < bound ∧ Links edges a id ∧ n = m + 1 := by
  simp only [joinRows, mem_flatMap, mem_filter, mem_map, Prod.exists, Prod.mk.injEq,
    decide_eq_true_eq, beq_iff_eq, Links]
  grind

/-- The invariant of the turns: the last one has the walks of length `k`, and all up to that
length are there. -/
structure Turn (edges : List Dependency) (root : Int) (k : Nat) (last all : List WalkRow) :
    Prop where
  last_iff : ∀ id n, (id, n) ∈ last ↔ n = k ∧ Walks edges root n id
  all_iff : ∀ id n, (id, n) ∈ all ↔ n ≤ k ∧ Walks edges root n id

namespace Turn

theorem start (edges : List Dependency) (root : Int) :
    Turn edges root 0 [(root, 0)] [(root, 0)] := by
  have hroot : ∀ id n, (id, n) ∈ [(root, 0)] ↔ n = 0 ∧ Walks edges root n id := by
    intro id n
    rw [mem_singleton, Prod.mk.injEq, and_comm]
    refine and_congr_right fun hn => ?_
    subst hn
    exact (@steps_zero_iff Int (Links edges) (· = root) id).symm
  exact ⟨hroot, fun id n => by rw [hroot, Nat.le_zero]⟩

/-- What a turn adds is one edge farther away: nothing of that length was there before. -/
theorem mem_new (h : Turn edges root k last all) :
    (id, n) ∈ (joinRows edges bound last).eraseDups.filter (!all.contains ·) ↔
      k < bound ∧ n = k + 1 ∧ Walks edges root n id := by
  have hjoined : (id, n) ∈ joinRows edges bound last ↔
      k < bound ∧ n = k + 1 ∧ Walks edges root n id := by
    rw [mem_joinRows]
    constructor
    · rintro ⟨a, m, hlast, hlt, hlink, rfl⟩
      obtain ⟨rfl, hwalk⟩ := (h.last_iff a m).mp hlast
      exact ⟨hlt, rfl, .next hwalk hlink⟩
    · rintro ⟨hlt, rfl, hwalk⟩
      cases hwalk with
      | next hbefore hlink => exact ⟨_, k, (h.last_iff _ k).mpr ⟨rfl, hbefore⟩, hlt, hlink, rfl⟩
  rw [mem_filter, mem_eraseDups, hjoined, Bool.not_eq_true', ← Bool.not_eq_true, contains_iff_mem,
    h.all_iff, and_iff_left_of_imp]
  rintro ⟨-, rfl, -⟩ ⟨hle, -⟩
  omega

theorem mem_unionRows (h : Turn edges root k last all) {turns : Nat} (hk : k ≤ bound)
    (hturns : bound ≤ k + turns) :
    (id, n) ∈ unionRows edges bound turns last all ↔ n ≤ bound ∧ Walks edges root n id := by
  induction turns generalizing k last all with
  | zero =>
    obtain rfl : k = bound := by omega
    exact h.all_iff id n
  | succ turns ih =>
    rw [unionRows]
    have hnew : ∀ id n, (id, n) ∈ (joinRows edges bound last).eraseDups.filter (!all.contains ·) ↔
        k < bound ∧ n = k + 1 ∧ Walks edges root n id := fun id n => h.mem_new
    cases hrows : (joinRows edges bound last).eraseDups.filter (!all.contains ·) with
    | nil =>
      -- No walk is longer than those that are there, or none may be.
      simp only [hrows, not_mem_nil, false_iff] at hnew
      rw [h.all_iff]
      refine and_congr_left fun hwalk => ⟨fun hle => by omega, fun hle => ?_⟩
      by_contra hlt
      obtain ⟨a, ha⟩ := hwalk.exists_steps_of_le (m := k + 1) (by omega)
      exact hnew a (k + 1) ⟨by omega, rfl, ha⟩
    | cons row rest =>
      rw [hrows] at hnew
      have hlt : k < bound := ((hnew row.1 row.2).mp mem_cons_self).1
      refine ih ⟨fun id n => ?_, fun id n => ?_⟩ hlt (by omega)
      · simp [hnew, hlt]
      · rw [mem_append, h.all_iff, hnew]
        grind

end Turn

/-- **The query finds all walks.**  Its rows are the walks of at most `bound` edges. -/
theorem mem_walkRows : (id, n) ∈ walkRows edges root bound ↔ n ≤ bound ∧ Walks edges root n id :=
  (Turn.start edges root).mem_unionRows (Nat.zero_le _) (by omega)

/-- **The least depth is the distance.** -/
theorem leastDepth?_walkRows :
    leastDepth? (walkRows edges root bound) id = some n ↔
      n ≤ bound ∧ FromRoot edges root n id := by
  have hdepth : ∀ m, m ∈ ((walkRows edges root bound).filter (·.1 == id)).map (·.2) ↔
      m ≤ bound ∧ Walks edges root m id := by
    simp [mem_walkRows]
  rw [leastDepth?, min?_eq_some_iff, hdepth]
  simp only [hdepth, Distance]
  grind

/-! ## The rows of a slice -/

variable {depth : Nat}

/-- The rows that are reached, each with its distance, in the order of the table. -/
def sliceRows (rows : List StoredLocation) (edges : List Dependency) (root : Int) (depth : Nat) :
    List SliceLocation :=
  rows.filterMap fun r => (leastDepth? (walkRows edges root depth) r.id).map fun n => ⟨r, n⟩

theorem mem_sliceRows {rows : List StoredLocation} {entry : SliceLocation} :
    entry ∈ sliceRows rows edges root depth ↔
      entry.row ∈ rows ∧ entry.distance ≤ depth ∧
        FromRoot edges root entry.distance entry.row.id := by
  simp only [sliceRows, mem_filterMap, Option.map_eq_some_iff]
  constructor
  · rintro ⟨r, hr, n, hn, rfl⟩
    exact ⟨hr, leastDepth?_walkRows.mp hn⟩
  · rintro ⟨hrow, hn⟩
    exact ⟨entry.row, hrow, entry.distance, leastDepth?_walkRows.mpr hn, rfl⟩

/-- The rows are listed in the order of the table, so none is listed twice. -/
theorem sublist_sliceRows (rows : List StoredLocation) (edges : List Dependency) (root : Int)
    (depth : Nat) : ((sliceRows rows edges root depth).map (·.row)).Sublist rows := by
  induction rows with
  | nil => exact List.Sublist.refl []
  | cons r rest ih =>
    rw [sliceRows, filterMap_cons]
    cases leastDepth? (walkRows edges root depth) r.id with
    | none => exact ih.cons r
    | some n => exact ih.cons_cons r

namespace Database

variable {d : Database} {locations : Numbered StoredLocation} {dependencies : Numbered Dependency}

theorem sliceLocations?_eq (hlocations : d.locations = some locations)
    (hdependencies : d.dependencies = some dependencies) {root : Int} {depth : Nat}
    (hfits : (sliceRows locations.rows dependencies.rows root depth).length ≤ maxSliceLocations) :
    d.sliceLocations? root depth =
      some ((sliceRows locations.rows dependencies.rows root depth).mergeSort sliceOrder) := by
  have hlength :
      ((sliceRows locations.rows dependencies.rows root depth).mergeSort sliceOrder).length ≤
      maxSliceLocations := by
    rwa [length_mergeSort]
  rw [sliceLocations?, hlocations, hdependencies]
  exact congrArg some (take_of_length_le hlength)

/-- A slice that fits and has a row is found, with all its rows. -/
theorem exists_slice? (hlocations : d.locations = some locations)
    (hdependencies : d.dependencies = some dependencies) {root requested : Int}
    (hfits : (sliceRows locations.rows dependencies.rows root (sliceDepth requested)).length ≤
      maxSliceLocations)
    (hsome : sliceRows locations.rows dependencies.rows root (sliceDepth requested) ≠ []) :
    ∃ slice, d.slice? root requested = some (some slice) ∧
      slice.locations.Perm
        (sliceRows locations.rows dependencies.rows root (sliceDepth requested)) := by
  have hlisted := sliceLocations?_eq hlocations hdependencies hfits
  generalize sliceRows locations.rows dependencies.rows root (sliceDepth requested) = rows
    at hlisted hsome ⊢
  have hperm := mergeSort_perm rows sliceOrder
  have hsorted : rows.mergeSort sliceOrder ≠ [] :=
    fun hempty => hsome (nil_perm.mp (hempty ▸ hperm))
  obtain ⟨edges, hedges⟩ : ∃ edges, d.sliceEdges? (rows.mergeSort sliceOrder) = some edges := by
    simp [sliceEdges?, hdependencies]
  refine ⟨⟨root, sliceDepth requested, rows.mergeSort sliceOrder, edges⟩, ?_, hperm⟩
  simp [slice?, hlisted, hsorted, hedges]

end Database

end FaultRepair.Store
