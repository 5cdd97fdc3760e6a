/-
# Expansion comes to an end

The depth of an expansion is a setting, and edges may run in cycles. Still no walk is longer
than there are rows: every level that is not empty has a row that no level before it had. So
from the number of rows on, the depth makes no difference, neither to the walk from one frame
nor to what all frames of a trace emit, although they share the positions that were seen.
-/

import FaultRepair.Proofs.Fault.Emission
import FaultRepair.Proofs.Store.History

namespace FaultRepair.Fault

open FaultRepair.Graph Store Files Report Trace List

/-! ## The last level -/

namespace Walk

variable {s : Store} {roots level : List StoredLocation} {w w' : Walk} {bound depth k : Nat}

/-- From an empty level there is nowhere to go. -/
theorem rounds_nil (s : Store) (depth : Nat) (w : Walk) : rounds s depth [] w = .ok w := by
  cases depth with
  | zero => rfl
  | succ depth => rfl

/-- Where all distances are below a bound, rounds up to that bound end with an empty level,
and more rounds change nothing. -/
theorem Frontier.ends (hbound : ∀ n id, AtDistance s roots n id → n < bound)
    (hfrontier : Frontier s roots k level w) (henough : bound ≤ k + depth)
    (hnext : level = [] → w.next = []) (hrounds : rounds s depth level w = .ok w') :
    w'.next = [] ∧ ∀ more, rounds s (depth + more) level w = .ok w' := by
  induction depth generalizing level w k with
  | zero =>
    -- The level is at a distance that the bound rules out.
    have hempty : level = [] := by
      apply eq_nil_iff_forall_not_mem.mpr
      intro row hrow
      have hlt := hbound k row.id ((hfrontier.level_iff row.id).mp (mem_map_of_mem hrow))
      omega
    cases hrounds
    refine ⟨hnext hempty, fun more => ?_⟩
    rw [hempty, rounds_nil]
  | succ depth ih =>
    cases level with
    | nil =>
      cases hrounds
      exact ⟨hnext rfl, fun more => rounds_nil s _ _⟩
    | cons first rest =>
      obtain ⟨middle, hround, hrest⟩ := bind_eq_ok.mp hrounds
      obtain ⟨-, -, hmiddle, -⟩ := hfrontier.round hround
      obtain ⟨hlast, hmore⟩ := ih hmiddle (by omega) id hrest
      refine ⟨hlast, fun more => ?_⟩
      rw [Nat.add_right_comm]
      exact bind_eq_ok.mpr ⟨middle, hround, hmore more⟩

end Walk

section Tables

variable {d : Database} {locations : Numbered StoredLocation} {dependencies : Numbered Dependency}
  {roots : List StoredLocation}

/-- Every number at a distance from rows has a row, so distances are below the number of rows. -/
theorem atDistance_lt (hd : d.Keyed locations dependencies) (hroots : roots ⊆ locations.rows)
    {n : Nat} {id : Int} (hn : AtDistance d.store roots n id) : n < locations.rows.length := by
  rw [← length_map (·.id)]
  apply hn.lt_length
  rintro m other ⟨hwalk, -⟩
  cases hwalk with
  | here hroot => exact map_subset _ hroots hroot
  | next _ hlink =>
    obtain ⟨-, row, hrow⟩ := hlink
    obtain ⟨hmem, rfl⟩ := hd.findById_iff.mp hrow
    exact mem_map_of_mem hmem

/-- The walk from some rows is over after as many rounds as there are rows: the level it would
go on from is empty, and no greater depth changes anything. -/
theorem rounds_end (hd : d.Keyed locations dependencies) (hroots : roots ⊆ locations.rows)
    (seen : List Position) :
    ∃ w, w.next = [] ∧ ∀ depth, locations.rows.length ≤ depth →
      Walk.rounds d.store depth roots { visited := roots.map (·.id), seen := seen } = .ok w := by
  obtain ⟨w, hrounds⟩ := Walk.rounds_ok (answers_of_tables hd.locations_eq hd.dependencies_eq)
    locations.rows.length roots { visited := roots.map (·.id), seen := seen }
  have hends := Walk.Frontier.ends (fun _ _ => atDistance_lt hd hroots)
    (Walk.Frontier.start d.store roots seen) (Nat.le_add_left _ 0) (fun _ => rfl) hrounds
  grind [Nat.exists_eq_add_of_le]

theorem expand_saturates (hd : d.Keyed locations dependencies) (hroots : roots ⊆ locations.rows)
    {depth : Nat} (hle : locations.rows.length ≤ depth) (seen : List Position) :
    expand d.store depth roots seen = expand d.store locations.rows.length roots seen := by
  obtain ⟨w, -, hrounds⟩ := rounds_end hd hroots seen
  rw [expand, expand, hrounds depth hle, hrounds _ (Nat.le_refl _)]

/-! ## Frames that share what was seen -/

/-- A frame is expanded from rows of the database. -/
theorem rootsOf_subset (hd : d.Keyed locations dependencies) {f : Frame} {notes : List Notice}
    (hroots : rootsOf d.store f = .ok (roots, notes)) : roots ⊆ locations.rows := by
  unfold rootsOf at hroots
  split at hroots
  · rw [Database.store_findOnLine hd.locations_eq] at hroots
    cases hroots
    intro row hrow
    exact mem_of_mem_filter (mem_mergeSort.mp hrow)
  · rw [Database.store_findLocation hd.locations_eq] at hroots
    split at hroots
    · rename_i row hrow
      cases hroots
      apply cons_subset.mpr
      exact ⟨mem_of_find?_eq_some (found_eq_ok.mp hrow), nil_subset _⟩
    · cases hroots
      exact nil_subset _
    · cases hroots

variable {depth : Nat}

theorem Localizing.frame_saturates (hd : d.Keyed locations dependencies)
    (hle : locations.rows.length ≤ depth) (l : Localizing) (f : Frame) :
    l.frame d.store depth f = l.frame d.store locations.rows.length f := by
  unfold Localizing.frame
  by_cases hseen : l.seen.contains f.location.position = true
  · simp only [hseen, if_true]
  · simp only [hseen, Bool.false_eq_true, if_false]
    cases hroots : rootsOf d.store f with
    | error fault => rfl
    | ok answer =>
      have hexpand := expand_saturates hd (rootsOf_subset hd hroots) hle
        (f.location.position :: l.seen)
      simp only [bind, Except.bind, hexpand]

theorem Localizing.frames_saturate (hd : d.Keyed locations dependencies)
    (hle : locations.rows.length ≤ depth) (files : Tree) (l : Localizing) (frames : List Frame) :
    Localizing.frames files d.store depth l frames =
      Localizing.frames files d.store locations.rows.length l frames := by
  induction frames generalizing l with
  | nil => rfl
  | cons f rest ih =>
    simp only [Localizing.frames, Localizing.frame_saturates hd hle, ih]

/-- **Expansion reaches a fixed point.**  From the number of rows on, every depth gives the
same candidates; and from any rows the walk is over after at most as many levels. -/
theorem localize_saturates (hd : d.Keyed locations dependencies) (files : Tree)
    (frames : List Frame) :
    (∃ candidates, ∀ depth : Int, locations.rows.length ≤ depth →
      ∃ notices, localize files d.store depth frames = .ok (candidates, notices)) ∧
    ∀ roots ⊆ locations.rows, ∀ seen, ∃ w, w.next = [] ∧
      ∀ depth, locations.rows.length ≤ depth →
        Walk.rounds d.store depth roots { visited := roots.map (·.id), seen := seen } = .ok w := by
  refine ⟨?_, fun roots hroots seen => rounds_end hd hroots seen⟩
  obtain ⟨l, hframes⟩ := Localizing.frames_ok
    (answers_of_tables hd.locations_eq hd.dependencies_eq) files locations.rows.length {} frames
  refine ⟨l.candidates, ?_⟩
  intro depth hle
  have hdepth : locations.rows.length ≤ depth.toNat := by omega
  rw [← Localizing.frames_saturate hd hdepth] at hframes
  rw [localize, hframes]
  exact ⟨_, rfl⟩

end Tables

/-- Four rows in a tangle, where the second frame is found from the first: the greatest depth
there is gives what depth four gives. -/
theorem tangled_localize_saturates :
    let frames := [sampleFrame 1 0, sampleFrame 3 1]
    let candidates := [directCandidate (sampleFrame 1 0),
      dependentCandidate (sampleFrame 1 0) ⟨2, sampleLocation 2⟩,
      dependentCandidate (sampleFrame 1 0) ⟨4, sampleLocation 3⟩]
    ∃ locations dependencies, tangled.Keyed locations dependencies ∧ locations.rows.length = 4 ∧
      (∃ notices, localize {} tangled.store 4 frames = .ok (candidates, notices)) ∧
      ∃ notices, localize {} tangled.store 9223372036854775807 frames =
        .ok (candidates, notices) := by
  intro frames candidates
  have hd : tangled.Keyed _ _ := ⟨rfl, rfl, by decide, by decide⟩
  obtain ⟨⟨found, hsame⟩, -⟩ := localize_saturates hd {} frames
  obtain ⟨notices, hrun⟩ :
      ∃ notices, localize {} tangled.store 4 frames = .ok (candidates, notices) := ⟨_, rfl⟩
  obtain ⟨notices', hfour⟩ := hsame 4 (by decide)
  cases hrun.symm.trans hfour
  exact ⟨_, _, hd, rfl, ⟨_, hfour⟩, hsame 9223372036854775807 (by decide)⟩

end FaultRepair.Fault
