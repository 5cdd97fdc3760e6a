/-
# What additions keep of a dependency graph

A graph grows by additions alone. However they interleave, and whatever identifiers
they bring, a position keeps the identifier it was first seen with and a pair of
positions is recorded once. These two facts are all that the writers of a graph rely
on: they look locations up by position, and must find the very location that a pair
names.

The views of a graph (its targets, what a target is computed from, its locations) are
described here in terms of the recorded pairs.
-/

import FaultRepair.Graph.DepGraph
import Mathlib.Data.List.Dedup
import Mathlib.Data.List.Nodup

namespace FaultRepair.Graph

open List

namespace Location

@[simp]
theorem same_iff {l r : Location} : l.same r = true ↔ l.position = r.position := by
  simp [same]

end Location

namespace DepGraph

variable {g : DepGraph} {ls : List Location} {l t : Location}

/-! ## One location for each position -/

theorem mem_of_mem_distinct (hl : l ∈ distinct ls) : l ∈ ls := by
  induction ls with
  | nil => exact hl
  | cons first rest ih =>
    rcases mem_cons.mp hl with rfl | hrest
    · exact mem_cons_self
    · exact mem_cons_of_mem first (ih (mem_of_mem_filter hrest))

theorem exists_mem_distinct (hl : l ∈ ls) : ∃ kept ∈ distinct ls, kept.position = l.position := by
  induction ls with
  | nil => cases hl
  | cons first rest ih =>
    by_cases hsame : l.position = first.position
    · exact ⟨first, mem_cons_self, hsame.symm⟩
    · have hrest : l ∈ rest := by
        rcases mem_cons.mp hl with rfl | hrest
        · exact absurd rfl hsame
        · exact hrest
      obtain ⟨kept, hkept, hposition⟩ := ih hrest
      refine ⟨kept, mem_cons_of_mem first (mem_filter.mpr ⟨hkept, ?_⟩), hposition⟩
      simpa [Location.same, hposition] using hsame

theorem nodup_positions_distinct (ls : List Location) :
    ((distinct ls).map Location.position).Nodup := by
  induction ls with
  | nil => exact nodup_nil
  | cons first rest ih => grind [distinct, Location.same]

/-- Each position among some locations belongs to one location only. -/
def OnePerPosition (ls : List Location) : Prop :=
  ∀ l ∈ ls, ∀ r ∈ ls, l.position = r.position → l = r

theorem known_position (ls : List Location) (l : Location) :
    (known ls l).position = l.position := by
  rw [known]
  cases hfound : ls.find? (·.same l) with
  | none => rfl
  | some first => simpa using find?_some hfound

/-- A location is known already, or nothing at its position is. -/
theorem known_mem_or (ls : List Location) (l : Location) :
    known ls l ∈ ls ∨ ∀ k ∈ ls, k.position ≠ l.position := by
  rw [known]
  cases hfound : ls.find? (·.same l) with
  | none => simp_all
  | some first => exact .inl (mem_of_find?_eq_some hfound)

theorem OnePerPosition.append_known (hone : OnePerPosition ls) (l : Location) :
    OnePerPosition (ls ++ [known ls l]) := by
  have hnew : ∀ k ∈ ls, k.position = (known ls l).position → k = known ls l := by
    intro k hk hsame
    rcases known_mem_or ls l with hknown | hfresh
    · exact hone k hk _ hknown hsame
    · exact absurd (hsame.trans (known_position ls l)) (hfresh k hk)
  intro a ha b hb hsame
  rw [mem_append, mem_singleton] at ha hb
  rcases ha with ha | rfl <;> rcases hb with hb | rfl
  · exact hone a ha b hb hsame
  · exact hnew a ha hsame
  · exact (hnew b hb hsame.symm).symm
  · rfl

/-! ## Runs of additions -/

/-- The graph that some additions make of the empty one. -/
def ofAdditions (calls : List (Location × Location)) : DepGraph :=
  calls.foldl (fun g c => g.add c.1 c.2) empty

/-- What every addition keeps: positions determine the ends of pairs, and no two pairs
have the same positions. -/
structure WellFormed (g : DepGraph) : Prop where
  onePerPosition : OnePerPosition g.ends
  nodupPairs : (g.pairs.map fun pair => (pair.1.position, pair.2.position)).Nodup

theorem mem_ends_iff : l ∈ g.ends ↔ ∃ pair ∈ g.pairs, l = pair.1 ∨ l = pair.2 := by
  simp [ends]

theorem fst_mem_ends {pair : Location × Location} (hpair : pair ∈ g.pairs) : pair.1 ∈ g.ends :=
  mem_ends_iff.mpr ⟨pair, hpair, .inl rfl⟩

theorem snd_mem_ends {pair : Location × Location} (hpair : pair ∈ g.pairs) : pair.2 ∈ g.ends :=
  mem_ends_iff.mpr ⟨pair, hpair, .inr rfl⟩

theorem hasPair_iff {lhs rhs : Location} :
    g.hasPair lhs rhs = true ↔
      (lhs.position, rhs.position) ∈ g.pairs.map fun pair =>
      (pair.1.position, pair.2.position) := by
  simp only [hasPair, any_eq_true, Bool.and_eq_true, Location.same_iff, mem_map,
    Prod.mk.injEq]

/-- An addition changes nothing, or appends one new pair at the added positions whose
ends are looked up among the ends so far. -/
theorem add_cases (g : DepGraph) (lhs rhs : Location) :
    (g.hasPair lhs rhs = true ∧ g.add lhs rhs = g) ∨
      (g.hasPair lhs rhs = false ∧
        (g.add lhs rhs).pairs =
          g.pairs ++ [(known g.ends lhs, known (g.ends ++ [known g.ends lhs]) rhs)]) := by
  grind [add]

theorem WellFormed.add (hg : g.WellFormed) (lhs rhs : Location) : (g.add lhs rhs).WellFormed := by
  rcases add_cases g lhs rhs with ⟨-, hsame⟩ | ⟨hpair, hgrown⟩
  · rw [hsame]
    exact hg
  · have hends : (g.add lhs rhs).ends =
        g.ends ++ [known g.ends lhs] ++ [known (g.ends ++ [known g.ends lhs]) rhs] := by
      simp [ends, hgrown]
    constructor
    · rw [hends]
      exact (hg.onePerPosition.append_known lhs).append_known rhs
    · rw [hgrown, map_append, map_singleton, known_position, known_position,
        nodup_append]
      refine ⟨hg.nodupPairs, nodup_singleton _, ?_⟩
      grind [hasPair_iff]

theorem wellFormed_ofAdditions (calls : List (Location × Location)) :
    (ofAdditions calls).WellFormed := by
  have hrun : ∀ g : DepGraph, g.WellFormed →
      (calls.foldl (fun g c => g.add c.1 c.2) g).WellFormed := by
    induction calls with
    | nil => exact fun g hg => hg
    | cons call rest ih => exact fun g hg => ih _ (hg.add call.1 call.2)
  exact hrun empty ⟨by simp [OnePerPosition, ends, empty], by simp [empty]⟩

/-- The positions of a run of additions, left sides before right ones. -/
def addedPositions (calls : List (Location × Location)) : List Position :=
  calls.flatMap fun c => [c.1.position, c.2.position]

theorem position_mem_ends_add (g : DepGraph) (lhs rhs : Location) (p : Position) :
    p ∈ (g.add lhs rhs).ends.map Location.position ↔
      p ∈ g.ends.map Location.position ∨ p = lhs.position ∨ p = rhs.position := by
  rcases add_cases g lhs rhs with ⟨hpair, hsame⟩ | ⟨-, hgrown⟩
  · rw [hsame]
    refine ⟨.inl, ?_⟩
    obtain ⟨pair, hmem, hpositions⟩ := mem_map.mp (hasPair_iff.mp hpair)
    grind [fst_mem_ends, snd_mem_ends]
  · grind [ends, known_position]

theorem position_mem_ends_ofAdditions (calls : List (Location × Location)) (p : Position) :
    p ∈ (ofAdditions calls).ends.map Location.position ↔ p ∈ addedPositions calls := by
  have hrun : ∀ g : DepGraph,
      p ∈ (calls.foldl (fun g c => g.add c.1 c.2) g).ends.map Location.position ↔
        p ∈ g.ends.map Location.position ∨ p ∈ addedPositions calls := by
    induction calls with
    | nil => simp [addedPositions]
    | cons call rest ih =>
      intro g
      rw [foldl_cons, ih, position_mem_ends_add]
      simp [addedPositions, or_assoc]
  simpa [ofAdditions, ends, empty] using hrun empty

/-! ## The views of a graph -/

theorem nodup_positions_targets (g : DepGraph) : (g.targets.map Location.position).Nodup :=
  nodup_positions_distinct _

theorem nodup_positions_locations (g : DepGraph) : (g.locations.map Location.position).Nodup :=
  nodup_positions_distinct _

theorem WellFormed.mem_targets_iff (hg : g.WellFormed) : t ∈ g.targets ↔ ∃ r, (t, r) ∈ g.pairs := by
  constructor
  · intro ht
    obtain ⟨pair, hpair, rfl⟩ := mem_map.mp (mem_of_mem_distinct ht)
    exact ⟨pair.2, hpair⟩
  · rintro ⟨r, hpair⟩
    obtain ⟨kept, hkept, hposition⟩ :=
      exists_mem_distinct (mem_map.mpr ⟨(t, r), hpair, rfl⟩ : t ∈ g.pairs.map (·.1))
    obtain ⟨other, hother, rfl⟩ := mem_map.mp (mem_of_mem_distinct hkept)
    have hequal : other.1 = t :=
      hg.onePerPosition _ (fst_mem_ends hother) _ (fst_mem_ends hpair) hposition
    rw [← hequal]
    exact hkept

theorem WellFormed.mem_deps_iff (hg : g.WellFormed) {d : Location} (ht : t ∈ g.targets) :
    d ∈ g.deps t ↔ (t, d) ∈ g.pairs := by
  obtain ⟨r, hr⟩ := hg.mem_targets_iff.mp ht
  simp only [deps, mem_map, mem_filter, Location.same_iff]
  constructor
  · rintro ⟨pair, ⟨hpair, hposition⟩, rfl⟩
    have hequal : pair.1 = t :=
      hg.onePerPosition _ (fst_mem_ends hpair) _ (fst_mem_ends hr) hposition
    rw [← hequal]
    exact hpair
  · exact fun hpair => ⟨(t, d), ⟨hpair, rfl⟩, rfl⟩

theorem WellFormed.mem_locations_iff (hg : g.WellFormed) : l ∈ g.locations ↔ l ∈ g.ends := by
  have hlisted : ∀ k, k ∈ (g.targets.flatMap fun t => t :: g.deps t) ↔ k ∈ g.ends := by
    intro k
    rw [mem_flatMap, mem_ends_iff]
    constructor
    · rintro ⟨t, ht, hk⟩
      rcases mem_cons.mp hk with rfl | hk
      · obtain ⟨r, hr⟩ := hg.mem_targets_iff.mp ht
        exact ⟨(k, r), hr, .inl rfl⟩
      · exact ⟨(t, k), (hg.mem_deps_iff ht).mp hk, .inr rfl⟩
    · rintro ⟨pair, hpair, hk⟩
      have ht : pair.1 ∈ g.targets := hg.mem_targets_iff.mpr ⟨pair.2, hpair⟩
      refine ⟨pair.1, ht, ?_⟩
      rcases hk with rfl | rfl
      · exact mem_cons_self
      · exact mem_cons_of_mem _ ((hg.mem_deps_iff ht).mpr hpair)
  constructor
  · exact fun hl => (hlisted l).mp (mem_of_mem_distinct hl)
  · intro hl
    obtain ⟨kept, hkept, hposition⟩ := exists_mem_distinct ((hlisted l).mpr hl)
    have hequal : kept = l :=
      hg.onePerPosition _ ((hlisted kept).mp (mem_of_mem_distinct hkept)) _ hl hposition
    rw [← hequal]
    exact hkept

theorem WellFormed.mem_locations_of_mem_targets (hg : g.WellFormed) (ht : t ∈ g.targets) :
    t ∈ g.locations := by
  obtain ⟨r, hr⟩ := hg.mem_targets_iff.mp ht
  exact hg.mem_locations_iff.mpr (fst_mem_ends hr)

theorem WellFormed.mem_locations_of_mem_deps (hg : g.WellFormed) {d : Location} (ht : t ∈ g.targets)
    (hd : d ∈ g.deps t) : d ∈ g.locations :=
  hg.mem_locations_iff.mpr (snd_mem_ends ((hg.mem_deps_iff ht).mp hd))

/-- The number of locations is the number of positions that were ever added. -/
theorem length_locations_ofAdditions (calls : List (Location × Location)) :
    (ofAdditions calls).locations.length = (addedPositions calls).dedup.length := by
  have hperm : ((ofAdditions calls).locations.map Location.position).Perm
      (addedPositions calls).dedup := by
    rw [perm_ext_iff_of_nodup (nodup_positions_locations _) (nodup_dedup _)]
    intro p
    rw [mem_dedup, ← position_mem_ends_ofAdditions]
    simp only [mem_map, (wellFormed_ofAdditions calls).mem_locations_iff]
  simpa using hperm.length_eq

end DepGraph

end FaultRepair.Graph
