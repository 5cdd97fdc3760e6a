/-
# What a run of additions records

The views of a graph are described here by the calls that made it. A call mentions two
locations, the left one before the right one, and whatever the graph shows at a position
is the location that was mentioned there first. Repeated keys are dropped and the first
of each is kept, which is what `List.eraseDups` does to the keys of the calls.

Two facts carry everything: the recorded pairs have the keys of the calls, each once and in
order, and looking a position up among the recorded ends finds what it would find among all
mentions. One addition keeps both, and the views follow from them without a further
induction on the calls. A ledger keeps these views as tables, in step with the pairs.
-/

import FaultRepair.Proofs.Graph.Discovery
import Mathlib.Algebra.BigOperators.Group.List.Lemmas
import Mathlib.Algebra.GroupWithZero.Nat
import Mathlib.Data.List.Induction
import Std.Data.HashMap.Lemmas
import Std.Data.HashSet.Lemmas

namespace FaultRepair.Graph

open List hiding beq_eq_decide

/-! ## Keys without repetition -/

section Keys

variable {κ μ : Type} [BEq κ] [LawfulBEq κ] [BEq μ] [LawfulBEq μ]

/-- A key that is there already is dropped. -/
theorem eraseDups_concat_of_mem {keys : List κ} {key : κ} (hmem : key ∈ keys) :
    (keys ++ [key]).eraseDups = keys.eraseDups := by
  simp [eraseDups_append, removeAll, hmem]

theorem eraseDups_concat_of_not_mem {keys : List κ} {key : κ} (hnew : key ∉ keys) :
    (keys ++ [key]).eraseDups = keys.eraseDups ++ [key] := by
  simp [eraseDups_append, removeAll, hnew, eraseDups_cons]

theorem eraseDups_of_nodup {keys : List κ} (hnodup : keys.Nodup) : keys.eraseDups = keys := by
  induction keys using reverseRecOn with
  | nil => simp
  | append_singleton keys key ih => grind [eraseDups_concat_of_not_mem]

theorem filter_eraseDups (wanted : κ → Bool) (keys : List κ) :
    keys.eraseDups.filter wanted = (keys.filter wanted).eraseDups := by
  induction keys using reverseRecOn with
  | nil => simp
  | append_singleton keys key ih =>
    rw [filter_append]
    by_cases hmem : key ∈ keys
    · rw [eraseDups_concat_of_mem hmem, ih]
      by_cases hwanted : wanted key = true
      · rw [filter_cons_of_pos hwanted, filter_nil,
          eraseDups_concat_of_mem (mem_filter.mpr ⟨hmem, hwanted⟩)]
      · rw [filter_cons_of_neg hwanted, filter_nil, append_nil]
    · rw [eraseDups_concat_of_not_mem hmem, filter_append, ih]
      by_cases hwanted : wanted key = true
      · have hnew : key ∉ keys.filter wanted := fun h => hmem (mem_of_mem_filter h)
        rw [filter_cons_of_pos hwanted, filter_nil, eraseDups_concat_of_not_mem hnew]
      · rw [filter_cons_of_neg hwanted, filter_nil, append_nil, append_nil]

theorem eraseDups_map_eraseDups (view : κ → μ) (keys : List κ) :
    (keys.eraseDups.map view).eraseDups = (keys.map view).eraseDups := by
  induction keys using reverseRecOn with
  | nil => simp
  | append_singleton keys key ih =>
    rw [map_append, map_singleton]
    by_cases hmem : key ∈ keys
    · rw [eraseDups_concat_of_mem hmem, eraseDups_concat_of_mem (mem_map_of_mem hmem), ih]
    · rw [eraseDups_concat_of_not_mem hmem, map_append, map_singleton]
      -- Another key may have the same view.
      by_cases hview : view key ∈ keys.map view
      · have hkept : view key ∈ keys.eraseDups.map view := by
          simpa only [mem_map, mem_eraseDups] using hview
        rw [eraseDups_concat_of_mem hkept, eraseDups_concat_of_mem hview, ih]
      · grind [mem_eraseDups, eraseDups_concat_of_not_mem]

end Keys

namespace DepGraph

/-- The positions that `distinct` keeps are those of the list, each where it comes first. -/
theorem map_position_distinct (ls : List Location) :
    (distinct ls).map Location.position = (ls.map Location.position).eraseDups := by
  induction ls with
  | nil => simp [distinct]
  | cons first rest ih =>
    rw [distinct, map_cons, map_cons, eraseDups_cons, ← filter_eraseDups, ← ih,
      filter_map]
    rfl

/-! ## One addition -/

/-- Everything that some calls mention, left sides before right ones. -/
def mentions (calls : List (Location × Location)) : List Location :=
  calls.flatMap fun c => [c.1, c.2]

def pairKeys (calls : List (Location × Location)) : List (Position × Position) :=
  calls.map fun c => (c.1.position, c.2.position)

theorem find?_append_known (ls : List Location) (l k : Location) :
    (ls ++ [known ls l]).find? (·.same k) = (ls ++ [l]).find? (·.same k) := by
  rw [find?_append, find?_append]
  grind [known, Location.same, known_position]

/-- What the additions so far keep of the calls that were made. -/
structure Tracks (g : DepGraph) (calls : List (Location × Location)) : Prop where
  /-- The pairs have the keys of the calls, each once and in order. -/
  keys_eq : pairKeys g.pairs = (pairKeys calls).eraseDups
  /-- A position is known as what was mentioned there first. -/
  find_eq : ∀ k : Location, g.ends.find? (·.same k) = (mentions calls).find? (·.same k)

theorem Tracks.empty : Tracks empty [] where
  keys_eq := by simp [pairKeys, DepGraph.empty]
  find_eq k := by simp [ends, mentions, DepGraph.empty]

theorem Tracks.hasPair_iff {g : DepGraph} {calls : List (Location × Location)}
    (hg : g.Tracks calls) {lhs rhs : Location} :
    g.hasPair lhs rhs = true ↔ (lhs.position, rhs.position) ∈ pairKeys calls := by
  rw [DepGraph.hasPair_iff, ← mem_eraseDups (l := pairKeys calls), ← hg.keys_eq]
  rfl

theorem Tracks.add {g : DepGraph} {calls : List (Location × Location)} (hg : g.Tracks calls)
    (lhs rhs : Location) : (g.add lhs rhs).Tracks (calls ++ [(lhs, rhs)]) := by
  have hkeys : pairKeys (calls ++ [(lhs, rhs)]) = pairKeys calls ++
      [(lhs.position, rhs.position)] := by
    simp [pairKeys]
  have hmentions : mentions (calls ++ [(lhs, rhs)]) = mentions calls ++ [lhs] ++ [rhs] := by
    simp [mentions]
  rcases add_cases g lhs rhs with ⟨hpair, hsame⟩ | ⟨hpair, hgrown⟩
  · have hcall := hg.hasPair_iff.mp hpair
    refine ⟨by rw [hsame, hkeys, eraseDups_concat_of_mem hcall, hg.keys_eq], fun k => ?_⟩
    -- Both positions were mentioned before, so no position is mentioned here first.
    obtain ⟨call, hmem, hpositions⟩ := mem_map.mp hcall
    obtain ⟨hleft, hright⟩ := Prod.mk.inj hpositions
    have hfirst : call.1 ∈ mentions calls := mem_flatMap.mpr ⟨call, hmem, by simp⟩
    have hsecond : call.2 ∈ mentions calls := mem_flatMap.mpr ⟨call, hmem, by simp⟩
    rw [hsame, hg.find_eq k, hmentions, find?_append, find?_append]
    cases hfound : (mentions calls).find? (·.same k) with
    | some first => rfl
    | none => grind [Location.same]
  · have hcall : (lhs.position, rhs.position) ∉ pairKeys calls := by
      rw [← hg.hasPair_iff, hpair]
      exact Bool.false_ne_true
    constructor
    · rw [hkeys, eraseDups_concat_of_not_mem hcall, hgrown, ← hg.keys_eq]
      simp [pairKeys, known_position]
    · intro k
      have hends : (g.add lhs rhs).ends =
          g.ends ++ [known g.ends lhs] ++ [known (g.ends ++ [known g.ends lhs]) rhs] := by
        simp [ends, hgrown]
      rw [hends, find?_append_known, find?_append, find?_append_known, find?_append,
        hg.find_eq k, hmentions, find?_append, find?_append]

theorem tracks_ofAdditions (calls : List (Location × Location)) :
    (ofAdditions calls).Tracks calls := by
  induction calls using reverseRecOn with
  | nil => exact Tracks.empty
  | append_singleton calls call ih =>
    rw [ofAdditions, foldl_append]
    exact ih.add call.1 call.2

/-! ## The views -/

section Views

variable {g : DepGraph} {calls : List (Location × Location)}

theorem Tracks.targets_eq (hg : g.Tracks calls) :
    g.targets.map Location.position = (calls.map (·.1.position)).eraseDups := by
  calc
    _ = ((pairKeys g.pairs).map Prod.fst).eraseDups := by
      rw [targets, map_position_distinct]
      simp [pairKeys, Function.comp_def]
    _ = ((pairKeys calls).map Prod.fst).eraseDups := by rw [hg.keys_eq, eraseDups_map_eraseDups]
    _ = _ := by simp [pairKeys, Function.comp_def]

/-- What a target is computed from, in terms of the recorded keys. -/
theorem map_position_deps (g : DepGraph) (t : Location) :
    (g.deps t).map Location.position =
      ((pairKeys g.pairs).filter fun key => key.1 = t.position).map Prod.snd := by
  simp [deps, pairKeys, filter_map, Function.comp_def, Location.same, beq_eq_decide]

theorem WellFormed.nodup_deps (hg : g.WellFormed) (t : Location) :
    ((g.deps t).map Location.position).Nodup := by
  rw [map_position_deps]
  refine (hg.nodupPairs.filter _).map_on fun a ha b hb hsecond => ?_
  grind

theorem Tracks.deps_eq (hwell : g.WellFormed) (hg : g.Tracks calls) (t : Location) :
    (g.deps t).map Location.position =
      ((calls.filter fun c => c.1.position = t.position).map (·.2.position)).eraseDups := by
  calc
    _ = ((g.deps t).map Location.position).eraseDups :=
      (eraseDups_of_nodup (hwell.nodup_deps t)).symm
    _ = (((pairKeys calls).filter fun key => key.1 = t.position).map Prod.snd).eraseDups := by
      rw [map_position_deps, hg.keys_eq, filter_eraseDups, eraseDups_map_eraseDups]
    _ = _ := by simp [pairKeys, filter_map, Function.comp_def]

theorem size_eq_sum_deps (g : DepGraph) :
    g.size = (g.targets.map fun t => (g.deps t).length).sum := by
  have hcount : ∀ t, (g.deps t).length = (g.pairs.map (·.1.position)).count t.position := by
    intro t
    rw [count, countP_map, countP_eq_length_filter, deps, length_map]
    rfl
  have hperm : (g.targets.map Location.position).Perm (g.pairs.map (·.1.position)).dedup := by
    rw [perm_ext_iff_of_nodup (nodup_positions_targets g) (nodup_dedup _), targets,
      map_position_distinct]
    intro p
    simp
  calc
    g.size = (g.pairs.map (·.1.position)).length := by simp [size]
    _ = ((g.pairs.map (·.1.position)).dedup.map fun p =>
      (g.pairs.map (·.1.position)).count p).sum :=
      (sum_map_count_dedup_eq_length _).symm
    _ = ((g.targets.map Location.position).map fun p => (g.pairs.map (·.1.position)).count p).sum :=
      ((hperm.map _).sum_eq).symm
    _ = _ := by simp [hcount, Function.comp_def]

/-- Every end is what was mentioned first at its position. -/
theorem Tracks.first_mention (hwell : g.WellFormed) (hg : g.Tracks calls) {l : Location}
    (hl : l ∈ g.ends) : (mentions calls).find? (·.same l) = some l := by
  rw [← hg.find_eq l]
  cases hfound : g.ends.find? (·.same l) with
  | none => exact absurd (Location.same_iff.mpr rfl) (find?_eq_none.mp hfound l hl)
  | some first =>
    have hsame : first.position = l.position := by simpa using find?_some hfound
    rw [hwell.onePerPosition first (mem_of_find?_eq_some hfound) l hl hsame]

theorem mem_ends_of_mem_deps {t l : Location} (hl : l ∈ g.deps t) : l ∈ g.ends := by
  obtain ⟨pair, hpair, rfl⟩ := mem_map.mp hl
  exact snd_mem_ends (mem_filter.mp hpair).1

end Views

/-! ## Tables -/

/-- What a location is known as stands where the location does. -/
theorem known_same (ls : List Location) (l k : Location) : (known ls l).same k = l.same k := by
  rw [Location.same, known_position, Location.same]

theorem same_known (ls : List Location) (l k : Location) : l.same (known ls k) = l.same k := by
  rw [Location.same, known_position, Location.same]

theorem distinct_concat (ls : List Location) (l : Location) :
    distinct (ls ++ [l]) = distinct ls ++ if ls.any (·.same l) then [] else [l] := by
  induction ls with
  | nil => rfl
  | cons first rest ih =>
    rw [cons_append, distinct, distinct, ih, filter_append, cons_append, any_cons]
    by_cases hfirst : first.position = l.position
    · cases rest.any (·.same l) <;> simp [Location.same, hfirst]
    · cases rest.any (·.same l) <;> simp [Location.same, hfirst, Ne.symm hfirst]

/-- Locations that are looked up by position, with one more. -/
theorem getElem?_insertIfNew {m : Std.HashMap Position Location} {ls : List Location}
    (hm : ∀ l : Location, m[l.position]? = ls.find? (·.same l)) (l k : Location) :
    (m.insertIfNew l.position l)[k.position]? = (ls ++ [known ls l]).find? (·.same k) := by
  rw [find?_append_known, find?_append, Std.HashMap.getElem?_insertIfNew]
  by_cases hk : l.position = k.position
  · have hfound := hm k
    rw [← hk] at hfound
    grind [Location.same]
  · simp [hk, hm, Location.same]

theorem getD_insertIfNew {m : Std.HashMap Position Location} {ls : List Location}
    (hm : ∀ l : Location, m[l.position]? = ls.find? (·.same l)) (l : Location) :
    (m.insertIfNew l.position l).getD l.position l = known ls l := by
  rw [Std.HashMap.getD_eq_getD_getElem?, getElem?_insertIfNew hm, find?_append_known, find?_append,
    known]
  cases ls.find? (·.same l) <;> simp [Location.same]

/-- The tables of a ledger are views of a graph. -/
structure Mirrors (t : Ledger) (g : DepGraph) : Prop where
  targets_eq : t.targets = g.targets
  /-- A table of sources exists for the targets alone. -/
  sources_eq : ∀ l : Location, t.sources[l.position]? =
    if g.pairs.any (·.1.same l) then some (g.deps l) else none
  known_eq : ∀ l : Location, t.known[l.position]? = g.ends.find? (·.same l)
  seen_eq : ∀ lhs rhs : Location, t.seen.contains (lhs.position, rhs.position) = g.hasPair lhs rhs
  size_eq : t.size = g.size

namespace Mirrors

variable {t : Ledger} {g : DepGraph}

theorem empty : Mirrors {} empty where
  targets_eq := rfl
  sources_eq := by simp [DepGraph.empty]
  known_eq := by simp [DepGraph.empty, ends]
  seen_eq := by simp [DepGraph.empty, hasPair]
  size_eq := rfl

theorem deps_eq (h : Mirrors t g) (l : Location) : t.deps l = g.deps l := by
  rw [Ledger.deps, Std.HashMap.getD_eq_getD_getElem?, h.sources_eq]
  split
  · rfl
  · rename_i hnone
    have hempty : g.pairs.filter (fun p => p.1.same l) = [] := by simpa using hnone
    simp [deps, hempty]

theorem locations_eq (h : Mirrors t g) : t.locations = g.locations := by
  rw [Ledger.locations, DepGraph.locations, h.targets_eq, funext h.deps_eq]

theorem contains_sources (h : Mirrors t g) (l : Location) :
    t.sources.contains l.position = g.pairs.any (·.1.same l) := by
  rw [Std.HashMap.contains_eq_isSome_getElem?, h.sources_eq]
  cases g.pairs.any (·.1.same l) <;> rfl

/-- One addition keeps the tables in step. -/
theorem add (h : Mirrors t g) (lhs rhs : Location) : Mirrors (t.add lhs rhs) (g.add lhs rhs) := by
  rcases add_cases g lhs rhs with ⟨hpair, hsame⟩ | ⟨hpair, hgrown⟩
  · rwa [hsame, Ledger.add, h.seen_eq, if_pos hpair]
  have hknown := getElem?_insertIfNew h.known_eq lhs
  rw [Ledger.add, h.seen_eq, hpair, if_neg Bool.false_ne_true]
  simp only [getD_insertIfNew h.known_eq, getD_insertIfNew hknown, h.contains_sources]
  have hdeps := h.deps_eq lhs
  rw [Ledger.deps] at hdeps
  have hends : (g.add lhs rhs).ends =
      g.ends ++ [known g.ends lhs] ++ [known (g.ends ++ [known g.ends lhs]) rhs] := by
    simp [ends, hgrown]
  generalize g.add lhs rhs = g' at hgrown hends
  constructor
  · simp only [targets, hgrown, map_append, map_singleton, distinct_concat, h.targets_eq, any_map,
      Function.comp_def, same_known]
    split <;> simp
  · intro l
    rw [Std.HashMap.getElem?_insert, hdeps, h.sources_eq]
    have hany : g'.pairs.any (·.1.same l) = (g.pairs.any (·.1.same l) || lhs.same l) := by
      simp [hgrown, known_same]
    have hnow : g'.deps l =
        g.deps l ++ if lhs.same l then [known (g.ends ++ [known g.ends lhs]) rhs] else [] := by
      rw [deps, deps, hgrown, filter_append, map_append]
      grind [known_same]
    rw [hany, hnow]
    by_cases hl : lhs.position = l.position
    · simp [deps, Location.same, hl]
    · have hother : lhs.same l = false := by simpa [Location.same] using hl
      rw [if_neg (by simpa using hl), hother, Bool.or_false, if_neg Bool.false_ne_true, append_nil]
  · intro l
    rw [hends, getElem?_insertIfNew hknown]
  · intro l r
    simp only [hasPair, hgrown, any_append, any_cons, any_nil, known_same, Bool.or_false]
    rw [Std.HashSet.contains_insert, h.seen_eq, Bool.or_comm, hasPair]
    rfl
  · simp [size, hgrown, h.size_eq]

end Mirrors

end DepGraph

namespace Ledger

open DepGraph

/-- The ledger that some additions make of the empty one. -/
def ofAdditions (calls : List (Location × Location)) : Ledger :=
  calls.foldl (fun t c => t.add c.1 c.2) {}

/-- **Tables and pairs agree.**  Every run of additions leaves a ledger whose tables are the views
of the graph that the same additions make. -/
theorem mirrors_ofAdditions (calls : List (Location × Location)) :
    Mirrors (ofAdditions calls) (.ofAdditions calls) := by
  induction calls using reverseRecOn with
  | nil => exact Mirrors.empty
  | append_singleton calls call ih =>
    rw [ofAdditions, DepGraph.ofAdditions, foldl_append, foldl_append]
    exact ih.add call.1 call.2

/-! ## The representation -/

/-- A ledger is what some calls say, however they were interleaved and whatever identifiers
they brought. -/
structure Records (t : Ledger) (calls : List (Location × Location)) : Prop where
  targets_nodup : (t.targets.map Location.position).Nodup
  /-- The targets are the left sides, in the order in which they first occurred as such. -/
  targets_eq : t.targets.map Location.position = (calls.map (·.1.position)).eraseDups
  deps_nodup : ∀ l : Location, ((t.deps l).map Location.position).Nodup
  /-- A target is computed from the right sides it was called with, in the order of their
  first occurrence. -/
  deps_eq : ∀ l : Location, (t.deps l).map Location.position =
    ((calls.filter fun c => c.1.position = l.position).map (·.2.position)).eraseDups
  size_eq : t.size = (calls.map fun c => (c.1.position, c.2.position)).eraseDups.length
  size_eq_sum : t.size = (t.targets.map fun l => (t.deps l).length).sum
  locations_nodup : (t.locations.map Location.position).Nodup
  mem_locations : ∀ p, p ∈ t.locations.map Location.position ↔ p ∈ addedPositions calls
  /-- A position is known as what was mentioned there first. -/
  known_eq : ∀ p, t.known[p]? = (mentions calls).find? fun m => m.position = p
  seen_iff : ∀ key, t.seen.contains key = true ↔
    key ∈ calls.map fun c => (c.1.position, c.2.position)
  /-- Wherever a location is shown, it is the one that was first mentioned at its
  position. -/
  first_mentioned : ∀ l, (l ∈ t.targets ∨ (∃ target, l ∈ t.deps target) ∨ l ∈ t.locations) →
    (mentions calls).find? (fun m => m.position = l.position) = some l
  /-- A pair that was added before changes nothing, whatever its identifiers. -/
  add_again : ∀ c ∈ calls, ∀ lhs rhs : Location, lhs.position = c.1.position →
    rhs.position = c.2.position → t.add lhs rhs = t

/-- **Additions are recorded faithfully.**  Every run of additions to the empty ledger leaves
tables that are determined by the calls: first occurrences, in their order, under the
identifiers they had then. -/
theorem ofAdditions_records (calls : List (Location × Location)) :
    (ofAdditions calls).Records calls := by
  have hwell := wellFormed_ofAdditions calls
  have hg := tracks_ofAdditions calls
  have ht := mirrors_ofAdditions calls
  have hseen : ∀ lhs rhs : Location,
      (ofAdditions calls).seen.contains (lhs.position, rhs.position) = true ↔
        (lhs.position, rhs.position) ∈ pairKeys calls := by
    intro lhs rhs
    rw [ht.seen_eq, hg.hasPair_iff]
  refine {
    targets_nodup := ht.targets_eq ▸ nodup_positions_targets _
    targets_eq := ht.targets_eq ▸ hg.targets_eq
    deps_nodup := fun l => ht.deps_eq l ▸ hwell.nodup_deps l
    deps_eq := fun l => ht.deps_eq l ▸ hg.deps_eq hwell l
    size_eq := ?_
    size_eq_sum := ?_
    locations_nodup := ht.locations_eq ▸ nodup_positions_locations _
    mem_locations := ?_
    known_eq := fun p => ?_
    seen_iff := fun key => hseen ⟨[], key.1.file, key.1.line, key.1.col⟩
      ⟨[], key.2.file, key.2.line, key.2.col⟩
    first_mentioned := ?_
    add_again := ?_ }
  · have hlength := congrArg length hg.keys_eq
    simpa [pairKeys, ht.size_eq, DepGraph.size] using hlength
  · rw [ht.size_eq, size_eq_sum_deps, ht.targets_eq, funext ht.deps_eq]
  · intro p
    rw [← position_mem_ends_ofAdditions, ht.locations_eq]
    simp only [mem_map, hwell.mem_locations_iff]
  · have hknown := ht.known_eq ⟨[], p.file, p.line, p.col⟩
    rw [hg.find_eq] at hknown
    exact hknown
  · intro l hshown
    rw [ht.targets_eq, ht.locations_eq, funext ht.deps_eq] at hshown
    have hl : l ∈ (DepGraph.ofAdditions calls).ends := by
      rcases hshown with htarget | ⟨target, hdep⟩ | hlocation
      · exact hwell.mem_locations_iff.mp (hwell.mem_locations_of_mem_targets htarget)
      · exact mem_ends_of_mem_deps hdep
      · exact hwell.mem_locations_iff.mp hlocation
    exact hg.first_mention hwell hl
  · intro c hc lhs rhs hleft hright
    have hkey : (lhs.position, rhs.position) ∈ pairKeys calls := by
      rw [hleft, hright]
      exact mem_map_of_mem hc
    rw [add, if_pos ((hseen lhs rhs).mpr hkey)]

end Ledger

end FaultRepair.Graph
