/-
# The order in which locations are numbered

A graph does not record the order in which locations were discovered. It lists them by walking
over its targets, each followed by all that it is computed from, and numbers are given in that
order. So a call that comes back to an earlier target can put its right side before what was
discovered since.

Here the walk is compared with the discovery, call by call. As long as the walk has met what was
discovered in that order, one more call keeps it so exactly if the walk had met the right side
when it left the left one, or if the right side is what comes next.
-/

import FaultRepair.Proofs.Graph.FirstSeen
import FaultRepair.Proofs.Store.Representation
import Mathlib

namespace FaultRepair.Graph.DepGraph

open List

/-! ## Walks over pairs of keys -/

section Walks

variable {κ : Type} [DecidableEq κ] {pairs : List (κ × κ)} {l r : κ}

/-- A target and all that it is paired with. -/
def group (pairs : List (κ × κ)) (t : κ) : List κ := t :: (pairs.filter (·.1 = t)).map Prod.snd

def targetKeys (pairs : List (κ × κ)) : List κ := (pairs.map Prod.fst).eraseDups

/-- What the walk meets, group by group. -/
def walk (pairs : List (κ × κ)) : List κ := (targetKeys pairs).flatMap (group pairs)

/-- What the walk has met when it leaves a target. -/
def passed (pairs : List (κ × κ)) (t : κ) : List κ :=
  ((targetKeys pairs).takeWhile (· ≠ t) ++ [t]).flatMap (group pairs)

/-- The ends of the pairs, each where it comes first. -/
def discovered (pairs : List (κ × κ)) : List κ := (pairs.flatMap fun p => [p.1, p.2]).eraseDups

/-- The walk had met the right side of one more pair when it left the left side, or the right side
comes next of what was discovered. -/
def Fits (pairs : List (κ × κ)) (p : κ × κ) : Prop :=
  p.2 ∈ passed pairs p.1 ∨
    ((discovered (pairs ++ [p])).filter (· ∉ passed pairs p.1)).head? = some p.2

theorem group_concat (pairs : List (κ × κ)) (l r t : κ) :
    group (pairs ++ [(l, r)]) t = group pairs t ++ if l = t then [r] else [] := by
  by_cases ht : l = t <;> simp [group, filter_append, ht]

/-- Only the group of its target gets a pair's right side. -/
theorem flatMap_group_concat {ts : List κ} (hl : l ∉ ts) (r : κ) :
    ts.flatMap (group (pairs ++ [(l, r)])) = ts.flatMap (group pairs) := by
  refine flatMap_congr fun t ht => ?_
  rw [group_concat, if_neg, append_nil]
  rintro rfl
  exact hl ht

theorem nodup_eraseDups (keys : List κ) : keys.eraseDups.Nodup := by
  induction keys using reverseRecOn with
  | nil => simp
  | append_singleton keys key ih =>
    by_cases hmem : key ∈ keys
    · rwa [eraseDups_concat_of_mem hmem]
    · rw [eraseDups_concat_of_not_mem hmem]
      exact ih.append (nodup_singleton _) (by simpa using hmem)

theorem takeWhile_ne_of_not_mem {ts : List κ} (hl : l ∉ ts) (rest : List κ) :
    (ts ++ rest).takeWhile (· ≠ l) = ts ++ rest.takeWhile (· ≠ l) := by
  refine takeWhile_append_of_pos fun t ht => ?_
  rw [decide_eq_true_eq]
  rintro rfl
  exact hl ht

/-- Where one more pair comes in: the walk meets the right side when it leaves the target, which
has a place at the end if it is new. -/
theorem walk_concat (pairs : List (κ × κ)) (l : κ) :
    ∃ rest, (walk pairs ++ [l]).eraseDups = (passed pairs l ++ rest).eraseDups ∧
      ∀ r, walk (pairs ++ [(l, r)]) = passed pairs l ++ [r] ++ rest := by
  by_cases hl : l ∈ pairs.map Prod.fst
  · obtain ⟨before, after, hkeys, hfirst⟩ := eq_append_cons_of_mem (mem_eraseDups.mpr hl)
    have hnodup : (before ++ l :: after).Nodup := hkeys ▸ nodup_eraseDups _
    have hlast : l ∉ after := (nodup_cons.mp (nodup_append.mp hnodup).2.1).1
    have hpassed : passed pairs l = (before ++ [l]).flatMap (group pairs) := by
      rw [passed, targetKeys, hkeys, takeWhile_ne_of_not_mem hfirst,
        takeWhile_cons_of_neg (by simp), append_nil]
    refine ⟨after.flatMap (group pairs), ?_, fun r => ?_⟩
    · grind [walk, group, targetKeys, eraseDups_concat_of_mem]
    · rw [walk, targetKeys, map_append, map_singleton, eraseDups_concat_of_mem hl, hkeys,
        flatMap_append,
        flatMap_cons, flatMap_group_concat hfirst, flatMap_group_concat hlast, group_concat,
          if_pos rfl,
        hpassed]
      simp
  · have hnew : l ∉ targetKeys pairs := fun h => hl (mem_eraseDups.mp h)
    have hpassed : passed pairs l = walk pairs ++ group pairs l := by
      rw [passed, ← append_nil (targetKeys pairs), takeWhile_ne_of_not_mem hnew, takeWhile_nil,
        append_nil, flatMap_append, flatMap_singleton, walk]
    have halone : group pairs l = [l] := by
      have hnone : pairs.filter (·.1 = l) = [] :=
        filter_eq_nil_iff.mpr fun p hp htarget => hl (of_decide_eq_true htarget ▸ mem_map_of_mem hp)
      rw [group, hnone, map_nil]
    refine ⟨[], ?_, fun r => ?_⟩
    · rw [hpassed, halone, append_nil]
    · grind [walk, targetKeys, eraseDups_concat_of_not_mem, flatMap_group_concat, group_concat]

theorem eraseDups_append_congr {xs ys : List κ} (h : xs.eraseDups = ys.eraseDups) (zs : List κ) :
    (xs ++ zs).eraseDups = (ys ++ zs).eraseDups := by
  have hmem : ∀ x, x ∈ xs ↔ x ∈ ys := fun x => by rw [← mem_eraseDups, h, mem_eraseDups]
  rw [eraseDups_append, eraseDups_append, h, removeAll, removeAll]
  simp [hmem]

/-- A key that is moved up leaves the order of first occurrences alone just if it had occurred
before that, or comes first of what had not. -/
theorem eraseDups_moved_iff (front back : List κ) (r : κ) :
    (front ++ [r] ++ back).eraseDups = (front ++ back ++ [r]).eraseDups ↔
      r ∈ front ∨ ((front ++ back ++ [r]).eraseDups.filter (· ∉ front)).head? = some r := by
  by_cases hr : r ∈ front
  · rw [eraseDups_append_congr (eraseDups_concat_of_mem hr), eraseDups_concat_of_mem (by simp [hr])]
    simp [hr]
  have hhead : ∀ ks : List κ, ks.eraseDups.head? = ks.head? := by
    intro ks
    cases ks <;> simp [eraseDups_cons]
  have hremove : ∀ ks : List κ, ks.removeAll front = ks.filter (· ∉ front) := by simp [removeAll]
  have hfront : front.filter (· ∉ front) = [] := by simp
  rw [append_assoc, append_assoc, filter_eraseDups, hhead, filter_append, hfront, nil_append,
    eraseDups_append, eraseDups_append, append_cancel_left_eq, hremove, hremove, filter_append,
    filter_append, filter_cons_of_pos (by simpa using hr), filter_nil, or_iff_right hr]
  generalize back.filter (· ∉ front) = new
  constructor
  · intro hequal
    rw [← hhead, ← hequal, hhead]
    rfl
  · intro hfirst
    cases new with
    | nil => rfl
    | cons b new =>
      cases hfirst
      simp [eraseDups_cons]

theorem eraseDups_walk_concat_iff (hwalk : (walk pairs).eraseDups = discovered pairs) (p : κ × κ) :
    (walk (pairs ++ [p])).eraseDups = discovered (pairs ++ [p]) ↔ Fits pairs p := by
  obtain ⟨l, r⟩ := p
  obtain ⟨rest, hleft, hright⟩ := walk_concat pairs l
  have hdiscovered : discovered (pairs ++ [(l, r)]) =
      (passed pairs l ++ rest ++ [r]).eraseDups := by
    rw [← eraseDups_append_congr hleft, append_assoc, eraseDups_append_congr hwalk, discovered,
      flatMap_append]
    rfl
  rw [Fits, hdiscovered, hright]
  exact eraseDups_moved_iff _ _ _

/-- Every pair fits to those before it. -/
def InTurn (pairs : List (κ × κ)) : Prop :=
  ∀ before p after, pairs = before ++ p :: after → Fits before p

theorem walk_eq_discovered_iff (pairs : List (κ × κ)) :
    (∀ shorter, shorter <+: pairs → (walk shorter).eraseDups = discovered shorter) ↔
      InTurn pairs := by
  constructor
  · rintro hwalk before p after rfl
    refine (eraseDups_walk_concat_iff (hwalk before (prefix_append _ _)) p).mp (hwalk _ ⟨after, ?_⟩)
    rw [append_assoc, singleton_append]
  · intro hturn shorter
    induction shorter using reverseRecOn with
    | nil => exact fun _ => rfl
    | append_singleton shorter p ih =>
      rintro ⟨after, rfl⟩
      rw [append_assoc, singleton_append] at ih hturn
      exact (eraseDups_walk_concat_iff (ih (prefix_append _ _)) p).mpr (hturn shorter p after rfl)

/-- Repetitions within a group do not matter. -/
theorem eraseDups_flatMap_congr {ts : List α} {f g : α → List κ}
    (h : ∀ t ∈ ts, (f t).eraseDups = (g t).eraseDups) :
    (ts.flatMap f).eraseDups = (ts.flatMap g).eraseDups := by
  induction ts with
  | nil => rfl
  | cons t ts ih =>
    obtain ⟨hfirst, hrest⟩ := forall_mem_cons.mp h
    rw [flatMap_cons, flatMap_cons, eraseDups_append_congr hfirst, eraseDups_append,
      eraseDups_append, removeAll, removeAll, ← filter_eraseDups, ← filter_eraseDups, ih hrest]

end Walks

variable {calls shorter : List (Location × Location)}

theorem map_position_locations (calls : List (Location × Location)) :
    (ofAdditions calls).locations.map Location.position = (walk (pairKeys calls)).eraseDups := by
  have hg := tracks_ofAdditions calls
  have htargets : (ofAdditions calls).targets.map Location.position =
      targetKeys (pairKeys calls) := by
    rw [hg.targets_eq, targetKeys, pairKeys, map_map]
    rfl
  have hdeps : ∀ t : Location, ((ofAdditions calls).deps t).map Location.position =
      (((pairKeys calls).filter (·.1 = t.position)).map Prod.snd).eraseDups := by
    intro t
    rw [hg.deps_eq (wellFormed_ofAdditions calls)]
    simp [pairKeys, filter_map, Function.comp_def]
  grind [locations, map_position_distinct, map_flatMap, walk, eraseDups_flatMap_congr, group,
    filter_eraseDups, eraseDups_of_nodup, nodup_eraseDups]

/-- Each beginning of a run lists the positions in the order of their first mention just if the
calls come in turn. -/
theorem locations_eq_addedPositions_iff (calls : List (Location × Location)) :
    (∀ shorter, shorter <+: calls → (ofAdditions shorter).locations.map Location.position =
      (addedPositions shorter).eraseDups) ↔ InTurn (pairKeys calls) := by
  have hdiscovered : ∀ run, (addedPositions run).eraseDups = discovered (pairKeys run) := by
    intro run
    rw [discovered, pairKeys, flatMap_map]
    rfl
  simp only [map_position_locations, hdiscovered]
  rw [← walk_eq_discovered_iff]
  refine ⟨fun h keys hkeys => ?_, fun h shorter hshorter => h _ (hshorter.map _)⟩
  obtain ⟨shorter, hshorter, rfl⟩ := prefix_map_iff.mp hkeys
  exact h shorter hshorter

/-- If the positions of a graph are listed alike in a longer run, so are its locations. -/
theorem locations_prefix (hshorter : shorter <+: calls)
    (hpositions : (ofAdditions shorter).locations.map Location.position <+:
      (ofAdditions calls).locations.map Location.position) :
    (ofAdditions shorter).locations <+: (ofAdditions calls).locations := by
  have hfirst : ∀ run, run <+: calls → (ofAdditions run).locations.map some =
      ((ofAdditions run).locations.map Location.position).map fun p =>
        (mentions calls).find? fun m => m.position == p := by
    rintro run ⟨more, hmore⟩
    rw [map_map]
    refine map_congr_left fun l hl => ?_
    have hrun := wellFormed_ofAdditions run
    have hmention := (tracks_ofAdditions run).first_mention hrun (hrun.mem_locations_iff.mp hl)
    have hmentions : mentions calls = mentions run ++ mentions more := by
      rw [← hmore, mentions, flatMap_append]
      rfl
    have hfound : (mentions run).find? (fun m => m.position == l.position) = some l := hmention
    simp [hmentions, find?_append, hfound]
  grind [prefix_map_iff_of_injective, Option.some_injective]

end FaultRepair.Graph.DepGraph

namespace FaultRepair.Store

open FaultRepair.Graph List

/-- A location that is listed at the same place has the same number. -/
theorem numberIn_eq_of_prefix {g g' : DepGraph} (hfront : g.locations <+: g'.locations)
    {l : Location} (hl : l ∈ g.locations) : numberIn g' l = numberIn g l := by
  have hrow : (⟨numberIn g l, l⟩ : StoredLocation) ∈ (locationTable g').rows := by
    obtain ⟨more, hmore⟩ := hfront
    have hrow := mem_locationTable hl
    simp only [locationTable, Numbered.extend, nil_append, numberFrom, ← hmore, zipIdx_append,
      map_append] at hrow ⊢
    exact mem_append_left _ hrow
  exact (congrArg StoredLocation.id (eq_of_mem_locationTable hrow).2).symm

open DepGraph in
/-- **When locations are numbered as they were discovered.**  For every run of additions: each of
its beginnings lists the locations in the order of their first mention exactly if every call fits
to those before it. Then a location has the same row after any reset and write of a shorter run
and of the whole one. -/
theorem locations_discovered_iff (calls : List (Location × Location)) :
    ((∀ shorter, shorter <+: calls → (ofAdditions shorter).locations.map Location.position =
        (addedPositions shorter).eraseDups) ↔ InTurn (pairKeys calls)) ∧
    (InTurn (pairKeys calls) → ∀ shorter, shorter <+: calls →
      ∀ prior sources counts d, Replaces prior (ofAdditions shorter) sources counts d →
      ∀ prior' sources' counts' d', Replaces prior' (ofAdditions calls) sources' counts' d' →
      ∀ l ∈ (ofAdditions shorter).locations, ∃ row, row.location = l ∧
        d.store.findLocation l.file l.line l.col = .ok row ∧
        d'.store.findLocation l.file l.line l.col = .ok row) := by
  have hturn := locations_eq_addedPositions_iff calls
  refine ⟨hturn, ?_⟩
  intro hcalls shorter hshorter prior sources counts d hd prior' sources' counts' d' hd' l hl
  have hfront : (ofAdditions shorter).locations <+: (ofAdditions calls).locations := by
    refine locations_prefix hshorter ?_
    rw [hturn.mpr hcalls shorter hshorter, hturn.mpr hcalls calls prefix_rfl]
    obtain ⟨more, rfl⟩ := hshorter
    rw [addedPositions, addedPositions, flatMap_append, eraseDups_append]
    exact prefix_append _ _
  refine ⟨⟨numberIn (ofAdditions shorter) l, l⟩, rfl, hd.holds.findLocation hl, ?_⟩
  rw [hd'.holds.findLocation (hfront.subset hl), numberIn_eq_of_prefix hfront hl]

def lineLocation (line : Int) : Location := ⟨"v", "/p/a.go", line, 1⟩

/-- A target that comes back with what was discovered next leaves the order alone. -/
theorem timely_return_keeps_order :
    DepGraph.InTurn (DepGraph.pairKeys [(lineLocation 1, lineLocation 2),
      (lineLocation 3, lineLocation 4), (lineLocation 1, lineLocation 3)]) := by
  refine (locations_discovered_iff _).1.mp ?_
  simp only [← mem_inits]
  decide

/-- After two targets the first one comes back: what it brings is listed before the second target,
whose number changes. -/
theorem returning_target_renumbers :
    let calls := [(lineLocation 1, lineLocation 2), (lineLocation 3, lineLocation 4)]
    let longer := calls ++ [(lineLocation 1, lineLocation 5)]
    (DepGraph.ofAdditions longer).locations = [1, 2, 5, 3, 4].map lineLocation ∧
      (DepGraph.addedPositions longer).eraseDups =
      ([1, 2, 3, 4, 5].map fun n => (lineLocation n).position) ∧
      numberIn (.ofAdditions calls) (lineLocation 3) = 3 ∧
      numberIn (.ofAdditions longer) (lineLocation 3) = 4 := by
  decide

end FaultRepair.Store
