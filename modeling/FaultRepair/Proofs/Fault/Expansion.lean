/-
# What an expansion reaches

An expansion follows dependency edges level by level. Two sets prune it: numbers that
were reached stop the walk, and positions that are candidates already are not emitted
again but still walked through. The two are kept apart here. The rows that the walk
reaches are those at a distance between one and the depth from the roots, nearest first;
what is emitted of them is every position that was not seen before, once.

Nothing is assumed of the store: rows may share positions, edges may lead to numbers that
have no row, and there may be cycles.
-/

import FaultRepair.Fault.Localize
import FaultRepair.Proofs.Graph.Distance
import FaultRepair.Proofs.Store.Reading
import Mathlib.Data.List.Nodup

namespace FaultRepair.Fault

open FaultRepair.Graph Store List

/-! ## Emission -/

/-- Of some rows that are reached one after the other, `new` are emitted: the positions
that `seen` does not have, each once, and they are all that `seen` grows by. -/
structure Emits (seen : List Position) (rows new : List StoredLocation) (seen' : List Position) :
    Prop where
  sublist : new.Sublist rows
  nodup : (new.map (·.location.position)).Nodup
  fresh : ∀ row ∈ new, row.location.position ∉ seen
  seen_iff : ∀ p, p ∈ seen' ↔ p ∈ seen ∨ p ∈ new.map (·.location.position)
  covered : ∀ row ∈ rows, row.location.position ∈ seen'

namespace Emits

variable {seen seen' seen'' : List Position} {rows rows' new new' : List StoredLocation}

theorem nil (seen : List Position) : Emits seen [] [] seen where
  sublist := List.Sublist.refl []
  nodup := nodup_nil
  fresh := fun row hrow => absurd hrow not_mem_nil
  seen_iff := by simp
  covered := fun row hrow => absurd hrow not_mem_nil

theorem repeated {row : StoredLocation} (hseen : row.location.position ∈ seen) :
    Emits seen [row] [] seen where
  sublist := nil_sublist [row]
  nodup := nodup_nil
  fresh := fun row hrow => absurd hrow not_mem_nil
  seen_iff := by simp
  covered := by simpa using hseen

theorem single {row : StoredLocation} (hnew : row.location.position ∉ seen) :
    Emits seen [row] [row] (row.location.position :: seen) where
  sublist := List.Sublist.refl [row]
  nodup := nodup_singleton _
  fresh := by simpa using hnew
  seen_iff := by simp [or_comm]
  covered := by simp

theorem append (hfirst : Emits seen rows new seen') (hsecond : Emits seen' rows' new' seen'') :
    Emits seen (rows ++ rows') (new ++ new') seen'' where
  sublist := hfirst.sublist.append hsecond.sublist
  nodup := by
    rw [map_append, nodup_append]
    refine ⟨hfirst.nodup, hsecond.nodup, ?_⟩
    intro p hp q hq hequal
    obtain ⟨row, hrow, rfl⟩ := mem_map.mp hq
    exact hsecond.fresh row hrow ((hfirst.seen_iff _).mpr (.inr (hequal ▸ hp)))
  fresh := by
    intro row hrow hseen
    rcases mem_append.mp hrow with hrow | hrow
    · exact hfirst.fresh row hrow hseen
    · exact hsecond.fresh row hrow ((hfirst.seen_iff _).mpr (.inl hseen))
  seen_iff := by
    intro p
    rw [hsecond.seen_iff, hfirst.seen_iff, map_append, mem_append, or_assoc]
  covered := by
    intro row hrow
    rcases mem_append.mp hrow with hrow | hrow
    · exact (hsecond.seen_iff _).mpr (.inl (hfirst.covered row hrow))
    · exact hsecond.covered row hrow

end Emits

/-! ## One level -/

namespace Walk

variable {s : Store} {w w' w'' : Walk}

/-- What reaching some numbers in turn does to a walk. `rows` are the rows of those that
were not reached before, `new` the emitted ones. -/
structure Reaches (s : Store) (w : Walk) (ids : List Int) (rows new : List StoredLocation)
    (w' : Walk) :
    Prop where
  visited_iff : ∀ id, id ∈ w'.visited ↔ id ∈ w.visited ∨ id ∈ ids
  next_eq : w'.next = w.next ++ rows
  found_eq : w'.found = w.found ++ new
  rows_iff : ∀ row, row ∈ rows ↔
    s.findById row.id = .ok row ∧ row.id ∈ ids ∧ row.id ∉ w.visited
  emits : Emits w.seen rows new w'.seen

theorem Reaches.nil (s : Store) (w : Walk) : Reaches s w [] [] [] w where
  visited_iff := by simp
  next_eq := by simp
  found_eq := by simp
  rows_iff := by simp
  emits := Emits.nil w.seen

theorem Reaches.append {ids ids' : List Int} {rows rows' new new' : List StoredLocation}
    (hfirst : Reaches s w ids rows new w') (hsecond : Reaches s w' ids' rows' new' w'') :
    Reaches s w (ids ++ ids') (rows ++ rows') (new ++ new') w'' where
  visited_iff := by
    intro id
    rw [hsecond.visited_iff, hfirst.visited_iff, mem_append, or_assoc]
  next_eq := by rw [hsecond.next_eq, hfirst.next_eq, append_assoc]
  found_eq := by rw [hsecond.found_eq, hfirst.found_eq, append_assoc]
  rows_iff := by
    intro row
    rw [mem_append, hfirst.rows_iff, hsecond.rows_iff, hfirst.visited_iff, mem_append]
    tauto
  emits := hfirst.emits.append hsecond.emits

/-- Reaching one number: it was reached before, it has no row, or its row is reached and
perhaps emitted. -/
theorem reaches_of_visit {id : Int} (hvisit : w.visit s id = .ok w') :
    ∃ rows new, Reaches s w [id] rows new w' := by
  unfold visit at hvisit
  by_cases hvisited : w.visited.contains id = true
  · rw [if_pos hvisited] at hvisit
    cases hvisit
    have hmem : id ∈ w.visited := by simpa using hvisited
    refine ⟨[], [], ?_, by simp, by simp, ?_, Emits.nil w.seen⟩
    · grind
    · grind
  · rw [if_neg hvisited] at hvisit
    have hnot : id ∉ w.visited := by simpa using hvisited
    have hgrows : ∀ other, other ∈ id :: w.visited ↔ other ∈ w.visited ∨ other ∈ [id] := by
      intro other
      rw [mem_cons, mem_singleton, or_comm]
    cases hfound : s.findById id with
    | error fault =>
      rw [hfound] at hvisit
      cases fault with
      | notFound =>
        cases hvisit
        refine ⟨[], [], hgrows, by simp, by simp, ?_, Emits.nil w.seen⟩
        grind
      | outOfRange l r => cases hvisit
      | failed task cause => cases hvisit
    | ok row =>
      rw [hfound] at hvisit
      have hid : row.id = id := id_of_findById hfound
      have hrows : ∀ other, other ∈ [row] ↔
          s.findById other.id = .ok other ∧ other.id ∈ [id] ∧ other.id ∉ w.visited := by
        intro other
        simp only [mem_singleton]
        constructor
        · rintro rfl
          exact ⟨hid ▸ hfound, hid, hid ▸ hnot⟩
        · grind
      by_cases hseen : row.location.position ∈ w.seen
      · simp only [contains_eq_mem, hseen, decide_true, if_true] at hvisit
        cases hvisit
        exact ⟨[row], [], hgrows, rfl, by simp, hrows, Emits.repeated hseen⟩
      · simp only [contains_eq_mem, hseen, decide_false, Bool.false_eq_true, if_false] at hvisit
        cases hvisit
        exact ⟨[row], [row], hgrows, rfl, rfl, hrows, Emits.single hseen⟩

theorem reaches_of_visits {edges : List Dependency}
    (hvisits : edges.foldlM (fun w e => w.visit s e.rhs) w = .ok w') :
    ∃ rows new, Reaches s w (edges.map (·.rhs)) rows new w' := by
  induction edges generalizing w with
  | nil =>
    cases hvisits
    exact ⟨[], [], Reaches.nil s _⟩
  | cons e rest ih =>
    obtain ⟨middle, hfirst, hrest⟩ := bind_eq_ok.mp hvisits
    obtain ⟨rows, new, hreached⟩ := reaches_of_visit hfirst
    obtain ⟨rows', new', hreached'⟩ := ih hrest
    exact ⟨rows ++ rows', new ++ new', hreached.append hreached'⟩

/-- The numbers that the edges of some rows lead to. -/
def LeadsTo (s : Store) (level : List StoredLocation) (id : Int) : Prop :=
  ∃ row ∈ level, ∃ edges, s.edgesFrom row.id = .ok edges ∧ ∃ e ∈ edges, e.rhs = id

theorem reaches_of_level {level : List StoredLocation}
    (hlevel : level.foldlM (follow s) w = .ok w') :
    ∃ ids rows new, (∀ id, id ∈ ids ↔ LeadsTo s level id) ∧ Reaches s w ids rows new w' := by
  induction level generalizing w with
  | nil =>
    cases hlevel
    exact ⟨[], [], [], by simp [LeadsTo], Reaches.nil s _⟩
  | cons row rest ih =>
    obtain ⟨middle, hfirst, hrest⟩ := bind_eq_ok.mp hlevel
    obtain ⟨edges, hedges, hvisits⟩ := bind_eq_ok.mp hfirst
    obtain ⟨rows, new, hreached⟩ := reaches_of_visits hvisits
    obtain ⟨ids, rows', new', hids, hreached'⟩ := ih hrest
    refine ⟨edges.map (·.rhs) ++ ids, rows ++ rows', new ++ new', ?_, hreached.append hreached'⟩
    intro id
    simp only [mem_append, mem_map, hids, LeadsTo, mem_cons, exists_eq_or_imp]
    simp [hedges]

/-! ## All levels -/

end Walk

/-- An edge leads from one number to another, and the other has a row. -/
def Linked (s : Store) (a b : Int) : Prop :=
  (∃ edges, s.edgesFrom a = .ok edges ∧ ∃ e ∈ edges, e.rhs = b) ∧ ∃ row, s.findById b = .ok row

/-- A shortest walk from the roots to a number has `n` edges; it passes through numbers
that have rows only. -/
abbrev AtDistance (s : Store) (roots : List StoredLocation) (n : Nat) (id : Int) : Prop :=
  Distance (Linked s) (· ∈ roots.map (·.id)) n id

/-- A row of the store that is at least one edge and at most `depth` edges away. -/
def Within (s : Store) (roots : List StoredLocation) (depth : Nat) (row : StoredLocation) : Prop :=
  s.findById row.id = .ok row ∧ ∃ n, 0 < n ∧ n ≤ depth ∧ AtDistance s roots n row.id

/-- No row stands before one that is nearer. -/
def NearestFirst (s : Store) (roots rows : List StoredLocation) : Prop :=
  rows.Pairwise fun near far =>
    ∀ m n, AtDistance s roots m near.id → AtDistance s roots n far.id → m ≤ n

/-- **What an expansion finds.**  Of the rows in reach, those at positions that `seen`
does not have, one for each position and nearest first. -/
structure Expands (s : Store) (roots : List StoredLocation) (depth : Nat) (seen : List Position)
    (rows : List StoredLocation) : Prop where
  nodup : (rows.map (·.location.position)).Nodup
  fresh : ∀ row ∈ rows, row.location.position ∉ seen
  sound : ∀ row ∈ rows, Within s roots depth row
  complete : ∀ row, Within s roots depth row →
    row.location.position ∈ seen ∨ row.location.position ∈ rows.map (·.location.position)
  nearest_first : NearestFirst s roots rows

namespace Walk

variable {s : Store} {w w' : Walk}

variable {roots level : List StoredLocation} {k : Nat}

/-- The rows at the distances after `k`, up to `depth` more, nearest first. -/
structure Levels (s : Store) (roots : List StoredLocation) (k depth : Nat)
    (rows : List StoredLocation) :
    Prop where
  rows_iff : ∀ row, row ∈ rows ↔
    s.findById row.id = .ok row ∧ ∃ n, k < n ∧ n ≤ k + depth ∧ AtDistance s roots n row.id
  nearest_first : NearestFirst s roots rows

theorem Levels.empty {depth : Nat}
    (hnone : ∀ n id, k < n → n ≤ k + depth → ¬ AtDistance s roots n id) :
    Levels s roots k depth [] where
  rows_iff := by grind
  nearest_first := List.Pairwise.nil

theorem Levels.cons {roots rows later : List StoredLocation} {k depth : Nat}
    (hlevel : ∀ row, row ∈ rows ↔ s.findById row.id = .ok row ∧ AtDistance s roots (k + 1) row.id)
    (hlater : Levels s roots (k + 1) depth later) : Levels s roots k (depth + 1)
    (rows ++ later) where
  rows_iff := by
    intro row
    rw [mem_append, hlevel, hlater.rows_iff]
    grind
  nearest_first := by
    refine pairwise_append.mpr ⟨?_, hlater.nearest_first, ?_⟩
    · refine pairwise_iff_forall_sublist.mpr fun {near far} hsub m n hm hn => ?_
      have hnear := ((hlevel near).mp (hsub.subset mem_cons_self)).2
      have hfar := ((hlevel far).mp (hsub.subset (by simp))).2
      exact Nat.le_of_eq ((hm.unique hnear).trans (hn.unique hfar).symm)
    · intro near hnear far hfar m n hm hn
      obtain ⟨-, i, hlt, -, hi⟩ := (hlater.rows_iff far).mp hfar
      rw [hm.unique ((hlevel near).mp hnear).2, hn.unique hi]
      omega

/-- **The level invariant.**  The rows of a level are those at distance `k`, and the
numbers reached so far that have rows are those at distances up to `k`. -/
structure Frontier (s : Store) (roots : List StoredLocation) (k : Nat) (level : List StoredLocation)
    (w : Walk) : Prop where
  level_iff : ∀ id, id ∈ level.map (·.id) ↔ AtDistance s roots k id
  visited_iff : ∀ id row, s.findById id = .ok row →
    (id ∈ w.visited ↔ ∃ m ≤ k, AtDistance s roots m id)

theorem Frontier.start (s : Store) (roots : List StoredLocation) (seen : List Position) :
    Frontier s roots 0 roots { visited := roots.map (·.id), seen := seen } where
  level_iff := fun _ => distance_zero_iff.symm
  visited_iff := fun _ _ _ => by simp only [Nat.le_zero, exists_eq_left, distance_zero_iff]

/-- The edges of a level lead to what is linked from distance `k`. -/
theorem Frontier.leadsTo_iff {id : Int} {row : StoredLocation}
    (hfrontier : Frontier s roots k level w) (hrow : s.findById id = .ok row) :
    LeadsTo s level id ↔ ∃ a, AtDistance s roots k a ∧ Linked s a id := by
  constructor
  · rintro ⟨source, hsource, hedges⟩
    exact ⟨source.id, (hfrontier.level_iff _).mp (mem_map_of_mem hsource), hedges, row, hrow⟩
  · rintro ⟨a, ha, hedges, -⟩
    obtain ⟨source, hsource, rfl⟩ := mem_map.mp ((hfrontier.level_iff a).mpr ha)
    exact ⟨source, hsource, hedges⟩

/-- One round moves the frontier one edge further, and reaches the rows there. -/
theorem Frontier.round (hfrontier : Frontier s roots k level w)
    (hround : level.foldlM (follow s) { w with next := [] } = .ok w') :
    ∃ rows new, Frontier s roots (k + 1) w'.next w' ∧ w'.found = w.found ++ new ∧
      Emits w.seen rows new w'.seen ∧
      ∀ row, row ∈ rows ↔ s.findById row.id = .ok row ∧ AtDistance s roots (k + 1) row.id := by
  obtain ⟨ids, rows, new, hids, hreached⟩ := reaches_of_level hround
  have hlinked : ∀ id row, s.findById id = .ok row →
      (id ∈ ids ↔ ∃ a, AtDistance s roots k a ∧ Linked s a id) :=
    fun id row hrow => (hids id).trans (hfrontier.leadsTo_iff hrow)
  have hrows : ∀ row, row ∈ rows ↔ s.findById row.id = .ok row ∧
      AtDistance s roots (k + 1) row.id := by
    intro row
    rw [hreached.rows_iff]
    refine and_congr_right fun hrow => Iff.trans ?_ distance_succ_iff.symm
    rw [hlinked row.id row hrow, hfrontier.visited_iff row.id row hrow]
    exact and_congr_right fun _ => by simp only [not_exists, not_and]
  refine ⟨rows, new, ⟨?_, ?_⟩, hreached.found_eq, hreached.emits, hrows⟩
  · intro id
    rw [hreached.next_eq, nil_append, mem_map]
    constructor
    · rintro ⟨row, hrow, rfl⟩
      exact ((hrows row).mp hrow).2
    · intro hid
      obtain ⟨⟨a, -, -, row, hrow⟩, -⟩ := distance_succ_iff.mp hid
      obtain rfl := id_of_findById hrow
      exact ⟨row, (hrows row).mpr ⟨hrow, hid⟩, rfl⟩
  · intro id row hrow
    rw [hreached.visited_iff, hfrontier.visited_iff id row hrow, hlinked id row hrow]
    exact exists_distance_le_succ_iff.symm

/-- The remaining rounds reach the rows at the next `depth` distances. -/
theorem Frontier.levels {depth : Nat} (hfrontier : Frontier s roots k level w)
    (hrounds : rounds s depth level w = .ok w') :
    ∃ rows new, w'.found = w.found ++ new ∧ Emits w.seen rows new w'.seen ∧
      Levels s roots k depth rows := by
  induction depth generalizing level w k with
  | zero =>
    cases hrounds
    exact ⟨[], [], by simp, Emits.nil _, Levels.empty fun n id hlt hle _ => by omega⟩
  | succ depth ih =>
    cases level with
    | nil =>
      cases hrounds
      have hempty : ∀ id, ¬ AtDistance s roots k id := fun id hid => by
        simpa using (hfrontier.level_iff id).mpr hid
      refine ⟨[], [], by simp, Emits.nil _, Levels.empty fun n id hlt _ => ?_⟩
      exact not_distance_of_empty_level hempty (Nat.le_of_lt hlt) id
    | cons first rest =>
      obtain ⟨middle, hround, hrest⟩ := bind_eq_ok.mp hrounds
      obtain ⟨rows, new, hnext, hfound, hemits, hrows⟩ := hfrontier.round hround
      obtain ⟨later, new', hfound', hemits', hlater⟩ := ih hnext hrest
      refine ⟨rows ++ later, new ++ new', ?_, hemits.append hemits', Levels.cons hrows hlater⟩
      rw [hfound', hfound, append_assoc]

end Walk

/-- **Expansion is bounded reachability.**  It finds what is in reach and was not seen
before, and this is what it has seen in the end. -/
theorem expands_of_expand {s : Store} {depth : Nat} {roots found : List StoredLocation}
    {seen seen' : List Position} (hexpand : expand s depth roots seen = .ok (found, seen')) :
    Expands s roots depth seen found ∧
      ∀ p, p ∈ seen' ↔ p ∈ seen ∨ p ∈ found.map (·.location.position) := by
  obtain ⟨w, hrounds, hresult⟩ := bind_eq_ok.mp hexpand
  cases hresult
  obtain ⟨rows, new, hfound, hemits, hlevels⟩ := (Walk.Frontier.start s roots seen).levels hrounds
  rw [nil_append] at hfound
  subst hfound
  have hwithin : ∀ row, row ∈ rows ↔ Within s roots depth row := by
    intro row
    rw [hlevels.rows_iff, Nat.zero_add, Within]
  refine ⟨⟨hemits.nodup, hemits.fresh, ?_, ?_, ?_⟩, hemits.seen_iff⟩
  · exact fun row hrow => (hwithin row).mp (hemits.sublist.subset hrow)
  · exact fun row hrow => (hemits.seen_iff _).mp (hemits.covered row ((hwithin row).mpr hrow))
  · exact hlevels.nearest_first.sublist hemits.sublist

/-! ## Stores that answer -/

theorem foldlM_ok {step : β → α → Except ε β} (hstep : ∀ b a, ∃ b', step b a = .ok b')
    (items : List α) (b : β) : ∃ b', items.foldlM step b = .ok b' := by
  induction items generalizing b with
  | nil => exact ⟨b, rfl⟩
  | cons a rest ih =>
    obtain ⟨middle, hfirst⟩ := hstep b a
    obtain ⟨b', hrest⟩ := ih middle
    exact ⟨b', bind_eq_ok.mpr ⟨middle, hfirst, hrest⟩⟩

namespace Walk

variable {s : Store}

theorem visit_ok (hs : Answers s) (w : Walk) (id : Int) : ∃ w', w.visit s id = .ok w' := by
  unfold visit
  split
  · exact ⟨w, rfl⟩
  · rcases hs.findById id with ⟨row, hrow⟩ | hnone
    · simp only [hrow, Except.ok.injEq, exists_eq']
    · simp only [hnone, Except.ok.injEq, exists_eq']

theorem follow_ok (hs : Answers s) (w : Walk) (row : StoredLocation) :
    ∃ w', w.follow s row = .ok w' := by
  obtain ⟨edges, hedges⟩ := hs.edgesFrom row.id
  obtain ⟨w', hvisits⟩ := foldlM_ok (fun w e => visit_ok hs w e.rhs) edges w
  exact ⟨w', bind_eq_ok.mpr ⟨edges, hedges, hvisits⟩⟩

theorem rounds_ok (hs : Answers s) (depth : Nat) (level : List StoredLocation) (w : Walk) :
    ∃ w', rounds s depth level w = .ok w' := by
  induction depth generalizing level w with
  | zero => exact ⟨w, rfl⟩
  | succ depth ih =>
    cases level with
    | nil => exact ⟨w, rfl⟩
    | cons row rest =>
      obtain ⟨middle, hround⟩ := foldlM_ok (follow_ok hs) (row :: rest) { w with next := [] }
      obtain ⟨w', hrest⟩ := ih middle.next middle
      exact ⟨w', bind_eq_ok.mpr ⟨middle, hround, hrest⟩⟩

end Walk

theorem expand_ok {s : Store} (hs : Answers s) (depth : Nat) (roots : List StoredLocation)
    (seen : List Position) : ∃ found seen', expand s depth roots seen = .ok (found, seen') := by
  obtain ⟨w, hrounds⟩ := Walk.rounds_ok hs depth roots { visited := roots.map (·.id), seen := seen }
  exact ⟨w.found, w.seen, bind_eq_ok.mpr ⟨w, hrounds, rfl⟩⟩

end FaultRepair.Fault
