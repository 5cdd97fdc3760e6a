/-
# Walks and distances

Two searches follow dependencies: localizing a failure walks level by level over single
rows, and slices are computed from whole tables. Both are compared with the same notion,
the length of a shortest walk, which is defined here without either of them.

The central fact is that distances can be computed by levels: something is one step
farther away than `n` exactly when it is linked from something at distance `n` and is not
itself at a distance of at most `n`. Every level up to the last has a point of its own, so
among finitely many points no distance is as great as their number.
-/

import Mathlib.Data.Finset.Card
import Mathlib.Data.Nat.Init
import Mathlib.Order.Basic

namespace FaultRepair.Graph

variable {α : Type*} {link : α → α → Prop} {start : α → Prop}

variable {n : Nat} {a : α}

/-- There is a walk of exactly `n` links from one of the starting points. -/
inductive Steps (link : α → α → Prop) (start : α → Prop) : Nat → α → Prop
  | /-- The empty walk. -/
    here {a : α} (hstart : start a) : Steps link start 0 a
  | /-- One more link. -/
    next {n : Nat} {a b : α} (hwalk : Steps link start n a) (hlink : link a b) :
      Steps link start (n + 1) b

/-- A shortest walk has `n` links. -/
def Distance (link : α → α → Prop) (start : α → Prop) (n : Nat) (a : α) : Prop :=
  Steps link start n a ∧ ∀ m < n, ¬ Steps link start m a

theorem Distance.unique {m : Nat} (hm : Distance link start m a) (hn : Distance link start n a) :
    m = n := by
  apply Nat.le_antisymm
  · exact Nat.le_of_not_lt fun hlt => hm.2 n hlt hn.1
  · exact Nat.le_of_not_lt fun hlt => hn.2 m hlt hm.1

/-- What a walk reaches has a distance, and the walk is no shorter. -/
theorem Steps.exists_distance (hwalk : Steps link start n a) :
    ∃ m ≤ n, Distance link start m a := by
  induction n using Nat.strongRecOn with
  | _ n ih =>
    by_cases hshorter : ∃ m < n, Steps link start m a
    · grind
    · exact ⟨n, Nat.le_refl n, hwalk, fun m hlt hm => hshorter ⟨m, hlt, hm⟩⟩

theorem steps_zero_iff : Steps link start 0 a ↔ start a := by
  constructor
  · intro hwalk
    cases hwalk with
    | here hstart => exact hstart
  · exact .here

/-- A walk passes a point at every length up to its own. -/
theorem Steps.exists_steps_of_le {m : Nat} (hwalk : Steps link start n a) (hle : m ≤ n) :
    ∃ b, Steps link start m b := by
  induction hwalk with
  | here hstart =>
    obtain rfl := Nat.le_zero.mp hle
    exact ⟨_, .here hstart⟩
  | next hwalk hlink ih =>
    rcases Nat.le_succ_iff.mp hle with hle | rfl
    · exact ih hle
    · exact ⟨_, .next hwalk hlink⟩

theorem distance_zero_iff : Distance link start 0 a ↔ start a := by
  simp [Distance, steps_zero_iff]

/-- **Levels.**  The next level is what the last one links to, less all levels so far. -/
theorem distance_succ_iff {b : α} :
    Distance link start (n + 1) b ↔
      (∃ a, Distance link start n a ∧ link a b) ∧ ∀ m ≤ n, ¬ Distance link start m b := by
  constructor
  · rintro ⟨hwalk, hleast⟩
    refine ⟨?_, fun m hle hm => hleast m (by omega) hm.1⟩
    cases hwalk with
    | @next _ a _ hbefore hlink =>
      obtain ⟨m, hle, hm⟩ := hbefore.exists_distance
      -- A shorter walk to the last point but one would shorten the whole.
      have heq : m = n := by
        by_contra hne
        exact hleast (m + 1) (by omega) (.next hm.1 hlink)
      exact ⟨a, heq ▸ hm, hlink⟩
  · rintro ⟨⟨a, ha, hlink⟩, hnone⟩
    refine ⟨.next ha.1 hlink, fun m hlt hm => ?_⟩
    obtain ⟨k, hle, hk⟩ := hm.exists_distance
    exact hnone k (by omega) hk

/-- What lies within `n + 1` links lies within `n`, or is linked from what is `n` away. -/
theorem exists_distance_le_succ_iff {b : α} :
    (∃ m ≤ n + 1, Distance link start m b) ↔
      (∃ m ≤ n, Distance link start m b) ∨ ∃ a, Distance link start n a ∧ link a b := by
  constructor
  · rintro ⟨m, hle, hm⟩
    by_cases hlast : m = n + 1
    · exact .inr (distance_succ_iff.mp (hlast ▸ hm)).1
    · exact .inl ⟨m, by omega, hm⟩
  · rintro (⟨m, hle, hm⟩ | ⟨a, ha, hlink⟩)
    · exact ⟨m, by omega, hm⟩
    · exact (Steps.next ha.1 hlink).exists_distance

/-- An empty level is the end: nothing lies beyond it. -/
theorem not_distance_of_empty_level {k : Nat} (hempty : ∀ a, ¬ Distance link start k a)
    (hle : k ≤ n) (a : α) : ¬ Distance link start n a := by
  induction n, hle using Nat.le_induction generalizing a with
  | base => exact hempty a
  | succ n _ ih =>
    intro ha
    obtain ⟨⟨b, hb, -⟩, -⟩ := distance_succ_iff.mp ha
    exact ih b hb

/-- **Pigeonhole.**  Among finitely many points a shortest walk has fewer links than there
are points. -/
theorem Distance.lt_length {points : List α} (hn : Distance link start n a)
    (hpoints : ∀ m b, Distance link start m b → b ∈ points) : n < points.length := by
  classical
  have hlevels : ∀ k ≤ n, ∃ b, Distance link start k b := by
    intro k hle
    by_contra hempty
    exact not_distance_of_empty_level (not_exists.mp hempty) hle a hn
  have hsome : Nonempty α := ⟨a⟩
  choose! point hpoint using hlevels
  -- Points of different levels differ, since a point has one distance.
  have hcard : (Finset.range (n + 1)).card ≤ points.toFinset.card := by
    apply Finset.card_le_card_of_injOn point
    · intro k hk
      have hle : k ≤ n := Nat.lt_succ_iff.mp (Finset.mem_range.mp hk)
      exact List.mem_toFinset.mpr (hpoints k (point k) (hpoint k hle))
    · intro i hi j hj hequal
      have hi : i ≤ n := Nat.lt_succ_iff.mp (Finset.mem_range.mp hi)
      have hj : j ≤ n := Nat.lt_succ_iff.mp (Finset.mem_range.mp hj)
      exact (hpoint i hi).unique (hequal ▸ hpoint j hj)
  rw [Finset.card_range] at hcard
  exact hcard.trans points.toFinset_card_le

/-! ## Other links -/

/-- Walks do not tell two kinds of links apart that agree wherever walks come by. -/
theorem steps_congr {link' : α → α → Prop} (met : α → Prop) (hstart : ∀ a, start a → met a)
    (hmet : ∀ a b, link a b → met b) (hlink : ∀ a b, met a → (link a b ↔ link' a b)) (n : Nat)
    (a : α) : Steps link start n a ↔ Steps link' start n a := by
  have hwalks : ∀ {n a}, Steps link start n a → met a := by
    intro n a hwalk
    cases hwalk with
    | here ha => exact hstart a ha
    | next _ hlast => exact hmet _ a hlast
  constructor
  · intro hwalk
    induction hwalk with
    | here ha => exact .here ha
    | next hbefore hlast ih => exact .next ih ((hlink _ _ (hwalks hbefore)).mp hlast)
  · intro hwalk
    induction hwalk with
    | here ha => exact .here ha
    | next _ hlast ih => exact .next ih ((hlink _ _ (hwalks ih)).mpr hlast)

theorem distance_congr {link' : α → α → Prop}
    (hsteps : ∀ n a, Steps link start n a ↔ Steps link' start n a) :
    Distance link start n a ↔ Distance link' start n a := by
  simp only [Distance, hsteps]

end FaultRepair.Graph
