/-
# Stable sorting by a key

Sorting by a key keeps the order of the elements that share one. A list in the order of a key
is determined by its elements of every key; and every element of a list has its place in the
sorted list, which is before the place of another exactly if it has the smaller key, or the
same key and stood before it.
-/

import Mathlib.Tactic
import Mathlib.Data.List.FinRange
import Mathlib.Data.List.NodupEquivFin

namespace FaultRepair.Fault

open List

/-- Sorting items with different keys puts them into a strict order. -/
theorem pairwise_mergeSort_of_nodup {le : α → α → Bool} {before : α → α → Prop} {key : α → β}
    (htrans : ∀ a b c, le a b = true → le b c = true → le a c = true)
    (htotal : ∀ a b, (le a b || le b a) = true)
    (hbefore : ∀ a b, le a b = true → key a ≠ key b → before a b) {items : List α}
    (hitems : (items.map key).Nodup) : (items.mergeSort le).Pairwise before := by
  have hsorted := List.pairwise_mergeSort htrans htotal items
  have hnodup : ((items.mergeSort le).map key).Nodup :=
    ((items.mergeSort_perm le).map key).nodup_iff.mpr hitems
  refine (hsorted.and (pairwise_map.mp hnodup)).imp fun {a b} hpair => ?_
  exact hbefore a b hpair.1 hpair.2

variable {α κ : Type} [LinearOrder κ] {le : α → α → Bool} {key : α → κ} {l m : List α}

def Compares (le : α → α → Bool) (key : α → κ) : Prop := ∀ a b, le a b = true ↔ key a ≤ key b

namespace Compares

theorem trans (hle : Compares le key) (a b c : α) :
    le a b = true → le b c = true → le a c = true := by
  rw [hle, hle, hle]
  exact le_trans

theorem total (hle : Compares le key) (a b : α) : (le a b || le b a) = true := by
  rw [Bool.or_eq_true, hle, hle]
  exact le_total _ _

theorem pairwise_mergeSort (hle : Compares le key) (l : List α) :
    (l.mergeSort le).Pairwise fun a b => key a ≤ key b :=
  (List.pairwise_mergeSort hle.trans hle.total l).imp fun hab => (hle _ _).mp hab

theorem filter_mergeSort (hle : Compares le key) (l : List α) (k : κ) :
    (l.mergeSort le).filter (key · = k) = l.filter (key · = k) := by
  have hlevel : (l.filter (key · = k)).Pairwise fun a b => le a b = true := by
    apply pairwise_of_forall_mem_list
    intro a ha b hb
    rw [mem_filter, decide_eq_true_iff] at ha hb
    rw [hle, ha.2, hb.2]
  have hkept := sublist_mergeSort hle.trans hle.total hlevel filter_sublist
  have hsublist := hkept.filter (key · = k)
  rw [filter_filter] at hsublist
  simp only [Bool.and_self] at hsublist
  exact (hsublist.eq_of_length ((mergeSort_perm l le).filter _).length_eq.symm).symm

end Compares

theorem head_key_le {a c : α} (hl : (a :: l).Pairwise fun a b => key a ≤ key b)
    (hc : c ∈ a :: l) : key a ≤ key c := by
  rcases mem_cons.mp hc with rfl | hc
  · exact le_rfl
  · exact rel_of_pairwise_cons hl hc

theorem mem_iff_of_filter_eq (hsame : ∀ k, l.filter (key · = k) = m.filter (key · = k)) (c : α) :
    c ∈ l ↔ c ∈ m := by
  have hlevel : c ∈ l.filter (key · = key c) ↔ c ∈ m.filter (key · = key c) := by rw [hsame]
  simpa only [mem_filter, decide_true, and_true] using hlevel

/-- A list in the order of a key is determined by its elements of every key. -/
theorem eq_of_filter_eq (hl : l.Pairwise fun a b => key a ≤ key b)
    (hm : m.Pairwise fun a b => key a ≤ key b)
    (hsame : ∀ k, l.filter (key · = k) = m.filter (key · = k)) : l = m := by
  have hmem := mem_iff_of_filter_eq hsame
  induction l generalizing m with
  | nil =>
    apply Eq.symm
    apply eq_nil_iff_forall_not_mem.mpr
    intro c hc
    exact not_mem_nil ((hmem c).mpr hc)
  | cons a l ih =>
    cases m with
    | nil => exact absurd ((hmem a).mp mem_cons_self) not_mem_nil
    | cons b m =>
      -- Both heads have the least key, so each is the first of its level.
      have hkey : key a = key b :=
        le_antisymm (head_key_le hl ((hmem b).mpr mem_cons_self))
          (head_key_le hm ((hmem a).mp mem_cons_self))
      have hhead := hsame (key a)
      simp only [filter_cons, decide_true, if_true, ← hkey, cons.injEq] at hhead
      obtain ⟨rfl, -⟩ := hhead
      have htail (k : κ) : l.filter (key · = k) = m.filter (key · = k) := by
        have hlevel := hsame k
        by_cases hk : key a = k
        · simpa [filter_cons, hk] using hlevel
        · simpa [filter_cons, hk] using hlevel
      rw [ih hl.of_cons hm.of_cons htail (mem_iff_of_filter_eq htail)]

/-! ## Places -/

/-- The positions of a list in the order in which sorting takes them. -/
def sortedPositions (le : α → α → Bool) (l : List α) : List (Fin l.length) :=
  (finRange l.length).mergeSort fun i j => le (l.get i) (l.get j)

theorem map_get_sortedPositions (le : α → α → Bool) (l : List α) :
    (sortedPositions le l).map l.get = l.mergeSort le := by
  grind [sortedPositions, map_mergeSort, map_get_finRange]

theorem sortedPositions_perm (le : α → α → Bool) (l : List α) :
    (sortedPositions le l).Perm (finRange l.length) := mergeSort_perm _ _

/-- The key at the first position is smaller, or the same and the position is earlier. -/
def SortsBefore (key : α → κ) (l : List α) (i j : Fin l.length) : Prop :=
  key (l.get i) < key (l.get j) ∨ key (l.get i) = key (l.get j) ∧ i < j

theorem SortsBefore.asymm {i j : Fin l.length} (hij : SortsBefore key l i j) :
    ¬ SortsBefore key l j i := by
  rintro (hless | ⟨hsame, hlt⟩)
  · rcases hij with hless' | ⟨hsame', -⟩
    · exact lt_asymm hless hless'
    · exact hless.ne hsame'.symm
  · rcases hij with hless' | ⟨-, hlt'⟩
    · exact hless'.ne hsame.symm
    · exact lt_asymm hlt hlt'

theorem pairwise_sortedPositions (hle : ∀ a ∈ l, ∀ b ∈ l, le a b = true ↔ key a ≤ key b) :
    (sortedPositions le l).Pairwise (SortsBefore key l) := by
  have hcompares : Compares (fun i j => le (l.get i) (l.get j)) fun i => key (l.get i) := by
    intro i j
    exact hle _ (get_mem l i) _ (get_mem l j)
  rw [pairwise_iff_forall_sublist]
  intro i j hpair
  have hkey := pairwise_iff_forall_sublist.mp (hcompares.pairwise_mergeSort _) hpair
  rcases hkey.lt_or_eq with hless | hsame
  · exact .inl hless
  · -- Both are of one level, which sorting leaves as it was.
    have hlevel := hpair.filter fun i => key (l.get i) = key (l.get j)
    rw [sortedPositions, hcompares.filter_mergeSort] at hlevel
    simp only [filter_cons, hsame, decide_true, if_true, filter_nil] at hlevel
    have hlt := pairwise_iff_forall_sublist.mp (pairwise_lt_finRange _)
      (hlevel.trans filter_sublist)
    exact .inr ⟨hsame, hlt⟩

/-- **Sorting is stable.**  Every position has its place in the sorted list, before that of
another exactly if it precedes it. -/
theorem exists_places (hle : ∀ a ∈ l, ∀ b ∈ l, le a b = true ↔ key a ≤ key b) :
    ∃ place : Fin l.length ≃ Fin (l.mergeSort le).length,
      (∀ i, (l.mergeSort le).get (place i) = l.get i) ∧
      ∀ i j, place i < place j ↔ SortsBefore key l i j := by
  have hperm := sortedPositions_perm le l
  have hnodup : (sortedPositions le l).Nodup := hperm.nodup_iff.mpr (nodup_finRange _)
  have hall (i : Fin l.length) : i ∈ sortedPositions le l := hperm.mem_iff.mpr (mem_finRange i)
  have hlength : (sortedPositions le l).length = (l.mergeSort le).length := by
    rw [← map_get_sortedPositions, length_map]
  let taken := hnodup.getEquivOfForallMemList _ hall
  have hget (p : Fin (sortedPositions le l).length) :
      (l.mergeSort le).get (finCongr hlength p) = l.get (taken p) := by
    have hmap := getElem_of_eq (map_get_sortedPositions le l).symm (finCongr hlength p).isLt
    rw [getElem_map] at hmap
    exact hmap
  have hsorts {p q : Fin (sortedPositions le l).length} (hlt : p < q) :
      SortsBefore key l (taken p) (taken q) := (pairwise_sortedPositions hle).rel_get_of_lt hlt
  refine ⟨taken.symm.trans (finCongr hlength), ?_, ?_⟩
  · intro i
    rw [Equiv.trans_apply, hget, Equiv.apply_symm_apply]
  · intro i j
    obtain ⟨p, rfl⟩ := taken.surjective i
    obtain ⟨q, rfl⟩ := taken.surjective j
    simp only [Equiv.trans_apply, Equiv.symm_apply_apply]
    constructor
    · intro hlt
      exact hsorts hlt
    · intro hbefore
      rcases lt_trichotomy p q with hlt | rfl | hgt
      · exact hlt
      · exact absurd hbefore hbefore.asymm
      · exact absurd hbefore (hsorts hgt).asymm

end FaultRepair.Fault
