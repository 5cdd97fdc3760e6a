/-
# The order of suspicion

Ranking gives every candidate a depth of its own, in the order of the depths before, and sorts
by depth divided by the number of candidates in the file, half of that for dependencies. The
scores that are compared are rounded. With fewer than `2 ^ 26` candidates no two different
scores are rounded to one number, so the ranking is in the order of the exact scores, and only
candidates with the same exact score are in the order of depth.
-/

import FaultRepair.Proofs.Fault.Ranking
import FaultRepair.Proofs.Number.Quotient

namespace FaultRepair.Fault

open Number List

variable {cs : List Candidate} {a b c : Candidate}

/-- The score of a ranked candidate before rounding: its depth divided by the number of
candidates in its file, and half of that for a dependency. -/
def exactScore (cs : List Candidate) (c : Candidate) : ℚ :=
  let share : ℚ := c.depth / countInFile cs c.file
  if c.isDep then share / 2 else share

/-! ## The scores of the lineup -/

theorem countInFile_of_bare {l m : List Candidate}
    (hsame : l.map Candidate.bare = m.map Candidate.bare) (file : Text) :
      countInFile l file = countInFile m file := by
  rw [← countInFile_map (fun c => (rfl : c.bare.file = c.file)) l, hsame, countInFile_map]
  intro c
  rfl

theorem countInFile_byDepth (cs : List Candidate) (file : Text) :
    countInFile (byDepth cs) file = countInFile cs file :=
  ((byDepth_perm cs).filter _).length_eq

theorem countInFile_lineup (cs : List Candidate) (file : Text) :
    countInFile (lineup cs) file = countInFile cs file := by
  rw [countInFile_of_bare (map_bare_lineup cs), countInFile_byDepth]

theorem depth_of_mem_lineup (hc : c ∈ lineup cs) : 1 ≤ c.depth ∧ c.depth ≤ cs.length := by
  grind [freshDepths, map_depth_lineup, mem_map_of_mem]

theorem small_of_mem_lineup (hsmall : cs.length < 2 ^ 26) (hc : c ∈ lineup cs) :
    Binary64.Small c.depth.toNat (countInFile cs c.file) := by
  obtain ⟨hlow, hhigh⟩ := depth_of_mem_lineup hc
  have hpos : 0 < countInFile cs c.file := by
    rw [← countInFile_lineup]
    apply length_pos_of_mem (a := c)
    rw [mem_filter]
    exact ⟨hc, beq_self_eq_true _⟩
  have hle : countInFile cs c.file ≤ cs.length := length_filter_le _ _
  exact ⟨by omega, by omega, hpos, by omega⟩

theorem score_of_mem_lineup (hsmall : cs.length < 2 ^ 26) (hc : c ∈ lineup cs) :
    c.score = Binary64.ofRatio false c.depth.toNat
      (Binary64.divisor c.isDep (countInFile cs c.file)) := by
  have hquotient := small_of_mem_lineup hsmall hc
  obtain ⟨c, -, rfl⟩ := mem_map.mp hc
  have hcount : countInFile (numbered (byDepth cs)) c.file = countInFile cs c.file := by
    rw [countInFile_of_bare (map_bare_numbered _), countInFile_byDepth]
  rw [← hquotient.half_eq, ← hcount]
  rfl

theorem exactScore_of_mem_lineup (hc : c ∈ lineup cs) :
    exactScore cs c =
      (c.depth.toNat : ℚ) / (Binary64.divisor c.isDep (countInFile cs c.file) : ℕ) := by
  have hnonneg : 0 ≤ c.depth := le_trans zero_le_one (depth_of_mem_lineup hc).1
  have hdepth : (c.depth : ℚ) = c.depth.toNat := by
    rw [← Int.cast_natCast, Int.toNat_of_nonneg hnonneg]
  unfold exactScore Binary64.divisor
  rw [hdepth]
  split
  · rw [div_div, Nat.cast_mul, Nat.cast_two, mul_comm]
  · rfl

/-- Rounding keeps the order of the scores. -/
theorem score_lt_iff (hsmall : cs.length < 2 ^ 26) (ha : a ∈ lineup cs) (hb : b ∈ lineup cs) :
    a.score.lt b.score = true ↔ exactScore cs a < exactScore cs b := by
  have hquotient := small_of_mem_lineup hsmall ha
  have hquotient' := small_of_mem_lineup hsmall hb
  have hpos : (0 : ℚ) < (Binary64.divisor a.isDep (countInFile cs a.file) : ℕ) := by
    exact_mod_cast hquotient.divisor_pos a.isDep
  have hpos' : (0 : ℚ) < (Binary64.divisor b.isDep (countInFile cs b.file) : ℕ) := by
    exact_mod_cast hquotient'.divisor_pos b.isDep
  rw [score_of_mem_lineup hsmall ha, score_of_mem_lineup hsmall hb,
    hquotient.ofRatio_lt_iff hquotient',
    exactScore_of_mem_lineup ha, exactScore_of_mem_lineup hb, div_lt_div_iff₀ hpos hpos']
  exact_mod_cast Iff.rfl

/-! ## Places -/

/-- Every candidate has its place in the lineup, and its depth is the number of that place. -/
theorem exists_lineup_places (cs : List Candidate) :
    ∃ place : Fin cs.length ≃ Fin (lineup cs).length,
      (∀ i, ((lineup cs).get (place i)).bare = (cs.get i).bare) ∧
      ∀ i j, place i < place j ↔ SortsBefore Candidate.depth cs i j := by
  obtain ⟨place, hget, horder⟩ :=
    exists_places (l := cs) fun a _ b _ => compares_shallower a b
  have hlength : (cs.mergeSort shallower).length = (lineup cs).length := by
    rw [length_mergeSort, length_lineup]
  refine ⟨place.trans (finCongr hlength), ?_, ?_⟩
  · intro i
    have hbare := getElem_of_eq (map_bare_lineup cs)
      (i := place i) (by simpa only [length_map, ← hlength] using (place i).isLt)
    rw [getElem_map, getElem_map] at hbare
    exact hbare.trans (congrArg Candidate.bare (hget i))
  · intro i j
    exact horder i j

theorem depth_get_lineup (p : Fin (lineup cs).length) :
    ((lineup cs).get p).depth = (p : Int) + 1 := by
  have hdepth := getElem_of_eq (map_depth_lineup cs)
    (i := p) (by rw [length_map]; exact p.isLt)
  rw [getElem_map] at hdepth
  simpa [freshDepths] using hdepth

/-- Every candidate of the lineup has its place in the ranking, by its exact score and then by
its depth. -/
theorem exists_rank_places (hsmall : cs.length < 2 ^ 26) :
    ∃ place : Fin (lineup cs).length ≃ Fin (rank cs).length,
      (∀ p, (rank cs).get (place p) = (lineup cs).get p) ∧
      ∀ p q, place p < place q ↔ SortsBefore (exactScore cs) (lineup cs) p q := by
  apply exists_places
  intro a ha b hb
  rw [Bool.not_eq_true', ← Bool.not_eq_true, score_lt_iff hsmall hb ha, not_lt]

theorem pairwise_rank (hsmall : cs.length < 2 ^ 26) :
    (rank cs).Pairwise fun a b => exactScore cs a < exactScore cs b ∨
      exactScore cs a = exactScore cs b ∧ a.depth < b.depth := by
  obtain ⟨place, hget, horder⟩ := exists_rank_places hsmall
  rw [pairwise_iff_get]
  intro i j hlt
  obtain ⟨p, rfl⟩ := place.surjective i
  obtain ⟨q, rfl⟩ := place.surjective j
  rw [hget, hget, depth_get_lineup, depth_get_lineup]
  rcases (horder p q).mp hlt with hless | ⟨hsame, hpq⟩
  · exact .inl hless
  · exact .inr ⟨hsame, by omega⟩

/-- Among the candidates of one file and one kind the scores are as the depths. -/
theorem depth_lt_of_exactScore_lt (hfile : a.file = b.file) (hdep : a.isDep = b.isDep)
    (hlt : exactScore cs a < exactScore cs b) : a.depth < b.depth := by
  by_contra hnot
  have hle : (b.depth : ℚ) ≤ a.depth := by exact_mod_cast not_lt.mp hnot
  have hshare : (b.depth : ℚ) / countInFile cs b.file ≤ (a.depth : ℚ) / countInFile cs b.file :=
    div_le_div_of_nonneg_right hle (Nat.cast_nonneg _)
  grind [exactScore]

/-- A list of candidates in the order of suspicion, where `place` tells where every candidate
has come to stand. -/
structure Ranked (cs ranked : List Candidate) (place : Fin cs.length ≃ Fin ranked.length) :
    Prop where
  /-- Apart from depth and score the candidates are as they were. -/
  bare_eq : ∀ i, (ranked.get (place i)).bare = (cs.get i).bare
  /-- The depths are those from one to the number of candidates. -/
  depths : (ranked.map (·.depth)).Perm (freshDepths cs.length)
  /-- They are given in the order of the depths before, and then of the list. -/
  depth_lt_iff : ∀ i j, (ranked.get (place i)).depth < (ranked.get (place j)).depth ↔
    (cs.get i).depth < (cs.get j).depth ∨ (cs.get i).depth = (cs.get j).depth ∧ i < j
  /-- The candidates are in the order of the exact scores, and then of the depths. -/
  sorted : ranked.Pairwise fun a b => exactScore cs a < exactScore cs b ∨
    exactScore cs a = exactScore cs b ∧ a.depth < b.depth
  /-- The scores that are stored compare as the exact ones. -/
  score_lt_iff : ∀ a ∈ ranked, ∀ b ∈ ranked,
    a.score.lt b.score = true ↔ exactScore cs a < exactScore cs b
  /-- Of two candidates of one file and one kind the shallower comes first. -/
  shallower_first : ranked.Pairwise fun a b =>
    a.file = b.file → a.isDep = b.isDep → a.depth < b.depth

/-- **Ranking is the specified order.** -/
theorem exists_ranked (cs : List Candidate) (hsmall : cs.length < 2 ^ 26) :
    ∃ place, Ranked cs (rank cs) place := by
  obtain ⟨first, hbare, hfirst⟩ := exists_lineup_places cs
  obtain ⟨second, hget, -⟩ := exists_rank_places hsmall
  have hsorted := pairwise_rank hsmall
  refine ⟨first.trans second, ?_, ?_, ?_, hsorted, ?_, ?_⟩
  · intro i
    rw [Equiv.trans_apply, hget, hbare]
  · rw [← map_depth_lineup]
    exact (rank_perm cs).map _
  · intro i j
    rw [Equiv.trans_apply, Equiv.trans_apply, hget, hget, depth_get_lineup, depth_get_lineup]
    have hplaces : ((first i : Nat) : Int) + 1 < (first j : Nat) + 1 ↔ first i < first j := by omega
    rw [hplaces, hfirst]
    rfl
  · intro a ha b hb
    exact score_lt_iff hsmall ((rank_perm cs).mem_iff.mp ha) ((rank_perm cs).mem_iff.mp hb)
  · apply hsorted.imp
    intro a b hab hfile hdep
    rcases hab with hless | ⟨-, hdepth⟩
    · exact depth_lt_of_exactScore_lt hfile hdep hless
    · exact hdepth

/-- Two files and both kinds, with a tie of depths at zero. -/
def dilutedCandidates : List Candidate :=
  [sampleCandidate "a" "x.go" false 0 .zero, sampleCandidate "b" "x.go" true 0 .zero,
    sampleCandidate "c" "y.go" false 1 .zero, sampleCandidate "d" "x.go" false 2 .nan]

/-- The first two have the same exact score, a third. -/
theorem diluted_ranked :
    dilutedCandidates.length < 2 ^ 26 ∧
      ∃ place, Ranked dilutedCandidates (rank dilutedCandidates) place :=
  ⟨by decide, exists_ranked dilutedCandidates (by decide)⟩

end FaultRepair.Fault
