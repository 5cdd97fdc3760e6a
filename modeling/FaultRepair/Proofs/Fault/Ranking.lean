/-
# What ranking depends on

Ranking sorts twice, and writes over the key of the first sort before the second. Between
the two stands the lineup: the candidates in the order of depth, numbered from one, each with
its score. It depends on nothing but the order of depth; and it can be read off the ranked
list again, by sorting that by depth. So ranking a second time changes nothing, and two lists
are ranked alike exactly if their candidates, apart from depths and scores, are in the same
order of depth.
-/

import FaultRepair.Fault.Rank
import FaultRepair.Proofs.Fault.StableSort

namespace FaultRepair.Fault

open Number List

variable {cs l m : List Candidate}

variable {g : Candidate → Candidate}

/-! ## Sorting by depth -/

def shallower (a b : Candidate) : Bool := a.depth ≤ b.depth

variable (cs)

/-- The candidates in the order of depth; equal depths keep their order. -/
def byDepth : List Candidate := cs.mergeSort shallower

theorem compares_shallower : Compares shallower Candidate.depth := by
  intro a b
  exact decide_eq_true_iff

theorem byDepth_perm : (byDepth cs).Perm cs := mergeSort_perm cs shallower

theorem pairwise_byDepth :
    (byDepth cs).Pairwise fun a b => a.depth ≤ b.depth :=
  compares_shallower.pairwise_mergeSort cs

/-- The order of depth depends only on the order within every depth. -/
theorem byDepth_congr
    (hsame : ∀ depth, l.filter (·.depth = depth) = m.filter (·.depth = depth)) :
    byDepth l = byDepth m := by
  apply eq_of_filter_eq (pairwise_byDepth l) (pairwise_byDepth m)
  intro depth
  rw [byDepth, byDepth, compares_shallower.filter_mergeSort, compares_shallower.filter_mergeSort]
  exact hsame depth

/-- Where no depth is repeated, the order of depth is the only one. -/
theorem byDepth_of_perm (hperm : m.Perm l) (hl : l.Pairwise fun a b => a.depth < b.depth) :
    byDepth m = l := by
  have hsorted : l.Pairwise fun a b => a.depth ≤ b.depth := hl.imp le_of_lt
  have hdistinct : (l.map (·.depth)).Nodup := pairwise_map.mpr (hl.imp ne_of_lt)
  grind [byDepth_perm, List.Perm.eq_of_pairwise, pairwise_byDepth, inj_on_of_nodup_map]

theorem map_byDepth (hg : ∀ a ∈ l, ∀ b ∈ l, (g a).depth ≤ (g b).depth ↔ a.depth ≤ b.depth) :
    (byDepth l).map g = byDepth (l.map g) := by
  apply map_mergeSort
  intro a ha b hb
  rw [Bool.eq_iff_iff, compares_shallower, compares_shallower]
  exact (hg a ha b hb).symm

/-! ## The lineup -/

def Candidate.bare (c : Candidate) : Candidate := { c with depth := 0, score := Binary64.zero }

/-- Depths from one on, in the order of the list. -/
def numbered : List Candidate :=
  cs.zipIdx.map fun p => { p.1 with depth := (p.2 : Int) + 1 }

def scored : List Candidate :=
  cs.map fun c => { c with score := scoreOf cs c }

/-- The candidates as they stand between the two sorts. -/
def lineup : List Candidate := scored (numbered (byDepth cs))

theorem rank_eq :
    rank cs = (lineup cs).mergeSort fun a b => !b.score.lt a.score := rfl

theorem rank_perm : (rank cs).Perm (lineup cs) := mergeSort_perm _ _

def freshDepths (n : Nat) : List Int := (range n).map fun i : Nat => (i : Int) + 1

theorem pairwise_freshDepths (n : Nat) : (freshDepths n).Pairwise (· < ·) := by
  apply List.Pairwise.map _ _ pairwise_lt_range
  intro i j hlt
  omega

theorem map_depth_numbered :
    (numbered cs).map (·.depth) = freshDepths cs.length := by
  apply ext_getElem
  · simp [numbered, freshDepths]
  · intro i hi hi'
    simp [numbered, freshDepths]

theorem map_bare_numbered :
    (numbered cs).map Candidate.bare = cs.map Candidate.bare := by
  apply ext_getElem
  · simp [numbered]
  · intro i hi hi'
    simp [numbered, Candidate.bare]

theorem numbered_of_depths (hdepths : cs.map (·.depth) = freshDepths cs.length) :
    numbered cs = cs := by
  apply ext_getElem
  · simp [numbered]
  · intro i hi hi'
    have hdepth : cs[i].depth = (i : Int) + 1 := by
      have hget := getElem_of_eq hdepths (by simpa using hi')
      simpa [freshDepths] using hget
    simp [numbered, ← hdepth]

theorem countInFile_map (hg : ∀ c, (g c).file = c.file) (cs : List Candidate) (file : Text) :
    countInFile (cs.map g) file = countInFile cs file := by
  simp only [countInFile, filter_map, length_map, Function.comp_def, hg]

/-- Scores do not depend on the scores before. -/
theorem scored_map (hg : ∀ c, ∃ s, g c = { c with score := s }) (cs : List Candidate) :
    scored (cs.map g) = scored cs := by
  have hfile (c : Candidate) : (g c).file = c.file := by
    obtain ⟨s, hs⟩ := hg c
    rw [hs]
  rw [scored, scored, map_map]
  apply map_congr_left
  intro c _
  obtain ⟨s, hs⟩ := hg c
  simp only [Function.comp_apply, scoreOf, countInFile_map hfile, hs]

theorem scored_scored : scored (scored cs) = scored cs :=
  scored_map (fun _ => ⟨_, rfl⟩) cs

theorem map_depth_scored :
    (scored cs).map (·.depth) = cs.map (·.depth) := by
  rw [scored, map_map]
  rfl

theorem map_bare_scored :
    (scored cs).map Candidate.bare = cs.map Candidate.bare := by
  rw [scored, map_map]
  rfl

theorem scored_numbered_bare :
    scored (numbered (cs.map Candidate.bare)) = scored (numbered cs) := by
  have hnumbered : numbered (cs.map Candidate.bare) =
      (numbered cs).map fun c => { c with score := Binary64.zero } := by
    rw [numbered, numbered, zipIdx_map, map_map, map_map]
    rfl
  rw [hnumbered]
  exact scored_map (fun _ => ⟨_, rfl⟩) _

theorem length_lineup : (lineup cs).length = cs.length := by
  simp [lineup, scored, numbered, byDepth]

theorem map_depth_lineup :
    (lineup cs).map (·.depth) = freshDepths cs.length := by
  rw [lineup, map_depth_scored, map_depth_numbered, (byDepth_perm cs).length_eq]

theorem map_bare_lineup :
    (lineup cs).map Candidate.bare = (byDepth cs).map Candidate.bare := by
  rw [lineup, map_bare_scored, map_bare_numbered]

theorem pairwise_lineup :
    (lineup cs).Pairwise fun a b => a.depth < b.depth := by
  rw [← pairwise_map, map_depth_lineup]
  exact pairwise_freshDepths _

/-! ## Ranking again -/

/-- The ranked list in the order of depth is the lineup. -/
theorem byDepth_rank : byDepth (rank cs) = lineup cs :=
  byDepth_of_perm (rank_perm cs) (pairwise_lineup cs)

theorem lineup_rank : lineup (rank cs) = lineup cs := by
  grind [lineup, map_depth_lineup, length_lineup, byDepth_rank, numbered_of_depths, scored_scored]

/-- **Ranking is idempotent.**  A ranked list that is ranked again stays as it is, with its
depths and its scores. -/
theorem rank_rank (cs : List Candidate) : rank (rank cs) = rank cs := by
  rw [rank_eq (rank cs), lineup_rank, ← rank_eq]

/-! ## Ranking other lists alike -/

/-- Two lists are ranked alike exactly if their candidates, apart from depths and scores, are in
the same order of depth. -/
theorem rank_eq_rank_iff :
    rank l = rank m ↔ (byDepth l).map Candidate.bare = (byDepth m).map Candidate.bare := by
  grind [map_bare_lineup, byDepth_rank, rank_eq, lineup, scored_numbered_bare]

/-- The same candidates in another order, in which those of one depth stand as before. -/
structure Reordered (l m : List Candidate) : Prop where
  perm : m.Perm l
  levels : ∀ depth, m.filter (·.depth = depth) = l.filter (·.depth = depth)

/-- The same candidate with its depth relabelled and any score. -/
def Relabelled (relabel : Int → Int) (c c' : Candidate) : Prop :=
  c' = { c with depth := relabel c.depth, score := c'.score }

theorem bare_byDepth_relabelled {relabel : Int → Int} {l' : List Candidate}
    (hrelabel : StrictMonoOn relabel {depth | ∃ c ∈ l, c.depth = depth})
    (hl' : List.Forall₂ (Relabelled relabel) l l') :
    (byDepth l').map Candidate.bare = (byDepth l).map Candidate.bare := by
  have hsame : l'.map (fun c => { c with score := Binary64.zero }) =
      l.map fun c => { c with depth := relabel c.depth, score := Binary64.zero } := by
    clear hrelabel
    induction hl' with
    | nil => rfl
    | cons hc _ ih => rw [map_cons, map_cons, ih, hc]
  have hsorted : (byDepth l').map (fun c => { c with score := Binary64.zero }) =
      (byDepth l).map fun c => { c with depth := relabel c.depth, score := Binary64.zero } := by
    rw [map_byDepth, hsame, map_byDepth]
    · intro a ha b hb
      exact hrelabel.le_iff_le ⟨a, ha, rfl⟩ ⟨b, hb, rfl⟩
    · intro a _ b _
      exact Iff.rfl
  have hbare := congrArg (map Candidate.bare) hsorted
  rw [map_map, map_map] at hbare
  exact hbare

/-- **Ranking depends only on relative depth.**  Other depths in the same order, other scores,
and another order of candidates of different depths give the same ranking. -/
theorem rank_of_relative_depth {relabel : Int → Int} {l' : List Candidate}
    (hrelabel : StrictMonoOn relabel {depth | ∃ c ∈ l, c.depth = depth})
    (hm : Reordered l m) (hl' : List.Forall₂ (Relabelled relabel) m l') : rank l' = rank l := by
  have hdepths : {depth | ∃ c ∈ m, c.depth = depth} = {depth | ∃ c ∈ l, c.depth = depth} := by
    simp only [hm.perm.mem_iff]
  rw [← hdepths] at hrelabel
  rw [rank_eq_rank_iff, bare_byDepth_relabelled hrelabel hl', byDepth_congr hm.levels]

def sampleCandidate (name file : Text) (isDep : Bool) (depth : Int) (score : Binary64) :
    Candidate :=
  { ident := name, line := 1, col := 1, file := file, isDep := isDep, depth := depth,
    score := score }

/-- Four candidates at two depths, one of them twice. -/
def tiedCandidates : List Candidate :=
  [sampleCandidate "a" "x.go" false 3 .zero, sampleCandidate "b" "y.go" true 1 .zero,
    sampleCandidate "c" "x.go" true 3 .zero, sampleCandidate "b" "y.go" true 1 .zero]

/-- Every deep candidate has changed places with the shallow one after it. -/
def tiedShuffled : List Candidate :=
  [sampleCandidate "b" "y.go" true 1 .zero, sampleCandidate "a" "x.go" false 3 .zero,
    sampleCandidate "b" "y.go" true 1 .zero, sampleCandidate "c" "x.go" true 3 .zero]

/-- The depths are three less, and among the scores are an infinite one and no number. -/
def tiedRelabelled : List Candidate :=
  [sampleCandidate "b" "y.go" true (-2) .nan, sampleCandidate "a" "x.go" false 0 .zero,
    sampleCandidate "b" "y.go" true (-2) .zero, sampleCandidate "c" "x.go" true 0 (.inf true)]

theorem tied_ranked_alike :
    StrictMonoOn (· - 3) {depth | ∃ c ∈ tiedCandidates, c.depth = depth} ∧
    Reordered tiedCandidates tiedShuffled ∧
    List.Forall₂ (Relabelled (· - 3)) tiedShuffled tiedRelabelled ∧
    rank tiedRelabelled = rank tiedCandidates := by
  have hrelabel : StrictMonoOn (· - 3) {depth | ∃ c ∈ tiedCandidates, c.depth = depth} := by
    intro d _ d' _ hlt
    exact Int.sub_lt_sub_right hlt 3
  have hreordered : Reordered tiedCandidates tiedShuffled := by
    refine ⟨by decide, ?_⟩
    intro depth
    by_cases hthree : (3 : Int) = depth
    · subst hthree
      decide
    · by_cases hone : (1 : Int) = depth
      · subst hone
        decide
      · simp [tiedCandidates, tiedShuffled, sampleCandidate, hthree, hone]
  have hrelabelled : List.Forall₂ (Relabelled (· - 3)) tiedShuffled tiedRelabelled := by
    simp [tiedShuffled, tiedRelabelled, Relabelled, sampleCandidate]
  exact ⟨hrelabel, hreordered, hrelabelled, rank_of_relative_depth hrelabel hreordered hrelabelled⟩

end FaultRepair.Fault
