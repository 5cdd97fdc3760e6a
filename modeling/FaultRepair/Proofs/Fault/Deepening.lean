/-
# Deeper expansion

Following more levels of dependencies reaches more from every frame. It does not make
the candidates of a whole trace grow: a frame that a deeper expansion of an earlier frame
finds is not expanded itself any more, and what only its own expansion reached is lost.

This is the only way to lose a candidate. The position of a frame is always emitted, and
what is found from a frame is found at every greater depth, unless that frame was absorbed
in this way.
-/

import FaultRepair.Proofs.Fault.Emission

namespace FaultRepair.Fault

open FaultRepair.Graph Store Files Report Trace List

variable {i : Nat} {f : Frame}

/-- Four rows, each computed from the next. -/
def chain : Database where
  locations := some ⟨[⟨1, sampleLocation 1⟩, ⟨2, sampleLocation 2⟩, ⟨3, sampleLocation 3⟩,
    ⟨4, sampleLocation 4⟩], 4⟩
  dependencies := some ⟨[⟨1, 1, 2⟩, ⟨2, 2, 3⟩, ⟨3, 3, 4⟩], 3⟩
  sources := some []

/-- The frames at the first and the third row of the chain. -/
def chainFrames : List Frame := [sampleFrame 1 0, sampleFrame 3 1]

def chainShallow : List Candidate :=
  [directCandidate (sampleFrame 1 0), dependentCandidate (sampleFrame 1 0) ⟨2, sampleLocation 2⟩,
    directCandidate (sampleFrame 3 1), dependentCandidate (sampleFrame 3 1) ⟨4, sampleLocation 4⟩]

/-- Two levels: the second frame is found from the first. -/
def chainDeep : List Candidate :=
  [directCandidate (sampleFrame 1 0), dependentCandidate (sampleFrame 1 0) ⟨2, sampleLocation 2⟩,
    dependentCandidate (sampleFrame 1 0) ⟨3, sampleLocation 3⟩]

theorem localize_chain_one :
    ∃ notices, localize {} chain.store 1 chainFrames = .ok (chainShallow, notices) := ⟨_, rfl⟩

theorem localize_chain_two :
    ∃ notices, localize {} chain.store 2 chainFrames = .ok (chainDeep, notices) := ⟨_, rfl⟩

/-- A greater depth can lose a candidate: at depth two the last row of the chain is out of
reach of the first frame, and the second frame is not expanded. -/
theorem deeper_run_loses_candidate :
    ¬ ∀ (files : Tree) (s : Store) (frames : List Frame) (depth depth' : Int)
        (candidates candidates' : List Candidate) (notices notices' : List Notice),
      depth ≤ depth' →
      localize files s depth frames = .ok (candidates, notices) →
      localize files s depth' frames = .ok (candidates', notices') →
      positionsOf candidates ⊆ positionsOf candidates' := by
  intro hgrows
  obtain ⟨notices, hrun⟩ := localize_chain_one
  obtain ⟨notices', hrun'⟩ := localize_chain_two
  have hsubset := hgrows {} chain.store chainFrames 1 2 _ _ _ _ (by decide) hrun hrun'
  have hlast : (sampleLocation 4).position ∈ positionsOf chainShallow := by decide
  exact absurd (hsubset hlast) (by decide)

/-! ## What is kept -/

variable {s : Store} {depth : Nat} {frames : List Frame} {blocks : List (List Candidate)}

theorem Within.mono {roots : List StoredLocation} {depth depth' : Nat} {row : StoredLocation}
    (hrow : Within s roots depth row) (hle : depth ≤ depth') : Within s roots depth' row := by
  obtain ⟨hfound, n, hpos, hn, hdistance⟩ := hrow
  exact ⟨hfound, n, hpos, by omega, hdistance⟩

/-- What was emitted before the block at `i` was emitted by a block before it. -/
theorem Trail.exists_block (htrail : Trail s depth [] frames blocks) {p : Position}
    (hp : p ∈ positionsOf (blocks.take i).flatten) :
    ∃ j < i, ∃ f block, frames[j]? = some f ∧ blocks[j]? = some block ∧ p ∈ positionsOf block ∧
      Contributes s depth (blocks.take j).flatten f block := by
  obtain ⟨c, hc, rfl⟩ := mem_map.mp hp
  obtain ⟨block, hblock, hmem⟩ := mem_flatten.mp hc
  obtain ⟨j, hj⟩ := mem_iff_getElem?.mp hblock
  rw [List.getElem?_take] at hj
  split at hj
  case isFalse => simp at hj
  case isTrue hlt =>
    have hbound : j < frames.length := htrail.length ▸ (List.getElem?_eq_some_iff.mp hj).1
    have hframe : frames[j]? = some frames[j] := List.getElem?_eq_getElem hbound
    obtain ⟨other, hother, hcontributes⟩ := htrail.contributes hframe
    obtain rfl : block = other := Option.some.inj (hj.symm.trans hother)
    exact ⟨j, hlt, frames[j], block, hframe, hj, mem_map_of_mem hmem, hcontributes⟩

theorem flatten_take_succ {block : List Candidate} (hblock : blocks[i]? = some block) :
    (blocks.take (i + 1)).flatten = (blocks.take i).flatten ++ block := by
  simp [take_add_one, hblock]

/-- What some blocks emit is emitted by more of them. -/
theorem positionsOf_take_subset (blocks : List (List Candidate)) {k : Nat} (hle : i ≤ k) :
    positionsOf (blocks.take i).flatten ⊆ positionsOf (blocks.take k).flatten := by
  obtain ⟨later, hlater⟩ : blocks.take i <+: blocks.take k := take_prefix_take_left hle
  rw [← hlater, flatten_append, positionsOf_append]
  exact subset_append_left _ _

/-- The position of an earlier frame was emitted before the block at `i`. -/
theorem Trail.covers_before (htrail : Trail s depth [] frames blocks) {j : Nat} (hlt : j < i)
    (hf : frames[j]? = some f) : f.location.position ∈ positionsOf (blocks.take i).flatten := by
  obtain ⟨block, hblock, hcontributes⟩ := htrail.contributes hf
  have hcovers := hcontributes.covers
  rw [nil_append, ← flatten_take_succ hblock] at hcovers
  exact positionsOf_take_subset blocks hlt hcovers

/-- The block of an expanded frame, with the rows that were found from it. -/
def foundBlock (f : Frame) (rows : List StoredLocation) : List Candidate :=
  directCandidate f :: rows.map (dependentCandidate f)

/-- The frame at `i` is expanded in one run. In a deeper run it adds nothing, since its position is
found from a frame before it. -/
structure Absorbed (frames : List Frame) (blocks deeper : List (List Candidate)) (i : Nat)
    (f : Frame) (rows : List StoredLocation) : Prop where
  frame : frames[i]? = some f
  expanded : blocks[i]? = some (foundBlock f rows)
  skipped : deeper[i]? = some []
  found : ∃ j < i, ∃ g found, frames[j]? = some g ∧ deeper[j]? = some (foundBlock g found) ∧
    ∃ row ∈ found, row.location.position = f.location.position

theorem Trail.exists_finder {depth' : Nat} {blocks' : List (List Candidate)}
    (htrail : Trail s depth [] frames blocks) (htrail' : Trail s depth' [] frames blocks')
    (hnew : f.location.position ∉ positionsOf (blocks.take i).flatten)
    (hknown : f.location.position ∈ positionsOf (blocks'.take i).flatten) :
    ∃ j < i, ∃ g found, frames[j]? = some g ∧ blocks'[j]? = some (foundBlock g found) ∧
      ∃ row ∈ found, row.location.position = f.location.position := by
  obtain ⟨j, hlt, g, block, hg, hblock, hmem, hcontributes⟩ := htrail'.exists_block hknown
  cases hcontributes with
  | suppressed => exact absurd hmem not_mem_nil
  | @expanded roots rows notes _ _ _ =>
    rw [positionsOf_direct_cons, positionsOf_dependent] at hmem
    rcases mem_cons.mp hmem with hsame | hfound
    · -- An earlier frame at the same position suppresses `f` at every depth.
      exact absurd (hsame ▸ htrail.covers_before hlt hg) hnew
    · obtain ⟨row, hrow, hposition⟩ := mem_map.mp hfound
      exact ⟨j, hlt, g, rows, hg, hblock, row, hrow, hposition⟩

/-- A frame whose position is known adds nothing. -/
theorem Trail.skips (htrail : Trail s depth [] frames blocks) (hf : frames[i]? = some f)
    (hknown : f.location.position ∈ positionsOf (blocks.take i).flatten) :
      blocks[i]? = some [] := by
  obtain ⟨block, hblock, hcontributes⟩ := htrail.contributes hf
  cases hcontributes with
  | suppressed => exact hblock
  | expanded hnew => exact absurd hknown hnew

theorem Contributes.complete {earlier block : List Candidate}
    (hblock : Contributes s depth earlier f block)
    (hnew : f.location.position ∉ positionsOf earlier) {roots : List StoredLocation}
    {notes : List Notice} (hroots : rootsOf s f = .ok (roots, notes)) {row : StoredLocation}
    (hrow : Within s roots depth row) : row.location.position ∈ positionsOf (earlier ++ block) := by
  cases hblock with
  | suppressed hknown => exact absurd hknown hnew
  | expanded _ hroots' hrows =>
    cases hroots.symm.trans hroots'
    rw [positionsOf_append, positionsOf_direct_cons, positionsOf_dependent]
    have hcomplete := hrows.complete row hrow
    simp only [mem_cons] at hcomplete
    simp only [mem_append, mem_cons]
    tauto

/-- **Deeper runs keep what absorption does not take.**  The positions of frames are emitted at
every depth. Any other position that is emitted at one depth is emitted at every greater depth,
unless it was found from a frame that the deeper run absorbs. -/
theorem localize_deeper_keeps {files files' : Tree} {s : Store} {frames : List Frame}
    {depth depth' : Int} {candidates candidates' : List Candidate} {notices notices' : List Notice}
    (hle : depth ≤ depth') (hrun : localize files s depth frames = .ok (candidates, notices))
    (hrun' : localize files' s depth' frames = .ok (candidates', notices')) :
    ∃ blocks blocks', InBlocks s depth.toNat frames candidates blocks ∧
      InBlocks s depth'.toNat frames candidates' blocks' ∧
      (∀ f ∈ frames, f.location.position ∈ positionsOf candidates') ∧
      ∀ p ∈ positionsOf candidates, p ∈ positionsOf candidates' ∨
        ∃ i f rows, Absorbed frames blocks blocks' i f rows ∧
          p ∈ rows.map (·.location.position) := by
  obtain ⟨blocks, htrail, rfl⟩ := trail_of_localize hrun
  obtain ⟨blocks', htrail', rfl⟩ := trail_of_localize hrun'
  refine ⟨blocks, blocks', htrail.inBlocks, htrail'.inBlocks, fun f hf => htrail'.covers hf, ?_⟩
  intro p hp
  rw [← take_length (l := blocks)] at hp
  obtain ⟨i, -, f, block, hf, hblock, hmem, hcontributes⟩ := htrail.exists_block hp
  cases hcontributes with
  | suppressed => exact absurd hmem not_mem_nil
  | @expanded roots rows notes hnew hroots hrows =>
    rw [positionsOf_direct_cons, positionsOf_dependent] at hmem
    rcases mem_cons.mp hmem with rfl | hfound
    · exact .inl (htrail'.covers (mem_of_getElem? hf))
    · by_cases hknown : f.location.position ∈ positionsOf (blocks'.take i).flatten
      · exact .inr ⟨i, f, rows, ⟨hf, hblock, htrail'.skips hf hknown,
          htrail.exists_finder htrail' hnew hknown⟩, hfound⟩
      · left
        obtain ⟨row, hrow, rfl⟩ := mem_map.mp hfound
        obtain ⟨block', hblock', hcontributes'⟩ := htrail'.contributes hf
        have hwithin := (hrows.sound row hrow).mono (Int.toNat_le_toNat hle)
        have hmem' := hcontributes'.complete hknown hroots hwithin
        rw [nil_append, ← flatten_take_succ hblock'] at hmem'
        have hall := positionsOf_take_subset blocks' (List.getElem?_eq_some_iff.mp hblock').1 hmem'
        rwa [take_length] at hall

/-- On the chain the second frame is absorbed, and takes the last row with it. -/
theorem localize_chain_keeps :
    ∃ notices notices', localize {} chain.store 1 chainFrames = .ok (chainShallow, notices) ∧
      localize {} chain.store 2 chainFrames = .ok (chainDeep, notices') ∧
      (sampleLocation 4).position ∈ positionsOf chainShallow ∧
      (sampleLocation 4).position ∉ positionsOf chainDeep ∧
      ∃ blocks blocks', InBlocks chain.store 1 chainFrames chainShallow blocks ∧
        InBlocks chain.store 2 chainFrames chainDeep blocks' ∧
        (∀ f ∈ chainFrames, f.location.position ∈ positionsOf chainDeep) ∧
        ∀ p ∈ positionsOf chainShallow, p ∈ positionsOf chainDeep ∨
          ∃ i f rows, Absorbed chainFrames blocks blocks' i f rows ∧
            p ∈ rows.map (·.location.position) := by
  obtain ⟨notices, hrun⟩ := localize_chain_one
  obtain ⟨notices', hrun'⟩ := localize_chain_two
  exact ⟨notices, notices', hrun, hrun', by decide, by decide,
    localize_deeper_keeps (by decide) hrun hrun'⟩

end FaultRepair.Fault
