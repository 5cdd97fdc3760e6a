/-
# What localizing emits

The candidates of a trace are made of blocks, one for each frame. A frame at a position
that is a candidate already adds nothing. Any other frame adds itself and then what its
expansion finds. So no position is emitted twice, and none of a frame is lost.

The run is described by a relation that no longer knows the set of seen positions: what a
frame adds depends on the candidates before it only.
-/

import FaultRepair.Proofs.Fault.Expansion

namespace FaultRepair.Fault

open FaultRepair.Graph Store Files Report Trace List

variable {block : List Candidate} {f : Frame}

def directCandidate (f : Frame) : Candidate :=
  { ident := f.ident, line := f.line, col := f.col, file := f.file, depth := f.depth }

def dependentCandidate (f : Frame) (row : StoredLocation) : Candidate :=
  { ident := row.location.ident, line := row.location.line, col := row.location.col,
    file := row.location.file, isDep := true, depth := f.depth }

def positionsOf (candidates : List Candidate) : List Position :=
  candidates.map (·.location.position)

@[simp]
theorem positionsOf_append (first second : List Candidate) :
    positionsOf (first ++ second) = positionsOf first ++ positionsOf second :=
  map_append

@[simp]
theorem positionsOf_direct_cons (f : Frame) (rest : List Candidate) :
    positionsOf (directCandidate f :: rest) = f.location.position :: positionsOf rest := rfl

@[simp]
theorem positionsOf_dependent (f : Frame) (rows : List StoredLocation) :
    positionsOf (rows.map (dependentCandidate f)) = rows.map (·.location.position) := by
  rw [positionsOf, map_map]
  rfl

/-- What a frame adds to the candidates before it. -/
inductive Contributes (s : Store) (depth : Nat) (earlier : List Candidate) (f : Frame) :
    List Candidate → Prop
  | /-- The position is a candidate already. -/
    suppressed (hknown : f.location.position ∈ positionsOf earlier) :
      Contributes s depth earlier f []
  | /-- The frame, and what its expansion finds. -/
    expanded {roots rows : List StoredLocation} {notes : List Notice}
      (hnew : f.location.position ∉ positionsOf earlier)
      (hroots : rootsOf s f = .ok (roots, notes))
      (hrows : Expands s roots depth (f.location.position :: positionsOf earlier) rows) :
      Contributes s depth earlier f (directCandidate f :: rows.map (dependentCandidate f))

/-- The blocks that the frames of a trace add in turn. -/
inductive Trail (s : Store) (depth : Nat) :
    List Candidate → List Frame → List (List Candidate) → Prop
  | done {earlier : List Candidate} : Trail s depth earlier [] []
  | frame {earlier block : List Candidate} {f : Frame} {rest : List Frame}
      {blocks : List (List Candidate)} (hblock : Contributes s depth earlier f block)
      (hrest : Trail s depth (earlier ++ block) rest blocks) :
      Trail s depth earlier (f :: rest) (block :: blocks)

/-! ## Runs leave trails -/

def Localizing.Tracks (l : Localizing) : Prop := ∀ p, p ∈ l.seen ↔ p ∈ positionsOf l.candidates

variable {s : Store} {depth : Nat}

theorem Localizing.check_candidates (files : Tree) (s : Store) (l : Localizing) (file : Text) :
    (l.check files s file).candidates = l.candidates ∧ (l.check files s file).seen = l.seen := by
  unfold Localizing.check
  split
  · exact ⟨rfl, rfl⟩
  · exact ⟨rfl, rfl⟩

/-- One frame contributes its block, and the seen positions keep up. -/
theorem Localizing.Tracks.frame {l l' : Localizing} (htracks : l.Tracks)
    (hframe : l.frame s depth f = .ok l') :
    l'.Tracks ∧ ∃ block, Contributes s depth l.candidates f block ∧
      l'.candidates = l.candidates ++ block := by
  unfold Localizing.frame at hframe
  by_cases hseen : f.location.position ∈ l.seen
  · simp only [contains_eq_mem, hseen, decide_true, if_true] at hframe
    cases hframe
    exact ⟨htracks, [], .suppressed ((htracks _).mp hseen), by simp⟩
  · simp only [contains_eq_mem, hseen, decide_false, Bool.false_eq_true, if_false] at hframe
    obtain ⟨⟨roots, notes⟩, hroots, hafter⟩ := bind_eq_ok.mp hframe
    obtain ⟨⟨rows, seen⟩, hexpand, hresult⟩ := bind_eq_ok.mp hafter
    cases hresult
    obtain ⟨hrows, hgrows⟩ := expands_of_expand hexpand
    -- The walk asks the seen positions; the block speaks of the candidates before it.
    have hsame : ∀ p, p ∈ f.location.position :: l.seen ↔
        p ∈ f.location.position :: positionsOf l.candidates := by
      intro p
      rw [mem_cons, mem_cons, htracks p]
    have hexpands : Expands s roots depth
        (f.location.position :: positionsOf l.candidates) rows := by
      refine ⟨hrows.nodup, ?_, hrows.sound, ?_, hrows.nearest_first⟩
      · exact fun row hrow hmem => hrows.fresh row hrow ((hsame _).mpr hmem)
      · exact fun row hrow => (hrows.complete row hrow).imp_left (hsame _).mp
    refine ⟨?_, directCandidate f :: rows.map (dependentCandidate f),
      .expanded (fun hmem => hseen ((htracks _).mpr hmem)) hroots hexpands, rfl⟩
    intro p
    change p ∈ seen ↔ p ∈ positionsOf
        (l.candidates ++ directCandidate f :: rows.map (dependentCandidate f))
    rw [hgrows, hsame, positionsOf_append, positionsOf_direct_cons, positionsOf_dependent]
    simp only [mem_cons, mem_append]
    tauto

theorem Localizing.Tracks.trail {files : Tree} {l l' : Localizing} {frames : List Frame}
    (htracks : l.Tracks) (hframes : Localizing.frames files s depth l frames = .ok l') :
    ∃ blocks, Trail s depth l.candidates frames blocks ∧
      l'.candidates = l.candidates ++ blocks.flatten := by
  induction frames generalizing l with
  | nil =>
    cases hframes
    exact ⟨[], .done, by simp⟩
  | cons f rest ih =>
    rw [Localizing.frames] at hframes
    obtain ⟨hcandidates, hseen⟩ := Localizing.check_candidates files s l f.file
    have htracks' : (l.check files s f.file).Tracks := by
      rw [Localizing.Tracks, hcandidates, hseen]
      exact htracks
    cases hframe : (l.check files s f.file).frame s depth f with
    | error e => simp [hframe] at hframes
    | ok middle =>
      simp only [hframe] at hframes
      obtain ⟨hmiddle, block, hblock, hadded⟩ := htracks'.frame hframe
      obtain ⟨blocks, htrail, hfinal⟩ := ih hmiddle hframes
      rw [hcandidates] at hblock hadded
      rw [hadded] at htrail hfinal
      exact ⟨block :: blocks, .frame hblock htrail, by simp [hfinal]⟩

/-- **Runs are trails.**  What localizing emits are the blocks of its frames. -/
theorem trail_of_localize {files : Tree} {depth : Int} {frames : List Frame}
    {candidates : List Candidate} {notices : List Notice}
    (hrun : localize files s depth frames = .ok (candidates, notices)) :
    ∃ blocks, Trail s depth.toNat [] frames blocks ∧ candidates = blocks.flatten := by
  unfold localize at hrun
  cases hframes : Localizing.frames files s depth.toNat {} frames with
  | error e => simp [hframes] at hrun
  | ok l =>
    simp only [hframes, Except.ok.injEq, Prod.mk.injEq] at hrun
    have hstart : Localizing.Tracks {} := fun p => by simp [positionsOf]
    obtain ⟨blocks, htrail, hfinal⟩ := hstart.trail hframes
    exact ⟨blocks, htrail, by rw [← hrun.1, hfinal]; rfl⟩

/-! ## Stores that answer -/

theorem rootsOf_ok (hs : Answers s) (f : Frame) : ∃ answer, rootsOf s f = .ok answer := by
  unfold rootsOf
  split
  · obtain ⟨rows, hrows⟩ := hs.findOnLine f.file f.line
    exact ⟨(rows, []), by rw [hrows]; rfl⟩
  · rcases hs.findLocation f.file f.line f.col with ⟨row, hrow⟩ | hnone
    · simp only [hrow, Except.ok.injEq, exists_eq']
    · simp only [hnone, Except.ok.injEq, exists_eq']

theorem Localizing.frame_ok (hs : Answers s) (depth : Nat) (l : Localizing) (f : Frame) :
    ∃ l', l.frame s depth f = .ok l' := by
  unfold Localizing.frame
  by_cases hseen : l.seen.contains f.location.position = true
  · exact ⟨l, by simp only [hseen, if_true]; rfl⟩
  · simp only [hseen, Bool.false_eq_true, if_false]
    obtain ⟨⟨roots, notes⟩, hroots⟩ := rootsOf_ok hs f
    obtain ⟨rows, seen, hrows⟩ := expand_ok hs depth roots (f.location.position :: l.seen)
    exact ⟨_, bind_eq_ok.mpr ⟨_, hroots, bind_eq_ok.mpr ⟨_, hrows, rfl⟩⟩⟩

theorem Localizing.frames_ok (hs : Answers s) (files : Tree) (depth : Nat) (l : Localizing)
    (frames : List Frame) : ∃ l', Localizing.frames files s depth l frames = .ok l' := by
  induction frames generalizing l with
  | nil => exact ⟨l, rfl⟩
  | cons f rest ih =>
    obtain ⟨middle, hframe⟩ := Localizing.frame_ok hs depth (l.check files s f.file) f
    obtain ⟨l', hrest⟩ := ih middle
    exact ⟨l', by rw [Localizing.frames, hframe]; exact hrest⟩

theorem localize_ok (hs : Answers s) (files : Tree) (depth : Int) (frames : List Frame) :
    ∃ candidates notices, localize files s depth frames = .ok (candidates, notices) := by
  obtain ⟨l, hframes⟩ := Localizing.frames_ok hs files depth.toNat {} frames
  exact ⟨_, _, by rw [localize, hframes]⟩

/-! ## Properties of trails -/

variable {earlier : List Candidate} {frames : List Frame} {blocks : List (List Candidate)}

/-- A block repeats no position, neither its own nor an earlier one. -/
theorem Contributes.nodup (hblock : Contributes s depth earlier f block)
    (hearlier : (positionsOf earlier).Nodup) : (positionsOf (earlier ++ block)).Nodup := by
  cases hblock with
  | suppressed hknown => simpa using hearlier
  | expanded hnew hroots hrows =>
    rw [positionsOf_append, positionsOf_direct_cons, positionsOf_dependent, nodup_append]
    refine ⟨hearlier, nodup_cons.mpr ⟨?_, hrows.nodup⟩, ?_⟩
    · intro hmem
      obtain ⟨row, hrow, hequal⟩ := mem_map.mp hmem
      exact hrows.fresh row hrow (hequal ▸ mem_cons_self)
    · intro p hp q hq
      rcases mem_cons.mp hq with rfl | hq
      · exact fun hequal => hnew (hequal ▸ hp)
      · obtain ⟨row, hrow, rfl⟩ := mem_map.mp hq
        exact fun hequal => hrows.fresh row hrow (mem_cons_of_mem _ (hequal ▸ hp))

/-- After its block, the position of a frame is a candidate. -/
theorem Contributes.covers (hblock : Contributes s depth earlier f block) :
    f.location.position ∈ positionsOf (earlier ++ block) := by
  cases hblock with
  | suppressed hknown => simpa using hknown
  | expanded hnew hroots hrows => simp

theorem Contributes.filter_direct (hblock : Contributes s depth earlier f block) :
    block.filter (!·.isDep) =
      if f.location.position ∉ positionsOf earlier then [directCandidate f] else [] := by
  cases hblock with
  | suppressed hknown => simp [hknown]
  | @expanded roots rows notes hnew hroots hrows =>
    have hnone : (rows.map (dependentCandidate f)).filter (!·.isDep) = [] := by
      simp [filter_eq_nil_iff, dependentCandidate]
    rw [if_pos hnew, filter_cons, hnone]
    rfl

namespace Trail

theorem length (htrail : Trail s depth earlier frames blocks) : blocks.length = frames.length := by
  induction htrail with
  | done => rfl
  | frame hblock hrest ih => rw [length_cons, length_cons, ih]

theorem nodup (htrail : Trail s depth earlier frames blocks)
    (hearlier : (positionsOf earlier).Nodup) : (positionsOf (earlier ++ blocks.flatten)).Nodup := by
  induction htrail with
  | done => simpa using hearlier
  | frame hblock hrest ih =>
    rw [flatten_cons, ← append_assoc]
    exact ih (hblock.nodup hearlier)

theorem covers (htrail : Trail s depth earlier frames blocks) {f : Frame} (hf : f ∈ frames) :
    f.location.position ∈ positionsOf (earlier ++ blocks.flatten) := by
  induction htrail with
  | done => exact absurd hf not_mem_nil
  | frame hblock hrest ih =>
    rw [flatten_cons, ← append_assoc]
    rcases mem_cons.mp hf with rfl | hf
    · rw [positionsOf_append]
      exact mem_append_left _ hblock.covers
    · exact ih hf

/-- Every frame has its block, which adds to the blocks before it. -/
theorem contributes (htrail : Trail s depth earlier frames blocks) {i : Nat} {f : Frame}
    (hf : frames[i]? = some f) :
    ∃ block, blocks[i]? = some block ∧
      Contributes s depth (earlier ++ (blocks.take i).flatten) f block := by
  induction htrail generalizing i with
  | done => simp at hf
  | @frame earlier block g rest blocks hblock hrest ih =>
    cases i with
    | zero =>
      cases hf
      exact ⟨block, rfl, by simpa using hblock⟩
    | succ i => grind

/-- The direct candidates are the frames that no earlier block has. `before` are the
blocks that the trail goes on from. -/
theorem filter_direct (htrail : Trail s depth earlier frames blocks)
    (before : List (List Candidate)) (hbefore : earlier = before.flatten) :
    blocks.flatten.filter (!·.isDep) =
      ((frames.zipIdx before.length).filter fun entry =>
        entry.1.location.position ∉ positionsOf ((before ++ blocks).take entry.2).flatten).map
          (directCandidate ·.1) := by
  induction htrail generalizing before with
  | done => rfl
  | @frame earlier block f rest blocks hblock hrest ih =>
    have hrest' := ih (before ++ [block]) (by simp [hbefore])
    rw [length_append, length_singleton, append_assoc, singleton_append] at hrest'
    rw [flatten_cons, filter_append, hblock.filter_direct, hrest', zipIdx_cons,
      filter_cons, take_left, ← hbefore]
    by_cases hknown : f.location.position ∈ positionsOf earlier
    · simp [hknown]
    · simp [hknown]

end Trail

/-! ## The whole trace -/

/-- The candidates as the blocks of the frames. The direct ones are the frames, in order,
whose positions no earlier block has; and every block is empty, or its frame followed by
what was found from it. -/
structure InBlocks (s : Store) (depth : Nat) (frames : List Frame) (candidates : List Candidate)
    (blocks : List (List Candidate)) : Prop where
  length : blocks.length = frames.length
  flatten : candidates = blocks.flatten
  direct : candidates.filter (!·.isDep) =
    (frames.zipIdx.filter fun entry =>
      entry.1.location.position ∉ positionsOf (blocks.take entry.2).flatten).map
        (directCandidate ·.1)
  contributes : ∀ i f, frames[i]? = some f →
    ∃ block, blocks[i]? = some block ∧ Contributes s depth (blocks.take i).flatten f block

theorem Trail.inBlocks (htrail : Trail s depth [] frames blocks) :
    InBlocks s depth frames blocks.flatten blocks where
  length := htrail.length
  flatten := rfl
  direct := htrail.filter_direct [] rfl
  contributes := fun _ _ hf => htrail.contributes hf

/-- **Localizing neither loses nor repeats.**  No two candidates share a position, every
frame is at the position of one, and the candidates are the blocks of the frames. -/
theorem localize_emits_once {files : Tree} {s : Store} {depth : Int} {frames : List Frame}
    {candidates : List Candidate} {notices : List Notice}
    (hrun : localize files s depth frames = .ok (candidates, notices)) :
    (positionsOf candidates).Nodup ∧
      (∀ f ∈ frames, f.location.position ∈ positionsOf candidates) ∧
      ∃ blocks, InBlocks s depth.toNat frames candidates blocks := by
  obtain ⟨blocks, htrail, rfl⟩ := trail_of_localize hrun
  exact ⟨htrail.nodup nodup_nil, fun f hf => htrail.covers hf, blocks, htrail.inBlocks⟩

/-- The location on a line of a small file. -/
def sampleLocation (line : Int) : Location := ⟨"v", "f.go", line, 1⟩

def sampleFrame (line depth : Int) : Frame := ⟨"v", "f.go", line, 1, depth⟩

/-- Two rows at one position, an edge to a number without a row, and a cycle. -/
def tangled : Database where
  locations := some ⟨[⟨1, sampleLocation 1⟩, ⟨2, sampleLocation 2⟩, ⟨3, sampleLocation 2⟩,
    ⟨4, sampleLocation 3⟩], 4⟩
  dependencies := some ⟨[⟨1, 1, 2⟩, ⟨2, 1, 3⟩, ⟨3, 2, 9⟩, ⟨4, 3, 4⟩, ⟨5, 4, 1⟩], 5⟩
  sources := some []

/-- Of four frames, one was found from the first and one repeats it. -/
theorem tangled_emits_once :
    let frames := [sampleFrame 1 0, sampleFrame 3 1, sampleFrame 1 2, sampleFrame 7 3]
    let candidates := [directCandidate (sampleFrame 1 0),
      dependentCandidate (sampleFrame 1 0) ⟨2, sampleLocation 2⟩,
      dependentCandidate (sampleFrame 1 0) ⟨4, sampleLocation 3⟩, directCandidate (sampleFrame 7 3)]
    ∃ notices, localize {} tangled.store 2 frames = .ok (candidates, notices) ∧
      (positionsOf candidates).Nodup ∧
      (∀ f ∈ frames, f.location.position ∈ positionsOf candidates) ∧
      ∃ blocks, InBlocks tangled.store 2 frames candidates blocks := by
  intro frames candidates
  obtain ⟨notices, hrun⟩ :
      ∃ notices, localize {} tangled.store 2 frames = .ok (candidates, notices) := ⟨_, rfl⟩
  exact ⟨notices, hrun, localize_emits_once hrun⟩

end FaultRepair.Fault
