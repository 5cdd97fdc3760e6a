/-
# Backtraces are read by pairs of adjacent lines

Reading a backtrace carries a header from one line to the next, drops it when another line
follows, and passes over numbers that do not fit and over marked paths. None of this leaves a
trace in the result: there is one frame for each header that its location follows directly, and
the frame depends on these two lines alone.

One step holds for any header that is pending, which is what the induction over the lines needs.
Where a location closes a header nothing is pending any more, and since a location is no header
this is also what the line itself would leave pending.
-/

import FaultRepair.Proofs.Trace.Exclusion
import FaultRepair.Proofs.Trace.Forms
import Mathlib.Data.List.Forall2

namespace FaultRepair.Trace

open List

/-! ## Places of a list -/

/-- A partial function on the entries of a list, applied to all of them, has one value for each
place at which it is defined, in order. -/
theorem exists_places_filterMap {α β : Type} (g : α → Option β) (xs : List α) :
    ∃ places : List Nat, places.Pairwise (· < ·) ∧
      (∀ i, i ∈ places ↔ ∃ b, xs[i]?.bind g = some b) ∧
      List.Forall₂ (fun i b => xs[i]?.bind g = some b) places (xs.filterMap g) := by
  induction xs with
  | nil => exact ⟨[], List.Pairwise.nil, by simp, List.Forall₂.nil⟩
  | cons x xs ih =>
    obtain ⟨places, hsorted, hmem, hvalues⟩ := ih
    have hshift : List.Forall₂ (fun i b => (x :: xs)[i]?.bind g = some b) (places.map (· + 1))
        (xs.filterMap g) := by
      rw [forall₂_map_left_iff]
      simpa using hvalues
    have hlater : (places.map (· + 1)).Pairwise (· < ·) :=
      hsorted.map _ fun i j hij => Nat.succ_lt_succ hij
    cases hx : g x with
    | none =>
      refine ⟨places.map (· + 1), hlater, ?_, by simpa [hx] using hshift⟩
      rintro (_ | i)
      · simp [hx]
      · simpa using hmem i
    | some b =>
      refine ⟨0 :: places.map (· + 1), ?_, ?_, ?_⟩
      · rw [pairwise_cons]
        exact ⟨by simp, hlater⟩
      · rintro (_ | i)
        · simp [hx]
        · simpa using hmem i
      · simp_all

/-! ## Pairs of lines -/

/-- The frame that a line makes of the header before it, if there is one, the line is a location
and the path is not marked. -/
def joined? (o : Options) (header : Option (Text × Int)) (line : Text) : Option Frame :=
  header.bind fun h => (location? line).bind fun l =>
    (located? h.1 h.2 l.1 l.2.1 l.2.2).filter fun f => !o.excludes f.file

theorem headerFrame?_of_location {line : Text} (hline : (location? line).isSome) (c : Convention) :
    headerFrame? c line = none := by
  obtain ⟨⟨path, num, col⟩, hlocation⟩ := Option.isSome_iff_exists.mp hline
  have hheader : header? line = none := by
    rw [Option.eq_none_iff_forall_ne_some]
    rintro ⟨depth, symbol⟩ hheader
    exact (header?_eq_some_iff.mp hheader).not_isLocation (location?_eq_some_iff.mp hlocation)
  rw [headerFrame?, hheader]
  rfl

theorem backtraceFrom_cons (o : Options) (pending : Option (Text × Int)) (line : Text)
    (rest : List Text) :
    backtraceFrom o pending (line :: rest) =
      (joined? o pending line).toList ++ backtraceFrom o (headerFrame? o.convention line) rest := by
  cases hline : location? line with
  | none =>
    rw [backtraceFrom_other (.inr hline)]
    cases pending <;> simp [joined?, hline]
  | some location =>
    cases pending with
    | none =>
      rw [backtraceFrom_other (.inl rfl)]
      simp [joined?]
    | some header =>
      rw [backtraceFrom_location hline, headerFrame?_of_location (by simp [hline])]
      cases hframe : located? header.1 header.2 location.1 location.2.1 location.2.2 with
      | none => simp [joined?, hline, hframe, Options.kept]
      | some f => grind [joined?, Options.kept]

/-- All lines: the first may complete what is pending, and each later one the line before it. -/
theorem backtraceFrom_eq (o : Options) (pending : Option (Text × Int)) (lines : List Text) :
    backtraceFrom o pending lines = (lines.head?.bind (joined? o pending)).toList ++
      (lines.zip lines.tail).filterMap fun pair =>
        joined? o (headerFrame? o.convention pair.1) pair.2 := by
  induction lines generalizing pending with
  | nil => rfl
  | cons line rest ih =>
    rw [backtraceFrom_cons, ih, head?_cons, Option.bind_some, tail_cons]
    cases rest with
    | nil => simp
    | cons next rest => grind

/-! ## Frames at places -/

/-- At this place a header stands, and its location stands on the next line. Their numbers fit,
the path is not marked, and the frame is what the two lines tell. -/
def FrameAt (o : Options) (lines : List Text) (i : Nat) (f : Frame) : Prop :=
  ∃ header location depth symbol num col, lines[i]? = some header ∧ lines[i + 1]? = some location ∧
    IsHeader depth symbol header ∧ IsLocation f.file num col location ∧
    number? depth = some f.depth ∧ number? num = some f.line ∧ number? col = some f.col ∧
    f.ident = identOf o.convention symbol ∧ ¬ Marked o.exclude f.file

theorem joined?_eq_some_iff {o : Options} {header location : Text} {f : Frame} :
    joined? o (headerFrame? o.convention header) location = some f ↔
      ∃ depth symbol num col, IsHeader depth symbol header ∧ IsLocation f.file num col location ∧
        number? depth = some f.depth ∧ number? num = some f.line ∧ number? col = some f.col ∧
        f.ident = identOf o.convention symbol ∧ ¬ Marked o.exclude f.file := by
  simp only [← header?_eq_some_iff, ← location?_eq_some_iff, ← excludes_iff]
  constructor
  · intro h
    simp only [joined?, headerFrame?, located?, Option.bind_eq_bind, Option.bind_eq_some_iff,
      Option.filter_eq_some_iff, Option.map_eq_some_iff, Option.some.injEq, Prod.exists,
      Prod.mk.injEq] at h
    grind
  · rintro ⟨depth, symbol, num, col, hheader, hlocation, hdepth, hnum, hcol, hident, hkept⟩
    simp only [joined?, headerFrame?, located?, hheader, hlocation, hdepth, hnum, hcol,
      Option.bind_eq_bind, Option.bind_some, Option.map_some, ← hident]
    simp [Option.filter, hkept]

theorem frameAt_iff {o : Options} {lines : List Text} {i : Nat} {f : Frame} :
    FrameAt o lines i f ↔ (lines.zip lines.tail)[i]?.bind
      (fun pair => joined? o (headerFrame? o.convention pair.1) pair.2) = some f := by
  rw [Option.bind_eq_some_iff]
  constructor
  · rintro ⟨header, location, depth, symbol, num, col, hheader, hlocation, htells⟩
    refine ⟨(header, location), ?_, joined?_eq_some_iff.mpr ⟨depth, symbol, num, col, htells⟩⟩
    rw [getElem?_zip_eq_some, getElem?_tail]
    exact ⟨hheader, hlocation⟩
  · rintro ⟨⟨header, location⟩, hpair, hjoined⟩
    rw [getElem?_zip_eq_some, getElem?_tail] at hpair
    obtain ⟨depth, symbol, num, col, htells⟩ := joined?_eq_some_iff.mp hjoined
    exact ⟨header, location, depth, symbol, num, col, hpair.1, hpair.2, htells⟩

/-- **Adjacent lines make frames.**  Whatever the lines and the options, reading a backtrace gives,
in order, exactly one frame for each place at which a header stands whose location is the next
line: with a depth that fits, a line and a column that fit, and a path that is not marked. These
two lines determine the frame, and no other line has a part in it. -/
theorem backtrace_pairs_adjacent_lines (o : Options) (lines : List Text) :
    ∃ places : List Nat, places.Pairwise (· < ·) ∧
      (∀ i, i ∈ places ↔ ∃ f, FrameAt o lines i f) ∧
      (∀ i f g, FrameAt o lines i f → FrameAt o lines i g → f = g) ∧
      List.Forall₂ (FrameAt o lines) places (parseBacktrace o lines) := by
  have hframes : parseBacktrace o lines = (lines.zip lines.tail).filterMap fun pair =>
      joined? o (headerFrame? o.convention pair.1) pair.2 := by
    rw [parseBacktrace, backtraceFrom_eq]
    cases lines <;> rfl
  obtain ⟨places, hsorted, hmem, hvalues⟩ := exists_places_filterMap
    (fun pair => joined? o (headerFrame? o.convention pair.1) pair.2) (lines.zip lines.tail)
  rw [← hframes] at hvalues
  refine ⟨places, hsorted, ?_, ?_, ?_⟩
  · intro i
    rw [hmem i]
    exact exists_congr fun f => frameAt_iff.symm
  · intro i f g hf hg
    exact Option.some.inj ((frameAt_iff.mp hf).symm.trans (frameAt_iff.mp hg))
  · exact hvalues.imp fun i f hframe => frameAt_iff.mpr hframe

end FaultRepair.Trace
