/-
# Excluding frames is filtering them

Frames are left out while a trace is read, in the middle of pairing its lines. Reading with
markers is nevertheless reading without them and dropping the marked frames afterwards: a
location that is left out still closes the header before it, a call that is left out still
takes its two lines and counts as a level of the stack, and no later line is paired in
another way.
-/

import FaultRepair.Trace.Parse
import FaultRepair.Proofs.Text.Cutting

namespace FaultRepair.Trace

/-! ## Marked frames -/

/-- The path contains a marker; empty markers do not count. -/
def Marked (markers : List Text) (path : Text) : Prop := ∃ m ∈ markers, m ≠ [] ∧ m <:+: path

theorem excludes_iff {o : Options} {path : Text} : o.excludes path = true ↔
    Marked o.exclude path := by
  simp [Options.excludes, Marked, Text.contains_iff]

instance (markers : List Text) (path : Text) : Decidable (Marked markers path) :=
  decidable_of_iff _ (excludes_iff (o := { exclude := markers }))

variable (o : Options)

/-- The same way of reading, without markers. -/
def Options.unmarked : Options := { o with exclude := [] }

@[simp]
theorem unmarked_excludes (path : Text) : o.unmarked.excludes path = false := rfl

@[simp]
theorem unmarked_convention : o.unmarked.convention = o.convention := rfl

@[simp]
theorem unmarked_format : o.unmarked.format = o.format := rfl

def Options.kept (frames : List Frame) : List Frame :=
  frames.filter fun f => !o.excludes f.file

/-! ## Backtraces -/

/-- The frame that a location makes of the header before it; numbers that do not fit make
none. -/
def located? (ident : Text) (depth : Int) (path num col : Text) : Option Frame :=
  (number? num).bind fun l => (number? col).map fun c =>
    { ident := ident, file := path, line := l, col := c, depth := depth }

/-- A location after a header closes it, whether its frame is kept or not. -/
theorem backtraceFrom_location {line path num col : Text}
    (hline : location? line = some (path, num, col)) (o : Options) (ident : Text) (depth : Int)
    (rest : List Text) :
    backtraceFrom o (some (ident, depth)) (line :: rest) =
      o.kept (located? ident depth path num col).toList ++ backtraceFrom o none rest := by
  simp only [backtraceFrom, hline, located?]
  cases number? num with
  | none => rfl
  | some l =>
    cases number? col with
    | none => rfl
    | some c => grind [Options.kept]

/-- Any other line may be a header, and drops the header before it. -/
theorem backtraceFrom_other {pending : Option (Text × Int)} {line : Text}
    (hline : pending = none ∨ location? line = none) (o : Options) (rest : List Text) :
    backtraceFrom o pending (line :: rest) =
      backtraceFrom o (headerFrame? o.convention line) rest := by
  rw [backtraceFrom]
  grind

theorem backtraceFrom_eq_kept (pending : Option (Text × Int)) (lines : List Text) :
    backtraceFrom o pending lines = o.kept (backtraceFrom o.unmarked pending lines) := by
  induction lines generalizing pending with
  | nil => rfl
  | cons line rest ih =>
    cases hline : location? line with
    | none =>
      rw [backtraceFrom_other (.inr hline), backtraceFrom_other (.inr hline), ih]
      rfl
    | some location =>
      cases pending with
      | none =>
        rw [backtraceFrom_other (.inl rfl), backtraceFrom_other (.inl rfl), ih]
        rfl
      | some header =>
        rw [backtraceFrom_location hline, backtraceFrom_location hline, ih]
        simp [Options.kept]

/-! ## Stacks of goroutines -/

/-- A function and its location take two lines and are one level of the stack, whether their
frame is kept or not. -/
theorem stackFrom_call {fn loc symbol path num : Text} {l : Int}
    (hend : ¬ ((Text.trimSpace fn).isEmpty || isGoroutine fn) = true)
    (hfn : function? fn = some symbol) (hloc : stackLocation? loc = some (path, num))
    (hnum : number? num = some l) (o : Options) (depth : Nat) (rest : List Text) :
    stackFrom o depth (fn :: loc :: rest) =
      o.kept [⟨identOf o.convention symbol, path, l, 0, depth⟩] ++
        stackFrom o (depth + 1) rest := by
  grind [stackFrom, Options.kept]

theorem stackFrom_eq_kept (depth : Nat) (lines : List Text) :
    stackFrom o depth lines = o.kept (stackFrom o.unmarked depth lines) := by
  fun_induction stackFrom o depth lines with
  | case1 depth fn loc rest hend =>
    rw [stackFrom, if_pos hend]
    rfl
  | case2 depth fn loc rest hend symbol path num hloc hfn hnum ih =>
    rw [ih, stackFrom, if_neg hend, hfn, hloc]
    simp only [hnum]
  | case3 depth fn loc rest hend symbol path num hloc hfn l hnum hmarked ih =>
    rw [ih, stackFrom_call hend hfn hloc hnum]
    simp [Options.kept, hmarked]
  | case4 depth fn loc rest hend symbol path num hloc hfn l hnum hmarked ih =>
    rw [ih, stackFrom_call hend hfn hloc hnum]
    simp [Options.kept, hmarked]
  | case5 depth fn loc rest hend hother ih => grind [stackFrom.eq_1]
  | case6 depth lines hshort =>
    rw [stackFrom.eq_2 _ _ _ hshort]
    rfl

/-! ## Traces -/

/-- **Exclusion is a pure filter.**  Whatever the text, the way of reading and the markers,
reading fails exactly where reading without markers fails, and in the same way; otherwise it
gives the frames of that reading, unchanged and in order, without those whose path contains a
marker. -/
theorem parse_eq_filter (c : Convention) (format : Option Format) (markers : List Text) (t : Text) :
    parse ⟨c, format, markers⟩ t =
      (parse ⟨c, format, []⟩ t).map fun frames => frames.filter fun f =>
        ¬ Marked markers f.file := by
  have hkept : ∀ frames : List Frame, Options.kept ⟨c, format, markers⟩ frames =
      frames.filter fun f => ¬ Marked markers f.file := by
    intro frames
    refine List.filter_congr fun f _ => ?_
    rw [Bool.eq_iff_iff, decide_eq_true_eq, ← excludes_iff (o := ⟨c, format, markers⟩)]
    simp
  rw [parse, parse]
  cases readLines t with
  | error e => rfl
  | ok lines =>
    simp only [bind, Except.bind]
    cases format.getD (detectFormat lines) with
    | backtrace =>
      show Except.ok (parseBacktrace _ lines) = Except.ok _
      rw [parseBacktrace, backtraceFrom_eq_kept, hkept]
      rfl
    | goroutine =>
      show Except.ok (parseGoroutine _ lines) = Except.ok _
      rw [parseGoroutine, stackFrom_eq_kept, hkept]
      rfl

end FaultRepair.Trace
