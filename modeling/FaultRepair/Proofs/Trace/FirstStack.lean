/-
# Only the first stack counts

The stack of the first goroutine ends at the first line that is blank or a header of another
stack. The reading looks for that end only where it expects a function, and takes a function and
its location together, so an end could be passed over as the second line of a pair. It never is:
a location has ink and starts with white space, which no end has both.

Nor does it matter that pairs are taken greedily. A location is not a function, since it starts
with white space, so every two adjacent lines of the right forms are taken as a pair, and the
depth of a frame is the number of such pairs before it.
-/

import FaultRepair.Proofs.Trace.Pairing

namespace FaultRepair.Trace

open List Option Text

variable {stack : List Text} {loc line fn : Text} {o : Options} {i : Nat}

/-- A line that ends a stack: it is blank, or another stack starts with it. -/
def EndsStack (line : Text) : Prop := trimSpace line = [] ∨ isGoroutine line = true

theorem endsStack_iff : ((trimSpace line).isEmpty || isGoroutine line) = true ↔ EndsStack line := by
  simp [EndsStack]

instance (line : Text) : Decidable (EndsStack line) := decidable_of_iff _ endsStack_iff

/-! ## Locations, functions and ends -/

/-- Whether a text starts with ink is a matter of its first byte. -/
theorem startsInk_of_startsInk_trimEnd (hline : startsInk (trimEnd line) = true) :
    startsInk line = true := by
  obtain ⟨-, tail, -, hwhole⟩ := trimEnd_spec line
  cases htrim : trimEnd line with
  | nil =>
    rw [htrim] at hline
    cases hline
  | cons b rest =>
    rw [htrim] at hline hwhole
    rw [hwhole]
    exact hline

theorem startsInk_of_function (hfn : (function? fn).isSome) : startsInk fn = true := by
  apply startsInk_of_startsInk_trimEnd
  by_contra hblank
  have hcreated : dropLead? "created by " (trimEnd fn) = none := by
    rw [← not_isSome_iff_eq_none, dropLead?_isSome_iff]
    rintro ⟨rest, hrest⟩
    rw [← hrest] at hblank
    exact hblank rfl
  simp [function?, hcreated, hblank] at hfn

theorem startsInk_of_isGoroutine (hline : isGoroutine line = true) : startsInk line = true := by
  apply startsInk_of_startsInk_trimEnd
  cases hlead : dropLead? "goroutine " (trimEnd line) with
  | none => simp [isGoroutine, hlead] at hline
  | some rest =>
    rw [dropLead?_eq_some_iff.mp hlead]
    rfl

theorem mem_of_mem_withoutOffset {back : Text} {b : UInt8} (hb : b ∈ withoutOffset back) :
    b ∈ back := by
  rw [withoutOffset] at hb
  split at hb
  · rename_i rest hoffset
    split at hb
    · exact hb
    · apply dropWhile_subset isHexDigit
      rw [hoffset]
      simp [hb]
  · exact hb

theorem stackLocation?_spec (hloc : (stackLocation? loc).isSome) :
    startsInk loc = false ∧ 47 ∈ loc := by
  obtain ⟨⟨path, num⟩, hloc⟩ := isSome_iff_exists.mp hloc
  simp only [stackLocation?, bind_eq_bind, bind_none, ite_none_left_eq_some,
    bind_eq_some_iff] at hloc
  obtain ⟨hindent, ⟨ds, front⟩, hnum, path', hpath, -⟩ := hloc
  constructor
  · cases loc with
    | nil => rfl
    | cons b rest =>
      by_contra hink
      exact hindent (by simp_all [startsInk])
  · obtain ⟨-, hback⟩ := colonDigits?_eq_some_iff.mp hnum
    obtain ⟨rfl, ⟨b, name, hrooted⟩, -⟩ := rooted?_eq_some_iff.mp hpath
    have hslash : 47 ∈
        (withoutOffset ((loc.dropWhile isBlank).reverse.dropWhile isBlank)).reverse := by
      rw [hback, hrooted]
      simp
    have hinside :=
      dropWhile_subset isBlank (mem_of_mem_withoutOffset (mem_reverse.mp hslash))
    exact dropWhile_subset isBlank (mem_reverse.mp hinside)

theorem not_endsStack_of_stackLocation (hloc : (stackLocation? loc).isSome) : ¬ EndsStack loc := by
  obtain ⟨hblank, hslash⟩ := stackLocation?_spec hloc
  rintro (hnothing | hheader)
  · exact trimSpace_ne_nil hslash (by decide) rfl hnothing
  · rw [startsInk_of_isGoroutine hheader] at hblank
    cases hblank

theorem function?_of_stackLocation (hloc : (stackLocation? loc).isSome) : function? loc = none := by
  rw [← not_isSome_iff_eq_none]
  intro hfn
  have hblank := (stackLocation?_spec hloc).1
  rw [startsInk_of_function hfn] at hblank
  cases hblank

/-! ## One line of a stack -/

/-- The level of a stack that two lines make: the symbol, the path and the line. A line that does
not fit makes none. -/
def level? (fn loc : Text) : Option (Text × Text × Int) :=
  (function? fn).bind fun symbol => (stackLocation? loc).bind fun place =>
    (number? place.2).map fun l => (symbol, place.1, l)

/-- The frame of a level at a depth, unless its path is marked. -/
def framed (o : Options) (depth : Nat) (level : Text × Text × Int) : Option Frame :=
  if o.excludes level.2.1 then none
  else some ⟨identOf o.convention level.1, level.2.1, level.2.2, 0, depth⟩

theorem stackFrom_short (o : Options) (depth : Nat) (lines : List Text)
    (hlines : lines.length ≤ 1) :
    stackFrom o depth lines = [] := by
  rw [stackFrom.eq_2]
  rintro fn loc rest rfl
  simp at hlines

/-- A location that stands where a function is expected is passed over. -/
theorem stackFrom_location (hloc : (stackLocation? loc).isSome) (o : Options) (depth : Nat)
    (rest : List Text) : stackFrom o depth (loc :: rest) = stackFrom o depth rest := by
  cases rest with
  | nil =>
    rw [stackFrom_short o depth [loc] (Nat.le_refl 1),
      stackFrom_short o depth [] (Nat.zero_le 1)]
  | cons next rest =>
    rw [stackFrom, if_neg (endsStack_iff.not.mpr (not_endsStack_of_stackLocation hloc)),
      function?_of_stackLocation hloc]

/-- One line of a stack: with the next one it may be a level. -/
theorem stackFrom_cons (hfn : ¬ EndsStack fn) (o : Options) (depth : Nat) (loc : Text)
    (rest : List Text) :
    stackFrom o depth (fn :: loc :: rest) =
      (level? fn loc).elim (stackFrom o depth (loc :: rest)) fun level =>
        (framed o depth level).toList ++ stackFrom o (depth + 1) (loc :: rest) := by
  rw [stackFrom, if_neg (endsStack_iff.not.mpr hfn)]
  cases hsymbol : function? fn with
  | none => simp [level?, hsymbol]
  | some symbol =>
    cases hloc : stackLocation? loc with
    | none => simp [level?, hsymbol, hloc]
    | some place =>
      have hsome : (stackLocation? loc).isSome := by simp [hloc]
      have hskip := stackFrom_location hsome o
      cases hnum : number? place.2 with
      | none => simp [level?, hsymbol, hloc, hnum, hskip]
      | some l =>
        cases hmarked : o.excludes place.1 <;>
          simp [level?, hsymbol, hloc, hnum, hskip, framed, hmarked]

/-! ## The lines of the first stack -/

def firstStack (lines : List Text) : List Text :=
  ((lines.dropWhile (!isGoroutine ·)).drop 1).takeWhile fun line => ¬ EndsStack line

theorem stackFrom_end (hfn : EndsStack fn) (o : Options) (depth : Nat) (rest : List Text) :
    stackFrom o depth (fn :: rest) = [] := by
  cases rest with
  | nil => exact stackFrom_short o depth [fn] (Nat.le_refl 1)
  | cons loc rest => rw [stackFrom, if_pos (endsStack_iff.mpr hfn)]

theorem stackFrom_eq_takeWhile (o : Options) (depth : Nat) (lines : List Text) :
    stackFrom o depth lines = stackFrom o depth (lines.takeWhile fun line => ¬ EndsStack line) := by
  induction lines generalizing depth with
  | nil => rfl
  | cons fn rest ih =>
    by_cases hfn : EndsStack fn
    · rw [takeWhile_cons_of_neg (by simpa using hfn), stackFrom_end hfn]
      exact (stackFrom_short o depth [] (Nat.zero_le 1)).symm
    · rw [takeWhile_cons_of_pos (by simpa using hfn)]
      cases rest with
      | nil => rfl
      | cons loc rest =>
        rw [stackFrom_cons hfn]
        by_cases hloc : EndsStack loc
        · -- The end of the stack is no location, so it is not taken with the line before it.
          have hnone : stackLocation? loc = none := by
            rw [← not_isSome_iff_eq_none]
            exact fun hsome => not_endsStack_of_stackLocation hsome hloc
          have hlevel : level? fn loc = none := by
            cases function? fn <;> simp [level?, hnone]
          rw [hlevel, elim_none, takeWhile_cons_of_neg (by simpa using hloc),
            stackFrom_end hloc]
          exact (stackFrom_short o depth [fn] (Nat.le_refl 1)).symm
        · have hnext : (loc :: rest).takeWhile (fun line => ¬ EndsStack line) =
              loc :: rest.takeWhile fun line => ¬ EndsStack line :=
            takeWhile_cons_of_pos (by simpa using hloc)
          rw [hnext, stackFrom_cons hfn, ← hnext, ← ih, ← ih]

theorem parseGoroutine_eq (o : Options) (lines : List Text) :
    parseGoroutine o lines = stackFrom o 0 (firstStack lines) := by
  rw [parseGoroutine, stackFrom_eq_takeWhile]
  rfl

/-- The first stack is found behind whatever is no header, and ends whatever follows. -/
theorem firstStack_eq {before body : List Text} {header last : Text}
    (hbefore : ∀ line ∈ before, isGoroutine line = false) (hheader : isGoroutine header = true)
    (hbody : ∀ line ∈ body, ¬ EndsStack line) (hlast : EndsStack last) (rest : List Text) :
    firstStack (before ++ [header] ++ body ++ [last] ++ rest) = body := by
  have hdrop : (before ++ [header] ++ body ++ [last] ++ rest).dropWhile (!isGoroutine ·) =
      header :: (body ++ last :: rest) := by
    simp only [append_assoc, cons_append, nil_append]
    rw [dropWhile_append_of_pos (by simpa using hbefore),
      dropWhile_cons_of_neg (by simp [hheader])]
  rw [firstStack, hdrop, drop_one, tail_cons,
    takeWhile_append_of_pos (by simpa using hbody),
    takeWhile_cons_of_neg (by simpa using hlast), append_nil]

theorem firstStack_unended {body : List Text} {header : Text} (hheader : isGoroutine header = true)
    (hbody : ∀ line ∈ body, ¬ EndsStack line) : firstStack ([header] ++ body) = body := by
  rw [firstStack, singleton_append, dropWhile_cons_of_neg (by simp [hheader]),
    drop_one, tail_cons, takeWhile_eq_self_iff]
  simpa using hbody

/-! ## Levels and their depths -/

/-- The number of levels among pairs of lines. -/
def levelCount (pairs : List (Text × Text)) : Nat :=
  pairs.countP fun pair => (level? pair.1 pair.2).isSome

/-- The frame at a place of a stack: that of the level which this line and the next one make. Its
depth is the number of levels before it, marked ones included. -/
def stackFrame? (o : Options) (stack : List Text) (i : Nat) : Option Frame :=
  ((stack.zip stack.tail)[i]?.bind fun pair => level? pair.1 pair.2).bind
    (framed o (levelCount ((stack.zip stack.tail).take i)))

theorem stackFrom_eq_filterMap (hstack : ∀ line ∈ stack, ¬ EndsStack line) (o : Options)
    (depth : Nat) :
    stackFrom o depth stack = (range (stack.length - 1)).filterMap fun i =>
      ((stack.zip stack.tail)[i]?.bind fun pair => level? pair.1 pair.2).bind
        (framed o (depth + levelCount ((stack.zip stack.tail).take i))) := by
  induction stack generalizing depth with
  | nil => exact stackFrom_short o depth [] (Nat.zero_le 1)
  | cons fn rest ih =>
    cases rest with
    | nil => exact stackFrom_short o depth [fn] (Nat.le_refl 1)
    | cons loc rest =>
      have hrest := ih fun line hline => hstack line (mem_cons_of_mem fn hline)
      rw [stackFrom_cons (hstack fn mem_cons_self), length_cons, length_cons,
        Nat.add_sub_cancel, range_succ_eq_map, filterMap_cons, filterMap_map]
      cases hlevel : level? fn loc with
      | none => simp [hlevel, hrest, levelCount]
      | some level =>
        simp only [elim_some, hrest]
        cases hframe : framed o depth level <;>
          simp [hlevel, hframe, levelCount, Nat.add_assoc, Nat.add_comm 1]

/-- The frames of a stack are those at its places. -/
theorem exists_places_stackFrom (hstack : ∀ line ∈ stack, ¬ EndsStack line) (o : Options) :
    ∃ places : List Nat, places.Pairwise (· < ·) ∧
      (∀ i, i ∈ places ↔ ∃ f, stackFrame? o stack i = some f) ∧
      List.Forall₂ (fun i f => stackFrame? o stack i = some f) places (stackFrom o 0 stack) := by
  have hframes : stackFrom o 0 stack =
      (range (stack.length - 1)).filterMap (stackFrame? o stack) := by
    rw [stackFrom_eq_filterMap hstack]
    simp only [Nat.zero_add]
    rfl
  have hplace : ∀ i f, (range (stack.length - 1))[i]?.bind (stackFrame? o stack) = some f ↔
      stackFrame? o stack i = some f := by
    intro i f
    by_cases hi : i < stack.length - 1
    · rw [getElem?_range hi, bind_some]
    · simp [stackFrame?, hi]
  rw [hframes]
  simpa only [hplace] using
    exists_places_filterMap (stackFrame? o stack) (range (stack.length - 1))

theorem depth_of_stackFrame? {f : Frame} (hframe : stackFrame? o stack i = some f) :
    f.depth = levelCount ((stack.zip stack.tail).take i) := by
  obtain ⟨level, -, hlevel⟩ := bind_eq_some_iff.mp hframe
  rw [framed] at hlevel
  split at hlevel
  · cases hlevel
  · cases hlevel
    rfl

/-- A level is counted by all places after it. -/
theorem levelCount_lt {j : Nat} (hij : i < j) (hi : ∃ f, stackFrame? o stack i = some f) :
    levelCount ((stack.zip stack.tail).take i) < levelCount ((stack.zip stack.tail).take j) := by
  obtain ⟨f, hframe⟩ := hi
  obtain ⟨level, hlevel, -⟩ := bind_eq_some_iff.mp hframe
  obtain ⟨pair, hpair, hlevel⟩ := bind_eq_some_iff.mp hlevel
  have hnext : (stack.zip stack.tail).take (i + 1) = (stack.zip stack.tail).take i ++ [pair] := by
    rw [take_add_one, hpair, toList_some]
  calc levelCount ((stack.zip stack.tail).take i)
      < levelCount ((stack.zip stack.tail).take (i + 1)) := by
        simp [levelCount, hnext, hlevel]
    _ ≤ levelCount ((stack.zip stack.tail).take j) :=
        (take_prefix_take_left hij).sublist.countP_le

/-- At this place of a stack a function stands, and its location stands on the next line. The line
number fits, the path is not marked, and the frame is what the two lines tell; its depth is the
number of levels before this place, also of those that are marked. -/
def StackFrameAt (o : Options) (stack : List Text) (i : Nat) (f : Frame) : Prop :=
  ∃ fn loc symbol num, stack[i]? = some fn ∧ stack[i + 1]? = some loc ∧ function? fn = some symbol ∧
    stackLocation? loc = some (f.file, num) ∧ number? num = some f.line ∧
    f.ident = identOf o.convention symbol ∧ f.col = 0 ∧
    f.depth = levelCount ((stack.zip stack.tail).take i) ∧ ¬ Marked o.exclude f.file

theorem stackFrame?_eq_some_iff {f : Frame} :
    stackFrame? o stack i = some f ↔ StackFrameAt o stack i f := by
  simp only [stackFrame?, bind_eq_some_iff, level?, map_eq_some_iff, framed,
    ite_none_left_eq_some, some.injEq, Prod.exists, Prod.mk.injEq, StackFrameAt,
    ← excludes_iff]
  constructor
  · rintro ⟨_, _, _, ⟨fn, loc, hpair, symbol, hfn, path, num, hloc, l, hnum, rfl, rfl, rfl⟩,
      hkept, rfl⟩
    rw [getElem?_zip_eq_some, getElem?_tail] at hpair
    exact ⟨fn, loc, symbol, num, hpair.1, hpair.2, hfn, hloc, hnum, rfl, rfl, rfl, hkept⟩
  · rintro ⟨fn, loc, symbol, num, hfnAt, hlocAt, hfn, hloc, hnum, hident, hcol, hdepth, hkept⟩
    refine ⟨symbol, f.file, f.line,
      ⟨fn, loc, ?_, symbol, hfn, f.file, num, hloc, f.line, hnum, rfl, rfl, rfl⟩, hkept, ?_⟩
    · rw [getElem?_zip_eq_some, getElem?_tail]
      exact ⟨hfnAt, hlocAt⟩
    · rw [← hident, ← hcol, ← hdepth]

/-- **Only the first stack counts.**  What stands before its header and what stands after its end,
which is a blank line or the header of another stack, has no part in the result, however malformed
the lines between are. In every result the depths increase, and the depth of a frame is the number
of levels before it in the stack: of functions with a location on the next line whose line number
fits, marked ones included. -/
theorem first_stack_counts_alone (o : Options) :
    (∀ (before body rest : List Text) (header last : Text),
      (∀ line ∈ before, isGoroutine line = false) → isGoroutine header = true →
      (∀ line ∈ body, ¬ EndsStack line) → EndsStack last →
      parseGoroutine o (before ++ [header] ++ body ++ [last] ++ rest) =
        parseGoroutine o ([header] ++ body)) ∧
    ∀ lines : List Text, (parseGoroutine o lines).Pairwise (fun f g => f.depth < g.depth) ∧
      ∃ places : List Nat, places.Pairwise (· < ·) ∧
        (∀ i, i ∈ places ↔ ∃ f, StackFrameAt o (firstStack lines) i f) ∧
        List.Forall₂ (StackFrameAt o (firstStack lines)) places (parseGoroutine o lines) := by
  constructor
  · intro before body rest header last hbefore hheader hbody hlast
    rw [parseGoroutine_eq, parseGoroutine_eq, firstStack_eq hbefore hheader hbody hlast,
      firstStack_unended hheader hbody]
  · intro lines
    have hstack : ∀ line ∈ firstStack lines, ¬ EndsStack line := fun line hline => by
      simpa using mem_takeWhile_imp hline
    obtain ⟨places, hsorted, hmem, hframes⟩ := exists_places_stackFrom hstack o
    rw [← parseGoroutine_eq] at hframes
    have hdepths : (parseGoroutine o lines).map (·.depth) = places.map fun i : Nat =>
        (levelCount (((firstStack lines).zip (firstStack lines).tail).take i) : Int) := by
      rw [← forall₂_eq_eq_eq, forall₂_map_left_iff, forall₂_map_right_iff]
      exact hframes.flip.imp fun f i hframe => depth_of_stackFrame? hframe
    constructor
    · rw [← pairwise_map, hdepths, pairwise_map]
      refine hsorted.imp_of_mem ?_
      intro i j hi _ hij
      exact Int.ofNat_lt.mpr (levelCount_lt hij ((hmem i).mp hi))
    · simp only [stackFrame?_eq_some_iff] at hmem hframes
      exact ⟨places, hsorted, hmem, hframes⟩

/-- The first location has a line number that does not fit, and the second path is marked. -/
theorem crowded_stack_counts_alone :
    parseGoroutine { exclude := ["/lib/"] }
        ["panic: x", "goroutine 1 [running]:", "main.f(0x1)", "main.g(...)",
          "\t/a.go:99999999999999999999", "main.h()", "\t/lib/b.go:7 +0x1d", "\t/stray:1",
          "main.k()", "\t/c.go:9", "goroutine 2 [running]:", "main.m()", "\t/d.go:3"] =
      [⟨"k", "/c.go", 9, 0, 1⟩] := by
  refine ((first_stack_counts_alone { exclude := ["/lib/"] }).1 ["panic: x"]
    ["main.f(0x1)", "main.g(...)", "\t/a.go:99999999999999999999", "main.h()",
      "\t/lib/b.go:7 +0x1d", "\t/stray:1", "main.k()", "\t/c.go:9"]
    ["main.m()", "\t/d.go:3"] "goroutine 1 [running]:" "goroutine 2 [running]:"
    ?_ ?_ ?_ ?_).trans ?_
  · decide
  · decide
  · decide
  · decide
  · decide

end FaultRepair.Trace
