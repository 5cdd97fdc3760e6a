/-
# Moving over a text

What the small moves of the scanner do: passing over characters, over the end of a line, and
over the blanks up to the next token. A move changes the place of the scanner and nothing else.

The number of steps of a run is bounded by the characters that the steps pass over, so a run
over a text never stops for lack of steps.
-/

import FaultRepair.Yaml.Writer
import Mathlib.Data.List.TakeDrop
import Mathlib.Data.List.TakeWhile

namespace FaultRepair.Yaml.Scanner

open List

open Text (Rune)

variable {back body tail front : List Rune} {r : Rune} {p : Rune → Bool} {width n : Nat}

/-! ## Places -/

/-- The second scanner is the first one at another place. -/
def MovedTo (s : Scanner) (rest : List Rune) (column : Nat) (s' : Scanner) : Prop :=
  ∃ index line, s' = { s with rest, index, line, column }

theorem MovedTo.rest_eq {s s' : Scanner} {rest : List Rune} {column : Nat}
    (h : MovedTo s rest column s') : s'.rest = rest := by
  obtain ⟨index, line, rfl⟩ := h
  rfl

theorem MovedTo.column_eq {s s' : Scanner} {rest : List Rune} {column : Nat}
    (h : MovedTo s rest column s') : s'.column = column := by
  obtain ⟨index, line, rfl⟩ := h
  rfl

theorem MovedTo.trans {s s' s'' : Scanner} {rest rest' : List Rune} {column column' : Nat}
    (h : MovedTo s rest column s') (h' : MovedTo s' rest' column' s'') :
    MovedTo s rest' column' s'' := by
  obtain ⟨index, line, rfl⟩ := h
  obtain ⟨index', line', rfl⟩ := h'
  exact ⟨index', line', rfl⟩

theorem MovedTo.refl (s : Scanner) : MovedTo s s.rest s.column s := ⟨s.index, s.line, rfl⟩

theorem skipMany_eq (s : Scanner) (n : Nat) :
    s.skipMany n =
      { s with rest := s.rest.drop n, index := s.index + n, column := s.column + n } := by
  induction n generalizing s with
  | zero => rfl
  | succ n ih =>
    rw [skipMany, ih, skip]
    simp only [drop_drop, Nat.add_assoc, Nat.add_comm 1 n]

variable {s : Scanner}

theorem movedTo_skipMany (hrest : s.rest = front ++ back) :
    MovedTo s back (s.column + front.length) (s.skipMany front.length) := by
  rw [skipMany_eq, hrest, drop_left]
  exact ⟨_, _, rfl⟩

theorem movedTo_skip (hrest : s.rest = r :: back) :
    MovedTo s back (s.column + 1) s.skip := by
  rw [skip, hrest]
  exact ⟨_, _, rfl⟩

/-- Characters of a class are passed over up to one that is not, or up to the bound. -/
theorem skipWhile_eq (hrest : s.rest = front ++ back)
    (hfront : ∀ r ∈ front, p r = true) (hback : (∀ r ∈ back.head?, p r = false) ∨ n = front.length)
    (hn : front.length ≤ n) : skipWhile p n s = s.skipMany front.length := by
  induction front generalizing s n with
  | nil =>
    cases n with
    | zero => rfl
    | succ n => grind [skipWhile, skipMany]
  | cons r more ih =>
    obtain ⟨n, rfl⟩ : ∃ n', n = n' + 1 := Nat.exists_eq_add_one.mpr (by simp at hn; omega)
    grind [skip, skipWhile, skipMany]

theorem skipWhile_none (hrest : ∀ r ∈ s.rest.head?, p r = false) :
    skipWhile p n s = s :=
  skipWhile_eq (nil_append s.rest).symm (by simp) (.inl hrest) (Nat.zero_le n)

theorem movedTo_skipWhile (hrest : s.rest = front ++ back)
    (hfront : ∀ r ∈ front, p r = true) (hback : (∀ r ∈ back.head?, p r = false) ∨ n = front.length)
    (hn : front.length ≤ n) : MovedTo s back (s.column + front.length) (skipWhile p n s) := by
  rw [skipWhile_eq hrest hfront hback hn]
  exact movedTo_skipMany hrest

theorem movedTo_skipSpaces (hrest : s.rest = spaces width ++ back)
    (hback : back.head? ≠ some 32 ∨ n = width) (hn : width ≤ n) :
    MovedTo s back (s.column + width) (skipWhile (· == 32) n s) := by
  have hlength : (spaces width).length = width := length_replicate
  rw [← hlength] at hback hn ⊢
  refine movedTo_skipWhile hrest ?_ (hback.imp_left fun hne r hr => ?_) hn
  · intro r hr
    rw [eq_of_mem_replicate hr]
    rfl
  · rw [beq_eq_false_iff_ne]
    rintro rfl
    exact hne hr

/-- A line end that a file may hold as it is. -/
theorem isBreak_cases (hbreak : isBreak r = true) (hprintable : isPrintable r = true) :
    r = 10 ∨ r = 0x2028 ∨ r = 0x2029 := by
  simp only [isBreak, Bool.or_eq_true, beq_iff_eq] at hbreak
  rcases hbreak with (((rfl | rfl) | rfl) | rfl) | rfl
  · exact .inl rfl
  · cases hprintable
  · cases hprintable
  · exact .inr (.inl rfl)
  · exact .inr (.inr rfl)

theorem readLine_eq (hrest : s.rest = r :: back) (hbreak : isBreak r = true)
    (hprintable : isPrintable r = true) :
    s.readLine = ([r],
      { s with rest := back, index := s.index + 1, line := s.line + 1, column := 0 }) := by
  rcases isBreak_cases hbreak hprintable with rfl | rfl | rfl <;> simp [readLine, hrest, isBreak]

theorem readLine_spec (hrest : s.rest = r :: back) (hbreak : isBreak r = true)
    (hprintable : isPrintable r = true) : s.readLine.1 = [r] ∧ MovedTo s back 0 s.readLine.2 := by
  rw [readLine_eq hrest hbreak hprintable]
  exact ⟨rfl, _, _, rfl⟩

/-! ## Up to the next token -/

/-- A character that a token can start with. -/
structure Visible (r : Rune) : Prop where
  notBlank : isBlank r = false
  notBreak : isBreak r = false
  notComment : r ≠ 35

/-- What follows the line of a value: the end of the text, or a line that starts at a column. -/
inductive Onward : List Rune → Nat → List Rune → Prop where
  | finish : Onward [] 0 []
  | line {column : Nat} {r : Rune} {more : List Rune} (hvisible : Visible r)
      (hmark : column = 0 → r ≠ 45 ∧ r ≠ 46) :
      Onward (spaces column ++ r :: more) column (r :: more)

theorem Onward.eq {column : Nat} (h : Onward tail column body) : tail = spaces column ++ body := by
  cases h <;> rfl

theorem Onward.visible {column : Nat} (h : Onward tail column body) :
    ∀ r ∈ body.head?, Visible r := by
  cases h with
  | finish => simp
  | line hvisible hmark => simpa using hvisible

theorem not_space (hr : Visible r) (tabs : Bool) : (r == 32 || (tabs && r == 9)) = false := by
  have hblank := hr.notBlank
  simp only [isBlank, Bool.or_eq_false_iff] at hblank
  rw [hblank.1, hblank.2, Bool.and_false, Bool.or_false]

theorem movedTo_toNextToken (hrest : s.rest = spaces width ++ body)
    (hvisible : ∀ r ∈ body.head?, Visible r) (n : Nat) :
    MovedTo s body (s.column + width) (toNextToken (n + 1) s) := by
  have hmoved : MovedTo s body (s.column + (spaces width).length)
      (skipWhile (fun r => r == 32 || ((decide (s.flow > 0) || !s.keyAllowed) && r == 9))
        s.rest.length s) := by
    refine movedTo_skipWhile hrest ?_ (.inl fun r hr => not_space (hvisible r hr) _) ?_
    · intro r hr
      simp [eq_of_mem_replicate hr]
    · rw [hrest, length_append]
      exact Nat.le_add_right _ _
  rw [spaces, length_replicate] at hmoved
  rw [toNextToken]
  generalize skipWhile _ _ s = s' at hmoved
  have hplace := hmoved.rest_eq
  cases body with
  | nil => simpa [peek?, hplace, breakHere] using hmoved
  | cons r more =>
    have hr : Visible r := hvisible r rfl
    simpa [peek?, hplace, breakHere, hr.notBreak, hr.notComment] using hmoved

theorem movedTo_settle (hrest : s.rest = spaces width ++ body)
    (hvisible : ∀ r ∈ body.head?, Visible r) : MovedTo s body (s.column + width) s.settle :=
  movedTo_toNextToken hrest hvisible _

/-- At the start of a token nothing is passed over. -/
theorem settle_visible (hvisible : ∀ r ∈ s.rest.head?, Visible r) : s.settle = s := by
  have hskip : skipWhile (fun r => r == 32 || ((decide (s.flow > 0) || !s.keyAllowed) && r == 9))
      s.rest.length s = s :=
    skipWhile_none fun r hr => not_space (hvisible r hr) _
  rw [settle, toNextToken]
  simp only [hskip]
  cases hrest : s.rest with
  | nil => simp [peek?, hrest, breakHere]
  | cons r more =>
    have hr : Visible r := hvisible r (by rw [hrest]; rfl)
    simp [peek?, hrest, breakHere, hr.notBreak, hr.notComment]

/-- The end of a line and the start of the next one are passed over. -/
theorem movedTo_settle_line {column : Nat} (hflow : s.flow = 0)
    (hrest : s.rest = 10 :: tail) (honward : Onward tail column body) :
    MovedTo { s with keyAllowed := true } body column s.settle := by
  have hskip : skipWhile (fun r => r == 32 || ((decide (s.flow > 0) || !s.keyAllowed) && r == 9))
      s.rest.length s = s :=
    skipWhile_none (by simp [hrest])
  have hpeek : (s.peek? == some 35) = false := by rw [peek?, hrest]; rfl
  have hbreak : breakHere s.rest = true := by rw [hrest]; rfl
  rw [settle, toNextToken]
  simp only [hskip]
  simp only [hpeek, hbreak, readLine_eq hrest rfl rfl, hflow, Bool.false_eq_true, if_false, if_true,
    beq_self_eq_true]
  have hlength : s.rest.length = tail.length + 1 := by rw [hrest]; rfl
  rw [hlength]
  have hnext := movedTo_toNextToken (s := { s with
    rest :=
      tail, index := s.index + 1, line := s.line + 1, column := 0, flow := 0, keyAllowed := true })
    honward.eq honward.visible tail.length
  rw [Nat.zero_add] at hnext
  exact hnext

theorem length_settle_le (s : Scanner) : s.settle.rest.length ≤ s.rest.length := by
  have hskip : ∀ (p : Rune → Bool) (n : Nat) (s : Scanner),
      (skipWhile p n s).rest.length ≤ s.rest.length := by
    intro p n
    induction n with
    | zero => intro s; exact Nat.le_refl _
    | succ n ih => grind [skipWhile, skip]
  have hline : ∀ s : Scanner, s.readLine.2.rest.length ≤ s.rest.length := by
    intro s
    fun_cases readLine s <;> simp_all
    omega
  have hnext : ∀ (n : Nat) (s : Scanner), (toNextToken n s).rest.length ≤ s.rest.length := by
    intro n
    induction n with
    | zero => intro s; exact Nat.le_refl _
    | succ n ih =>
      intro s
      rw [toNextToken]
      generalize hfirst : skipWhile _ _ s = s₁
      have h₁ : s₁.rest.length ≤ s.rest.length := by rw [← hfirst]; exact hskip _ _ _
      generalize hsecond : (if s₁.peek? == some 35 then _ else s₁) = s₂
      have h₂ : s₂.rest.length ≤ s₁.rest.length := by
        rw [← hsecond]
        split
        · exact hskip _ _ _
        · exact Nat.le_refl _
      grind
  exact hnext _ s

/-! ## States -/

/-- The scanner outside of all brackets, at a place, with the columns of the open blocks, the
tokens so far, and no key in sight. -/
structure Stands (s : Scanner) (rest : List Rune) (column : Nat) (indents : List Int)
    (tokens : List Token) (keyAllowed : Bool) : Prop where
  rest_eq : s.rest = rest
  column_eq : s.column = column
  flow_eq : s.flow = 0
  indents_eq : s.indent :: s.indents = indents
  tokens_eq : s.tokens.toList = tokens
  keyAllowed_eq : s.keyAllowed = keyAllowed
  keys_eq : ∃ k, s.keys = [k] ∧ k.possible = false
  done_eq : s.done = false

/-- The scanner stands at the next token, where a key may start, once the blanks are passed. -/
structure Ready (s : Scanner) (rest : List Rune) (column : Nat) (indents : List Int)
    (tokens : List Token) : Prop where
  stands : Stands s.settle rest column indents tokens true
  done_eq : s.done = false

variable {s' : Scanner} {rest rest' : List Rune} {column column' : Nat} {i : Int} {is : List Int}
  {indents : List Int} {tokens : List Token} {keyAllowed : Bool}

theorem Stands.move (h : Stands s rest column indents tokens keyAllowed)
    (hmoved : MovedTo s rest' column' s') : Stands s' rest' column' indents tokens keyAllowed := by
  obtain ⟨index, line, rfl⟩ := hmoved
  exact ⟨rfl, rfl, h.flow_eq, h.indents_eq, h.tokens_eq, h.keyAllowed_eq, h.keys_eq, h.done_eq⟩

theorem Stands.skip (h : Stands s (r :: rest) column indents tokens keyAllowed) :
    Stands s.skip rest (column + 1) indents tokens keyAllowed :=
  h.move (h.column_eq ▸ movedTo_skip h.rest_eq)

theorem Stands.push (h : Stands s rest column indents tokens keyAllowed) (t : Token) :
    Stands (s.push t) rest column indents (tokens ++ [t]) keyAllowed :=
  ⟨h.rest_eq, h.column_eq, h.flow_eq, h.indents_eq, by simp [Scanner.push, h.tokens_eq],
    h.keyAllowed_eq, h.keys_eq, h.done_eq⟩

theorem Stands.allow (h : Stands s rest column indents tokens keyAllowed) (keyAllowed' : Bool) :
    Stands { s with keyAllowed := keyAllowed' } rest column indents tokens keyAllowed' :=
  ⟨h.rest_eq, h.column_eq, h.flow_eq, h.indents_eq, h.tokens_eq, rfl, h.keys_eq, h.done_eq⟩

theorem Stands.indent_eq (h : Stands s rest column (i :: is) tokens keyAllowed) : s.indent = i :=
  (cons.inj h.indents_eq).1

/-- Where the scanner stands at a token already. -/
theorem Stands.ready (h : Stands s rest column indents tokens true)
    (hvisible : ∀ r ∈ rest.head?, Visible r) : Ready s rest column indents tokens := by
  refine ⟨?_, h.done_eq⟩
  rw [settle_visible (h.rest_eq ▸ hvisible)]
  exact h

/-- Where the scanner stands one space before a token. -/
theorem Stands.ready_space {more : List Rune}
    (h : Stands s (32 :: r :: more) column indents tokens true) (hvisible : Visible r) :
    Ready s (r :: more) (column + 1) indents tokens := by
  have hrest : s.rest = spaces 1 ++ (r :: more) := h.rest_eq
  have hmoved := movedTo_settle hrest (by simpa using hvisible)
  rw [h.column_eq] at hmoved
  exact ⟨h.move hmoved, h.done_eq⟩

/-- Where the scanner stands at the end of a line. -/
theorem Stands.ready_line {column' : Nat}
    (h : Stands s (10 :: tail) column indents tokens keyAllowed)
    (honward : Onward tail column' body) : Ready s body column' indents tokens :=
  ⟨(h.allow true).move (movedTo_settle_line h.flow_eq h.rest_eq honward), h.done_eq⟩

/-! ## Steps -/

/-- A run gets from one scanner to another, in no more steps than there are characters between
them. -/
def Leads (s s' : Scanner) : Prop :=
  ∃ n, n + s'.rest.length ≤ s.rest.length ∧ ∀ m, run (m + n) s = run m s'

theorem Leads.trans {s'' : Scanner} (h : Leads s s') (h' : Leads s' s'') : Leads s s'' := by
  obtain ⟨n, hn, hrun⟩ := h
  obtain ⟨n', hn', hrun'⟩ := h'
  refine ⟨n' + n, by omega, fun m => ?_⟩
  rw [← Nat.add_assoc, hrun, hrun']

theorem Leads.step (hdone : s.done = false) (hstep : s.step? = some s')
    (hlength : s'.rest.length < s.rest.length) : Leads s s' := by
  refine ⟨1, by omega, fun m => ?_⟩
  rw [run, hdone, hstep]
  rfl

/-- A block that is not indented more than a column stays open there. -/
theorem unrollTo_of_le {column : Int} (h : s.indent ≤ column) : s.unrollTo column = s := by
  rw [unrollTo, unroll]
  simp [h]

theorem Stands.step_space {more : List Rune}
    (h : Stands s (32 :: r :: more) column (i :: is) tokens keyAllowed) (hvisible : Visible r)
    (hindent : i ≤ column + 1) :
    ∃ s', s.step? = s'.token? ∧ Stands s' (r :: more) (column + 1) (i :: is) tokens keyAllowed := by
  have hrest : s.rest = spaces 1 ++ (r :: more) := h.rest_eq
  have hmoved : MovedTo s (r :: more) (s.column + 1) s.settle :=
    movedTo_settle hrest (by simpa using hvisible)
  rw [h.column_eq] at hmoved
  have hsettled := h.move hmoved
  refine ⟨s.settle, ?_, hsettled⟩
  rw [step?, unrollTo_of_le]
  rw [hsettled.indent_eq, hsettled.column_eq]
  exact_mod_cast hindent

theorem Ready.step_eq (h : Ready s rest column (i :: is) tokens) (hindent : i ≤ column) :
    s.step? = s.settle.token? := by
  rw [step?, unrollTo_of_le]
  rwa [h.stands.indent_eq, h.stands.column_eq]

/-- A step from where the scanner is ready. -/
theorem Ready.leads (h : Ready s rest column indents tokens) (hstep : s.step? = some s')
    (hlength : s'.rest.length < rest.length) : Leads s s' := by
  refine Leads.step h.done_eq hstep (Nat.lt_of_lt_of_le hlength ?_)
  rw [← h.stands.rest_eq]
  exact length_settle_le s

end FaultRepair.Yaml.Scanner
