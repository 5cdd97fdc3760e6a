/-
# Blocks and the end of the text

The tokens that stand around scalars: the dash of an entry, an empty list, the tag of encoded
bytes, and the ends of blocks, which show only in the indentation of what follows them.
-/

import FaultRepair.Proofs.Yaml.Literal

namespace FaultRepair.Yaml.Scanner

open List

open Text (Rune)

variable {s s' : Scanner} {rest : List Rune} {column : Nat} {i : Int} {is : List Int}
  {tokens : List Token} {keyAllowed : Bool}

variable {more : List Rune}

/-! ## Ends of blocks -/

/-- Blocks that are indented more than a column end there. -/
theorem Stands.unrollTo {deeper : List Int} {limit : Int}
    (h : Stands s rest column (deeper ++ i :: is) tokens keyAllowed)
    (hdeeper : ∀ j ∈ deeper, limit < j) (hi : i ≤ limit) :
    Stands (s.unrollTo limit) rest column (i :: is)
      (tokens ++ replicate deeper.length .blockEnd) keyAllowed := by
  have hfuel : deeper.length < s.indents.length + 1 := by
    have hlength := congrArg length h.indents_eq
    simp at hlength
    omega
  rw [Scanner.unrollTo]
  generalize s.indents.length + 1 = n at hfuel
  induction deeper generalizing s tokens n with
  | nil =>
    obtain ⟨n, rfl⟩ := Nat.exists_eq_add_one.mpr hfuel
    rw [unroll]
    simpa [h.flow_eq, h.indent_eq, hi] using h
  | cons j deeper ih =>
    obtain ⟨n, rfl⟩ : ∃ n', n = n' + 1 := Nat.exists_eq_add_one.mpr (by omega)
    obtain ⟨hindent, hindents⟩ := cons.inj h.indents_eq
    have hj : ¬s.indent ≤ limit := by
      rw [hindent]
      exact Int.not_le.mpr (hdeeper j mem_cons_self)
    obtain ⟨outer, more, hmore⟩ : ∃ outer more, deeper ++ i :: is = outer :: more := by
      cases deeper <;> exact ⟨_, _, rfl⟩
    have hcons : s.indents = outer :: more := hindents.trans hmore
    rw [unroll]
    simp only [h.flow_eq, hj, hcons]
    have hnext : Stands { s.push .blockEnd with indent := outer, indents := more } rest column
        (deeper ++ i :: is) (tokens ++ [.blockEnd]) keyAllowed :=
      ⟨h.rest_eq, h.column_eq, h.flow_eq, hmore.symm, by simp [Scanner.push, h.tokens_eq],
        h.keyAllowed_eq, h.keys_eq, h.done_eq⟩
    grind

/-- At the end of the text all blocks end, and a run stops. -/
theorem Ready.finish {deeper : List Int} (h : Ready s [] 0 (deeper ++ [0, -1]) tokens)
    (hdeeper : ∀ j ∈ deeper, 0 < j) (n : Nat) :
    (run (n + 2) s).1.toList = tokens ++ replicate deeper.length .blockEnd ++
    [.blockEnd, .streamEnd] ∧
      (run (n + 2) s).2 = true := by
  have h₁ : Stands (s.settle.unrollTo 0) [] 0 [0, -1]
      (tokens ++ replicate deeper.length .blockEnd) true :=
    h.stands.unrollTo hdeeper (Int.le_refl 0)
  have hopen : [0, -1] = [0] ++ [(-1 : Int)] := rfl
  rw [hopen] at h₁
  have h₂ : Stands ((s.settle.unrollTo 0).unrollTo (-1)) [] 0 [-1] _ true :=
    h₁.unrollTo (by decide) (Int.le_refl _)
  obtain ⟨s₃, hremove, h₃⟩ := h₂.removeKey?_eq
  have hstep : s.step? = some { s₃.push .streamEnd with keyAllowed := false, done := true } := by
    rw [step?, h.stands.column_eq, Int.natCast_zero, token?, h₁.rest_eq]
    have hcolumn : ((s.settle.unrollTo 0).column != 0) = false := by simp [h₁.column_eq]
    simp only [streamEnd?, hcolumn, Bool.false_eq_true, if_false, hremove]
    rfl
  rw [run, h.done_eq, hstep]
  simp [run, Scanner.push, h₃.tokens_eq]

/-! ## Entries -/

theorem token?_dash (hrest : s.rest = 45 :: 32 :: more) (hcolumn : s.column ≠ 0) :
    s.token? = s.blockEntry? := by
  have hmarks := marksDocument_false hrest fun h => absurd h hcolumn
  rw [token?, hrest]
  simp [hmarks, blankOrEnd, isBlank]

/-- The dash of an entry; the first one opens a sequence. -/
theorem Stands.dash (h : Stands s (45 :: 32 :: more) column (i :: is) tokens true)
    (hcolumn : 0 < column) :
    ∃ s', s.token? = some s' ∧ Stands s' (32 :: more) (column + 1) (openAt column i is)
      (tokens ++ opening .blockSequenceStart column i ++ [.blockEntry]) true := by
  rw [token?_dash h.rest_eq (by rw [h.column_eq]; omega), blockEntry?, h.flow_eq, h.keyAllowed_eq,
    h.column_eq]
  have hroll : Stands (s.roll column none .blockSequenceStart) (45 :: 32 :: more) column
      (openAt column i is) (tokens ++ opening .blockSequenceStart column i) true := by
    by_cases hle : (column : Int) ≤ i
    · have hsame : s.roll column none .blockSequenceStart = s := by simp [roll, h.indent_eq, hle]
      rw [hsame, openAt, opening, if_pos hle, if_pos hle, append_nil]
      exact h
    · have hopened : s.roll column none .blockSequenceStart =
          { s.push .blockSequenceStart with indents := s.indent :: s.indents
                                            indent := column } := by
        simp [roll, h.flow_eq, h.indent_eq, hle, Scanner.push]
      rw [hopened, openAt, opening, if_neg hle, if_neg hle]
      exact ⟨h.rest_eq, h.column_eq,
        h.flow_eq, by rw [← h.indents_eq], by simp [Scanner.push, h.tokens_eq],
        h.keyAllowed_eq, h.keys_eq, h.done_eq⟩
  obtain ⟨s₁, hremove, h₁⟩ := hroll.removeKey?_eq
  refine ⟨_, ?_, (h₁.allow true).skip.push .blockEntry⟩
  simp only [hremove, Bool.not_true, Bool.and_false, Bool.false_eq_true, if_false]
  rfl

theorem Ready.first_dash {r : Rune} (h : Ready s (45 :: 32 :: r :: more) column (i :: is) tokens)
    (hindent : i < column) (hcolumn : 0 < column) (hvisible : Visible r) :
    ∃ s', Leads s s' ∧ Ready s' (r :: more) (column + 2) (column :: i :: is)
      (tokens ++ [.blockSequenceStart, .blockEntry]) := by
  obtain ⟨s', hstep, h'⟩ := h.stands.dash hcolumn
  rw [← h.step_eq (Int.le_of_lt hindent)] at hstep
  rw [openAt, opening, if_neg (Int.not_le.mpr hindent), if_neg (Int.not_le.mpr hindent),
    append_assoc] at h'
  refine ⟨s', h.leads hstep ?_, h'.ready_space hvisible⟩
  rw [h'.rest_eq]
  exact Nat.lt_succ_self _

/-- The next entry of a list ends the record of the one before. -/
theorem Ready.next_dash {r : Rune}
    (h : Ready s (45 :: 32 :: r :: more) column (i :: column :: is) tokens) (hindent : column < i)
    (hcolumn : 0 < column) (hvisible : Visible r) :
    ∃ s', Leads s s' ∧ Ready s' (r :: more) (column + 2) (column :: is)
      (tokens ++ [.blockEnd, .blockEntry]) := by
  have hopen : i :: (column : Int) :: is = [i] ++ (column : Int) :: is := rfl
  have hstands := h.stands
  rw [hopen] at hstands
  have hended := hstands.unrollTo (by simpa using hindent) (Int.le_refl _)
  obtain ⟨s', hstep, h'⟩ := hended.dash hcolumn
  rw [openAt, opening, if_pos (Int.le_refl _), if_pos (Int.le_refl _)] at h'
  rw [← h.stands.column_eq] at hstep
  refine ⟨s', h.leads hstep ?_, ?_⟩
  · rw [h'.rest_eq]
    exact Nat.lt_succ_self _
  · simpa using h'.ready_space hvisible

/-! ## The empty list -/

theorem token?_bracket (hrest : s.rest = 91 :: more) :
    s.token? = s.flowStart? .flowSequenceStart := by
  have hmarks := marksDocument_false hrest (by simp)
  rw [token?, hrest]
  simp [hmarks]

theorem token?_closing (hrest : s.rest = 93 :: more) : s.token? = s.flowEnd? .flowSequenceEnd := by
  have hmarks := marksDocument_false hrest (by simp)
  rw [token?, hrest]
  simp [hmarks]

theorem Stands.empty_list {tail body : List Rune} {column' : Nat}
    (h : Stands s (32 :: 91 :: 93 :: 10 :: tail) column (i :: is) tokens false)
    (hindent : i ≤ column) (honward : Onward tail column' body) :
    ∃ s', Leads s s' ∧ Ready s' body column' (i :: is)
      (tokens ++ [.flowSequenceStart, .flowSequenceEnd]) := by
  obtain ⟨s₁, hstep, h₁⟩ := h.step_space ⟨rfl, rfl, by decide⟩ (by omega)
  obtain ⟨k, hkeys, hpossible⟩ := h₁.keys_eq
  -- Inside of the brackets.
  obtain ⟨s₂, hs₂⟩ : ∃ s₂ : Scanner, s₂ = { s₁ with
      rest := 93 :: 10 :: tail, index := s₁.index + 1, column := column + 2, flow := 1
      tokens := s₁.tokens.push .flowSequenceStart, keyAllowed := true, keys := [{}, k] } := ⟨_, rfl⟩
  have hopen : s.step? = some s₂ := by
    rw [hstep, token?_bracket h₁.rest_eq, flowStart?, saveKey?, h₁.keyAllowed_eq, hs₂]
    simp [h₁.flow_eq, indicator, skipMany_eq, Scanner.push, h₁.rest_eq, h₁.column_eq, hkeys]
  obtain ⟨s₃, hs₃⟩ : ∃ s₃ : Scanner, s₃ = { s₁ with
      rest := 10 :: tail, index := s₁.index + 2, column := column + 3
      tokens :=
        (s₁.tokens.push .flowSequenceStart).push .flowSequenceEnd, keyAllowed := false } := ⟨_, rfl⟩
  have hclose : s₂.step? = some s₃ := by
    have hrest : s₂.rest = 93 :: 10 :: tail := by rw [hs₂]
    rw [step?, settle_visible, unrollTo_of_le, token?_closing hrest, flowEnd?, hs₂, hs₃]
    · simp [removeKey?, indicator, skipMany_eq, Scanner.push, h₁.flow_eq, hkeys]
    · rw [hs₂]
      show s₁.indent ≤ _
      rw [h₁.indent_eq]
      push_cast
      omega
    · rw [hrest]
      simpa using ⟨rfl, rfl, by decide⟩
  have h₃ : Stands s₃ (10 :: tail) (column + 3) (i :: is)
      (tokens ++ [.flowSequenceStart, .flowSequenceEnd])
      false := by
    rw [hs₃]
    exact ⟨rfl, rfl, h₁.flow_eq, h₁.indents_eq, by simp [h₁.tokens_eq], rfl, h₁.keys_eq, h₁.done_eq⟩
  refine ⟨s₃, ?_, h₃.ready_line honward⟩
  have hfirst : Leads s s₂ := by
    refine Leads.step h.done_eq hopen ?_
    rw [hs₂, h.rest_eq]
    simp
  refine hfirst.trans (Leads.step ?_ hclose ?_)
  · rw [hs₂]
    exact h₁.done_eq
  · rw [hs₂, hs₃]
    simp

/-! ## Tags -/

theorem token?_tag (hrest : s.rest = 33 :: more) : s.token? = s.tag? := by
  have hmarks := marksDocument_false hrest (by simp)
  rw [token?, hrest]
  simp [hmarks]

def binaryTag : List Rune := 33 :: 33 :: [98, 105, 110, 97, 114, 121]

theorem chars_binary : chars "!!binary " = binaryTag ++ [32] := rfl

theorem tag?_binary (hkey : s.keyAllowed = false) (hrest : s.rest = binaryTag ++ 32 :: more) :
    s.tag? = some ((s.skipMany 8).push (.tag "!!" "binary")) := by
  have hword : (binaryTag.drop 2 ++ 32 :: more).takeWhile isTagRune = binaryTag.drop 2 := rfl
  have htext : tagText? (binaryTag.drop 2).length (binaryTag.drop 2) =
      some (Text.ofString "binary") := by decide
  obtain ⟨hfirst, hsecond⟩ : s.skip.rest = 33 :: (binaryTag.drop 2 ++ 32 :: more) ∧
      s.skip.skip.rest = binaryTag.drop 2 ++ 32 :: more := by
    rw [skip, skip, hrest]
    exact ⟨rfl, rfl⟩
  have hnone : s.skip.takeWhile isWordRune = ([], s.skip) := by
    rw [takeWhile, hfirst]
    rfl
  have hbang : s.skip.ahead 0 = 33 := by
    rw [ahead, hfirst]
    rfl
  have hname : s.skip.skip.takeWhile isTagRune = (binaryTag.drop 2, s.skipMany 8) := by
    rw [takeWhile, hsecond, hword]
    rfl
  have hend : blankOrEnd (s.skipMany 8).rest = true := by
    rw [skipMany_eq, hrest]
    rfl
  have hnot : (s.ahead 1 == 60) = false := by
    rw [ahead, hrest]
    rfl
  have hsound : ((binaryTag.drop 2).isEmpty || !Text.isUtf8 "binary") = false := by decide
  have hallowed : { s with keyAllowed := false } = s := by rw [← hkey]
  have hsave : s.saveKey? = some s := by simp [saveKey?, hkey]
  simp only [tag?, hsave, Option.bind_eq_bind, Option.bind_some, hallowed, hnot, hnone,
    hbang, hname, Bool.false_eq_true, if_false, beq_self_eq_true, if_true, htext, hsound, hend]
  rfl

theorem Stands.binary {more : List Rune}
    (h : Stands s (32 :: (binaryTag ++ 32 :: more)) column (i :: is) tokens false)
    (hindent : i ≤ column) :
    ∃ s', Leads s s' ∧ Stands s' (32 :: more) (column + 9) (i :: is)
      (tokens ++ [.tag "!!" "binary"]) false := by
  obtain ⟨s₁, hstep, h₁⟩ := h.step_space ⟨rfl, rfl, by decide⟩ (by omega)
  have hrest : s₁.rest = binaryTag ++ 32 :: more := h₁.rest_eq
  have h₂ := h₁.move (movedTo_skipMany hrest)
  rw [h₁.column_eq, Nat.add_assoc] at h₂
  refine ⟨_, Leads.step h.done_eq ?_ ?_, h₂.push _⟩
  · rw [hstep, token?_tag h₁.rest_eq, tag?_binary h₁.keyAllowed_eq hrest]
    rfl
  · rw [(h₂.push _).rest_eq, h.rest_eq]
    simp [binaryTag]

end FaultRepair.Yaml.Scanner
