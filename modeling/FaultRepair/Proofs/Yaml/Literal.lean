/-
# Literal blocks

A literal block holds the lines of a text, each behind the indentation of the block. Scanned
again it gives the text, unless the text starts with a character that hides the indentation or
with a line end, which the header of the block takes for its own.
-/

import FaultRepair.Proofs.Yaml.Plain

namespace FaultRepair.Yaml.Scanner

open List Bool

open Text (Rune)

variable {width n : Nat} {back rest front last breaks trail tail text lead : List Rune}
  {blank : Bool} {r : Rune}

/-! ## Between lines -/

/-- The place where the next line of a block starts, or the first line behind the block. -/
def LineStart (width column : Nat) (back : List Rune) : Prop :=
  (column = width ∧ ∀ r ∈ back.head?, isBreak r = false) ∨
    (column < width ∧ ∀ r ∈ back.head?, Visible r)

variable {s : Scanner}

theorem blockBreaks?_known (acc : List Rune) (deepest : Nat) {column : Nat}
    (hrest : s.rest = breaks ++ (spaces column ++ back)) (hcolumn : s.column = 0)
    (hbreaks : ∀ b ∈ breaks, isBreak b = true ∧ isPrintable b = true) (hwidth : 0 < width)
    (hstart : LineStart width column back) (hn : breaks.length < n) :
    ∃ deepest' s', blockBreaks? width n acc deepest s = some (acc ++ breaks, deepest', s') ∧
      MovedTo s back column s' := by
  have hzero : (width == 0) = false := beq_false_of_ne (Nat.ne_of_gt hwidth)
  induction breaks generalizing n acc deepest s with
  | nil =>
    obtain ⟨n, rfl⟩ := Nat.exists_eq_add_one.mpr hn
    rw [nil_append] at hrest
    have hmoved : MovedTo s back column (skipWhile (· == 32) (width - s.column) s) := by
      have hskip := movedTo_skipSpaces (n := width) hrest (hstart.symm.imp ?_ ?_) ?_
      · rw [hcolumn, Nat.zero_add] at hskip
        rwa [hcolumn]
      · rintro ⟨-, hvisible⟩ hspace
        cases (hvisible 32 hspace).notBlank
      · exact fun h => h.1.symm
      · rcases hstart with ⟨rfl, -⟩ | ⟨hlt, -⟩
        · exact Nat.le_refl _
        · exact Nat.le_of_lt hlt
    rw [blockBreaks?, hzero]
    simp only [false_eq_true, if_false, Bool.false_or]
    generalize skipWhile (· == 32) (width - s.column) s = s' at hmoved
    have hbreak : breakHere s'.rest = false := by
      rw [hmoved.rest_eq]
      cases back with
      | nil => rfl
      | cons r more => exact hstart.elim (fun h => h.2 r rfl) fun h => (h.2 r rfl).notBreak
    have htab : (decide (s'.column < width) && s'.peek? == some 9) = false := by
      rw [hmoved.column_eq, peek?, hmoved.rest_eq]
      rcases hstart with ⟨rfl, -⟩ | ⟨-, hvisible⟩
      · simp
      · have hne : back.head? ≠ some 9 := fun h => by cases (hvisible 9 h).notBlank
        simp [hne]
    simp_all
  | cons b breaks ih =>
    obtain ⟨n, rfl⟩ : ∃ n', n = n' + 1 := Nat.exists_eq_add_one.mpr (by omega)
    obtain ⟨hbreak, hprintable⟩ := hbreaks b mem_cons_self
    have hline := readLine_spec hrest hbreak hprintable
    have hblank := not_isBlank hbreak
    simp only [isBlank, or_eq_false_iff] at hblank
    have hskip : skipWhile (· == 32) (width - s.column) s = s := by
      refine skipWhile_none fun r hr => ?_
      rw [hrest] at hr
      obtain rfl : b = r := by simpa using hr
      exact hblank.1
    have hpeek : (s.peek? == some 9) = false := by
      rw [peek?, hrest]
      simpa using hblank.2
    have hhere : breakHere s.rest = true := by
      rw [hrest]
      exact hbreak
    have hnext : ∃ deepest' s',
        blockBreaks? width n (acc ++ [b]) (max deepest s.column) s.readLine.2 =
        some (acc ++ [b] ++ breaks, deepest', s') ∧ MovedTo s.readLine.2 back column s' :=
      ih (acc ++ [b]) (max deepest s.column) hline.2.rest_eq hline.2.column_eq
        (fun b' hb' => hbreaks b' (mem_cons_of_mem b hb')) (by simpa using hn)
    obtain ⟨deepest', s', hscan, hmoved⟩ := hnext
    refine ⟨deepest', s', ?_, hline.2.trans hmoved⟩
    grind [blockBreaks?]

theorem blockBreaks_known {column : Nat}
    (hrest : s.rest = breaks ++ (spaces column ++ back)) (hcolumn : s.column = 0)
    (hbreaks : ∀ b ∈ breaks, isBreak b = true ∧ isPrintable b = true) (hwidth : 0 < width)
    (hstart : LineStart width column back) :
    ∃ s', s.blockBreaks width [] = some (breaks, width, s') ∧ MovedTo s back column s' := by
  have hn : breaks.length < s.rest.length + 1 := by
    rw [hrest, length_append]
    omega
  obtain ⟨deepest, s', hscan, hmoved⟩ :=
    blockBreaks?_known [] 0 hrest hcolumn hbreaks hwidth hstart hn
  grind [blockBreaks]

/-- The indentation of a block is that of its first line, where this starts with a character that
shows it. -/
theorem blockBreaks_found {more : List Rune}
    (hrest : s.rest = spaces width ++ r :: more) (hcolumn : s.column = 0)
    (hblank : isBlank r = false) (hbreak : isBreak r = false) (hwidth : 0 < width)
    (hindent : s.indent + 1 ≤ width) :
    ∃ s', s.blockBreaks 0 [] = some ([], width, s') ∧ MovedTo s (r :: more) width s' := by
  simp only [isBlank, or_eq_false_iff, beq_eq_false_iff_ne] at hblank
  have hmoved : MovedTo s (r :: more) width (skipWhile (· == 32) s.rest.length s) := by
    have hskip := movedTo_skipSpaces (n := s.rest.length) hrest (.inl (by simpa using hblank.1)) ?_
    · rwa [hcolumn, Nat.zero_add] at hskip
    · rw [hrest]
      simp [spaces]
  refine ⟨_, ?_, hmoved⟩
  have hpeek : ((skipWhile (· == 32) s.rest.length s).peek? == some 9) = false := by
    rw [peek?, hmoved.rest_eq]
    simpa using hblank.2
  have hhere : breakHere (skipWhile (· == 32) s.rest.length s).rest = false := by
    rw [hmoved.rest_eq]
    exact hbreak
  simp [blockBreaks, blockBreaks?, hpeek, hhere, hmoved.column_eq]
  omega

/-! ## Lines -/

/-- A part of a line that is not empty. -/
structure InLine (content : List Rune) : Prop where
  ne_nil : content ≠ []
  inLine : ∀ r ∈ content, isBreak r = false

/-- The lines of a block from behind the indentation of its first line on, with the text up to
the last character and the line ends of the text behind it. A text that does not end with a line
end gets one. -/
inductive Lines (width : Nat) (tail : List Rune) : List Rune → List Rune → List Rune → Prop where
  | unended {content : List Rune} (hcontent : InLine content) :
      Lines width tail (content ++ 10 :: tail) content []
  | ended {content breaks : List Rune} {b : Rune} (hcontent : InLine content)
      (hbreaks : ∀ b' ∈ b :: breaks, isBreak b' = true ∧ isPrintable b' = true) :
      Lines width tail (content ++ b :: (breaks ++ tail)) content (b :: breaks)
  | more {content breaks rest front last : List Rune} {b : Rune} (hcontent : InLine content)
      (hbreaks : ∀ b' ∈ b :: breaks, isBreak b' = true ∧ isPrintable b' = true)
      (h : Lines width tail rest front last) :
      Lines width tail (content ++ b :: (breaks ++ (spaces width ++ rest)))
        (content ++ b :: breaks ++ front) last

theorem Lines.head (h : Lines width tail rest front last) :
    ∀ r ∈ rest.head?, isBreak r = false := by
  have hcons : ∀ {content back : List Rune}, InLine content →
      ∀ r ∈ (content ++ back).head?, isBreak r = false := by
    intro content back hcontent r hr
    obtain ⟨c, more, rfl⟩ := exists_cons_of_ne_nil hcontent.ne_nil
    obtain rfl : c = r := by simpa using hr
    exact hcontent.inLine c mem_cons_self
  cases h with
  | unended hcontent => exact hcons hcontent
  | ended hcontent hbreaks => exact hcons hcontent
  | more hcontent hbreaks h => exact hcons hcontent

/-- One line of a block and the line ends behind it. -/
theorem blockLines_line {column : Nat} {content : List Rune} {b : Rune}
    (hrest : s.rest = content ++ b :: (breaks ++ (spaces column ++ back)))
    (hcolumn : s.column = width) (hcontent : InLine content)
    (hbreaks : ∀ b' ∈ b :: breaks, isBreak b' = true ∧ isPrintable b' = true) (hwidth : 0 < width)
    (hstart : LineStart width column back) :
    ∃ s' blank', blockLines true width (n + 1) text lead trail blank s =
        blockLines true width n (text ++ lead ++ trail ++ content) [b] breaks blank' s' ∧
      MovedTo s back column s' := by
  have htaken : s.rest.takeWhile (!isBreak ·) = content := by
    rw [hrest, takeWhile_append_of_pos fun r hr => by simp [hcontent.inLine r hr], takeWhile_cons]
    simp [(hbreaks b mem_cons_self).1]
  obtain ⟨hbreak, hprintable⟩ := hbreaks b mem_cons_self
  have hmoved := movedTo_skipMany hrest
  have hline := readLine_spec hmoved.rest_eq hbreak hprintable
  obtain ⟨s', hscan, hmoved'⟩ := blockBreaks_known hline.2.rest_eq hline.2.column_eq
    (fun b' hb' => hbreaks b' (mem_cons_of_mem b hb')) hwidth hstart
  refine ⟨s', (s.peek?.map isBlank).getD false, ?_, (hmoved.trans hline.2).trans hmoved'⟩
  have hnonempty : s.rest.isEmpty = false := by
    rw [hrest]
    simp
  grind [blockLines, takeWhile]

/-- A block ends where a line does not start at its indentation. -/
theorem blockLines_end (hcolumn : s.column ≠ width) :
    blockLines true width n text lead trail blank s = some (text, lead, trail, s) := by
  cases n with
  | zero => rfl
  | succ n => grind [blockLines]

/-- The lines of a block are scanned as the text that they hold. -/
theorem Lines.scan {column : Nat} {body : List Rune} (h : Lines width tail rest front last)
    (honward : Onward tail column body) (hcolumn : column < width)
    (hrest : s.rest = rest) (hplace : s.column = width) (hn : rest.length ≤ n) :
    ∃ s', blockLines true width n text lead trail blank s =
        some (text ++ lead ++ trail ++ front, if last = [] then [10] else last.take 1,
          last.drop 1, s') ∧
      MovedTo s body column s' := by
  have hwidth : 0 < width := Nat.lt_of_le_of_lt (Nat.zero_le _) hcolumn
  have hstart : LineStart width column body := .inr ⟨hcolumn, honward.visible⟩
  have hne : ∀ {s'}, MovedTo s body column s' → s'.column ≠ width := by
    intro s' hmoved
    rw [hmoved.column_eq]
    exact Nat.ne_of_lt hcolumn
  induction h generalizing n text lead trail blank s with
  | @unended content hcontent =>
    obtain ⟨n, rfl⟩ : ∃ n', n = n' + 1 := Nat.exists_eq_add_one.mpr (by simp at hn; omega)
    have hend : s.rest = content ++ 10 :: ([] ++ (spaces column ++ body)) := by
      rw [hrest, honward.eq]
      rfl
    obtain ⟨s', blank', hline, hmoved⟩ :=
      blockLines_line (n := n) hend hplace hcontent (by decide) hwidth hstart
    refine ⟨s', ?_, hmoved⟩
    rw [hline, blockLines_end (hne hmoved)]
    rfl
  | @ended content breaks b hcontent hbreaks =>
    obtain ⟨n, rfl⟩ : ∃ n', n = n' + 1 := Nat.exists_eq_add_one.mpr (by simp at hn; omega)
    rw [honward.eq] at hrest
    obtain ⟨s', blank', hline, hmoved⟩ :=
      blockLines_line (n := n) hrest hplace hcontent hbreaks hwidth hstart
    refine ⟨s', ?_, hmoved⟩
    rw [hline, blockLines_end (hne hmoved)]
    rfl
  | @more content breaks rest front last b hcontent hbreaks h ih =>
    obtain ⟨n, rfl⟩ : ∃ n', n = n' + 1 := Nat.exists_eq_add_one.mpr (by simp at hn; omega)
    obtain ⟨s₁, blank', hline, hmoved⟩ :=
      blockLines_line (n := n) hrest hplace hcontent hbreaks hwidth (.inl ⟨rfl, h.head⟩)
    have hlength : rest.length ≤ n := by
      simp at hn
      omega
    obtain ⟨s', hscan, hmoved'⟩ :=
      ih hmoved.rest_eq hmoved.column_eq hlength fun h => hne (hmoved.trans h)
    refine ⟨s', ?_, hmoved.trans hmoved'⟩
    rw [hline, hscan]
    simp

/-! ## What is written -/

theorem literalLines_content {content : List Rune} (hcontent : ∀ r ∈ content, isBreak r = false) :
    literalLines width false (content ++ rest) = content ++ literalLines width false rest := by
  induction content with
  | nil => rfl
  | cons r content ih => grind [literalLines]

theorem literalLines_breaks {width : Nat} {start : Bool} {b : Rune} {breaks rest : List Rune}
    (hbreaks : ∀ b' ∈ b :: breaks, isBreak b' = true) :
    literalLines width start (b :: breaks ++ rest) = b :: breaks ++
      literalLines width true rest := by
  induction breaks generalizing b start with
  | nil => simp [literalLines, hbreaks b]
  | cons b' breaks ih => grind [literalLines]

theorem literalLines_start (hbreak : isBreak r = false) :
    literalLines width true (r :: rest) = spaces width ++ literalLines width false (r :: rest) := by
  simp [literalLines, hbreak]

/-- A text that starts within a line, as lines and the line ends behind them. -/
theorem exists_lines (width : Nat) {rs : List Rune} (hrs : rs ≠ [])
    (hhead : ∀ r ∈ rs.head?, isBreak r = false)
    (hprintable : ∀ r ∈ rs, isBreak r = true → isPrintable r = true) (tail : List Rune) :
    ∃ front l last, rs = front ++ l :: last ∧ isBreak l = false ∧ (∀ b ∈ last, isBreak b = true) ∧
      Lines width tail (literalLines width false rs ++ ((if last = [] then [10] else []) ++ tail))
        (front ++ [l]) last := by
  induction hlength : rs.length using Nat.strong_induction_on generalizing rs with
  | _ length ih =>
    obtain ⟨content, hcontent⟩ : ∃ content, rs.takeWhile (!isBreak ·) = content := ⟨_, rfl⟩
    obtain ⟨left, hleft⟩ : ∃ left, rs.dropWhile (!isBreak ·) = left := ⟨_, rfl⟩
    have hsplit : rs = content ++ left := by
      rw [← hcontent, ← hleft, takeWhile_append_dropWhile]
    have hline : InLine content := by
      constructor
      · obtain ⟨r, rest, rfl⟩ := exists_cons_of_ne_nil hrs
        rw [← hcontent, takeWhile_cons, hhead r rfl]
        exact cons_ne_nil _ _
      · grind [mem_takeWhile_imp]
    obtain ⟨init, l, hlast⟩ : ∃ init l, content = init ++ [l] :=
      ⟨_, _, (dropLast_concat_getLast hline.ne_nil).symm⟩
    have hl : isBreak l = false := hline.inLine l (by rw [hlast]; simp)
    cases left with
    | nil =>
      refine ⟨init, l, [], by rw [hsplit, hlast, append_nil], hl, by simp, ?_⟩
      rw [hsplit, literalLines_content hline.inLine, ← hlast]
      simpa [literalLines] using Lines.unended hline
    | cons b more =>
      have hb : isBreak b = true := by
        have hfirst := head?_dropWhile_not (!isBreak ·) rs
        rw [hleft] at hfirst
        simpa using hfirst
      obtain ⟨breaks, hbreaks⟩ : ∃ breaks, more.takeWhile isBreak = breaks := ⟨_, rfl⟩
      obtain ⟨later, hlater⟩ : ∃ later, more.dropWhile isBreak = later := ⟨_, rfl⟩
      have hmore : b :: more = b :: breaks ++ later := by
        rw [cons_append, ← hbreaks, ← hlater, takeWhile_append_dropWhile]
      rw [hmore] at hsplit
      have hall : ∀ b' ∈ b :: breaks, isBreak b' = true := by
        intro b' hb'
        rcases mem_cons.mp hb' with rfl | hmem
        · exact hb
        · exact mem_takeWhile_imp (hbreaks ▸ hmem)
      have hboth : ∀ b' ∈ b :: breaks, isBreak b' = true ∧ isPrintable b' = true := by
        intro b' hb'
        refine ⟨hall b' hb', hprintable b' ?_ (hall b' hb')⟩
        rw [hsplit]
        simp at hb' ⊢
        tauto
      have hwritten : literalLines width false rs =
          content ++ (b :: breaks ++ literalLines width true later) := by
        rw [hsplit, literalLines_content hline.inLine, literalLines_breaks hall]
      rw [hwritten]
      cases later with
      | nil =>
        refine ⟨init, l, b :: breaks, by rw [hsplit, hlast]; simp, hl, hall, ?_⟩
        rw [← hlast]
        simpa [literalLines] using Lines.ended hline hboth
      | cons r later =>
        have hr : isBreak r = false := by
          have hfirst := head?_dropWhile_not isBreak more
          rw [hlater] at hfirst
          simpa using hfirst
        have hshort : (r :: later).length < length := by
          rw [← hlength, hsplit]
          simp
          omega
        obtain ⟨front, l', last, hrest, hl', hends, hlines⟩ := ih _ hshort (cons_ne_nil r later)
          (by simpa using hr) (fun r' hr' => hprintable r' (by rw [hsplit]; simp at hr' ⊢; tauto))
            rfl
        refine ⟨content ++ b :: breaks ++ front, l',
          last, by rw [hsplit, hrest]; simp, hl', hends, ?_⟩
        rw [literalLines_start hr]
        simpa using Lines.more hline hboth hlines

/-! ## Headers -/

def Chomping.mark : Chomping → List Rune
  | .strip => [45]
  | .clip => []
  | .keep => [43]

/-- What keeps the line ends that a text ends with, and no others. -/
def chompingOf : List Rune → Chomping
  | [] => .strip
  | [_] => .clip
  | _ => .keep

theorem chompMark_eq {l : Rune} (hl : isBreak l = false) (hlast : ∀ b ∈ last, isBreak b = true) :
    chompMark (front ++ l :: last) = (chompingOf last).mark := by
  rw [chompMark, reverse_append, reverse_cons, append_assoc]
  rcases eq_nil_or_concat last with rfl | ⟨init, b, rfl⟩
  · simp [hl, chompingOf, Chomping.mark]
  · have hb : isBreak b = true := hlast b (by simp)
    rcases eq_nil_or_concat init with rfl | ⟨init, b', rfl⟩
    · simp [hl, hb, chompingOf, Chomping.mark]
    · have hb' : isBreak b' = true := hlast b' (by simp)
      have hkeep : chompingOf (init ++ [b', b]) = .keep := by
        rcases init with _ | ⟨_, _ | _⟩ <;> rfl
      simp [hb, hb', hkeep, Chomping.mark]

theorem exists_mark (rs : List Rune) : ∃ chomp : Chomping, chompMark rs = chomp.mark := by
  rw [chompMark]
  split
  · exact ⟨.strip, rfl⟩
  · split_ifs
    · exact ⟨.strip, rfl⟩
    · split
      · exact ⟨.keep, rfl⟩
      · split_ifs
        · exact ⟨.keep, rfl⟩
        · exact ⟨.clip, rfl⟩

theorem text_chompingOf (front last : List Rune) :
    (chompingOf last).text front (if last = [] then [10] else last.take 1)
    (last.drop 1) = front ++ last := by
  match last with
  | [] => simp [chompingOf, Chomping.text]
  | [b] => simp [chompingOf, Chomping.text]
  | b :: b' :: more => simp [chompingOf, Chomping.text]

theorem chomping?_mark {chomp : Chomping} (hrest : s.rest = chomp.mark ++ r :: back)
    (hplus : r ≠ 43) (hminus : r ≠ 45) :
    (s.chomping? = none ∧ chomp = .clip ∧ s.rest = r :: back) ∨
      ∃ s' column, s.chomping? = some (chomp, s') ∧ MovedTo s (r :: back) column s' := by
  cases chomp with
  | strip =>
    exact .inr ⟨s.skip, _, by simp [chomping?, peek?, hrest, Chomping.mark], movedTo_skip hrest⟩
  | clip => exact .inl ⟨by simp [chomping?, peek?, hrest, Chomping.mark, hplus, hminus], rfl, hrest⟩
  | keep =>
    exact .inr ⟨s.skip, _, by simp [chomping?, peek?, hrest, Chomping.mark], movedTo_skip hrest⟩

theorem increment?_none (hrest : s.rest = r :: back)
    (hdigit : (48 ≤ r && r ≤ 57) = false) : s.increment? = some (0, s) := by
  rw [increment?, peek?, hrest]
  simp [hdigit]

/-- The header of a block, up to the end of its line. -/
theorem blockHeader?_eq {chomp : Chomping} {hint : Bool} {e : Rune} {back : List Rune}
    (hrest : s.rest = (if hint then [52] else []) ++ (chomp.mark ++ e :: back))
    (hbreak : isBreak e = true) (hprintable : isPrintable e = true) :
    ∃ s' column, s.blockHeader? = some (chomp, if hint then 4 else 0, s') ∧
      MovedTo s (e :: back) column s' := by
  obtain ⟨hplus, hminus, hdigit⟩ : e ≠ 43 ∧ e ≠ 45 ∧ (48 ≤ e && e ≤ 57) = false := by
    rcases isBreak_cases hbreak hprintable with rfl | rfl | rfl <;> decide
  cases hint with
  | false =>
    rcases chomping?_mark hrest hplus hminus with ⟨hnone, rfl, hline⟩ | ⟨s', column, hsome, hmoved⟩
    · refine ⟨s, s.column, ?_, hline ▸ MovedTo.refl s⟩
      simp [blockHeader?, hnone, increment?_none hline hdigit]
    · refine ⟨s', column, ?_, hmoved⟩
      simp [blockHeader?, hsome, increment?_none hmoved.rest_eq hdigit]
  | true =>
    have hfirst : s.rest = 52 :: (chomp.mark ++ e :: back) := hrest
    have hnone : s.chomping? = none := by simp [chomping?, peek?, hfirst]
    have hfour : s.increment? = some (4, s.skip) := by simp [increment?, peek?, hfirst]
    have hskip := movedTo_skip hfirst
    rcases chomping?_mark hskip.rest_eq hplus hminus with ⟨hclip, rfl, hline⟩ |
      ⟨s', column, hsome, hmoved⟩
    · refine ⟨s.skip, s.column + 1, ?_, hskip⟩
      simp [blockHeader?, hnone, hfour, hclip]
    · refine ⟨s', column, ?_, hskip.trans hmoved⟩
      simp [blockHeader?, hnone, hfour, hsome]

/-! ## Scalars -/

/-- Behind its header, a block is scanned as a text, up to the next token. -/
def ReadsBlock (chomp : Chomping) (indent : Nat) (s : Scanner) (value body : List Rune)
    (column : Nat) : Prop :=
  ∃ trail width s₁ text lead trail' s₂, s.blockBreaks indent [] = some (trail, width, s₁) ∧
    blockLines true width (s₁.rest.length + 1) [] [] trail false s₁ =
      some (text, lead, trail', s₂) ∧
      chomp.text text lead trail' = value ∧ MovedTo s body column s₂

variable {column : Nat} {i : Int} {is : List Int} {tokens : List Token}

theorem token?_bar {more : List Rune} (hrest : s.rest = 124 :: more) (hflow : s.flow = 0) :
    s.token? = s.blockScalar? true := by
  have hmarks := marksDocument_false hrest (by simp)
  rw [token?, hrest]
  simp [hmarks, hflow]

theorem Stands.removeKey?_eq {indents : List Int} {keyAllowed : Bool}
    (h : Stands s rest column indents tokens keyAllowed) :
    ∃ s', s.removeKey? = some s' ∧ Stands s' rest column indents tokens keyAllowed := by
  obtain ⟨k, hkeys, hpossible⟩ := h.keys_eq
  refine ⟨{ s with keys := [{ k with possible := false }] }, ?_, ?_⟩
  · simp [removeKey?, hkeys, hpossible]
  · exact ⟨h.rest_eq, h.column_eq, h.flow_eq, h.indents_eq, h.tokens_eq, h.keyAllowed_eq,
      ⟨_, rfl, rfl⟩, h.done_eq⟩

theorem Stands.literal {chomp : Chomping} {hint : Bool} {e : Rune} {back value body : List Rune}
    {column' : Nat}
    (h : Stands s (32 :: 124 :: ((if hint then [52] else []) ++ (chomp.mark ++ e :: back))) column
      (i :: is) tokens false)
    (hindent : i ≤ column) (hbreak : isBreak e = true) (hprintable : isPrintable e = true)
    (hvisible : ∀ r ∈ body.head?, Visible r) (hlength : body.length ≤ back.length)
    (hread : ∀ s', Stands s' back 0 (i :: is) tokens true →
      ReadsBlock chomp (if hint then (max i 0).toNat + 4 else 0) s' value body column') :
    ∃ s', Leads s s' ∧ Ready s' body column' (i :: is)
      (tokens ++ [.scalar (ofRunes value) .literal]) := by
  obtain ⟨s₁, hstep, h₁⟩ := h.step_space ⟨rfl, rfl, by decide⟩ (by omega)
  rw [token?_bar h₁.rest_eq h₁.flow_eq] at hstep
  obtain ⟨s₂, hremove, h₂⟩ := h₁.removeKey?_eq
  have h₃ := (h₂.allow true).move (movedTo_skip h₂.rest_eq)
  obtain ⟨s₄, column₄, hheader, hmoved⟩ := blockHeader?_eq h₃.rest_eq hbreak hprintable
  have h₄ := h₃.move hmoved
  have hblanks : s₄.blanks = s₄ := by
    refine skipWhile_none fun r hr => ?_
    rw [h₄.rest_eq] at hr
    obtain rfl : e = r := by simpa using hr
    exact not_isBlank hbreak
  have hpeek : (s₄.peek? == some 35) = false := by
    rw [peek?, h₄.rest_eq]
    rcases isBreak_cases hbreak hprintable with rfl | rfl | rfl <;> rfl
  have hend : breakOrEnd s₄.rest = true := by
    rw [h₄.rest_eq]
    exact hbreak
  have hline := readLine_spec h₄.rest_eq hbreak hprintable
  have h₅ := h₄.move hline.2
  obtain ⟨trail, width, s₆, text, lead, trail', s₇, hbreaks, hlines, rfl, hmoved'⟩ := hread _ h₅
  have h₇ := (h₅.move hmoved').push (.scalar (ofRunes (chomp.text text lead trail')) .literal)
  refine ⟨_, Leads.step h.done_eq ?_ ?_, h₇.ready hvisible⟩
  · rw [hstep, blockScalar?, hremove]
    have hindent₅ : (if (if hint then 4 else 0) == 0 then 0
        else (max s₄.readLine.2.indent 0).toNat + (if hint then 4 else 0)) =
          if hint then (max i 0).toNat + 4 else 0 := by
      rw [h₅.indent_eq]
      cases hint <;> rfl
    grind
  · rw [h₇.rest_eq, h.rest_eq]
    simp
    omega

theorem readsBlock_found {column' : Nat} {body : List Rune}
    (h : Stands s (spaces width ++ rest) 0 (i :: is) tokens true)
    (hlines : Lines width tail rest front last) (hblank : ∀ r ∈ rest.head?, isBlank r = false)
    (hne : rest ≠ []) (hindent : i < width) (honward : Onward tail column' body)
    (hcolumn : column' < width) :
    ReadsBlock (chompingOf last) 0 s (front ++ last) body column' := by
  obtain ⟨r, more, rfl⟩ := exists_cons_of_ne_nil hne
  have hwidth : 0 < width := Nat.lt_of_le_of_lt (Nat.zero_le _) hcolumn
  obtain ⟨s₁, hbreaks, hmoved⟩ := blockBreaks_found h.rest_eq h.column_eq (hblank r rfl)
    (hlines.head r rfl) hwidth (by rw [h.indent_eq]; omega)
  obtain ⟨s₂, hscan, hmoved'⟩ := hlines.scan honward hcolumn (n := s₁.rest.length + 1) (s := s₁)
    hmoved.rest_eq hmoved.column_eq (by rw [hmoved.rest_eq]; exact Nat.le_succ _)
  exact ⟨_, _, s₁, _, _, _, s₂, hbreaks, hscan, text_chompingOf front last, hmoved.trans hmoved'⟩

/-- The header tells the indentation; the text may start with line ends or blanks. -/
theorem readsBlock_known (chomp : Chomping) {width column' : Nat}
    {breaks back tail body : List Rune}
    (hbreaks : ∀ b ∈ breaks, isBreak b = true ∧ isPrintable b = true)
    (hback : back = tail ∨ ∃ rest front last, back = spaces width ++ rest ∧
      Lines width tail rest front last) (honward : Onward tail column' body) (hcolumn :
        column' < width) :
    ∃ value, ∀ s, Stands s (breaks ++ back) 0 (i :: is) tokens true →
      ReadsBlock chomp width s value body column' := by
  have hwidth : 0 < width := Nat.lt_of_le_of_lt (Nat.zero_le _) hcolumn
  rcases hback with rfl | ⟨rest, front, last, rfl, hlines⟩
  · refine ⟨chomp.text [] [] breaks, fun s h => ?_⟩
    have hrest := h.rest_eq
    rw [honward.eq] at hrest
    obtain ⟨s₁, hscan, hmoved⟩ := blockBreaks_known hrest h.column_eq hbreaks hwidth
      (.inr ⟨hcolumn, honward.visible⟩)
    have hend : blockLines true width (s₁.rest.length + 1) [] [] breaks false s₁ =
        some ([], [], breaks, s₁) :=
      blockLines_end (by rw [hmoved.column_eq]; exact Nat.ne_of_lt hcolumn)
    exact ⟨_, _, s₁, _, _, _, s₁, hscan, hend, rfl, hmoved⟩
  · refine ⟨chomp.text ([] ++ [] ++ breaks ++ front) (if last = [] then [10] else last.take 1)
      (last.drop 1), fun s h => ?_⟩
    obtain ⟨s₁, hscan, hmoved⟩ := blockBreaks_known h.rest_eq h.column_eq hbreaks hwidth
      (.inl ⟨rfl, hlines.head⟩)
    obtain ⟨s₂, hscan', hmoved'⟩ := hlines.scan honward hcolumn (n := s₁.rest.length + 1) (s := s₁)
      hmoved.rest_eq hmoved.column_eq (by rw [hmoved.rest_eq]; exact Nat.le_succ _)
    exact ⟨_, _, s₁, _, _, _, s₂, hscan, hscan', rfl, hmoved.trans hmoved'⟩

/-- The line end that is still to come behind a block. -/
def lineEnd (rs : List Rune) : List Rune :=
  if (rs.getLast?.map isBreak).getD false then [] else [10]

theorem lineEnd_eq {l : Rune} (hl : isBreak l = false) (hlast : ∀ b ∈ last, isBreak b = true) :
    lineEnd (front ++ l :: last) = if last = [] then [10] else [] := by grind [lineEnd]

theorem literal_cons (width : Nat) (r : Rune) (rest : List Rune) :
    Yaml.literal width (r :: rest) =
      124 :: ((if r == 32 || isBreak r then [52] else []) ++ (chompMark (r :: rest) ++
        ((if isBreak r then [] else [10]) ++ literalLines width true (r :: rest)))) := by
  simp [Yaml.literal]

/-- A text that does not start with a blank or a line end is scanned again as it was. -/
theorem Stands.literal_text {width column' : Nat} {rs tail body : List Rune}
    (h : Stands s (32 :: (Yaml.literal width rs ++ (lineEnd rs ++ tail))) column
      (i :: is) tokens false)
    (hrs : rs ≠ []) (hhead : Ink rs)
    (hprintable : ∀ r ∈ rs, isBreak r = true → isPrintable r = true) (hindent : i ≤ column)
    (hwidth : i < width) (honward : Onward tail column' body) (hcolumn : (column' : Int) ≤ i) :
    ∃ s', Leads s s' ∧ Ready s' body column' (i :: is)
      (tokens ++ [.scalar (ofRunes rs) .literal]) := by
  obtain ⟨front, l, last, hsplit, hl, hlast, hlines⟩ :=
    exists_lines width hrs (fun r hr => (hhead r hr).2) hprintable tail
  obtain ⟨r, more, rfl⟩ := exists_cons_of_ne_nil hrs
  obtain ⟨hblank, hbreak⟩ := hhead r rfl
  have hspace : (r == 32) = false := by
    rw [isBlank, or_eq_false_iff] at hblank
    exact hblank.1
  have hmark : chompMark (r :: more) = (chompingOf last).mark := by
    rw [hsplit, chompMark_eq hl hlast]
  have hend : lineEnd (r :: more) = if last = [] then [10] else [] := by
    rw [hsplit, lineEnd_eq hl hlast]
  rw [literal_cons, hspace, hbreak, hmark, hend, literalLines_start hbreak] at h
  generalize hback : literalLines width false (r :: more) ++
      ((if last = [] then [10] else []) ++ tail) =
    back at hlines
  have hfirst : ∃ back', back = r :: back' := by
    rw [← hback]
    simp [literalLines, hbreak]
  have hrest : Stands s (32 :: 124 :: ((if false then [52] else []) ++
      ((chompingOf last).mark ++ 10 :: (spaces width ++ back)))) column (i :: is) tokens false := by
    rw [← hback]
    simpa using h
  refine hrest.literal hindent rfl rfl honward.visible ?_ fun s' h' => ?_
  · rw [← hback, honward.eq]
    simp
    omega
  · obtain ⟨back', rfl⟩ := hfirst
    have hread :=
      readsBlock_found h' hlines (by simpa using hblank) (cons_ne_nil _ _) hwidth honward
      (by omega)
    rwa [append_assoc, singleton_append, ← hsplit] at hread

theorem lineEnd_append (hback : back ≠ []) : lineEnd (front ++ back) = lineEnd back := by
  rw [lineEnd, lineEnd, getLast?_append, getLast?_eq_some_getLast hback, Option.some_or]

/-- The lines behind a header that tells the indentation, with the line ends in front of them. -/
theorem exists_breaks_lines (width : Nat) {e : Rune} {rs : List Rune} (he : isBreak e = true)
    (hprintable : ∀ r ∈ rs, isBreak r = true → isPrintable r = true) (tail : List Rune) :
    ∃ breaks back, literalLines width true rs ++ (lineEnd (e :: rs) ++ tail) = breaks ++ back ∧
      (∀ b ∈ breaks, isBreak b = true ∧ isPrintable b = true) ∧
        (back = tail ∨ ∃ rest front last, back = spaces width ++ rest ∧
          Lines width tail rest front last) := by
  induction rs generalizing e with
  | nil => exact ⟨[], tail, by simp [literalLines, lineEnd, he], by simp, .inl rfl⟩
  | cons r rest ih =>
    by_cases hbreak : isBreak r = true
    · obtain ⟨breaks, back, hwritten, hbreaks, hback⟩ :=
        ih hbreak fun r' hr' => hprintable r' (mem_cons_of_mem r hr')
      refine ⟨r :: breaks, back, ?_, ?_, hback⟩
      · have hend : lineEnd ([e] ++ r :: rest) = lineEnd (r :: rest) :=
          lineEnd_append (cons_ne_nil _ _)
        grind [literalLines]
      · grind
    · rw [not_eq_true] at hbreak
      obtain ⟨front, l, last, hsplit, hl, hlast, hlines⟩ :=
        exists_lines width (cons_ne_nil r rest) (by simpa using hbreak) hprintable tail
      refine ⟨[], _, ?_, by simp, .inr ⟨_, _, _, rfl, hlines⟩⟩
      have hend : lineEnd (e :: r :: rest) = if last = [] then [10] else [] := by
        rw [hsplit, ← cons_append, lineEnd_eq hl hlast]
      rw [hend, literalLines_start hbreak]
      simp

/-- A text that starts with a space or a line end is scanned as some text, where the indentation
of the block is that of a header. -/
theorem Stands.literal_hinted {column' : Nat} {r : Rune} {rest tail body : List Rune}
    (h : Stands s (32 :: (Yaml.literal 4 (r :: rest) ++ (lineEnd (r :: rest) ++ tail))) column
      (0 :: is) tokens false)
    (hhead : r = 32 ∨ isBreak r = true)
    (hprintable : ∀ r' ∈ r :: rest, isBreak r' = true → isPrintable r' = true)
    (honward : Onward tail column' body) (hcolumn : column' < 4) :
    ∃ s' value, Leads s s' ∧ Ready s' body column' (0 :: is)
      (tokens ++ [.scalar (ofRunes value) .literal]) := by
  obtain ⟨chomp, hmark⟩ := exists_mark (r :: rest)
  have hhint : (r == 32 || isBreak r) = true := by simpa using hhead
  rw [literal_cons, hhint, hmark] at h
  -- The header ends with the first line end of the text, if the text starts with one.
  have hheader : ∃ e breaks back, isBreak e = true ∧ isPrintable e = true ∧
      (if isBreak r then [] else [10]) ++ literalLines 4 true (r :: rest) ++
        (lineEnd (r :: rest) ++ tail) =
        e :: (breaks ++ back) ∧ (∀ b ∈ breaks, isBreak b = true ∧ isPrintable b = true) ∧
          (back = tail ∨ ∃ rest front last, back = spaces 4 ++ rest ∧
            Lines 4 tail rest front last) := by
    cases hbreak : isBreak r with
    | true =>
      obtain ⟨breaks, back, hwritten, hbreaks, hback⟩ :=
        exists_breaks_lines 4 hbreak (fun r' hr' => hprintable r' (mem_cons_of_mem r hr')) tail
      refine ⟨r, breaks, back, hbreak, hprintable r mem_cons_self hbreak, ?_, hbreaks, hback⟩
      rw [literalLines, hbreak, ← hwritten]
      rfl
    | false =>
      obtain ⟨breaks, back, hwritten, hbreaks, hback⟩ :=
        exists_breaks_lines 4 (e := 10) rfl hprintable tail
      refine ⟨10, breaks, back, rfl, rfl, ?_, hbreaks, hback⟩
      have hend : lineEnd ([10] ++ r :: rest) = lineEnd (r :: rest) :=
        lineEnd_append (cons_ne_nil _ _)
      rw [singleton_append] at hend
      rw [← hwritten, hend]
      simp
  obtain ⟨e, breaks, back, he, he', hwritten, hbreaks, hback⟩ := hheader
  have hrest : Stands s (32 :: 124 :: ((if true then [52] else []) ++
      (chomp.mark ++ e :: (breaks ++ back)))) column (0 :: is) tokens false := by
    rw [← hwritten]
    simpa using h
  obtain ⟨value, hread⟩ := readsBlock_known chomp hbreaks hback honward hcolumn
  have hlength : body.length ≤ (breaks ++ back).length := by
    have hwhole := congrArg length hwritten
    rw [honward.eq] at hwhole
    cases hbreak : isBreak r <;> simp [literalLines, hbreak] at hwhole ⊢ <;> omega
  obtain ⟨s', hleads, hready⟩ :=
    hrest.literal (Int.natCast_nonneg column) he he' honward.visible hlength hread
  exact ⟨s', value, hleads, hready⟩

end FaultRepair.Yaml.Scanner
