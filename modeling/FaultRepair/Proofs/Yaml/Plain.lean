/-
# Scalars without quotes

A text that is written without quotes is scanned again as it stands: its words and the blanks
between them, up to the end of the line. The names of fields are such scalars too; the colon
behind a name makes it a key.
-/

import FaultRepair.Proofs.Yaml.Scanning
import FaultRepair.Proofs.Yaml.Shape

namespace FaultRepair.Yaml.Scanner

open List

open Text (Rune)

variable {back rs name more tail body rest : List Rune} {before : Option Rune} {r : Rune}
  {first : Bool} {limit : Int} {n width : Nat} {g : Gap}

/-! ## The start of a token -/

theorem ofNat_beq {c : Char} (hc : c ≠ '\x00') (r : Rune) :
    (Char.ofNat r == c) = (r == c.toNat) := by
  rw [Bool.eq_iff_iff, beq_iff_eq, beq_iff_eq]
  constructor
  · rintro rfl
    by_cases hvalid : r.isValidChar
    · have hchar : Char.ofNat r = Char.ofNatAux r hvalid := dif_pos hvalid
      rw [hchar]
      rfl
    · exact absurd (dif_neg hvalid) hc
  · rintro rfl
    exact Char.ofNat_toNat c

/-- The characters that have a meaning at the start of a token, apart from the three that need
white space behind them. -/
def starters : List Rune := [44, 35, 91, 93, 38, 42, 33, 124, 62, 39, 34, 37, 64, 96, 123, 125]

theorem isIndicator_first {spaced followed : Bool} :
    isIndicator r true spaced followed = false ↔
      r ∉ starters ∧ (r = 63 ∨ r = 58 ∨ r = 45 → followed = false) := by
  have hlist : ",#[]&*!|>'\"%@`".toList =
      [',', '#', '[', ']', '&', '*', '!', '|', '>', '\'', '"', '%', '@', '`'] := rfl
  rw [isIndicator, if_pos rfl, hlist]
  simp (disch := decide) only [List.contains_cons, List.contains_nil, ofNat_beq, starters]
  cases followed <;> simp
  · tauto
  · tauto

theorem isIndicator_later {spaced followed : Bool} :
    isIndicator r false spaced followed = false ↔
      (r = 58 → followed = false) ∧ (r = 35 → spaced = false) := by
  rw [isIndicator, if_neg Bool.false_ne_true]
  simp (disch := decide) only [ofNat_beq]
  cases followed <;> cases spaced <;> simp

variable {s : Scanner}

theorem marksDocument_false (hrest : s.rest = r :: more) (hmark : s.column = 0 → r ≠ 45 ∧ r ≠ 46) :
    s.marksDocument 45 = false ∧ s.marksDocument 46 = false := by grind [ahead, marksDocument]

/-- A character that starts a token without being an indicator there. -/
structure StartsPlain (r : Rune) (more : List Rune) : Prop where
  visible : Visible r
  notStarter : r ∉ starters
  notIndicator : r = 63 ∨ r = 58 ∨ r = 45 → blankOrEnd more = false

theorem startsPlain_eq (hrest : s.rest = r :: more) (hflow : s.flow = 0)
    (hstart : StartsPlain r more) : s.startsPlain = true := by
  obtain ⟨⟨hblank, hbreak, -⟩, hstarter, hindicator⟩ := hstart
  have hlist : ∀ c ∈ "-?:,[]\x7b\x7d#&*!|>'\"%@`".toList,
      c.toNat ∈ starters ∨ c.toNat = 63 ∨ c.toNat = 58 ∨ c.toNat = 45 := by
    simp [starters]
  simp only [startsPlain, hrest, hblank, hbreak, hflow, Bool.false_or]
  by_cases hspecial : r = 63 ∨ r = 58 ∨ r = 45
  · have hmore := hindicator hspecial
    have hnext : (more.head?.map isBlank).getD false = false := by
      cases more with
      | nil => rfl
      | cons n rest =>
        rw [blankOrEnd, Bool.or_eq_false_iff] at hmore
        simpa using hmore.1
    rcases hspecial with rfl | rfl | rfl <;> simp [hmore, hnext]
  · grind

theorem token?_plain (hrest : s.rest = r :: more) (hflow : s.flow = 0)
    (hstart : StartsPlain r more) (hmark : s.column = 0 → r ≠ 45 ∧ r ≠ 46) :
    s.token? = s.plainScalar? := by
  obtain ⟨hdash, hdots⟩ := marksDocument_false hrest hmark
  have hplain := startsPlain_eq hrest hflow hstart
  have hnone : ∀ c : Char, c ≠ '\x00' → c.toNat ∈ starters → (Char.ofNat r == c) = false := by
    intro c hc hin
    rw [ofNat_beq hc, beq_eq_false_iff_ne]
    rintro rfl
    exact hstart.notStarter hin
  have hspecial : ∀ c : Char, c ≠ '\x00' → c.toNat = 63 ∨ c.toNat = 58 ∨ c.toNat = 45 →
      (Char.ofNat r == c && blankOrEnd more) = false := by
    intro c hc hin
    rw [ofNat_beq hc]
    by_cases h : r = c.toNat
    · rw [hstart.notIndicator (h ▸ hin), Bool.and_false]
    · simp [h]
  have hopen : (r == 123) = false := by
    rw [beq_eq_false_iff_ne]
    rintro rfl
    exact hstart.notStarter (by decide)
  have hclose : (r == 125) = false := by
    rw [beq_eq_false_iff_ne]
    rintro rfl
    exact hstart.notStarter (by decide)
  rw [token?, hrest]
  simp (disch := decide) only [hdash, hdots, hplain, hflow, hnone, hspecial, hopen, hclose,
    Bool.and_false, Bool.false_and, Bool.false_eq_true, if_false, if_true, decide_false,
      Bool.false_or,
    gt_iff_lt, Nat.lt_irrefl]

/-! ## Gaps between words -/

theorem not_isBlank (hbreak : isBreak r = true) : isBlank r = false := by
  by_contra hblank
  simp only [Bool.not_eq_false, isBlank, Bool.or_eq_true, beq_iff_eq] at hblank
  rcases hblank with rfl | rfl <;> cases hbreak

/-- A text that does not start with a blank or a line end. -/
def Ink (rs : List Rune) : Prop := ∀ r ∈ rs.head?, isBlank r = false ∧ isBreak r = false

theorem gap?_blanks {limit : Int} {n : Nat} {g : Gap} {blanks back : List Rune}
    (hrest : s.rest = blanks ++ back) (hblanks : ∀ b ∈ blanks, isBlank b = true)
    (hback : Ink back) (hg : g.broken = false)
    (hn : blanks.length < n) :
    gap? limit n g s = some ({ g with blanks := g.blanks ++ blanks },
      s.skipMany blanks.length) := by
  induction blanks generalizing n g s with
  | nil =>
    obtain ⟨n, rfl⟩ := Nat.exists_eq_add_one.mpr hn
    rw [gap?, hrest]
    cases back with
    | nil => simp [skipMany]
    | cons r more =>
      obtain ⟨hblank, hbreak⟩ := hback r rfl
      simp [hblank, hbreak, skipMany]
  | cons b blanks ih =>
    obtain ⟨n, rfl⟩ : ∃ n', n = n' + 1 := Nat.exists_eq_add_one.mpr (by omega)
    grind [skip, gap?, skipMany]

theorem gap?_indentation (hrest : s.rest = spaces width ++ back)
    (hback : Ink back) (hg : g.broken = true)
    (hn : width < n) : gap? limit n g s = some (g, s.skipMany width) := by
  induction width generalizing n s with
  | zero =>
    obtain ⟨n, rfl⟩ := Nat.exists_eq_add_one.mpr hn
    rw [gap?, hrest]
    cases back with
    | nil => simp [spaces, skipMany]
    | cons r more =>
      obtain ⟨hblank, hbreak⟩ := hback r rfl
      simp [spaces, hblank, hbreak, skipMany]
  | succ width ih =>
    obtain ⟨n, rfl⟩ : ∃ n', n = n' + 1 := Nat.exists_eq_add_one.mpr (by omega)
    grind [spaces, skip, gap?, isBlank, skipMany]

/-- Line ends after the first one, and the blanks behind them. -/
theorem gap?_broken {breaks : List Rune}
    (hrest : s.rest = breaks ++ (spaces width ++ back)) (hcolumn : s.column = 0)
    (hbreaks : ∀ b ∈ breaks, isBreak b = true ∧ isPrintable b = true)
    (hback : Ink back) (hg : g.broken = true)
    (hn : breaks.length + width < n) :
    ∃ s', gap? limit n g s = some ({ g with trail := g.trail ++ breaks }, s') ∧
      MovedTo s back width s' := by
  induction breaks generalizing n g s with
  | nil =>
    have hlength : (spaces width).length = width := length_replicate
    have hmoved := movedTo_skipMany (show s.rest = spaces width ++ back from hrest)
    rw [hcolumn, hlength, Nat.zero_add] at hmoved
    refine ⟨_, ?_, hmoved⟩
    rw [gap?_indentation hrest hback hg (by simpa using hn), append_nil]
  | cons b breaks ih =>
    obtain ⟨n, rfl⟩ : ∃ n', n = n' + 1 := Nat.exists_eq_add_one.mpr (by omega)
    obtain ⟨hbreak, hprintable⟩ := hbreaks b mem_cons_self
    have hline := readLine_spec hrest hbreak hprintable
    obtain ⟨s', hgap, hmoved⟩ := ih (n := n) (g := { g with trail := g.trail ++ [b] })
      (s := s.readLine.2) hline.2.rest_eq hline.2.column_eq
      (fun b' hb' => hbreaks b' (mem_cons_of_mem b hb')) hg (by simp at hn; omega)
    refine ⟨s', ?_, hline.2.trans hmoved⟩
    grind [gap?, not_isBlank]

theorem gap?_breaks {b : Rune} {breaks : List Rune}
    (hrest : s.rest = b :: breaks ++ (spaces width ++ back))
    (hbreaks : ∀ b' ∈ b :: breaks, isBreak b' = true ∧ isPrintable b' = true)
    (hback : Ink back)
    (hn : breaks.length + width + 1 < n) :
    ∃ s', gap? limit n {} s = some ({ lead := [b], trail := breaks, broken := true }, s') ∧
      MovedTo s back width s' := by
  obtain ⟨n, rfl⟩ : ∃ n', n = n' + 1 := Nat.exists_eq_add_one.mpr (by omega)
  obtain ⟨hbreak, hprintable⟩ := hbreaks b mem_cons_self
  have hline := readLine_spec hrest hbreak hprintable
  have hafter : ∃ s', gap? limit n { lead := [b], broken := true } s.readLine.2 =
      some ({ lead := [b], trail := breaks, broken := true }, s') ∧
        MovedTo s.readLine.2 back width s' :=
    gap?_broken hline.2.rest_eq hline.2.column_eq
      (fun b' hb' => hbreaks b' (mem_cons_of_mem b hb')) hback rfl (by omega)
  obtain ⟨s', hgap, hmoved⟩ := hafter
  refine ⟨s', ?_, hline.2.trans hmoved⟩
  grind [gap?, not_isBlank]

/-- The end of a line and the start of the next one. -/
theorem gap?_line (limit : Int) {column : Nat} (hrest : s.rest = 10 :: tail)
    (honward : Onward tail column body) :
    ∃ s', gap? limit (s.rest.length + 1) {} s = some ({ lead := [10], broken := true }, s') ∧
      MovedTo s body column s' := by
  have hline : s.rest = 10 :: [] ++ (spaces column ++ body) := by rw [hrest, honward.eq]; rfl
  refine gap?_breaks hline (by decide) ?_ ?_
  · intro r hr
    exact ⟨(honward.visible r hr).notBlank, (honward.visible r hr).notBreak⟩
  · rw [hline]
    simp only [spaces, length_cons, length_append, length_nil, length_replicate]
    omega

/-! ## Words -/

theorem blankOrEnd_append (hrs : Everywhere PlainAt false before rs) (tail : List Rune) :
    blankOrEnd (rs ++ 10 :: tail) = followedBy rs := by
  cases rs with
  | nil => rfl
  | cons n rest => simp [blankOrEnd, followedBy, hrs.1.inLine]

theorem plainWord_eq (hrs : Everywhere PlainAt first before rs) (tail : List Rune) :
    plainWord false (rs ++ 10 :: tail) = rs.takeWhile (!isBlank ·) := by
  induction rs generalizing first before with
  | nil => rfl
  | cons r rest ih =>
    have hcolon : (r == 58 && blankOrEnd (rest ++ 10 :: tail)) = false := by
      rw [blankOrEnd_append hrs.2]
      have hindicator := hrs.1.indicator
      by_cases hr : r = 58
      · subst hr
        cases first with
        | true => simpa using (isIndicator_first.mp hindicator).2 (.inr (.inl rfl))
        | false => simpa using (isIndicator_later.mp hindicator).1 rfl
      · simp [hr]
    rw [cons_append, plainWord, takeWhile_cons, hrs.1.inLine, hcolon, ih hrs.2]
    cases isBlank r <;> simp

theorem ne_comment (h : PlainAt first before r rest)
    (hspaced : first = true ∨ spacedAfter before = true) : r ≠ 35 := by
  rintro rfl
  have hindicator := h.indicator
  cases first with
  | true => exact (isIndicator_first.mp hindicator).1 (by decide)
  | false =>
    rw [(isIndicator_later.mp hindicator).2 rfl] at hspaced
    simp at hspaced

/-- The first word of a plain text is all of it, or blanks and another word follow. -/
theorem exists_word (hrs : Everywhere PlainAt first before rs) :
    rs.takeWhile (!isBlank ·) = rs ∨
      ∃ blanks r later before', rs = rs.takeWhile (!isBlank ·) ++
        (blanks ++ r :: later) ∧ blanks ≠ [] ∧
        (∀ b ∈ blanks, isBlank b = true) ∧ isBlank r = false ∧ spacedAfter before' = true ∧
          Everywhere PlainAt false before' (r :: later) := by
  obtain ⟨word, hword⟩ : ∃ word, rs.takeWhile (!isBlank ·) = word := ⟨_, rfl⟩
  obtain ⟨left, hleft⟩ : ∃ left, rs.dropWhile (!isBlank ·) = left := ⟨_, rfl⟩
  have hsplit : word ++ left = rs := by rw [← hword, ← hleft, takeWhile_append_dropWhile]
  rw [hword]
  cases left with
  | nil => exact .inl (by rw [← hsplit, append_nil])
  | cons b more =>
    right
    have hb : isBlank b = true := by
      have hhead := head?_dropWhile_not (!isBlank ·) rs
      rw [hleft] at hhead
      simpa using hhead
    obtain ⟨later, hlater⟩ : ∃ later, (b :: more).dropWhile isBlank = later := ⟨_, rfl⟩
    obtain ⟨blanks, hblanks⟩ : ∃ blanks, (b :: more).takeWhile isBlank = blanks := ⟨_, rfl⟩
    have hmore : blanks ++ later = b :: more := by
      rw [← hblanks, ← hlater, takeWhile_append_dropWhile]
    have hall : ∀ b' ∈ blanks, isBlank b' = true := by
      rw [← hblanks]
      exact fun b' hb' => mem_takeWhile_imp hb'
    have hne : blanks ≠ [] := by
      rw [← hblanks, takeWhile_cons, if_pos hb]
      exact cons_ne_nil _ _
    -- A blank is never the last character.
    obtain ⟨init, x, rfl⟩ : ∃ init x, blanks = init ++ [x] :=
      ⟨_, _, (dropLast_concat_getLast hne).symm⟩
    have hx : isBlank x = true := hall x (by simp)
    have hplaces : rs = (word ++ init) ++ x :: later := by
      rw [← hsplit, ← hmore]
      simp
    rw [hplaces] at hrs
    obtain ⟨hlast, hafter⟩ := hrs.of_append
    cases later with
    | nil =>
      simp only [isBlank, Bool.or_eq_true, beq_iff_eq] at hx
      rcases hx with rfl | rfl
      · exact absurd rfl (hlast.notLast rfl)
      · exact absurd hlast.printable (by decide)
    | cons r later => grind [head?_dropWhile_not, spacedAfter]

/-- A word is read at a place where no document ends and no comment starts. -/
structure WordAt (s : Scanner) (word back : List Rune) : Prop where
  rest_eq : s.rest = word ++ back
  flow_eq : s.flow = 0
  notMark : s.marksDocument 45 = false ∧ s.marksDocument 46 = false
  notComment : (s.peek? == some 35) = false
  word_eq : plainWord false s.rest = word
  ne_nil : word ≠ []

/-- The scalar ends with a word that no white space follows. -/
theorem WordAt.plainFrom?_stop {text : List Rune} {word : List Rune}
    (h : WordAt s word (r :: back)) (hblank : isBlank r = false) (hbreak : isBreak r = false) :
    plainFrom? (n + 1) text g s = some (text ++ g.text ++ word, false, s.skipMany word.length) := by
  have hmoved := movedTo_skipMany h.rest_eq
  have hinFlow : decide (s.flow > 0) = false := by simp [h.flow_eq]
  have hnonempty : word.isEmpty = false := by simpa using h.ne_nil
  rw [plainFrom?]
  simp only [h.notMark.1, h.notMark.2, h.notComment, Bool.or_self, Bool.false_eq_true, if_false,
    hinFlow, h.word_eq, hnonempty]
  split
  · rfl
  · rename_i heq
    rw [hmoved.rest_eq] at heq
    cases heq
    simp [hblank, hbreak]

/-- The scalar goes on behind a word with a gap, unless the gap ends outside of the block. -/
theorem WordAt.plainFrom?_gap {n : Nat} {text : List Rune} {g g' : Gap} {s s' : Scanner} {r : Rune}
    {word back : List Rune} (h : WordAt s word (r :: back))
    (hspace : (isBlank r || isBreak r) = true)
    (hgap : gap? (s.indent + 1) ((s.skipMany word.length).rest.length + 1) {}
      (s.skipMany word.length) = some (g', s')) :
    plainFrom? (n + 1) text g s =
      if s'.flow == 0 && (s'.column : Int) < s.indent + 1 then
        some (text ++ g.text ++ word, g'.broken, s')
      else plainFrom? n (text ++ g.text ++ word) g' s' := by
  have hmoved := movedTo_skipMany h.rest_eq
  have hinFlow : decide (s.flow > 0) = false := by simp [h.flow_eq]
  have hnonempty : word.isEmpty = false := by simpa using h.ne_nil
  rw [plainFrom?]
  simp only [h.notMark.1, h.notMark.2, h.notComment, Bool.or_self, Bool.false_eq_true, if_false,
    hinFlow, h.word_eq, hnonempty, hgap]
  split
  · rename_i heq
    rw [hmoved.rest_eq] at heq
    cases heq
  · rename_i heq
    rw [hmoved.rest_eq] at heq
    cases heq
    simp [hspace]

/-- The words of a plain text, up to the next line. -/
theorem plainFrom?_text {n : Nat} {text : List Rune} {g : Gap} {first : Bool}
    {before : Option Rune} {rs tail body : List Rune} {column : Nat}
    (hrs : Everywhere PlainAt first before rs) (hne : rs ≠ [])
    (hstart : ∀ r ∈ rs.head?, isBlank r = false)
    (hspaced : first = true ∨ spacedAfter before = true) (hrest : s.rest = rs ++ 10 :: tail)
    (honward : Onward tail column body) (hindent : (column : Int) ≤ s.indent)
    (hcolumn : s.indent < s.column) (hflow : s.flow = 0) (hn : rs.length ≤ n) :
    ∃ s', plainFrom? n text g s = some (text ++ g.text ++ rs, true, s') ∧
      MovedTo s body column s' := by
  induction n generalizing text g s first before rs with
  | zero => exact absurd (length_eq_zero_iff.mp (Nat.le_zero.mp hn)) hne
  | succ n ih =>
    obtain ⟨word, hword⟩ : ∃ word, rs.takeWhile (!isBlank ·) = word := ⟨_, rfl⟩
    have hat : ∀ back, rs ++ 10 :: tail = word ++ back → WordAt s word back := by
      intro back hback
      obtain ⟨r, rest, rfl⟩ := exists_cons_of_ne_nil hne
      have hpos : s.column ≠ 0 := by omega
      refine ⟨hrest.trans hback, hflow, marksDocument_false hrest fun h => absurd h hpos,
        ?_, ?_, ?_⟩
      · rw [peek?, hrest]
        simpa using ne_comment hrs.1 hspaced
      · rw [hrest, plainWord_eq hrs, hword]
      · rw [← hword, takeWhile_cons, hstart r rfl]
        exact cons_ne_nil _ _
    rcases exists_word hrs with hall |
      ⟨blanks, l, later, before', hsplit, hnonempty, hblanks, hl, hspaced', hlater⟩
    · -- The last word: the line ends behind it.
      rw [hword] at hall
      have hwordAt := hat (10 :: tail) (by rw [hall])
      have hmoved := movedTo_skipMany hwordAt.rest_eq
      obtain ⟨s', hgap, hmoved'⟩ := gap?_line (s.indent + 1) hmoved.rest_eq honward
      have hreached := hmoved.trans hmoved'
      refine ⟨s', ?_, hreached⟩
      have hflow' : s'.flow = 0 := by
        obtain ⟨index, line, rfl⟩ := hreached
        exact hflow
      rw [hwordAt.plainFrom?_gap rfl hgap, hflow', hreached.column_eq, if_pos, hall]
      simp only [beq_self_eq_true, Bool.true_and, decide_eq_true_eq]
      omega
    · -- Another word follows on the same line.
      rw [hword] at hsplit
      obtain ⟨b, blanks, rfl⟩ := exists_cons_of_ne_nil hnonempty
      have hwordAt := hat (b :: blanks ++ (l :: later ++ 10 :: tail)) (by rw [hsplit]; simp)
      have hmoved := movedTo_skipMany hwordAt.rest_eq
      have hgap : gap? (s.indent + 1) ((s.skipMany word.length).rest.length + 1) {}
          (s.skipMany word.length) =
            some ({ blanks := b :: blanks },
              (s.skipMany word.length).skipMany (b :: blanks).length) := by
        refine gap?_blanks hmoved.rest_eq hblanks ?_ rfl ?_
        · simpa [Ink] using ⟨hl, hlater.1.inLine⟩
        · rw [hmoved.rest_eq, length_append]
          omega
      have hmoved' := hmoved.trans (movedTo_skipMany hmoved.rest_eq)
      generalize (s.skipMany word.length).skipMany (b :: blanks).length = s₁ at hgap hmoved'
      have hcolumn₁ := hmoved'.column_eq
      rw [hmoved.column_eq] at hcolumn₁
      have hlength : (l :: later).length ≤ n := by
        have hwhole := congrArg length hsplit
        simp only [length_append, length_cons] at hwhole ⊢
        omega
      obtain ⟨hindent₁, hflow₁⟩ : s₁.indent = s.indent ∧ s₁.flow = 0 := by
        obtain ⟨index, line, rfl⟩ := hmoved'
        exact ⟨rfl, hflow⟩
      have hnext : ∃ s', plainFrom? n (text ++ g.text ++ word) { blanks := b :: blanks } s₁ =
          some (text ++ g.text ++ word ++ (b :: blanks) ++ l :: later, true, s') ∧
            MovedTo s₁ body column s' :=
        ih hlater (cons_ne_nil _ _) (by simpa using hl) (.inr hspaced')
          hmoved'.rest_eq (by rwa [hindent₁]) (by rw [hindent₁, hcolumn₁]; omega) hflow₁ hlength
      obtain ⟨s', hfrom, hreached⟩ := hnext
      refine ⟨s', ?_, hmoved'.trans hreached⟩
      rw [hwordAt.plainFrom?_gap (by simp [hblanks]) hgap, if_neg, hfrom, hsplit]
      · simp
      · grind

/-! ## Scalars -/

variable {column : Nat} {i : Int} {is : List Int} {tokens : List Token}

theorem startsPlain_of_everywhere (hrs : Everywhere PlainAt true none (r :: rest))
    (tail : List Rune) : StartsPlain r (rest ++ 10 :: tail) := by
  obtain ⟨hstarter, hspecial⟩ := isIndicator_first.mp hrs.1.indicator
  refine ⟨⟨?_, hrs.1.inLine, ne_comment hrs.1 (.inl rfl)⟩, hstarter, ?_⟩
  · have hspace : r ≠ 32 := fun h => Bool.noConfusion (hrs.1.notFirst h)
    have htab : r ≠ 9 := by
      rintro rfl
      exact absurd hrs.1.printable (by decide)
    simp [isBlank, hspace, htab]
  · rw [blankOrEnd_append hrs.2]
    exact hspecial

/-- A plain text behind a name is scanned as it stands. -/
theorem Stands.plain {rs tail body : List Rune} {column' : Nat}
    (h : Stands s (32 :: (rs ++ 10 :: tail)) column (i :: is) tokens false)
    (hrs : Everywhere PlainAt true none rs) (hne : rs ≠ []) (hindent : i ≤ column)
    (honward : Onward tail column' body) (hcolumn : (column' : Int) ≤ i) :
    ∃ s', Leads s s' ∧ Ready s' body column' (i :: is)
      (tokens ++ [.scalar (ofRunes rs) .plain]) := by
  obtain ⟨r, rest, rfl⟩ := exists_cons_of_ne_nil hne
  have hstart := startsPlain_of_everywhere hrs tail
  obtain ⟨s₁, hstep, h₁⟩ := h.step_space hstart.visible (by omega)
  have hpos : s₁.column ≠ 0 := by rw [h₁.column_eq]; omega
  rw [token?_plain h₁.rest_eq h₁.flow_eq hstart fun hzero => absurd hzero hpos] at hstep
  have hfrom : ∃ s', plainFrom? (s₁.rest.length + 1) [] {} { s₁ with keyAllowed := false } =
      some ([] ++ [] ++ r :: rest, true, s') ∧
        MovedTo { s₁ with keyAllowed := false } body column' s' := by
    refine plainFrom?_text hrs hne ?_ (.inl rfl) h₁.rest_eq honward ?_ ?_ h₁.flow_eq ?_
    · simpa using hstart.visible.notBlank
    · exact h₁.indent_eq ▸ hcolumn
    · show s₁.indent < s₁.column
      rw [h₁.indent_eq, h₁.column_eq]
      omega
    · rw [h₁.rest_eq]
      simp
      omega
  obtain ⟨s₂, hfrom, hmoved⟩ := hfrom
  have h₂ := (((h₁.allow false).move hmoved).allow true).push (.scalar (ofRunes (r :: rest)) .plain)
  refine ⟨_, Leads.step h.done_eq ?_ ?_, h₂.ready honward.visible⟩
  · rw [hstep, plainScalar?, saveKey?, h₁.keyAllowed_eq]
    simp [hfrom]
  · rw [h₂.rest_eq, h.rest_eq, honward.eq]
    simp
    omega

/-! ## Keys -/

/-- A name of a field: small letters and underscores. -/
structure IsName (name : List Rune) : Prop where
  ne_nil : name ≠ []
  short : name.length ≤ 1024
  letters : ∀ r : Nat, r ∈ name → (97 ≤ r ∧ r ≤ 122) ∨ r = 95

theorem IsName.isPlain (hname : IsName name) {r : Nat} (hr : r ∈ name) :
    Visible r ∧ r ∉ starters ∧ r ≠ 63 ∧ r ≠ 58 ∧ r ≠ 45 ∧ r ≠ 46 := by
  have hne : ∀ c : Nat, c < 95 ∨ 122 < c ∨ c = 96 → r ≠ c := by
    rintro c hc rfl
    have := hname.letters r hr
    omega
  refine ⟨⟨?_, ?_, hne 35 (by decide)⟩, ?_, hne 63 (by decide), hne 58 (by decide),
    hne 45 (by decide), hne 46 (by decide)⟩
  · simp [isBlank, hne 32 (by decide), hne 9 (by decide)]
  · grind [isBreak]
  · intro hin
    have hbounds : ∀ c ∈ starters, c < 95 ∨ 122 < c ∨ c = 96 := by decide
    exact hne r (hbounds r hin) rfl

theorem plainWord_name (hname : ∀ r ∈ name, Visible r ∧ r ≠ 58) (hback : blankOrEnd back = true) :
    plainWord false (name ++ 58 :: back) = name := by
  induction name with
  | nil => simp [plainWord, hback]
  | cons r name ih =>
    obtain ⟨hvisible, hcolon⟩ := hname r mem_cons_self
    rw [cons_append, plainWord, ih fun r' hr' => hname r' (mem_cons_of_mem r hr')]
    simp [hvisible.notBlank, hvisible.notBreak, hcolon]

/-- The key that is remembered where a scalar starts. -/
def keyHere (s : Scanner) : SimpleKey where
  possible := true
  required := s.flow == 0 && s.indent == (s.column : Int)
  token := s.tokens.size
  index := s.index
  line := s.line
  column := s.column

theorem Stands.saveKey?_eq {indents : List Int} (h : Stands s rest column indents tokens true) :
    s.saveKey? = some { s with keys := [keyHere s] } := by
  obtain ⟨k, hkeys, hpossible⟩ := h.keys_eq
  rw [saveKey?, h.keyAllowed_eq]
  simp [removeKey?, hkeys, hpossible, keyHere, h.keyAllowed_eq]

/-- The scanner behind a scalar that may be a key; `start` is the column where it starts. -/
structure Pending (s : Scanner) (rest : List Rune) (start column : Nat) (indents : List Int)
    (tokens : List Token) (t : Token) : Prop where
  rest_eq : s.rest = rest
  column_eq : s.column = column
  flow_eq : s.flow = 0
  indents_eq : s.indent :: s.indents = indents
  tokens_eq : s.tokens.toList = tokens ++ [t]
  key_eq : ∃ k, s.keys = [k] ∧ k.possible = true ∧ k.line = s.line ∧ s.index ≤ k.index + 1024 ∧
    k.token = tokens.length ∧ k.column = start
  done_eq : s.done = false

theorem Stands.plainScalar?_name {name back : List Rune} {indents : List Int}
    (h : Stands s (name ++ 58 :: back) column indents tokens true) (hname : IsName name)
    (hback : blankOrEnd back = true) :
    ∃ s', s.plainScalar? = some s' ∧
      Pending s' (58 :: back) column (column + name.length) indents tokens
      (.scalar (ofRunes name) .plain) := by
  have hletters : ∀ r ∈ name, Visible r ∧ r ≠ 58 := by
    intro r hr
    obtain ⟨hvisible, -, -, hcolon, -⟩ := hname.isPlain hr
    exact ⟨hvisible, hcolon⟩
  have hat : WordAt { s with keys := [keyHere s], keyAllowed := false } name (58 :: back) := by
    obtain ⟨r, rest, rfl⟩ := exists_cons_of_ne_nil hname.ne_nil
    obtain ⟨hvisible, -, -, -, hdash, hdot⟩ := hname.isPlain mem_cons_self
    refine ⟨h.rest_eq, h.flow_eq, marksDocument_false h.rest_eq fun _ => ⟨hdash, hdot⟩, ?_, ?_,
      cons_ne_nil _ _⟩
    · rw [peek?, h.rest_eq]
      simpa using hvisible.notComment
    · show plainWord false s.rest = _
      rw [h.rest_eq, plainWord_name hletters hback]
  have hfrom : plainFrom? (s.rest.length + 1) [] {}
      { s with keys := [keyHere s], keyAllowed := false } =
      some ([] ++ [] ++ name, false, _) := hat.plainFrom?_stop rfl rfl
  rw [plainScalar?, h.saveKey?_eq]
  simp only [Option.bind_eq_bind, Option.bind_some, hfrom]
  refine ⟨_, rfl, ?_⟩
  simp only [skipMany_eq, h.rest_eq, drop_left, Scanner.push]
  refine ⟨rfl, ?_, h.flow_eq, h.indents_eq, ?_,
    ⟨keyHere s, rfl, rfl, rfl, ?_, ?_, h.column_eq⟩, h.done_eq⟩
  · exact congrArg (· + name.length) h.column_eq
  · simp [h.tokens_eq]
  · exact Nat.add_le_add_left hname.short _
  · rw [← h.tokens_eq]
    rfl

theorem toList_insertIdxIfInBounds {front back : List Token} {ts : Array Token}
    (hts : ts.toList = front ++ back) (t : Token) :
    (ts.insertIdxIfInBounds front.length t).toList = front ++ t :: back := by
  have hle : front.length ≤ ts.size := by
    rw [← Array.length_toList, hts]
    simp
  rw [Array.insertIdxIfInBounds, dif_pos hle, Array.toList_insertIdx, hts]
  clear hts hle
  induction front with
  | nil => simp
  | cons f front ih => simpa using ih

theorem token?_colon (hrest : s.rest = 58 :: back) (hflow : s.flow = 0)
    (hback : blankOrEnd back = true) : s.token? = s.valueMark? := by
  have hmarks := marksDocument_false hrest (by simp)
  rw [token?, hrest]
  simp [hmarks, hflow, hback]

/-- The columns of the open blocks once one is opened at a column, if that is indented more. -/
def openAt (column : Nat) (i : Int) (is : List Int) : List Int :=
  if (column : Int) ≤ i then i :: is else column :: i :: is

/-- The token that opens a block at a column, if that is indented more. -/
def opening (t : Token) (column : Nat) (i : Int) : List Token :=
  if (column : Int) ≤ i then [] else [t]

/-- The colon makes a key of the scalar before it. -/
theorem Pending.valueMark?_eq {start : Nat} {t : Token}
    (h : Pending s (58 :: back) start column (i :: is) tokens t) :
    ∃ s', s.valueMark? = some s' ∧ Stands s' back (column + 1) (openAt start i is)
      (tokens ++ opening .blockMappingStart start i ++ [.key, t, .value]) false := by
  obtain ⟨k, hkeys, hpossible, hline, hindex, htoken, rfl⟩ := h.key_eq
  obtain ⟨hindent, hindents⟩ := cons.inj h.indents_eq
  have hstands : s.keyStands? k = some true := by
    have hfar : ¬k.index + 1024 < s.index := by omega
    simp [keyStands?, hpossible, hline, hfar]
  have hkey := toList_insertIdxIfInBounds h.tokens_eq .key
  have hblock := toList_insertIdxIfInBounds hkey .blockMappingStart
  rw [valueMark?, hkeys]
  simp only [headD_cons, hstands, Option.bind_eq_bind, Option.bind_some, if_true]
  refine ⟨_, rfl, ?_⟩
  by_cases hcolumn : (k.column : Int) ≤ i
  · have hroll : (s.insert k.token .key).roll k.column (some k.token) .blockMappingStart =
        s.insert k.token .key := by
      simp [roll, Scanner.insert, h.flow_eq, hindent, hcolumn]
    rw [hroll, openAt, opening, if_pos hcolumn, if_pos hcolumn]
    refine ⟨?_, ?_, h.flow_eq, h.indents_eq, ?_, rfl,
      ⟨{ k with possible := false }, ?_, rfl⟩, h.done_eq⟩ <;>
      simp [indicator, skipMany_eq, Scanner.push, Scanner.insert, h.rest_eq, h.column_eq, htoken,
        hkey, hkeys]
  · have hroll : (s.insert k.token .key).roll k.column (some k.token) .blockMappingStart =
        { (s.insert k.token .key).insert k.token .blockMappingStart with
          indents := s.indent :: s.indents, indent := k.column } := by
      simp [roll, Scanner.insert, h.flow_eq, hindent, hcolumn]
    rw [hroll, openAt, opening, if_neg hcolumn, if_neg hcolumn, ← h.indents_eq]
    refine ⟨?_, ?_, h.flow_eq, rfl, ?_, rfl, ⟨{ k with possible := false }, ?_, rfl⟩, h.done_eq⟩ <;>
      simp [indicator, skipMany_eq, Scanner.push, Scanner.insert, h.rest_eq, h.column_eq, htoken,
        hblock, hkeys]

/-- A name and the colon behind it are a key; the first one opens a mapping. -/
theorem Ready.key (h : Ready s (name ++ 58 :: back) column (i :: is) tokens) (hname : IsName name)
    (hback : blankOrEnd back = true) (hindent : i ≤ column) :
    ∃ s', Leads s s' ∧ Stands s' back (column + name.length + 1) (openAt column i is)
      (tokens ++ opening .blockMappingStart column i ++
        [.key, .scalar (ofRunes name) .plain, .value]) false := by
  -- The name is scanned as a scalar.
  have hstart : ∃ s₁, s.settle.token? = some s₁ ∧
      Pending s₁ (58 :: back) column (column + name.length)
      (i :: is) tokens (.scalar (ofRunes name) .plain) := by
    obtain ⟨r, rest, rfl⟩ := exists_cons_of_ne_nil hname.ne_nil
    obtain ⟨hvisible, hstarter, hquestion, hcolon, hdash, hdot⟩ := hname.isPlain mem_cons_self
    rw [token?_plain h.stands.rest_eq h.stands.flow_eq ⟨hvisible, hstarter, by tauto⟩
      fun _ => ⟨hdash, hdot⟩]
    exact h.stands.plainScalar?_name hname hback
  obtain ⟨s₁, hname₁, h₁⟩ := hstart
  have hfirst : Leads s s₁ := by
    refine h.leads ((h.step_eq hindent).trans hname₁) ?_
    have hpos := length_pos_iff.mpr hname.ne_nil
    rw [h₁.rest_eq, length_append]
    omega
  -- The colon follows directly.
  obtain ⟨s₂, hmark, h₂⟩ := h₁.valueMark?_eq
  have hsettle : s₁.settle = s₁ :=
    settle_visible (by rw [h₁.rest_eq]; simpa using ⟨rfl, rfl, by decide⟩)
  have hsecond : s₁.step? = some s₂ := by
    rw [step?, hsettle, unrollTo_of_le, token?_colon h₁.rest_eq h₁.flow_eq hback, hmark]
    rw [(cons.inj h₁.indents_eq).1, h₁.column_eq]
    omega
  refine ⟨s₂, hfirst.trans (Leads.step h₁.done_eq hsecond ?_), h₂⟩
  rw [h₂.rest_eq, h₁.rest_eq]
  exact Nat.lt_succ_self _

end FaultRepair.Yaml.Scanner
