/-
# Scalars in quotes

The characters between two quotes are scanned one by one: each stands for itself or is written
with an escape, and the blanks and line ends between words are gaps. What is written for a text
in single or in double quotes is scanned as that text.
-/

import FaultRepair.Proofs.Text.Encoding
import FaultRepair.Proofs.Yaml.Plain
import Mathlib.Tactic.IntervalCases

namespace FaultRepair.Yaml.Scanner

open List Option

open Text

variable {single : Bool} {r : Rune} {indent n m : Nat} {tail more rest rs acc : List Rune}

/-! ## Numbers in escapes -/

/-- The digit of a number below sixteen as escapes have it. -/
def hexDigit (d : Nat) : UInt8 := upperByte (Nat.digitChar d).toUInt8

theorem hexDigit_spec {d : Nat} (hd : d < 16) :
    (hexDigit d).toNat < 128 ∧ isHexDigit (hexDigit d).toNat.toUInt8 = true ∧
      hexValue (hexDigit d).toNat.toUInt8 = d := by
  interval_cases d <;> decide

/-- The digits of a number without zeros in front. -/
def hexDigits (n : Nat) : Text := ((Nat.toDigits 16 n).map Char.toUInt8).map upperByte

theorem hexDigits_eq (n : Nat) :
    hexDigits n = (if n < 16 then [] else hexDigits (n / 16)) ++ [hexDigit (n % 16)] := by
  grind [hexDigits, Nat.toDigits_eq_if, hexDigit]

theorem length_hexDigits_le {w : Nat} (hn : n < Nat.pow 16 (w + 1)) :
    (hexDigits n).length ≤ w + 1 := by
  induction w generalizing n with
  | zero =>
    have hsmall : n < 16 := hn
    rw [hexDigits_eq, if_pos hsmall]
    exact Nat.le_refl _
  | succ w ih => grind [hexDigits_eq, Nat.pow]

theorem hexDigits?_concat (ds : List Rune) (d : Rune) :
    hexDigits? (ds ++ [d]) = (hexDigits? ds).bind fun n =>
      if d < 128 && isHexDigit d.toUInt8 then some (n * 16 + hexValue d.toUInt8) else none := by
  rw [hexDigits?, foldlM_append]
  simp [hexDigits?]

theorem hexDigits?_hexDigit {ds : List Rune} {m d : Nat} (hds : hexDigits? ds = some m)
    (hd : d < 16) :
    hexDigits? (ds ++ [(hexDigit d).toNat]) = some (m * 16 + d) := by
  grind [hexDigit_spec, hexDigits?_concat]

theorem hexDigits?_zeros (k : Nat) : hexDigits? (replicate k 48) = some 0 := by
  induction k with
  | zero => rfl
  | succ k ih =>
    rw [replicate_succ', hexDigits?_concat, ih]
    rfl

/-- Digits with zeros in front stand for the number. -/
theorem hexDigits?_hexDigits (k n : Nat) :
    hexDigits? (replicate k 48 ++ (hexDigits n).map (·.toNat)) = some n := by
  induction n using Nat.strong_induction_on with
  | _ n ih =>
    rw [hexDigits_eq, map_append, ← append_assoc]
    have hfront : hexDigits? (replicate k 48 ++
        (if n < 16 then [] else hexDigits (n / 16)).map (·.toNat)) = some (n / 16) := by
      split
      · rw [map_nil, append_nil, hexDigits?_zeros, Nat.div_eq_of_lt ‹_›]
      · exact ih (n / 16) (by omega)
    rw [map_singleton, hexDigits?_hexDigit hfront (Nat.mod_lt n (by omega))]
    congr 1
    omega

theorem hexUpper_eq (w n : Nat) :
    hexUpper w n = replicate (w - (hexDigits n).length) 48 ++ hexDigits n := by
  have hzero : upperByte (byte '0') = 48 := rfl
  rw [hexUpper, hex, padLeft, map_append, map_replicate, hzero, hexDigits,
    length_map, length_map, length_map]

theorem hexUpper_spec {w : Nat} (hn : n < Nat.pow 16 (w + 1)) :
    ((hexUpper (w + 1) n).map (·.toNat)).length = w + 1 ∧
      hexDigits? ((hexUpper (w + 1) n).map (·.toNat)) = some n := by
  have hlength := length_hexDigits_le hn
  rw [hexUpper_eq]
  constructor
  · simp
    omega
  · rw [map_append, map_replicate]
    exact hexDigits?_hexDigits _ n

/-! ## Characters -/

/-- What is written for one character in quotes: it does not look like a gap or the end, and the
scanner takes it for that character. -/
structure Code (single : Bool) (code : List Rune) (r : Rune) : Prop where
  ink : ∃ c more, code = c :: more ∧ isBlank c = false ∧ isBreak c = false
  read : ∀ {n : Nat} {acc : List Rune} {s : Scanner} {back : List Rune}, s.rest = code ++ back →
    quotedWord? single (n + 1) acc s = quotedWord? single n (r :: acc) (s.skipMany code.length)

theorem code_single (hblank : isBlank r = false) (hbreak : isBreak r = false) (hquote : r ≠ 39) :
    Code true [r] r := by
  refine ⟨⟨r, [], rfl, hblank, hbreak⟩, ?_⟩
  intro n acc s back hrest
  rw [quotedWord?, hrest]
  simp [hblank, hbreak, hquote, skipMany]

theorem code_single_quote : Code true [39, 39] 39 := by
  refine ⟨⟨39, [39], rfl, rfl, rfl⟩, ?_⟩
  intro n acc s back hrest
  rw [quotedWord?, hrest]
  simp [isBlank, isBreak]

theorem code_double (hblank : isBlank r = false) (hbreak : isBreak r = false) (hquote : r ≠ 34)
    (hescape : r ≠ 92) : Code false [r] r := by
  refine ⟨⟨r, [], rfl, hblank, hbreak⟩, ?_⟩
  intro n acc s back hrest
  rw [quotedWord?, hrest]
  simp [hblank, hbreak, hquote, hescape, skipMany]

theorem code_letter {c : Char} (hbreak : isBreak c.toNat = false)
    (hwidth : escapeWidth? c.toNat = none) (hletter : escapeOf? c.toNat = some r) :
    Code false [92, c.toNat] r := by
  refine ⟨⟨92, [c.toNat], rfl, rfl, rfl⟩, ?_⟩
  intro n acc s back hrest
  rw [quotedWord?, hrest]
  simp [isBlank, isBreak.eq_def 92, breakHere, hbreak, hwidth, hletter]

theorem code_number {r : Nat} {e : Rune} {digits : List Rune} (hbreak : isBreak e = false)
    (hwidth : escapeWidth? e = some digits.length) (hdigits : hexDigits? digits = some r)
    (hr : IsScalar r) : Code false (92 :: e :: digits) r := by
  refine ⟨⟨92, e :: digits, rfl, rfl, rfl⟩, ?_⟩
  grind [IsScalar, quotedWord?, isBlank, isBreak.eq_def, breakHere]

theorem code_escaped {r : Nat} (hr : IsScalar r) : Code false (escaped r) r := by
  rw [escaped]
  cases h : escapeLetters.find? (·.1 == r) with
  | some p =>
    obtain ⟨r', c⟩ := p
    have hletters : ∀ p ∈ escapeLetters, isBreak p.2.toNat = false ∧ escapeWidth? p.2.toNat = none ∧
        escapeOf? p.2.toNat = some p.1 := by
      decide
    grind [code_letter]
  | none =>
    have hmax : r ≤ 0x10FFFF := by
      rw [IsScalar] at hr
      omega
    simp only []
    split_ifs with hsmall hmiddle
    · have hn : r < Nat.pow 16 (1 + 1) := Nat.lt_succ_of_le hsmall
      exact code_number rfl (congrArg some (hexUpper_spec hn).1.symm) (hexUpper_spec hn).2 hr
    · have hn : r < Nat.pow 16 (3 + 1) := Nat.lt_succ_of_le hmiddle
      exact code_number rfl (congrArg some (hexUpper_spec hn).1.symm) (hexUpper_spec hn).2 hr
    · have hn : r < Nat.pow 16 (7 + 1) := Nat.lt_of_le_of_lt hmax (by decide)
      exact code_number rfl (congrArg some (hexUpper_spec hn).1.symm) (hexUpper_spec hn).2 hr

/-! ## Words and gaps -/

def quote (single : Bool) : Rune := if single then 39 else 34

theorem Ink.append_quote (h : Ink rs) : Ink (rs ++ quote single :: tail) := by
  cases rs with
  | nil =>
    intro r hr
    obtain rfl : quote single = r := by simpa using hr
    cases single <;> decide
  | cons r rest => exact h

/-- What stands between quotes, and the text that it is written for. A gap is taken whole. -/
inductive Between (single : Bool) : List Rune → List Rune → Prop where
  | nil : Between single [] []
  | code {code written text : List Rune} {r : Rune} (hcode : Code single code r)
      (h : Between single written text) : Between single (code ++ written) (r :: text)
  | blanks {width : Nat} {written text : List Rune} (hink : Ink written)
      (h : Between single written text) :
      Between single (spaces (width + 1) ++ written) (spaces (width + 1) ++ text)
  | breaks {b : Rune} {breaks written text : List Rune} {width : Nat}
      (hbreaks : ∀ b' ∈ b :: breaks, isBreak b' = true ∧ isPrintable b' = true) (hb : b ≠ 10)
      (hink : Ink written) (hwidth : 0 < width ∨ written = []) (h : Between single written text) :
      Between single (b :: breaks ++ (spaces width ++ written)) (b :: breaks ++ text)

/-- What is left of a scalar once the word at hand is read. -/
def afterWord (single : Bool) (n : Nat) (text word : List Rune) (joined : Bool) (s : Scanner) :
    Option (List Rune × Scanner) :=
  if s.peek? == some (quote single) then some (text ++ word, s.skip)
  else (gap? (-1) (s.rest.length + 1) { broken := joined } s).bind fun p =>
    quotedFrom? single n (text ++ word ++ p.1.text) p.2

theorem quotedFrom?_succ {text : List Rune} {s : Scanner} (hrest : s.rest = r :: more)
    (hmark : s.column = 0 → r ≠ 45 ∧ r ≠ 46) :
    quotedFrom? single (n + 1) text s =
      (quotedWord? single (s.rest.length + 1) [] s).bind fun p =>
        afterWord single n text p.1 p.2.1 p.2.2 := by
  obtain ⟨hdash, hdots⟩ := marksDocument_false hrest hmark
  rw [quotedFrom?]
  simp only [hdash, hdots, hrest, isEmpty_cons, Bool.or_self, Bool.false_eq_true, if_false,
    bind_eq_bind]
  congr 1

theorem quotedWord?_gap {s : Scanner} (hrest : s.rest = r :: more)
    (hgap : (isBlank r || isBreak r) = true) :
    quotedWord? single (m + 1) acc s = some (acc.reverse, false, s) := by
  rw [quotedWord?, hrest]
  simp only [hgap, if_true]

theorem quotedWord?_quote {s : Scanner} (hrest : s.rest = quote single :: tail)
    (htail : tail.head? ≠ some 39) :
    quotedWord? single (m + 1) acc s = some (acc.reverse, false, s) := by
  rw [quotedWord?, hrest]
  cases single <;> simp [quote, isBlank, isBreak, htail]

/-- Behind a gap the scalar goes on with the next word. -/
theorem afterWord_gap {before word written : List Rune} {g : Gap} {s s₁ : Scanner}
    (hrest : s.rest = r :: more) (hgap : (isBlank r || isBreak r) = true)
    (hscan : gap? (-1) (s.rest.length + 1) {} s = some (g, s₁))
    (hrest₁ : s₁.rest = written ++ quote single :: tail) (hcolumn : 0 < s₁.column ∨ written = []) :
    afterWord single (n + 1) before word false s =
      (quotedWord? single (s₁.rest.length + 1) [] s₁).bind fun p =>
        afterWord single n (before ++ word ++ g.text) p.1 p.2.1 p.2.2 := by
  have hquote : r ≠ quote single := by
    rintro rfl
    revert hgap
    cases single <;> decide
  have hpeek : (s.peek? == some (quote single)) = false := by
    rw [peek?, hrest]
    simpa using hquote
  rw [afterWord, hpeek, if_neg Bool.false_ne_true, hscan, bind_some]
  cases written with
  | nil =>
    refine quotedFrom?_succ hrest₁ fun _ => ?_
    cases single <;> decide
  | cons c rest => grind [quotedFrom?_succ]

/-- What stands between quotes is scanned as the text that it is written for. -/
theorem Between.scan {written text : List Rune} (h : Between single written text)
    {before : List Rune} {s : Scanner} (hrest : s.rest = written ++ quote single :: tail)
    (htail : tail.head? ≠ some 39) (hn : written.length ≤ n) (hm : written.length < m) :
    ∃ s' column, (quotedWord? single m acc s).bind
        (fun p => afterWord single n before p.1 p.2.1 p.2.2) =
          some (before ++ acc.reverse ++ text, s') ∧
      MovedTo s tail column s' := by
  induction h generalizing n m acc before s with
  | nil =>
    obtain ⟨m, rfl⟩ := Nat.exists_eq_add_one.mpr hm
    rw [quotedWord?_quote hrest htail, bind_some, afterWord, peek?, hrest]
    refine ⟨s.skip, s.column + 1, ?_, movedTo_skip hrest⟩
    simp
  | code hcode h ih =>
    obtain ⟨m, rfl⟩ : ∃ m', m = m' + 1 := Nat.exists_eq_add_one.mpr (by omega)
    obtain ⟨c, more, rfl, -⟩ := hcode.ink
    rw [append_assoc] at hrest
    have hmoved := movedTo_skipMany hrest
    simp only [length_append, length_cons] at hn hm
    obtain ⟨s', column, hscan, hmoved'⟩ := ih hmoved.rest_eq (n := n) (m := m) (by omega) (by omega)
    refine ⟨s', column, ?_, hmoved.trans hmoved'⟩
    rw [hcode.read hrest, hscan]
    simp
  | @blanks width written text hink h ih =>
    obtain ⟨m, rfl⟩ : ∃ m', m = m' + 1 := Nat.exists_eq_add_one.mpr (by omega)
    have hlength : (spaces (width + 1)).length = width + 1 := length_replicate
    rw [length_append, hlength] at hn
    obtain ⟨n, rfl⟩ : ∃ n', n = n' + 1 := Nat.exists_eq_add_one.mpr (by omega)
    rw [append_assoc] at hrest
    have hmoved := movedTo_skipMany hrest
    have hgap : gap? (-1) (s.rest.length + 1) {} s =
        some ({ blanks := spaces (width + 1) }, s.skipMany (spaces (width + 1)).length) := by
      have hblank : ∀ b ∈ spaces (width + 1), isBlank b = true := by
        intro b hb
        rw [eq_of_mem_replicate hb]
        rfl
      have hroom : (spaces (width + 1)).length < s.rest.length + 1 := by
        rw [hrest, length_append]
        omega
      exact gap?_blanks hrest hblank hink.append_quote rfl hroom
    generalize s.skipMany (spaces (width + 1)).length = s₁ at hmoved hgap
    have hnext : ∃ s' column, ((quotedWord? single (s₁.rest.length + 1) [] s₁).bind fun p =>
        afterWord single n (before ++ acc.reverse ++ spaces (width + 1)) p.1 p.2.1 p.2.2) =
          some (before ++ acc.reverse ++ spaces (width + 1) ++ [] ++ text, s') ∧
        MovedTo s₁ tail column s' := by
      refine ih hmoved.rest_eq (by omega) ?_
      rw [hmoved.rest_eq, length_append]
      omega
    obtain ⟨s', column, hscan, hmoved'⟩ := hnext
    refine ⟨s', column, ?_, hmoved.trans hmoved'⟩
    have hfirst : s.rest = 32 :: (spaces width ++ (written ++ quote single :: tail)) := hrest
    have hpos : 0 < s₁.column := by
      rw [hmoved.column_eq, hlength]
      omega
    rw [quotedWord?_gap hfirst rfl, bind_some,
      afterWord_gap hfirst rfl hgap hmoved.rest_eq (.inl hpos)]
    simpa [Gap.text] using hscan
  | @breaks b breaks written text width hbreaks hb hink hwidth h ih =>
    obtain ⟨m, rfl⟩ : ∃ m', m = m' + 1 := Nat.exists_eq_add_one.mpr (by omega)
    simp only [length_append, length_cons] at hn
    obtain ⟨n, rfl⟩ : ∃ n', n = n' + 1 := Nat.exists_eq_add_one.mpr (by omega)
    rw [append_assoc, append_assoc] at hrest
    have hgap : ∃ s₁, gap? (-1) (s.rest.length + 1) {} s =
        some ({ lead := [b], trail := breaks, broken := true }, s₁) ∧
          MovedTo s (written ++ quote single :: tail) width s₁ := by
      refine gap?_breaks hrest hbreaks hink.append_quote ?_
      rw [hrest]
      simp only [spaces, length_cons, length_append, length_replicate]
      omega
    obtain ⟨s₁, hgap, hmoved⟩ := hgap
    have hnext : ∃ s' column, ((quotedWord? single (s₁.rest.length + 1) [] s₁).bind fun p =>
        afterWord single n (before ++ acc.reverse ++ (b :: breaks)) p.1 p.2.1 p.2.2) =
          some (before ++ acc.reverse ++ (b :: breaks) ++ [] ++ text, s') ∧
        MovedTo s₁ tail column s' := by
      refine ih hmoved.rest_eq (by omega) ?_
      rw [hmoved.rest_eq, length_append]
      omega
    obtain ⟨s', column, hscan, hmoved'⟩ := hnext
    refine ⟨s', column, ?_, hmoved.trans hmoved'⟩
    have hgapped : (isBlank b || isBreak b) = true := by
      rw [(hbreaks b mem_cons_self).1, Bool.or_true]
    rw [quotedWord?_gap hrest hgapped, bind_some,
      afterWord_gap hrest hgapped hgap hmoved.rest_eq (by rwa [hmoved.column_eq])]
    simpa [Gap.text, hb] using hscan

/-! ## What is written -/

theorem exists_spaces (rs : List Rune) : ∃ width rest, rs = spaces width ++ rest ∧
    rest.head? ≠ some 32 := by
  induction rs with
  | nil => exact ⟨0, [], rfl, by simp⟩
  | cons r rs ih =>
    by_cases hr : r = 32
    · obtain ⟨width, rest, rfl, hrest⟩ := ih
      exact ⟨width + 1, rest, by rw [hr]; rfl, hrest⟩
    · exact ⟨0, r :: rs, rfl, by simpa using hr⟩

theorem Code.ink_append {code : List Rune} (h : Code single code r) (back : List Rune) :
    Ink (code ++ back) := by
  obtain ⟨c, more, rfl, hblank, hbreak⟩ := h.ink
  intro c' hc'
  obtain rfl : c = c' := by simpa using hc'
  exact ⟨hblank, hbreak⟩

/-- Only a space may look like a gap in double quotes. -/
theorem code_doubleCode {all : Bool} {r : Nat} (hr : IsScalar r) (hspace : all = true ∨ r ≠ 32) :
    Code false (doubleCode all r) r := by
  rw [doubleCode]
  split_ifs with h
  · exact code_escaped hr
  · simp only [Bool.or_eq_true, Bool.not_eq_true', not_or, Bool.not_eq_false, Bool.not_eq_true,
      beq_iff_eq] at h
    obtain ⟨⟨⟨⟨hall, hprintable⟩, hbreak⟩, hquote⟩, hescape⟩ := h
    have hne : r ≠ 32 := hspace.resolve_left (by simp [hall])
    have htab : r ≠ 9 := by
      rintro rfl
      cases hprintable
    exact code_double (by simp [isBlank, hne, htab]) hbreak hquote hescape

theorem between_double (all : Bool) (hrs : ∀ r ∈ rs, IsScalar r) :
    Between false (rs.flatMap (doubleCode all)) rs := by
  -- A step takes one character, or all spaces up to the next one.
  induction hlength : rs.length using Nat.strong_induction_on generalizing rs with
  | _ length ih =>
    cases rs with
    | nil => exact .nil
    | cons r rest =>
      by_cases hspace : all = true ∨ r ≠ 32
      · rw [flatMap_cons]
        refine .code (code_doubleCode (hrs r mem_cons_self) hspace) ?_
        grind
      · obtain ⟨hall, rfl⟩ : all = false ∧ r = 32 := by simpa using hspace
        obtain ⟨width, later, rfl, hlater⟩ := exists_spaces rest
        have hcode : (spaces (width + 1)).flatMap (doubleCode all) = spaces (width + 1) := by
          rw [hall, spaces, flatMap_replicate]
          exact flatten_replicate_singleton
        have hscalar : ∀ r ∈ later, IsScalar r := by
          intro r hr
          exact hrs r (by simp [hr])
        have hbetween : Between false (later.flatMap (doubleCode all)) later := by
          refine ih later.length ?_ hscalar rfl
          simp at hlength
          omega
        have hink : Ink (later.flatMap (doubleCode all)) := by
          cases later with
          | nil => simp [Ink]
          | cons l later =>
            have hl : l ≠ 32 := by simpa using hlater
            rw [flatMap_cons]
            exact (code_doubleCode (hscalar l mem_cons_self) (.inr hl)).ink_append _
        have hrest : 32 :: (spaces width ++ later) = spaces (width + 1) ++ later := rfl
        rw [hrest, flatMap_append, hcode]
        exact .blanks hink hbetween

/-! ### Single quotes -/

/-- The code of one character in single quotes. -/
theorem code_singleCode (hblank : isBlank r = false) (hbreak : isBreak r = false) :
    Code true ((if r == 39 then [39] else []) ++ [r]) r := by grind [code_single_quote, code_single]

theorem singleQuoted_cons (hbreak : isBreak r = false) :
    singleQuoted indent false (r :: rest) =
      ((if r == 39 then [39] else []) ++ [r]) ++ singleQuoted indent false rest := by
  simp [singleQuoted, hbreak]

/-- Behind line ends, the next word is indented. -/
theorem singleQuoted_broken {indent : Nat} {r : Rune} {rest : List Rune}
    (hbreak : isBreak r = false) (hspace : r ≠ 32) :
    singleQuoted indent true (r :: rest) = spaces indent ++
      singleQuoted indent false (r :: rest) := by
  have hne : (r == 32) = false := beq_false_of_ne hspace
  simp [singleQuoted, hbreak, hspace, hne]

theorem singleQuoted_breaks {indent : Nat} {broken : Bool} {b : Rune} {breaks rest : List Rune}
    (hbreaks : ∀ b' ∈ b :: breaks, isBreak b' = true) :
    singleQuoted indent broken (b :: breaks ++ rest) = b :: breaks ++
      singleQuoted indent true rest := by
  induction breaks generalizing b broken with
  | nil => simp [singleQuoted, hbreaks b]
  | cons b' breaks ih => grind [singleQuoted]

theorem singleQuoted_spaces {indent width : Nat} {rest : List Rune} :
    singleQuoted indent false (spaces width ++ rest) = spaces width ++
      singleQuoted indent false rest := by
  induction width with
  | zero => rfl
  | succ width ih =>
    have hcons : spaces (width + 1) ++ rest = 32 :: (spaces width ++ rest) := rfl
    rw [hcons, singleQuoted_cons rfl, ih]
    rfl

theorem not_isBlank_of_printable (hprintable : isPrintable r = true) (hspace : r ≠ 32) :
    isBlank r = false := by
  have htab : r ≠ 9 := by
    rintro rfl
    cases hprintable
  simp [isBlank, hspace, htab]

theorem ink_singleQuoted (hrs : Ink rs) : Ink (singleQuoted indent false rs) := by
  cases rs with
  | nil => simp [singleQuoted, Ink]
  | cons r rest =>
    obtain ⟨hblank, hbreak⟩ := hrs r rfl
    rw [singleQuoted_cons hbreak]
    exact (code_singleCode hblank hbreak).ink_append _

theorem between_single (hindent : 0 < indent) {first : Bool} {before : Option Rune}
    (hrs : Everywhere SingleAt first before rs) (hline : 10 ∉ rs) :
    Between true (singleQuoted indent false rs) rs := by
  induction hlength : rs.length using Nat.strong_induction_on generalizing first before rs with
  | _ length ih =>
    cases rs with
    | nil => exact .nil
    | cons r rest =>
      by_cases hbreak : isBreak r = true
      · -- Line ends up to the next character, which is no space.
        obtain ⟨breaks, hbreaks⟩ : ∃ breaks, rest.takeWhile isBreak = breaks := ⟨_, rfl⟩
        obtain ⟨later, hlater⟩ : ∃ later, rest.dropWhile isBreak = later := ⟨_, rfl⟩
        have hrest : rest = breaks ++ later := by
          rw [← hbreaks, ← hlater, takeWhile_append_dropWhile]
        have hall : ∀ b ∈ r :: breaks, isBreak b = true := by
          intro b hb
          rcases mem_cons.mp hb with rfl | hb
          · exact hbreak
          · exact mem_takeWhile_imp (hbreaks ▸ hb)
        have hprintable := hrs.forall_mem fun _ _ _ _ h => h.printable
        have hcons : r :: rest = r :: breaks ++ later := by rw [hrest]; rfl
        have hfirst : r ≠ 10 := fun h => hline (h ▸ mem_cons_self)
        rw [hcons] at hrs hline ⊢
        have hlater' := hrs.of_append
        have hbetween : Between true (singleQuoted indent false later) later := by
          refine ih later.length ?_ hlater' (fun hmem => hline (mem_append_right _ hmem)) rfl
          rw [← hlength, hcons]
          simp only [length_cons, length_append]
          omega
        rw [singleQuoted_breaks hall]
        have hboth : ∀ b ∈ r :: breaks, isBreak b = true ∧ isPrintable b = true := by
          intro b hb
          exact ⟨hall b hb, hprintable b (hcons ▸ mem_append_left later hb)⟩
        cases later with
        | nil =>
          change Between true (r :: breaks ++ (spaces 0 ++ [])) _
          exact .breaks hboth hfirst (by simp [Ink]) (.inr rfl) hbetween
        | cons l more =>
          have hl : isBreak l = false := by
            have hhead := head?_dropWhile_not isBreak rest
            rw [hlater] at hhead
            simpa using hhead
          have hspace : l ≠ 32 := by
            intro heq
            have hafter := hlater'.1.notAfterBreak heq
            rw [getLast?_eq_some_getLast (cons_ne_nil r breaks), some_or,
              map_some, getD_some, hall _ (getLast_mem _)] at hafter
            cases hafter
          rw [singleQuoted_broken hl hspace]
          refine .breaks hboth hfirst (ink_singleQuoted ?_) (.inl hindent) hbetween
          simpa [Ink] using ⟨not_isBlank_of_printable hlater'.1.printable hspace, hl⟩
      · rw [Bool.not_eq_true] at hbreak
        by_cases hspace : r = 32
        · -- Spaces up to the next character, which is no line end.
          subst hspace
          obtain ⟨width, later, rfl, hlater⟩ := exists_spaces rest
          have hcons : 32 :: (spaces width ++ later) = spaces (width + 1) ++ later := rfl
          rw [hcons] at hrs hline ⊢
          have hlater' := hrs.of_append
          rw [singleQuoted_spaces]
          refine .blanks (ink_singleQuoted ?_) (ih later.length ?_ hlater' ?_ rfl)
          · intro l hl
            obtain ⟨more, rfl⟩ : ∃ more, later = l :: more := head?_eq_some_iff.mp hl
            have hl32 : l ≠ 32 := by simpa using hlater
            refine ⟨not_isBlank_of_printable hlater'.1.printable hl32, ?_⟩
            have hafter := hlater'.1.notAfterSpace
            rw [spaces, getLast?_replicate] at hafter
            simpa using hafter
          · simp at hlength
            omega
          · exact fun hmem => hline (mem_append_right _ hmem)
        · rw [singleQuoted_cons hbreak]
          refine .code (code_singleCode (not_isBlank_of_printable hrs.1.printable hspace) hbreak) ?_
          refine ih rest.length ?_ hrs.2 (fun hmem => hline (mem_cons_of_mem r hmem)) rfl
          simp at hlength
          omega

/-! ## Scalars -/

variable {s : Scanner} {column : Nat} {i : Int} {is : List Int} {tokens : List Token}

theorem token?_quote (hrest : s.rest = quote single :: more) :
    s.token? = s.quotedScalar? single := by
  have hmarks := marksDocument_false hrest (by cases single <;> simp [quote])
  rw [token?, hrest]
  cases single <;> simp [quote, hmarks]

/-- A text in quotes behind a name is scanned as the text that it is written for. -/
theorem Stands.quoted {single : Bool} {written text tail body : List Rune} {column' : Nat}
    (h : Stands s (32 :: quote single :: (written ++ quote single :: 10 :: tail)) column (i :: is)
      tokens false)
    (hbetween : Between single written text) (hindent : i ≤ column)
    (honward : Onward tail column' body) :
    ∃ s', Leads s s' ∧ Ready s' body column' (i :: is)
      (tokens ++ [.scalar (ofRunes text) (if single then .singleQuoted else .doubleQuoted)]) := by
  have hvisible : Visible (quote single) := by
    cases single
    · exact ⟨rfl, rfl, by decide⟩
    · exact ⟨rfl, rfl, by decide⟩
  obtain ⟨s₁, hstep, h₁⟩ := h.step_space hvisible (by omega)
  rw [token?_quote h₁.rest_eq] at hstep
  have h₂ := (h₁.allow false).move (movedTo_skip h₁.rest_eq)
  have hfrom : ∃ s' column', quotedFrom? single
      (({ s₁ with keyAllowed := false } : Scanner).skip.rest.length + 1) []
        ({ s₁ with keyAllowed := false } : Scanner).skip = some (text, s') ∧
      MovedTo ({ s₁ with keyAllowed := false } : Scanner).skip (10 :: tail) column' s' := by
    generalize ({ s₁ with keyAllowed := false } : Scanner).skip = s₂ at h₂
    obtain ⟨r, more, hfirst⟩ : ∃ r more, s₂.rest = r :: more := by
      rw [h₂.rest_eq]
      cases written <;> exact ⟨_, _, rfl⟩
    have hpos : s₂.column ≠ 0 := by
      rw [h₂.column_eq]
      exact Nat.succ_ne_zero _
    rw [quotedFrom?_succ hfirst fun hzero => absurd hzero hpos]
    have hlength : written.length < s₂.rest.length := by
      rw [h₂.rest_eq, length_append]
      simp
    exact hbetween.scan h₂.rest_eq (by simp) (Nat.le_of_lt hlength) (Nat.lt_succ_of_lt hlength)
  obtain ⟨s₃, column₃, hfrom, hmoved⟩ := hfrom
  have h₃ := (h₂.move hmoved).push
    (.scalar (ofRunes text) (if single then .singleQuoted else .doubleQuoted))
  refine ⟨_, Leads.step h.done_eq ?_ ?_, h₃.ready_line honward⟩
  · rw [hstep, quotedScalar?, saveKey?, h₁.keyAllowed_eq]
    simp [hfrom]
  · rw [h₃.rest_eq, h.rest_eq]
    simp
    omega

end FaultRepair.Yaml.Scanner
