/-
# Reading lines of traces

Each form of line, put together from its parts, is taken apart into these parts again. The
parts may hold whatever marks the line consists of: a path may hold colons and digits, a
symbol may hold parentheses. What tells them apart is that numbers are read from the end of
a line, and that arguments hold no parentheses.
-/

import FaultRepair.Trace.Parse
import FaultRepair.Proofs.Text.Cutting
import FaultRepair.Proofs.Text.Runes
import Mathlib.Data.List.TakeWhile

namespace FaultRepair.Trace

open List Text Option

variable {t : Text}

/-! ## White space and runs of digits -/

/-- The text ends in something that is no white space. -/
def EndsInk (t : Text) : Prop := ∃ b, t.getLast? = some b ∧ isBlank b = false

theorem EndsInk.append (ht : EndsInk t) (s : Text) : EndsInk (s ++ t) := by
  obtain ⟨b, hlast, hink⟩ := ht
  exact ⟨b, by rw [getLast?_append, hlast]; rfl, hink⟩

theorem EndsInk.ne_nil (ht : EndsInk t) : t ≠ [] := by
  rintro rfl
  obtain ⟨b, hlast, -⟩ := ht
  cases hlast

/-- Read from its end, such a text has no white space in front. -/
theorem EndsInk.dropWhile_reverse (ht : EndsInk t) : t.reverse.dropWhile isBlank = t.reverse := by
  obtain ⟨b, hlast, hink⟩ := ht
  obtain ⟨front, rfl⟩ := getLast?_eq_some_iff.mp hlast
  simp_all

theorem EndsInk.trimEnd (ht : EndsInk t) : trimEnd t = t := by
  rw [Trace.trimEnd, ht.dropWhile_reverse, reverse_reverse]

theorem dropWhile_isBlank (ht : startsInk t = true) : t.dropWhile isBlank = t := by
  cases t with
  | nil => rfl
  | cons b t => rw [dropWhile_cons_of_neg (by simpa [startsInk] using ht)]

theorem hasLineFeed_iff : hasLineFeed t = true ↔ 10 ∈ t := by
  simp [hasLineFeed]

/-- A run of bytes of one kind, at least one. -/
structure Run (kind : UInt8 → Bool) (t : Text) : Prop where
  ne_nil : t ≠ []
  all : ∀ b ∈ t, kind b = true

namespace Run

variable {kind : UInt8 → Bool} {t : Text}

theorem reverse (ht : Run kind t) : Run kind t.reverse where
  ne_nil := by simpa using ht.ne_nil
  all b hb := ht.all b (mem_reverse.mp hb)

theorem takeWhile (ht : Run kind t) {b : UInt8} (hb : kind b = false) (rest : Text) :
    (t ++ b :: rest).takeWhile kind = t := by
  rw [takeWhile_append_of_pos ht.all, takeWhile_cons_of_neg (by simp [hb]),
    append_nil]

theorem dropWhile (ht : Run kind t) {b : UInt8} (hb : kind b = false) (rest : Text) :
    (t ++ b :: rest).dropWhile kind = b :: rest := by
  rw [dropWhile_append_of_pos ht.all, dropWhile_cons_of_neg (by simp [hb])]

end Run

theorem isBlank_of_isHexDigit {b : UInt8} (hb : isHexDigit b = true) : isBlank b = false := by
  by_contra hblank
  simp only [isBlank, Bool.not_eq_false, Bool.or_eq_true, beq_iff_eq] at hblank
  rcases hblank with (((rfl | rfl) | rfl) | rfl) | rfl <;> cases hb

theorem isHexDigit_of_isDigit {b : UInt8} (hb : isDigit b = true) :
    isHexDigit b = true := by
  simp [isHexDigit, hb]

section Digits

variable {ds : Text}

theorem Run.hexadecimal (hds : Run isDigit ds) : Run isHexDigit ds where
  ne_nil := hds.ne_nil
  all b hb := isHexDigit_of_isDigit (hds.all b hb)

theorem Run.endsInk (hds : Run isHexDigit ds) : EndsInk ds := by
  refine ⟨ds.getLast hds.ne_nil, getLast?_eq_some_getLast hds.ne_nil, ?_⟩
  exact isBlank_of_isHexDigit (hds.all _ (getLast_mem hds.ne_nil))

theorem Run.startsInk_append (hds : Run isHexDigit ds) (t : Text) :
    startsInk (ds ++ t) = true := by
  obtain ⟨b, rest, rfl⟩ := exists_cons_of_ne_nil hds.ne_nil
  simp [startsInk, isBlank_of_isHexDigit (hds.all b mem_cons_self)]

theorem digits?_append (hds : Run isDigit ds) {b : UInt8} (hb : isDigit b = false)
    (rest : Text) : digits? (ds ++ b :: rest) = some (ds, b :: rest) := by
  rw [digits?, hds.takeWhile hb, hds.dropWhile hb, if_neg]
  simpa using hds.ne_nil

theorem digits?_eq_some {t rest : Text} (h : digits? t = some (ds, rest)) :
    t = ds ++ rest ∧ Run isDigit ds := by
  rw [digits?] at h
  split at h
  · cases h
  · rename_i hsome
    cases h
    refine ⟨takeWhile_append_dropWhile.symm, by simpa using hsome, ?_⟩
    exact fun b hb => mem_takeWhile_imp hb

/-- Digits at the end of a text are found although the text before the colon may hold more
digits and colons. -/
theorem colonDigits?_reverse (hds : Run isDigit ds) (front : Text) :
    colonDigits? (front ++ 58 :: ds).reverse = some (ds, front.reverse) := by
  have hback : (front ++ 58 :: ds).reverse = ds.reverse ++ 58 :: front.reverse := by simp
  rw [hback, colonDigits?, hds.reverse.takeWhile rfl, hds.reverse.dropWhile rfl]
  simp [hds.ne_nil]

end Digits

/-! ## Backtraces -/

theorem header?_eq {depth address symbol : Text} (hdepth : Run isDigit depth)
    (haddress : Run isHexDigit address) (hsymbol : EndsInk symbol) (hline : 10 ∉ symbol) :
    header? (depth ++ ": 0x" ++ address ++ " - " ++ symbol) = some (depth, symbol) := by
  have hwhole : depth ++ ": 0x" ++ address ++ " - " ++ symbol =
      depth ++ 58 :: 32 :: (ofString "0x" ++ (address ++ 32 :: 45 :: 32 :: symbol)) := by
    simp only [append_assoc]
    rfl
  have hcolon : ∀ t, dropLead? ":" (58 :: t) = some t := fun t => rfl
  have hdash : ∀ t, dropLead? " - " (32 :: 45 :: 32 :: t) = some t := fun t => rfl
  have hspace : ∀ t, (32 :: (ofString "0x" ++ t)).takeWhile isBlank = [32] := fun t => rfl
  have hafter : ∀ t, (32 :: (ofString "0x" ++ t)).dropWhile isBlank = ofString "0x" ++ t :=
    fun t => rfl
  rw [hwhole, header?, dropWhile_isBlank (hdepth.hexadecimal.startsInk_append _),
    digits?_append hdepth rfl]
  simp only [bind_eq_bind, bind_some, hcolon, hspace, hafter, dropLead?_append,
    haddress.takeWhile (b := 32) rfl, haddress.dropWhile (b := 32) rfl, hdash, hsymbol.trimEnd]
  simp [haddress.ne_nil, hsymbol.ne_nil, hasLineFeed_iff, hline]

/-- A path that starts at the root and has a name. -/
def Rooted (path : Text) : Prop := ∃ b rest, path = 47 :: b :: rest

theorem Rooted.rooted? {path : Text} (hpath : Rooted path) (hline : 10 ∉ path) :
    rooted? path = some path := by
  obtain ⟨b, rest, rfl⟩ := hpath
  rw [Trace.rooted?, if_neg (by rwa [hasLineFeed_iff])]

theorem Rooted.dropWhile_isBlank {path : Text} (hpath : Rooted path) (t : Text) :
    (path ++ t).dropWhile isBlank = path ++ t := by
  obtain ⟨b, rest, rfl⟩ := hpath
  rfl

theorem location?_eq {path num col : Text} (hpath : Rooted path) (hone : 10 ∉ path)
    (hnum : Run isDigit num) (hcol : Run isDigit col) :
    location? ("   at " ++ path ++ ":" ++ num ++ ":" ++ col) = some (path, num, col) := by
  have hline : "   at " ++ path ++ ":" ++ num ++ ":" ++ col =
      ofString "   at " ++ ((path ++ 58 :: num) ++ 58 :: col) := by
    simp only [append_assoc]
    rfl
  have hlead : ∀ t, dropLead? "at " ((ofString "   at " ++ t).dropWhile isBlank) = some t :=
    fun t => rfl
  have hink : EndsInk ((path ++ 58 :: num) ++ 58 :: col) :=
    (hcol.hexadecimal.endsInk.append [58]).append _
  rw [hline, location?, hlead]
  simp only [bind_eq_bind, bind_some, hink.dropWhile_reverse, colonDigits?_reverse hcol,
    colonDigits?_reverse hnum, reverse_reverse, hpath.rooted? hone]

/-! ## Stacks of goroutines -/

theorem isGoroutine_header {number state : Text} (hnumber : Run isDigit number)
    (hstate : 10 ∉ state) :
    isGoroutine ("goroutine " ++ number ++ " [" ++ state ++ "]:") = true := by
  have hline : "goroutine " ++ number ++ " [" ++ state ++ "]:" =
      ofString "goroutine " ++ (number ++ 32 :: 91 :: (state ++ ofString "]:")) := by
    simp only [append_assoc]
    rfl
  have hend : EndsInk (ofString "]:") := ⟨58, rfl, rfl⟩
  have hink : EndsInk
      (ofString "goroutine " ++ (number ++ 32 :: 91 :: (state ++ ofString "]:"))) :=
    (((hend.append state).append [32, 91]).append number).append _
  have hbracket : ∀ t, dropLead? " [" (32 :: 91 :: t) = some t := fun t => rfl
  rw [hline, isGoroutine, hink.trimEnd, dropLead?_append, bind_some, digits?_append hnumber rfl]
  have hone : hasLineFeed (state ++ ofString "]:") = false := by
    have hclose : 10 ∉ ofString "]:" := by decide
    rw [Bool.eq_false_iff, ne_eq, hasLineFeed_iff, mem_append]
    exact not_or.mpr ⟨hstate, hclose⟩
  simp only [hbracket, endsWith, hone, Bool.not_false, Bool.and_true]
  exact isSuffixOf_iff_suffix.mpr (suffix_append _ _)

/-- The line and the offset stand at the end, whatever the path holds. -/
theorem stackLocation?_eq {path num offset : Text} (hpath : Rooted path) (hone : 10 ∉ path)
    (hnum : Run isDigit num) (hoffset : Run isHexDigit offset) :
    stackLocation? ("\t" ++ path ++ ":" ++ num ++ " +0x" ++ offset) = some (path, num) := by
  have hline : "\t" ++ path ++ ":" ++ num ++ " +0x" ++ offset =
      9 :: (path ++ (58 :: num ++ 32 :: 43 :: 48 :: 120 :: offset)) := by
    simp only [append_assoc]
    rfl
  have hink : EndsInk (path ++ (58 :: num ++ 32 :: 43 :: 48 :: 120 :: offset)) :=
    ((hoffset.endsInk.append [32, 43, 48, 120]).append (58 :: num)).append path
  have hback : (path ++ (58 :: num ++ 32 :: 43 :: 48 :: 120 :: offset)).reverse =
      offset.reverse ++ 120 :: 48 :: 43 :: 32 :: (path ++ 58 :: num).reverse := by simp
  have hoffsetOff : withoutOffset
      (offset.reverse ++ 120 :: 48 :: 43 :: 32 :: (path ++ 58 :: num).reverse) =
      (path ++ 58 :: num).reverse := by
    rw [withoutOffset, hoffset.reverse.takeWhile rfl, hoffset.reverse.dropWhile rfl]
    simp [hoffset.ne_nil]
  have htab : ∀ t, (9 :: t).takeWhile isBlank = 9 :: t.takeWhile isBlank := fun t => rfl
  have hpast : ∀ t, (9 :: t).dropWhile isBlank = t.dropWhile isBlank := fun t => rfl
  rw [hline, stackLocation?, htab, hpast, hpath.dropWhile_isBlank, hink.dropWhile_reverse, hback]
  simp only [hoffsetOff, colonDigits?_reverse hnum]
  simp [hpath.rooted? hone]

/-! ## Functions in stacks -/

/-- A text that ends in a parenthesis is no remark on a creating goroutine, since those end in
digits. -/
theorem isCreator_of_paren {t : Text} (ht : t.getLast? = some 41) : isCreator t = false := by
  unfold isCreator
  split
  · cases ht
  · split
    · rename_i ds hread
      obtain ⟨rest, hlead, hdigits⟩ := bind_eq_some_iff.mp hread
      obtain ⟨rfl, hds⟩ := digits?_eq_some hdigits
      rw [dropLead?_eq_some_iff.mp hlead, append_nil, getLast?_append,
        getLast?_eq_some_getLast hds.ne_nil] at ht
      have hdigit := hds.all _ (getLast_mem hds.ne_nil)
      rw [some_or, some.injEq] at ht
      rw [ht] at hdigit
      cases hdigit
    · rfl
  · rfl

/-- A line that ends in a parenthesis is no header of a stack. -/
theorem isGoroutine_of_paren {line : Text} (hline : line.getLast? = some 41) :
    isGoroutine line = false := by
  have hink : EndsInk line := ⟨41, hline, rfl⟩
  rw [isGoroutine, hink.trimEnd]
  split
  · rename_i ds rest hread
    split
    · rename_i tail htail
      obtain ⟨numbered, hlead, hdigits⟩ := bind_eq_some_iff.mp hread
      by_contra hend
      obtain ⟨front, rfl⟩ := isSuffixOf_iff_suffix.mp
        (Bool.and_eq_true _ _ ▸ Bool.not_eq_false _ ▸ hend).1
      rw [dropLead?_eq_some_iff.mp hlead, (digits?_eq_some hdigits).1,
        dropLead?_eq_some_iff.mp htail] at hline
      simp only [← append_assoc, getLast?_append] at hline
      cases hline
    · rfl
  · rfl

section Calls

variable {args : Text}

/-- Arguments without parentheses end a call. -/
theorem isCallEnd_args (hargs : ∀ b ∈ args, isParen b = false) :
    isCallEnd (40 :: args ++ [41]) = true := by
  have hend : (args ++ [41]).dropWhile (!isParen ·) = [41] := by
    rw [dropWhile_append_of_pos fun b hb => by simp [hargs b hb]]
    rfl
  rw [cons_append]
  simp only [isCallEnd, hend]
  rfl

/-- Nothing before the last opening parenthesis ends a call: what follows there still has
that parenthesis in it. -/
theorem isCallEnd_before {front : Text} (hfront : front ≠ []) (args : Text) :
    isCallEnd (front ++ 40 :: args ++ [41]) = false := by
  obtain ⟨b, front, rfl⟩ := exists_cons_of_ne_nil hfront
  rw [cons_append, cons_append]
  unfold isCallEnd
  split
  · rename_i rest hequal
    obtain ⟨-, rfl⟩ := cons.inj hequal
    split
    · rename_i tail htail
      have hsplit :=
        takeWhile_append_dropWhile (p := (!isParen ·)) (l := front ++ 40 :: args ++ [41])
      rw [htail] at hsplit
      -- The closing parenthesis that was found is not the last one, as an opening one is
      -- still to come.
      have hmore : tail ≠ [] := by
        rintro rfl
        have hskipped := append_cancel_right hsplit
        have hparen : 40 ∈ (front ++ 40 :: args ++ [41]).takeWhile (!isParen ·) := by
          rw [hskipped]
          simp
        cases mem_takeWhile_imp hparen
      grind [getLast?_cons, isCreator_of_paren]
    · rfl
  · refine isCreator_of_paren ?_
    rw [← cons_append, getLast?_concat]

/-- The name of a function reaches up to its arguments. -/
theorem untilCallEnd_eq (hargs : ∀ b ∈ args, isParen b = false) (acc : Text) {name : Text}
    (hname : 10 ∉ name) :
    untilCallEnd acc (name ++ 40 :: args ++ [41]) = some (acc.reverse ++ name) := by
  induction name generalizing acc with
  | nil =>
    rw [nil_append, cons_append, untilCallEnd, if_pos]
    · simp
    · exact isCallEnd_args hargs
  | cons b name ih =>
    have hinside := isCallEnd_before (cons_ne_nil b name) args
    rw [cons_append, cons_append] at hinside ⊢
    rw [mem_cons, not_or] at hname
    rw [untilCallEnd, hinside, if_neg (by simp), if_neg (by simpa using Ne.symm hname.1),
      ih _ hname.2]
    simp

/-- A lead that does not hold a byte is no lead of a text that reaches up to that byte, unless
it is one of what stands before. -/
theorem prefix_of_not_mem {lead front rest : Text} {b : UInt8} (hb : b ∉ lead)
    (hlead : lead <+: front ++ b :: rest) : lead <+: front := by
  obtain ⟨tail, htail⟩ := hlead
  rcases append_eq_append_iff.mp htail with ⟨more, hfront, -⟩ | ⟨more, hmore, hrest⟩
  · exact ⟨more, hfront.symm⟩
  · cases more with
    | nil => exact ⟨[], by simpa using hmore⟩
    | cons c more =>
      obtain ⟨rfl, -⟩ := cons.inj hrest
      exact absurd (by simp [hmore]) hb

/-- A symbol is found again in front of its arguments, also if it has parentheses itself. -/
theorem function?_eq {symbol : Text} (hstart : startsInk symbol = true)
    (hone : 10 ∉ symbol) (hcreated : ¬ ofString "created by " <+: symbol)
    (hargs : ∀ b ∈ args, isParen b = false) :
    function? (symbol ++ "(" ++ args ++ ")") = some symbol := by
  have hline : symbol ++ ofString "(" ++ args ++ ofString ")" =
      symbol ++ 40 :: args ++ [41] := by
    simp only [append_assoc]
    rfl
  have hink : EndsInk (symbol ++ 40 :: args ++ [41]) := ⟨41, getLast?_concat, rfl⟩
  have hlead : dropLead? "created by " (symbol ++ 40 :: args ++ [41]) = none := by
    rw [← not_isSome_iff_eq_none, dropLead?_isSome_iff, append_assoc]
    exact fun hstarts => hcreated (prefix_of_not_mem (by decide) hstarts)
  have hsymbol : symbol ≠ [] := by
    rintro rfl
    cases hstart
  have hwidth : (firstRune (symbol ++ 40 :: args ++ [41])).2 ≤ symbol.length := by
    rw [append_assoc]
    exact firstRune_width_le hsymbol (by decide) _
  have hbody : startsInk (symbol ++ 40 :: args ++ [41]) = true := by
    obtain ⟨b, rest, rfl⟩ := exists_cons_of_ne_nil hsymbol
    exact hstart
  rw [hline, function?, hink.trimEnd]
  simp only [hlead, hbody, if_true]
  generalize (firstRune (symbol ++ 40 :: args ++ [41])).2 = width at hwidth ⊢
  rw [append_assoc, take_append_of_le_length hwidth, drop_append_of_le_length hwidth,
    ← append_assoc, untilCallEnd_eq hargs _ fun hin => hone (mem_of_mem_drop hin), reverse_reverse,
    take_append_drop]

end Calls

end FaultRepair.Trace
