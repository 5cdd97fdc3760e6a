/-
# The forms of lines in backtraces

A line of a backtrace is a header or a location by its form alone, which is stated here apart
from the reading: which parts stand in which order, and of which bytes they consist. Reading
succeeds exactly on the lines of the form, and returns their parts.

No line has both forms, since the first ink of a header is a digit and that of a location is
not. This is what allows lines to be paired without looking at any other line.
-/

import FaultRepair.Proofs.Trace.Lines

namespace FaultRepair.Trace

open List Text Option

variable {t line symbol path depth num col : Text}

def Blank (t : Text) : Prop := ∀ b ∈ t, isBlank b = true

/-! ## White space at the two ends of a line -/

theorem Blank.dropWhile_append {indent : Text} (hindent : Blank indent) (ht : startsInk t = true) :
    (indent ++ t).dropWhile isBlank = t := by
  rw [dropWhile_append_of_pos hindent, dropWhile_isBlank ht]

theorem blank_takeWhile (t : Text) : Blank (t.takeWhile isBlank) :=
  fun _ hb => mem_takeWhile_imp hb

theorem Blank.reverse (ht : Blank t) : Blank t.reverse :=
  fun b hb => ht b (mem_reverse.mp hb)

theorem startsInk_dropWhile (ht : t.dropWhile isBlank ≠ []) :
    startsInk (t.dropWhile isBlank) = true := by
  cases hdrop : t.dropWhile isBlank with
  | nil => exact absurd hdrop ht
  | cons b rest =>
    have hhead := head_dropWhile_not isBlank (l := t) (by simp [hdrop])
    simpa [startsInk, hdrop] using hhead

theorem endsInk_of_startsInk (ht : startsInk t.reverse = true) : EndsInk t := by
  cases hback : t.reverse with
  | nil =>
    rw [hback] at ht
    cases ht
  | cons b rest =>
    refine ⟨b, ?_, by simpa [hback, startsInk] using ht⟩
    rw [← head?_reverse, hback, head?_cons]

/-- What is trimmed is white space, and what is left ends in ink. -/
theorem trimEnd_spec (t : Text) :
    (trimEnd t = [] ∨ EndsInk (trimEnd t)) ∧ ∃ tail, Blank tail ∧ t = trimEnd t ++ tail := by
  constructor
  · grind [trimEnd, endsInk_of_startsInk, startsInk_dropWhile]
  · refine ⟨(t.reverse.takeWhile isBlank).reverse, (blank_takeWhile _).reverse, ?_⟩
    rw [trimEnd, ← reverse_append, takeWhile_append_dropWhile, reverse_reverse]

theorem EndsInk.dropWhile_reverse_append {tail : Text} (ht : EndsInk t) (htail : Blank tail) :
    (t ++ tail).reverse.dropWhile isBlank = t.reverse := by
  rw [reverse_append, dropWhile_append_of_pos htail.reverse, ht.dropWhile_reverse]

theorem EndsInk.trimEnd_append {tail : Text} (ht : EndsInk t) (htail : Blank tail) :
    Trace.trimEnd (t ++ tail) = t := by
  rw [Trace.trimEnd, ht.dropWhile_reverse_append htail, reverse_reverse]

theorem trimEnd_of_blank (ht : Blank t) : trimEnd t = [] := by
  have hall : t.reverse.dropWhile isBlank = [] := dropWhile_eq_nil_iff.mpr ht.reverse
  rw [trimEnd, hall, reverse_nil]

/-! ## Headers -/

/-- The form of a header: a depth, an address in hexadecimal and a symbol. The white space at
the end of the line does not belong to the symbol, which has at least one character and is on
one line. -/
inductive IsHeader (depth symbol : Text) : Text → Prop
  | mk {indent gap address tail : Text} (blank_indent : Blank indent)
      (run_depth : Run isDigit depth) (run_gap : Run isBlank gap)
      (run_address : Run isHexDigit address)
      (symbol_least : EndsInk symbol ∨ symbol.length = 1) (symbol_line : 10 ∉ symbol)
      (blank_tail : Blank tail) :
      IsHeader depth symbol
        (indent ++ (depth ++ ":" ++ gap ++ "0x" ++ address ++ " - " ++ symbol ++ tail))

/-- What stands after the dash determines the symbol. -/
def symbolOf (rest : Text) : Text := if (trimEnd rest).isEmpty then rest.take 1 else trimEnd rest

theorem symbolOf_eq_iff {rest : Text} (hsymbol : symbol ≠ []) :
    symbolOf rest = symbol ↔
      (EndsInk symbol ∨ symbol.length = 1) ∧ ∃ tail, Blank tail ∧ rest = symbol ++ tail := by
  constructor
  · rintro rfl
    obtain ⟨hends, tail, htail, hrest⟩ := trimEnd_spec rest
    rw [symbolOf] at hsymbol ⊢
    split at hsymbol
    · rename_i hempty
      rw [isEmpty_iff.mp hempty, nil_append] at hrest
      rw [if_pos hempty]
      have hsome : rest ≠ [] := fun hnil => hsymbol (by rw [hnil, take_nil])
      obtain ⟨b, more, rfl⟩ := exists_cons_of_ne_nil hsome
      refine ⟨.inr rfl, more, ?_, rfl⟩
      intro c hc
      exact htail c (hrest ▸ mem_cons_of_mem b hc)
    · grind
  · rintro ⟨hleast, tail, htail, rfl⟩
    by_cases hends : EndsInk symbol
    · rw [symbolOf, hends.trimEnd_append htail, if_neg (by simpa using hends.ne_nil)]
    · have hone := hleast.resolve_left hends
      obtain ⟨b, rfl⟩ := length_eq_one_iff.mp hone
      have hblank : isBlank b = true := by
        by_contra hink
        exact hends ⟨b, rfl, by simpa using hink⟩
      grind [Blank, symbolOf, trimEnd_of_blank]

/-- A run at the start of a text is found if the text goes on with something else. -/
theorem run_takeWhile {kind : UInt8 → Bool} (ht : ¬ (t.takeWhile kind).isEmpty = true) :
    Run kind (t.takeWhile kind) where
  ne_nil := by simpa using ht
  all _ hb := mem_takeWhile_imp hb

theorem header?_eq_some_iff : header? line = some (depth, symbol) ↔ IsHeader depth symbol line := by
  have hlast : ∀ rest : Text,
      (if (trimEnd rest).isEmpty = true then rest.take 1 else trimEnd rest) =
      symbolOf rest := fun _ => rfl
  simp only [header?, bind_eq_bind, bind_none, hlast]
  constructor
  · simp only [bind_eq_some_iff, ite_none_left_eq_some]
    rintro ⟨⟨ds, afterDepth⟩, hdigits, afterColon, hcolon, hgap, afterMark, hmark, haddress,
      afterDash, hdash, hsymbol, hparts⟩
    cases hparts
    simp only [Bool.or_eq_true, List.isEmpty_iff, hasLineFeed_iff, not_or] at hsymbol
    obtain ⟨hline, hdepth⟩ := digits?_eq_some hdigits
    obtain ⟨hleast, tail, htail, hafter⟩ := (symbolOf_eq_iff hsymbol.1).mp rfl
    generalize symbolOf afterDash = symbol at hsymbol hleast hafter ⊢
    subst hafter
    have hwhole : line = line.takeWhile isBlank ++ (ds ++ ":" ++ afterColon.takeWhile isBlank ++
        "0x" ++ afterMark.takeWhile isHexDigit ++ " - " ++ symbol ++ tail) := by
      calc line = line.takeWhile isBlank ++ (ds ++ afterDepth) := by
            rw [← hline, takeWhile_append_dropWhile]
        _ = line.takeWhile isBlank ++ (ds ++ (":" ++ (afterColon.takeWhile isBlank ++
              afterColon.dropWhile isBlank))) := by
            rw [takeWhile_append_dropWhile, ← dropLead?_eq_some_iff.mp hcolon]
        _ = line.takeWhile isBlank ++ (ds ++ (":" ++ (afterColon.takeWhile isBlank ++ ("0x" ++
              (afterMark.takeWhile isHexDigit ++ afterMark.dropWhile isHexDigit))))) := by
            rw [takeWhile_append_dropWhile (p := isHexDigit),
              ← dropLead?_eq_some_iff.mp hmark]
        _ = _ := by
            rw [dropLead?_eq_some_iff.mp hdash]
            simp only [append_assoc]
    rw [hwhole]
    exact .mk (blank_takeWhile line) hdepth (run_takeWhile hgap) (run_takeWhile haddress) hleast
      hsymbol.2 htail
  · rintro ⟨hindent, hdepth, hgap, haddress, hleast, honeLine, htail⟩
    rename_i indent gap address tail
    have hsome : symbol ≠ [] := by
      rintro rfl
      rcases hleast with hends | hone
      · exact hends.ne_nil rfl
      · cases hone
    have hsymbol : symbolOf (symbol ++ tail) = symbol :=
      (symbolOf_eq_iff hsome).mpr ⟨hleast, tail, htail, rfl⟩
    have hline : depth ++ ":" ++ gap ++ "0x" ++ address ++ " - " ++ symbol ++ tail =
        depth ++ 58 :: (gap ++ 48 :: 120 :: (address ++ 32 :: 45 :: 32 :: (symbol ++ tail))) := by
      simp only [append_assoc]
      rfl
    have hcolon : ∀ t, dropLead? ":" (58 :: t) = some t := fun t => rfl
    have hmark : ∀ t, dropLead? "0x" (48 :: 120 :: t) = some t := fun t => rfl
    have hdash : ∀ t, dropLead? " - " (32 :: 45 :: 32 :: t) = some t := fun t => rfl
    rw [hline, hindent.dropWhile_append (hdepth.hexadecimal.startsInk_append _),
      digits?_append hdepth rfl, bind_some, hcolon, bind_some, hgap.takeWhile rfl,
      hgap.dropWhile rfl, if_neg (by simpa using hgap.ne_nil), hmark, bind_some,
      haddress.takeWhile rfl, haddress.dropWhile rfl, if_neg (by simpa using haddress.ne_nil),
      hdash, bind_some, hsymbol, if_neg (by simp [hsome, hasLineFeed_iff, honeLine])]

/-! ## Locations -/

/-- The form of a location: a path from the root that is on one line, a line and a column. The path
may itself look like one with a line and a column. -/
inductive IsLocation (path num col : Text) : Text → Prop
  | mk {indent tail : Text} (blank_indent : Blank indent) (rooted : Rooted path)
      (path_line : 10 ∉ path)
      (run_num : Run isDigit num) (run_col : Run isDigit col) (blank_tail : Blank tail) :
      IsLocation path num col (indent ++ ("at " ++ path ++ ":" ++ num ++ ":" ++ col ++ tail))

theorem rooted?_eq_some_iff : rooted? t = some path ↔ t = path ∧ Rooted path ∧ 10 ∉ path := by
  constructor
  · intro h
    unfold rooted? at h
    split at h
    · split at h
      · cases h
      · rename_i hline
        cases h
        exact ⟨rfl, ⟨_, _, rfl⟩, by rwa [hasLineFeed_iff] at hline⟩
    · cases h
  · rintro ⟨rfl, hrooted, hline⟩
    exact hrooted.rooted? hline

theorem colonDigits?_eq_some_iff {back ds front : Text} :
    colonDigits? back = some (ds, front) ↔
      Run isDigit ds ∧ back.reverse = front.reverse ++ 58 :: ds := by
  constructor
  · intro h
    simp only [colonDigits?] at h
    split at h
    · cases h
    · rename_i hdigits
      split at h
      · rename_i rest hcolon
        cases h
        refine ⟨(run_takeWhile hdigits).reverse, ?_⟩
        grind [takeWhile_append_dropWhile]
      · cases h
  · rintro ⟨hds, hback⟩
    rw [← reverse_reverse back, hback, colonDigits?_reverse hds, reverse_reverse]

theorem location?_eq_some_iff :
    location? line = some (path, num, col) ↔ IsLocation path num col line := by
  simp only [location?, bind_eq_bind]
  constructor
  · simp only [bind_eq_some_iff]
    rintro ⟨rest, hlead, ⟨c, beforeCol⟩, hcol, ⟨n, beforeNum⟩, hnum, path', hpath, hparts⟩
    cases hparts
    obtain ⟨hcol, hback⟩ := colonDigits?_eq_some_iff.mp hcol
    obtain ⟨hnum, hfront⟩ := colonDigits?_eq_some_iff.mp hnum
    obtain ⟨rfl, hrooted, honeLine⟩ := rooted?_eq_some_iff.mp hpath
    obtain ⟨-, tail, htail, hrest⟩ := trimEnd_spec rest
    have htrim : trimEnd rest = beforeNum.reverse ++ 58 :: n ++ 58 :: c := by
      rw [trimEnd, hback, hfront]
    have hwhole : line = line.takeWhile isBlank ++ ("at " ++ beforeNum.reverse ++ ":" ++ n ++
        ":" ++ c ++ tail) := by
      calc line = line.takeWhile isBlank ++ ("at " ++ rest) := by
            rw [← dropLead?_eq_some_iff.mp hlead, takeWhile_append_dropWhile]
        _ = _ := by
            rw [hrest, htrim]
            simp only [append_assoc]
            rfl
    rw [hwhole]
    exact .mk (blank_takeWhile line) hrooted honeLine hnum hcol htail
  · rintro ⟨hindent, hrooted, honeLine, hnum, hcol, htail⟩
    rename_i indent tail
    have hline : "at " ++ path ++ ":" ++ num ++ ":" ++ col ++ tail =
        ofString "at " ++ (path ++ 58 :: num ++ 58 :: col ++ tail) := by
      simp only [append_assoc]
      rfl
    have hink : EndsInk (path ++ 58 :: num ++ 58 :: col) :=
      (hcol.hexadecimal.endsInk.append [58]).append _
    rw [hline, hindent.dropWhile_append rfl, dropLead?_append, bind_some,
      hink.dropWhile_reverse_append htail, colonDigits?_reverse hcol, bind_some,
      colonDigits?_reverse hnum, bind_some, reverse_reverse, hrooted.rooted? honeLine]
    rfl

theorem IsHeader.first_ink (hheader : IsHeader depth symbol line) :
    ∃ b, (line.dropWhile isBlank).head? = some b ∧ isDigit b = true := by
  obtain ⟨hindent, hdepth, -, -, -, -⟩ := hheader
  obtain ⟨b, digits, rfl⟩ := exists_cons_of_ne_nil hdepth.ne_nil
  have hdigit := hdepth.all b mem_cons_self
  refine ⟨b, ?_, hdigit⟩
  rw [hindent.dropWhile_append]
  · rfl
  · simp [startsInk, isBlank_of_isHexDigit (isHexDigit_of_isDigit hdigit)]

theorem IsLocation.first_ink (hlocation : IsLocation path num col line) :
    (line.dropWhile isBlank).head? = some 97 := by
  obtain ⟨hindent, -, -, -, -⟩ := hlocation
  rw [hindent.dropWhile_append]
  · rfl
  · rfl

theorem IsHeader.not_isLocation (hheader : IsHeader depth symbol line) :
    ¬ IsLocation path num col line := by
  intro hlocation
  obtain ⟨b, hfirst, hdigit⟩ := hheader.first_ink
  rw [hlocation.first_ink, some.injEq] at hfirst
  rw [← hfirst] at hdigit
  cases hdigit

end FaultRepair.Trace
