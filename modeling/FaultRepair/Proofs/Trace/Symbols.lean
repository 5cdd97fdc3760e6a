/-
# Symbols are taken apart as they are put together

A symbol is made of segments in one of two ways: with double colons between them, and maybe a hash
at the end, or after a path and with dots between them. In the second way a segment can be wrapped
as a pointer and can have marks of type arguments.

Which way it was cannot be told from a symbol of one segment, since nothing stands between. Such a
symbol is read in the second way, as one that has neither path nor marks.
-/

import FaultRepair.Trace.Line
import FaultRepair.Proofs.Text.Cutting
import FaultRepair.Proofs.Text.Encoding

namespace FaultRepair.Text

open List

variable {b : UInt8} {s t : Text}

/-! ## Texts without white space -/

/-- Well-formed bytes are read alike wherever they stand. -/
theorem firstRune_of_take (hs : s ≠ [])
    (hvalid : (firstRune s).2 ≠ 1 ∨ (firstRune s).1 ≠ replacement)
    (hfront : s.take (firstRune s).2 <+: t) : firstRune t = firstRune s := by
  have hcode := encoded_of_firstRune hs hvalid
  obtain ⟨rest, rfl⟩ := hfront
  rw [hcode.firstRune, ← hcode.firstRune (s.drop (firstRune s).2), take_append_drop]

/-- What stands from an ASCII byte on does not change how the text before it is read. -/
theorem firstRune_append (hs : s ≠ []) (hb : b < 0x80) (t : Text) :
    firstRune (s ++ b :: t) = firstRune s := by
  grind [firstRune_of_take, firstRune_width_le, Prod.ext]

theorem runes_step (a : UInt8) (rest : Text) :
    runes (a :: rest) = (firstRune (a :: rest)).1 ::
      runes ((a :: rest).drop (firstRune (a :: rest)).2) := by
  rw [runes, readings_cons]
  rfl

theorem runes_cons (hb : b < 0x80) (t : Text) : runes (b :: t) = b.toNat :: runes t := by
  have hfirst : firstRune (b :: t) = (b.toNat, 1) := by simp [firstRune, hb]
  rw [runes_step, hfirst]
  rfl

theorem runes_append_cons (hb : b < 0x80) (s t : Text) :
    runes (s ++ b :: t) = runes s ++ b.toNat :: runes t := by
  induction s using reading_induction with
  | nil => exact runes_cons hb t
  | cons a rest ih => grind [firstRune_append, firstRune_width_le, runes_step]

/-- No code point of the text is white space. -/
def Spaceless (t : Text) : Prop := ∀ r ∈ runes t, isSpaceRune r = false

instance (t : Text) : Decidable (Spaceless t) := inferInstanceAs (Decidable (∀ r ∈ runes t, _))

theorem spaceless_append_cons (hb : b < 0x80) :
    Spaceless (s ++ b :: t) ↔ Spaceless s ∧ isSpaceRune b.toNat = false ∧ Spaceless t := by
  simp [Spaceless, runes_append_cons hb, or_imp, forall_and]

theorem spaceless_cons (hb : b < 0x80) :
    Spaceless (b :: t) ↔ isSpaceRune b.toNat = false ∧ Spaceless t := by
  simp [Spaceless, runes_cons hb]

/-- The bytes of a text are gone through, and not all bytes there are. -/
instance (p : UInt8 → Prop) [DecidablePred p] (t : Text) : Decidable (∀ b ∈ t, p b) :=
  t.decidableBAll p

/-- ASCII bytes that are no white space. -/
def IsInk (t : Text) : Prop := t ≠ [] ∧ ∀ b ∈ t, b < 0x80 ∧ isSpaceRune b.toNat = false

instance (t : Text) : Decidable (IsInk t) := inferInstanceAs (Decidable (_ ∧ _))

theorem Spaceless.append {ink : Text} (hs : Spaceless s) (hink : IsInk ink) (ht : Spaceless t) :
    Spaceless (s ++ ink ++ t) := by
  obtain ⟨b, ink, rfl⟩ := exists_cons_of_ne_nil hink.1
  obtain ⟨hb, hmore⟩ := forall_mem_cons.mp hink.2
  have hrest : Spaceless (ink ++ t) := by
    clear hink
    induction ink with
    | nil => exact ht
    | cons c ink ih =>
      obtain ⟨hc, hmore⟩ := forall_mem_cons.mp hmore
      exact (spaceless_cons hc.1).mpr ⟨hc.2, ih hmore⟩
  rw [append_assoc, cons_append, spaceless_append_cons hb.1]
  exact ⟨hs, hb.2, hrest⟩

/-- What pieces have and putting the separator between keeps, a joined text has. -/
theorem join_rule {P : Text → Prop} {sep : Text} {pieces : List Text} (hnil : P [])
    (happend : ∀ s t, P s → P t → P (s ++ sep ++ t)) (hpieces : ∀ p ∈ pieces, P p) :
      P (join sep pieces) := by
  induction pieces with
  | nil => exact hnil
  | cons p rest ih =>
    obtain ⟨hp, hrest⟩ := forall_mem_cons.mp hpieces
    cases rest with
    | nil => exact hp
    | cons next more =>
      rw [join_cons_cons]
      exact happend _ _ hp (ih hrest)

theorem spaceless_join {sep : Text} {pieces : List Text} (hsep : IsInk sep)
    (hpieces : ∀ p ∈ pieces, Spaceless p) : Spaceless (join sep pieces) :=
  join_rule (by decide) (fun _ _ hs ht => hs.append hsep ht) hpieces

theorem not_mem_join {sep : Text} {pieces : List Text} (hsep : b ∉ sep)
    (hpieces : ∀ p ∈ pieces, b ∉ p) :
    b ∉ join sep pieces :=
  join_rule not_mem_nil (fun _ _ hs ht => by simp [hs, hsep, ht]) hpieces

/-- Nothing goes from the ends of a list that has nothing to lose. -/
theorem trimmed_eq {α : Type} {p : α → Bool} {l : List α} (h : ∀ a ∈ l, p a = false) :
    ((l.dropWhile p).reverse.dropWhile p).reverse = l := by
  have hkept : ∀ m : List α, m ⊆ l → m.dropWhile p = m := by
    intro m hm
    cases m with
    | nil => rfl
    | cons a m => rw [dropWhile_cons_of_neg (by simp [h a (hm mem_cons_self)])]
  grind

theorem trimSpace_of_spaceless (ht : Spaceless t) : trimSpace t = t := by
  have hkept := trimmed_eq fun g (hg : g ∈ readings t) => ht g.rune (mem_map_of_mem hg)
  rw [trimSpace, dropSpaces, hkept, flatten_raw_readings]

end FaultRepair.Text

namespace FaultRepair.Trace

open Text List

/-! ## What symbols are made of -/

/-- A part of a name, which neither white space nor the marks of a symbol can divide. -/
structure Segment where
  text : Text
  ne_nil : text ≠ []
  spaceless : Spaceless text
  unmarked : ∀ b ∈ ofString ":./[()*<>", b ∉ text

/-- A segment as it stands between dots. -/
inductive Part where
  | plain (s : Segment)
  | pointer (p : Part)
  | generic (p : Part)

namespace Part

def segment : Part → Segment
  | .plain s => s
  | .pointer p => p.segment
  | .generic p => p.segment

def text : Part → Text
  | .plain s => s.text
  | .pointer p => "(*" ++ p.text ++ ")"
  | .generic p => p.text ++ "[...]"

/-- The part without marks of type arguments. -/
def bare : Part → Text
  | .plain s => s.text
  | .pointer p => "(*" ++ p.bare ++ ")"
  | .generic p => p.bare

end Part

/-- The path that a symbol can start with. -/
structure Lead where
  text : Text
  spaceless : Spaceless text
  unmarked : ∀ b ∈ ofString ":[", b ∉ text
  ended : text = [] ∨ ofString "/" <:+ text

/-- The letter `h` and sixteen digits. -/
def IsHash (t : Text) : Prop :=
  ∃ digits : Text, t = "h" ++ digits ∧ digits.length = 16 ∧
    ∀ d ∈ digits, d ∈ ofString "0123456789abcdef"

/-- The symbol names the first segment under one convention, and the last under the other. -/
def Names (symbol : Text) (segments : List Segment) : Prop :=
  (segments.map (·.text)).head? = some (identOf .first symbol) ∧
    (segments.map (·.text)).getLast? = some (identOf .last symbol)

variable {s t u symbol : Text} {ss : List Segment}

/-! ## Segments -/

theorem Segment.not_isDecoration (s : Segment) {b : UInt8} (hb : b ∈ s.text) :
    isDecoration b = false := by
  have hspace : b ≠ 32 := by
    rintro rfl
    obtain ⟨g, hg, hrune, -⟩ := exists_reading hb (by decide)
    have hink := s.spaceless g.rune (mem_map_of_mem hg)
    rw [hrune] at hink
    cases hink
  have hmarks : ∀ c ∈ ofString ":./[()*<>",
      b ≠ c := fun c hc hequal => s.unmarked c hc (hequal ▸ hb)
  have hbytes : ofString ":./[()*<>" = [58, 46, 47, 91, 40, 41, 42, 60, 62] := by decide
  rw [hbytes] at hmarks
  simp_all [isDecoration]

theorem stripDecoration_cons {b : UInt8} (hb : isDecoration b = true) (t : Text) :
    stripDecoration (b :: t) = stripDecoration t := by
  rw [stripDecoration, dropWhile_cons_of_pos hb, stripDecoration]

theorem stripDecoration_concat {b : UInt8} (hb : isDecoration b = true) (t : Text) :
    stripDecoration (t ++ [b]) = stripDecoration t := by
  grind [stripDecoration, dropWhile_append, dropWhile_cons_of_pos, reverse_append]

theorem Segment.stripDecoration_text (s : Segment) : stripDecoration s.text = s.text :=
  trimmed_eq fun _ hb => s.not_isDecoration hb

/-! ## Hashes -/

theorem isLowerHex_iff {d : UInt8} : isLowerHex d = true ↔ d ∈ ofString "0123456789abcdef" := by
  have hbytes : ofString "0123456789abcdef" =
      [48, 49, 50, 51, 52, 53, 54, 55, 56, 57, 97, 98, 99, 100, 101, 102] := by decide
  rw [hbytes]
  simp [isLowerHex, isDigit, UInt8.le_iff_toNat_le, ← UInt8.toNat_inj]
  omega

theorem withoutHash_append {hash : Text} (hhash : IsHash hash) (t : Text) :
    withoutHash (t ++ "::" ++ hash) = t := by
  obtain ⟨digits, rfl, hlength, hdigits⟩ := hhash
  have hhex : digits.all isLowerHex = true := by simpa [isLowerHex_iff] using hdigits
  have hmark : t ++ ofString "::" ++ ("h" ++ digits) = t ++ ("::h" ++ digits) := append_assoc _ _ _
  have htail : (ofString "::h" ++ digits).length = 19 := by
    rw [length_append, hlength]
    rfl
  grind [drop_left', withoutHash, drop_left, take_left]

theorem withoutHash_of_not_isHash (ht : ∀ front hash, t = front ++ "::" ++ hash → ¬ IsHash hash) :
    withoutHash t = t := by
  refine if_neg fun h => ?_
  simp only [Bool.and_eq_true, decide_eq_true_eq, beq_iff_eq] at h
  obtain ⟨⟨hlength, hmark⟩, hhex⟩ := h
  have htail : t.drop (t.length - 19) = "::h" ++ (t.drop (t.length - 19)).drop 3 := by
    rw [← hmark, take_append_drop]
  refine ht (t.take (t.length - 19)) ("h" ++ (t.drop (t.length - 19)).drop 3) ?_ ⟨_, rfl, ?_, ?_⟩
  · rw [append_assoc]
    exact (take_append_drop _ _).symm.trans (congrArg _ htail)
  · rw [length_drop, length_drop]
    omega
  · simpa [isLowerHex_iff] using hhex

theorem withoutHash_of_not_mem (ht : 58 ∉ t) : withoutHash t = t := by
  refine withoutHash_of_not_isHash ?_
  rintro front hash rfl
  rw [mem_append, mem_append, not_or, not_or] at ht
  exact absurd mem_cons_self ht.1.2

/-! ## Marks of type arguments -/

/-- Taking the marks out of a text gives another one, whatever follows. -/
def Erases (t u : Text) : Prop := ∀ rest, withoutTypeArgs (t ++ rest) = u ++ withoutTypeArgs rest

theorem Erases.eq (h : Erases t u) : withoutTypeArgs t = u := by
  have hwhole := h []
  rwa [append_nil, withoutTypeArgs, append_nil] at hwhole

theorem Erases.append {t' u' : Text} (h : Erases t u) (h' : Erases t' u') : Erases (t ++ t')
    (u ++ u') := by
  intro rest
  rw [append_assoc, h, h', append_assoc]

theorem erases_of_not_mem (ht : 91 ∉ t) : Erases t t := by
  intro rest
  induction t with
  | nil => rfl
  | cons b t ih =>
    rw [mem_cons, not_or] at ht
    rw [cons_append, withoutTypeArgs, ih ht.2, cons_append]
    rintro - rfl
    exact absurd rfl ht.1

theorem erases_mark : Erases "[...]" [] := fun _ => rfl

namespace Part

variable (p : Part) {b : UInt8}

theorem erases : Erases p.text p.bare := by
  induction p with
  | plain s => exact erases_of_not_mem (s.unmarked 91 (by decide))
  | pointer p ih =>
    have hopen : Erases (ofString "(*") "(*" := erases_of_not_mem (by decide)
    have hclose : Erases (ofString ")") ")" := erases_of_not_mem (by decide)
    exact (hopen.append ih).append hclose
  | generic p ih =>
    have hmarked := ih.append erases_mark
    rwa [append_nil] at hmarked

theorem stripDecoration_bare : stripDecoration p.bare = p.segment.text := by
  induction p with
  | plain s => exact s.stripDecoration_text
  | pointer p ih =>
    have hwrapped : (Part.pointer p).bare = 40 :: 42 :: (p.bare ++ [41]) := rfl
    rw [hwrapped, stripDecoration_cons rfl, stripDecoration_cons rfl,
      stripDecoration_concat rfl, ih]
    rfl
  | generic p ih => exact ih

theorem spaceless : Spaceless p.text := by
  have hnone : Spaceless [] := by decide
  have hopen : IsInk (ofString "(*") := by decide
  have hclose : IsInk (ofString ")") := by decide
  have hmark : IsInk (ofString "[...]") := by decide
  induction p with
  | plain s => exact s.spaceless
  | pointer p ih => simpa [text] using hnone.append hopen (ih.append hclose hnone)
  | generic p ih => simpa [text] using ih.append hmark hnone

theorem colon_not_mem_text : 58 ∉ p.text := by
  have hmarks : 58 ∉ ofString "(*" ∧ 58 ∉ ofString ")" ∧ 58 ∉ ofString "[...]" := by decide
  induction p with
  | plain s => exact s.unmarked 58 (by decide)
  | pointer p ih => simp [text, hmarks, ih]
  | generic p ih => simp [text, hmarks, ih]

theorem not_mem_bare (hb : b ∈ ofString ":./") : b ∉ p.bare := by
  have hmarks : ∀ b ∈ ofString ":./", b ∉ ofString "(*" ∧ b ∉ ofString ")" ∧
      b ∈ ofString ":./[()*<>" := by
    decide
  obtain ⟨hopen, hclose, hmark⟩ := hmarks b hb
  induction p with
  | plain s => exact s.unmarked b hmark
  | pointer p ih => simp [bare, hopen, hclose, ih]
  | generic p ih => exact ih

end Part

/-! ## Segments between colons -/

theorem splitColons_go (hs : 58 ∉ s) (acc t : Text) :
    splitColons.go acc (s ++ t) = splitColons.go (s.reverse ++ acc) t := by
  induction s generalizing acc with
  | nil => rfl
  | cons b s ih =>
    rw [mem_cons, not_or] at hs
    rw [cons_append, splitColons.go, ih hs.2, reverse_cons, append_assoc, singleton_append]
    rintro - rfl
    exact absurd rfl hs.1

theorem splitColons_join {pieces : List Text} (hpieces : pieces ≠ [])
    (hfree : ∀ p ∈ pieces, 58 ∉ p) :
    splitColons (join "::" pieces) = pieces := by
  induction pieces with
  | nil => exact absurd rfl hpieces
  | cons s rest ih =>
    have hs := splitColons_go (hfree s mem_cons_self) []
    cases rest with
    | nil => simpa [splitColons, splitColons.go] using hs []
    | cons next more =>
      rw [join_cons_cons, append_assoc, splitColons, hs]
      show (s.reverse ++ []).reverse :: splitColons (join "::" (next :: more)) = _
      grind

/-! ## The segment that names -/

theorem filter_texts (ss : List Segment) :
    (ss.map (·.text)).filter (!·.isEmpty) = ss.map (·.text) := by
  rw [filter_eq_self]
  intro t ht
  obtain ⟨s, -, rfl⟩ := mem_map.mp ht
  simpa using s.ne_nil

theorem ends_of_ne_nil {texts : List Text} (htexts : texts ≠ []) (other : Text) :
    texts.head? = some (texts.head?.getD other) ∧
      texts.getLast? = some (texts.getLast?.getD other) := by
  rw [head?_eq_some_head htexts, getLast?_eq_some_getLast htexts]
  exact ⟨rfl, rfl⟩

theorem names_of_colons (hss : ss ≠ []) (hs : withoutTypeArgs (withoutHash (trimSpace symbol)) = s)
    (hcolons : contains s "::" = true)
    (hparts : (splitColons s).map stripDecoration = ss.map (·.text)) :
    Names symbol ss := by
  simp only [Names, identOf, hs, hcolons, if_true, hparts, filter_texts]
  exact ends_of_ne_nil (by simpa using hss) s

theorem names_of_dots (hss : ss ≠ []) (lead : Lead)
    (hs : withoutTypeArgs (withoutHash (trimSpace symbol)) = lead.text ++ s) (hcolon : 58 ∉ s)
    (hslash : 47 ∉ s) (hparts : (Text.splitAt 46 s).map stripDecoration = ss.map (·.text)) :
    Names symbol ss := by
  have hcolons : contains (lead.text ++ s) "::" = false := by
    rw [Bool.eq_false_iff, Ne, contains_iff]
    intro hin
    rcases mem_append.mp (hin.subset mem_cons_self) with hlead | hrest
    · exact lead.unmarked 58 (by decide) hlead
    · exact hcolon hrest
  have hends := ends_of_ne_nil (by simpa using hss : ss.map (·.text) ≠ []) s
  rcases lead.ended with hempty | ⟨front, hfront⟩
  · rw [hempty, nil_append] at hs hcolons
    simpa only [Names, identOf, hs, hcolons, Bool.false_eq_true, if_false,
      cutLastAt?_of_not_mem hslash, hparts, filter_texts] using hends
  · have hcut : cutLastAt? 47 (lead.text ++ s) = some (front, s) := by
      rw [← hfront, append_assoc]
      exact cutLastAt?_append hslash front
    grind [Names, identOf, filter_texts]

/-! ## Whole symbols -/

theorem erases_join (ps : List Part) :
    Erases (join "." (ps.map (·.text))) (join "." (ps.map (·.bare))) := by
  induction ps with
  | nil => exact fun _ => rfl
  | cons p rest ih =>
    cases rest with
    | nil => exact p.erases
    | cons next more =>
      have hdot : Erases (ofString ".") "." := erases_of_not_mem (by decide)
      simp only [map_cons, join_cons_cons] at ih ⊢
      exact (p.erases.append hdot).append ih

theorem Lead.spaceless_append (lead : Lead) (hs : Spaceless s) : Spaceless (lead.text ++ s) := by
  rcases lead.ended with hempty | ⟨front, hfront⟩
  · rwa [hempty]
  · have hlead := lead.spaceless
    rw [← hfront] at hlead ⊢
    exact ((spaceless_append_cons (by decide)).mp hlead).1.append (by decide) hs

theorem names_of_parts (lead : Lead) {ps : List Part} (hps : ps ≠ []) :
    Names (lead.text ++ join "." (ps.map (·.text))) (ps.map (·.segment)) := by
  have hspaceless : Spaceless (lead.text ++ join "." (ps.map (·.text))) :=
    lead.spaceless_append (spaceless_join (by decide) (by simpa using fun p _ => p.spaceless))
  have hcolon : 58 ∉ lead.text ++ join "." (ps.map (·.text)) := by
    rw [mem_append, not_or]
    exact ⟨lead.unmarked 58 (by decide),
      not_mem_join (by decide) (by simpa using fun p _ => p.colon_not_mem_text)⟩
  have hbare : ∀ b ∈ ofString ":./", ∀ t ∈ ps.map (·.bare), b ∉ t := by
    simpa using fun b hb p _ => p.not_mem_bare hb
  have herased := (erases_of_not_mem (lead.unmarked 91 (by decide))).append (erases_join ps)
  have hcolon' : 58 ∉ join "." (ps.map (·.bare)) := not_mem_join (by decide) (hbare 58 (by decide))
  have hslash : 47 ∉ join "." (ps.map (·.bare)) := not_mem_join (by decide) (hbare 47 (by decide))
  refine names_of_dots (by simpa using hps) lead ?_ hcolon' hslash ?_
  · rw [trimSpace_of_spaceless hspaceless, withoutHash_of_not_mem hcolon, herased.eq]
  · have hsplit : Text.splitAt 46 (join "." (ps.map (·.bare))) = ps.map (·.bare) :=
      splitAt_join (by simpa using hps) (hbare 46 (by decide))
    rw [hsplit, map_map, map_map]
    exact map_congr_left fun p _ => p.stripDecoration_bare

theorem cutLastAt?_colons (ht : 58 ∉ t) (front : Text) :
    cutLastAt? 58 (front ++ "::" ++ t) = some (front ++ [58], t) := by
  have hmark : front ++ ofString "::" ++ t = front ++ [58] ++ 58 :: t := by
    rw [append_assoc, append_assoc]
    rfl
  rw [hmark, cutLastAt?_append ht]

/-- What stands after the last colons between segments is the last of them. -/
theorem getLast?_of_join {front : Text} (ht : 58 ∉ t)
    (hjoin : join "::" (ss.map (·.text)) = front ++ "::" ++ t) :
    (ss.map (·.text)).getLast? = some t := by
  have hcut := cutLastAt?_colons ht front
  rcases eq_nil_or_concat ss with rfl | ⟨init, last, rfl⟩
  · simp [← hjoin, cutLastAt?, cutAt?, join] at hcut
  have hlast : 58 ∉ last.text := last.unmarked 58 (by decide)
  rw [← hjoin, concat_eq_append, map_append, map_singleton] at hcut
  by_cases hinit : init = []
  · rw [hinit, map_nil, nil_append, join_singleton, cutLastAt?_of_not_mem hlast] at hcut
    cases hcut
  · rw [join_append _ (by simpa using hinit) (cons_ne_nil _ _), join_singleton,
      cutLastAt?_colons hlast] at hcut
    simp_all

theorem names_of_segments (hss : ss ≠ [])
    (hwhole : withoutHash (trimSpace symbol) = join "::" (ss.map (·.text))) : Names symbol ss := by
  have hfree : ∀ b ∈ ofString ":./[()*<>", ∀ t ∈ ss.map (·.text), b ∉ t := by
    simpa using fun b hb s _ => s.unmarked b hb
  have hplain : withoutTypeArgs (join "::" (ss.map (·.text))) = join "::" (ss.map (·.text)) :=
    (erases_of_not_mem (not_mem_join (by decide) (hfree 91 (by decide)))).eq
  rw [← hwhole] at hplain
  rcases ss with _ | ⟨first, _ | ⟨second, rest⟩⟩
  · exact absurd rfl hss
  · -- Without colons the symbol is read like one with dots.
    refine names_of_dots hss ⟨[], by decide, by decide, .inl rfl⟩ (hplain.trans hwhole)
      (first.unmarked 58 (by decide)) (first.unmarked 47 (by decide)) ?_
    rw [splitAt_of_not_mem (first.unmarked 46 (by decide)), map_singleton,
      first.stripDecoration_text]
    rfl
  · refine names_of_colons hss (hplain.trans hwhole) (contains_iff.mpr ?_) ?_
    · rw [map_cons, map_cons, join_cons_cons]
      exact ⟨_, _, rfl⟩
    · rw [splitColons_join (by simp) (hfree 58 (by decide)), map_map]
      exact map_congr_left fun s _ => s.stripDecoration_text

theorem IsHash.mem {hash : Text} (h : IsHash hash) :
    ∀ b ∈ hash, b ∈ ofString "h0123456789abcdef" := by
  obtain ⟨digits, rfl, -, hdigits⟩ := h
  intro b hb
  rcases mem_cons.mp hb with rfl | hdigit
  · exact mem_cons_self
  · exact mem_cons_of_mem _ (hdigits b hdigit)

theorem IsHash.spaceless {hash : Text} (h : IsHash hash) : Spaceless hash := by
  have hink : ∀ b ∈ ofString "h0123456789abcdef", b < 0x80 ∧ isSpaceRune b.toNat = false := by
    decide
  have hnone : Spaceless [] := by decide
  have hne : hash ≠ [] := by
    obtain ⟨digits, rfl, -⟩ := h
    exact cons_ne_nil _ _
  simpa using hnone.append ⟨hne, fun b hb => hink b (h.mem b hb)⟩ hnone

/-- **Symbols are taken apart as they are put together.**  For every list of segments, not empty:
with double colons between them and a hash at the end, the symbol names the first segment or
the last; so it does without the hash, if the last segment does not look like one. And so does
every symbol with these segments between dots, wherever its path leads and however its segments
are wrapped and marked. -/
theorem symbols_taken_apart (hss : ss ≠ []) :
    (∀ hash, IsHash hash → Names (join "::" (ss.map (·.text)) ++ "::" ++ hash) ss) ∧
    ((∀ last, ss.getLast? = some last → ¬ IsHash last.text) →
      Names (join "::" (ss.map (·.text))) ss) ∧
    ∀ (lead : Lead) (ps : List Part), ps.map (·.segment) = ss →
      Names (lead.text ++ join "." (ps.map (·.text))) ss := by
  have hspaceless : Spaceless (join "::" (ss.map (·.text))) :=
    spaceless_join (by decide) (by simpa using fun s _ => s.spaceless)
  refine ⟨fun hash hhash => ?_, fun hlast => ?_, ?_⟩
  · refine names_of_segments hss ?_
    rw [trimSpace_of_spaceless (hspaceless.append (by decide) hhash.spaceless),
      withoutHash_append hhash]
  · refine names_of_segments hss ?_
    rw [trimSpace_of_spaceless hspaceless]
    refine withoutHash_of_not_isHash fun front hash hjoin hhash => ?_
    have hcolon : 58 ∉ hash := fun hmem => absurd (hhash.mem 58 hmem) (by decide)
    have hsame := getLast?_of_join hcolon hjoin
    rw [getLast?_map, Option.map_eq_some_iff] at hsame
    obtain ⟨last, hmem, rfl⟩ := hsame
    exact hlast last hmem hhash
  · rintro lead ps rfl
    exact names_of_parts lead (by simpa using hss)

/-- The first of these segments could be taken for a hash. -/
def puzzling : List Segment :=
  [⟨"h0123456789abcdef", by decide, by decide, by decide⟩,
    ⟨"naïve", by decide, by decide, by decide⟩]

theorem puzzling_taken_apart :
    puzzling ≠ [] ∧ (∀ last, puzzling.getLast? = some last → ¬ IsHash last.text) ∧
      Names (join "::" (puzzling.map (·.text))) puzzling := by
  have hlast : ∀ last, puzzling.getLast? = some last → ¬ IsHash last.text := by
    rintro last hequal ⟨digits, hdigits, -⟩
    cases hequal
    cases hdigits
  exact ⟨by simp [puzzling], hlast, (symbols_taken_apart (by simp [puzzling])).2.1 hlast⟩

end FaultRepair.Trace
