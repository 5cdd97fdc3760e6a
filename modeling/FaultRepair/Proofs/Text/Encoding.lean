/-
# Well-formed text

Code points and their bytes are two forms of one text. Writing code points and reading them
again gives the same code points, and reading well-formed bytes and writing them again gives the
same bytes.
-/

import FaultRepair.Proofs.Text.Runes

namespace FaultRepair.Text

open List

variable {bytes t : Text} {rs : List Rune} {r : Nat} {b a high low : UInt8}

/-- A number that is a code point and no surrogate. -/
def IsScalar (r : Nat) : Prop := r < 0xD800 ∨ (0xE000 ≤ r ∧ r ≤ 0x10FFFF)

instance (r : Nat) : Decidable (IsScalar r) := inferInstanceAs (Decidable (_ ∨ _))

/-! ## One code point -/

/-- The bytes of a code point, by their number. -/
inductive Encoded : Text → Nat → Prop where
  | one {a : UInt8} (ha : a.toNat < 0x80) : Encoded [a] a.toNat
  | two {a b : UInt8} (ha : 0xC2 ≤ a.toNat ∧ a.toNat ≤ 0xDF)
    (hb : 0x80 ≤ b.toNat ∧ b.toNat ≤ 0xBF) :
      Encoded [a, b] ((a.toNat - 0xC0) * 64 + (b.toNat - 0x80))
  | three {a b c : UInt8} (ha : 0xE0 ≤ a.toNat ∧ a.toNat ≤ 0xEF)
      (hb : 0x80 ≤ b.toNat ∧ b.toNat ≤ 0xBF) (hlow : a.toNat = 0xE0 → 0xA0 ≤ b.toNat)
      (hhigh : a.toNat = 0xED → b.toNat ≤ 0x9F) (hc : 0x80 ≤ c.toNat ∧ c.toNat ≤ 0xBF) :
      Encoded [a, b, c] ((a.toNat - 0xE0) * 4096 + (b.toNat - 0x80) * 64 + (c.toNat - 0x80))
  | four {a b c d : UInt8} (ha : 0xF0 ≤ a.toNat ∧ a.toNat ≤ 0xF4)
      (hb : 0x80 ≤ b.toNat ∧ b.toNat ≤ 0xBF) (hlow : a.toNat = 0xF0 → 0x90 ≤ b.toNat)
      (hhigh : a.toNat = 0xF4 → b.toNat ≤ 0x8F) (hc : 0x80 ≤ c.toNat ∧ c.toNat ≤ 0xBF)
      (hd : 0x80 ≤ d.toNat ∧ d.toNat ≤ 0xBF) :
      Encoded [a, b, c, d] ((a.toNat - 0xF0) * 262144 + (b.toNat - 0x80) * 4096 +
        (c.toNat - 0x80) * 64 + (d.toNat - 0x80))

theorem cont_iff : cont b = true ↔ 0x80 ≤ b.toNat ∧ b.toNat ≤ 0xBF := by
  simp [cont, UInt8.le_iff_toNat_le]

theorem lead_iff : (low ≤ a && a ≤ high) = true ↔ low.toNat ≤ a.toNat ∧ a.toNat ≤ high.toNat := by
  simp [UInt8.le_iff_toNat_le]

theorem toNat_ite (a lead x y : UInt8) :
    (if a == lead then x else y).toNat = if a.toNat = lead.toNat then x.toNat else y.toNat := by
  by_cases h : a = lead
  · simp [h]
  · simp [h, UInt8.toNat_inj]

/-- The bounds of a second byte that depend on the first. -/
theorem second_iff {lead lead' : UInt8} (hlow : 0x80 ≤ low.toNat) (hhigh : high.toNat ≤ 0xBF) :
    ((if a == lead then low else 0x80) ≤ b && b ≤ (if a == lead' then high else 0xBF)) = true ↔
      (0x80 ≤ b.toNat ∧ b.toNat ≤ 0xBF) ∧ (a.toNat = lead.toNat → low.toNat ≤ b.toNat) ∧
        (a.toNat = lead'.toNat → b.toNat ≤ high.toNat) := by
  have hleast : (0x80 : UInt8).toNat = 0x80 := rfl
  have hmost : (0xBF : UInt8).toNat = 0xBF := rfl
  rw [lead_iff, toNat_ite, toNat_ite, hleast, hmost]
  split_ifs <;> omega

theorem not_one (ha : 0x80 ≤ a.toNat) : ¬a < 0x80 := by
  rw [UInt8.lt_iff_toNat_lt]
  exact Nat.not_lt.mpr ha

theorem not_lead (ha : high.toNat < a.toNat) : (low ≤ a && a ≤ high) = false := by
  rw [Bool.eq_false_iff, Ne, lead_iff]
  omega

theorem Encoded.firstRune (h : Encoded bytes r) (rest : Text) :
    firstRune (bytes ++ rest) = (r, bytes.length) := by
  cases h with
  | @one a ha =>
    have hlow : a < 0x80 := UInt8.lt_iff_toNat_lt.mpr ha
    simp [Text.firstRune, hlow]
  | @two a b ha hb =>
    have hone : ¬a < 0x80 := not_one (by omega)
    have hlead : (0xC2 ≤ a && a ≤ 0xDF) = true := lead_iff.mpr ha
    simp [Text.firstRune, hone, hlead, cont_iff.mpr hb]
  | @three a b c ha hb hlow hhigh hc =>
    have hone : ¬a < 0x80 := not_one (by omega)
    have htwo : (0xC2 ≤ a && a ≤ 0xDF) = false := not_lead (by simp; omega)
    have hlead : (0xE0 ≤ a && a ≤ 0xEF) = true := lead_iff.mpr ha
    have hsecond : ((if a == 0xE0 then 0xA0 else 0x80) ≤ b &&
        b ≤ (if a == 0xED then 0x9F else 0xBF)) = true :=
      (second_iff (by decide) (by decide)).mpr ⟨hb, hlow, hhigh⟩
    simp only [Text.firstRune, cons_append, nil_append, hone, if_false, htwo, hlead,
      hsecond, cont_iff.mpr hc, Bool.and_self, if_true, Bool.false_eq_true]
    rfl
  | @four a b c d ha hb hlow hhigh hc hd =>
    have hone : ¬a < 0x80 := not_one (by omega)
    have htwo : (0xC2 ≤ a && a ≤ 0xDF) = false := not_lead (by simp; omega)
    have hthree : (0xE0 ≤ a && a ≤ 0xEF) = false := not_lead (by simp; omega)
    have hlead : (0xF0 ≤ a && a ≤ 0xF4) = true := lead_iff.mpr ha
    have hsecond : ((if a == 0xF0 then 0x90 else 0x80) ≤ b &&
        b ≤ (if a == 0xF4 then 0x8F else 0xBF)) = true :=
      (second_iff (by decide) (by decide)).mpr ⟨hb, hlow, hhigh⟩
    simp only [Text.firstRune, cons_append, nil_append, hone, if_false, htwo, hthree,
      hlead, hsecond, cont_iff.mpr hc, cont_iff.mpr hd, Bool.and_self, if_true,
      Bool.false_eq_true]
    rfl

/-- A code point that is read from well-formed bytes. -/
theorem encoded_of_firstRune (ht : t ≠ [])
    (hvalid : (Text.firstRune t).2 ≠ 1 ∨ (Text.firstRune t).1 ≠ replacement) :
    Encoded (t.take (Text.firstRune t).2) (Text.firstRune t).1 := by
  obtain ⟨a, rest, rfl⟩ := exists_cons_of_ne_nil ht
  by_cases hone : a < 0x80
  · have hfirst : Text.firstRune (a :: rest) = (a.toNat, 1) := by simp [Text.firstRune, hone]
    rw [hfirst]
    exact .one (UInt8.lt_iff_toNat_lt.mp hone)
  simp only [Text.firstRune, hone, if_false] at hvalid ⊢
  split at hvalid
  · rename_i hlead
    rw [if_pos hlead]
    cases rest with
    | nil => simp at hvalid
    | cons b more =>
      by_cases hb : cont b = true
      · simp only [hb, if_true]
        exact .two (lead_iff.mp hlead) (cont_iff.mp hb)
      · simp [hb] at hvalid
  rename_i htwo
  rw [if_neg htwo]
  split at hvalid
  · rename_i hlead
    rw [if_pos hlead]
    rcases rest with _ | ⟨b, _ | ⟨c, more⟩⟩
    · simp at hvalid
    · simp at hvalid
    · by_cases hbytes : ((if a == 0xE0 then 0xA0 else 0x80) ≤ b &&
          b ≤ (if a == 0xED then 0x9F else 0xBF) && cont c) = true
      · simp only [hbytes, if_true]
        obtain ⟨hsecond, hc⟩ := Bool.and_eq_true_iff.mp hbytes
        obtain ⟨hb, hlow, hhigh⟩ := (second_iff (by decide) (by decide)).mp hsecond
        exact .three (lead_iff.mp hlead) hb hlow hhigh (cont_iff.mp hc)
      · simp only [hbytes] at hvalid
        simp at hvalid
  rename_i hthree
  rw [if_neg hthree]
  split at hvalid
  · rename_i hlead
    rw [if_pos hlead]
    rcases rest with _ | ⟨b, _ | ⟨c, _ | ⟨d, more⟩⟩⟩
    · simp at hvalid
    · simp at hvalid
    · simp at hvalid
    · by_cases hbytes : ((if a == 0xF0 then 0x90 else 0x80) ≤ b &&
          b ≤ (if a == 0xF4 then 0x8F else 0xBF) && cont c && cont d) = true
      · simp only [hbytes, if_true]
        obtain ⟨hbytes, hd⟩ := Bool.and_eq_true_iff.mp hbytes
        obtain ⟨hsecond, hc⟩ := Bool.and_eq_true_iff.mp hbytes
        obtain ⟨hb, hlow, hhigh⟩ := (second_iff (by decide) (by decide)).mp hsecond
        exact .four (lead_iff.mp hlead) hb hlow hhigh (cont_iff.mp hc) (cont_iff.mp hd)
      · simp only [hbytes] at hvalid
        simp at hvalid
  · simp at hvalid

theorem toNat_toUInt8 {n : Nat} (hn : n < 256) : n.toUInt8.toNat = n := by
  simp [Nat.toUInt8, UInt8.toNat_ofNat', Nat.mod_eq_of_lt hn]

theorem Encoded.isScalar (h : Encoded bytes r) : IsScalar r := by
  rw [IsScalar]
  cases h <;> omega

theorem toUInt8_eq {n : Nat} (h : n = b.toNat) : n.toUInt8 = b := by
  simp [h]

theorem not_surrogate (hr : IsScalar r) : ¬((0xD800 ≤ r && r < 0xE000) || maxRune < r) = true := by
  rw [IsScalar] at hr
  simp only [Bool.or_eq_true, Bool.and_eq_true, decide_eq_true_eq]
  rintro (⟨hlow, hhigh⟩ | hmax)
  · omega
  · exact absurd (show 0x10FFFF < r from hmax) (by omega)

theorem Encoded.ofRune_eq (h : Encoded bytes r) : ofRune r = bytes := by
  have hscalar := not_surrogate h.isScalar
  cases h with
  | @one a ha => rw [ofRune, if_pos ha, Nat.toUInt8_eq, UInt8.ofNat_toNat]
  | @two a b ha hb =>
    generalize hr : (a.toNat - 0xC0) * 64 + (b.toNat - 0x80) = r at hscalar ⊢
    grind [ofRune, toUInt8_eq]
  | @three a b c ha hb hlow hhigh hc =>
    generalize hr : (a.toNat - 0xE0) * 4096 + (b.toNat - 0x80) * 64 + (c.toNat - 0x80) = r
      at hscalar ⊢
    grind [ofRune, toUInt8_eq]
  | @four a b c d ha hb hlow hhigh hc hd =>
    generalize hr : (a.toNat - 0xF0) * 262144 + (b.toNat - 0x80) * 4096 +
      (c.toNat - 0x80) * 64 + (d.toNat - 0x80) = r at hscalar ⊢
    rw [ofRune, if_neg (show ¬r < 0x80 by omega), if_neg (show ¬r < 0x800 by omega),
      if_neg hscalar, if_neg (show ¬r < 0x10000 by omega),
      toUInt8_eq (show 0xF0 + r / 262144 = a.toNat by omega),
      toUInt8_eq (show 0x80 + r / 4096 % 64 = b.toNat by omega),
      toUInt8_eq (show 0x80 + r / 64 % 64 = c.toNat by omega),
      toUInt8_eq (show 0x80 + r % 64 = d.toNat by omega)]

theorem encoded_ofRune (hr : IsScalar r) : Encoded (ofRune r) r := by
  have hscalar := not_surrogate hr
  rw [IsScalar] at hr
  by_cases hone : r < 0x80
  · rw [ofRune, if_pos hone]
    have ha := toNat_toUInt8 (show r < 256 by omega)
    have hcode : Encoded [r.toUInt8] r.toUInt8.toNat := .one (by omega)
    rwa [ha] at hcode
  rw [ofRune, if_neg hone]
  by_cases htwo : r < 0x800
  · rw [if_pos htwo]
    have ha := toNat_toUInt8 (show 0xC0 + r / 64 < 256 by omega)
    have hb := toNat_toUInt8 (show 0x80 + r % 64 < 256 by omega)
    have hcode := Encoded.two (a := (0xC0 + r / 64).toUInt8) (b := (0x80 + r % 64).toUInt8)
      (by omega) (by omega)
    rw [ha, hb] at hcode
    convert hcode using 1
    omega
  rw [if_neg htwo, if_neg hscalar]
  by_cases hthree : r < 0x10000
  · rw [if_pos hthree]
    have ha := toNat_toUInt8 (show 0xE0 + r / 4096 < 256 by omega)
    have hb := toNat_toUInt8 (show 0x80 + r / 64 % 64 < 256 by omega)
    have hc := toNat_toUInt8 (show 0x80 + r % 64 < 256 by omega)
    have hcode := Encoded.three (a := (0xE0 + r / 4096).toUInt8) (b := (0x80 + r / 64 % 64).toUInt8)
      (c := (0x80 + r % 64).toUInt8) (by omega) (by omega) (by omega) (by omega) (by omega)
    rw [ha, hb, hc] at hcode
    convert hcode using 1
    omega
  · rw [if_neg hthree]
    have ha := toNat_toUInt8 (show 0xF0 + r / 262144 < 256 by omega)
    have hb := toNat_toUInt8 (show 0x80 + r / 4096 % 64 < 256 by omega)
    have hc := toNat_toUInt8 (show 0x80 + r / 64 % 64 < 256 by omega)
    have hd := toNat_toUInt8 (show 0x80 + r % 64 < 256 by omega)
    have hcode := Encoded.four (a := (0xF0 + r / 262144).toUInt8)
      (b := (0x80 + r / 4096 % 64).toUInt8) (c := (0x80 + r / 64 % 64).toUInt8)
      (d := (0x80 + r % 64).toUInt8) (by omega) (by omega) (by omega) (by omega) (by omega)
        (by omega)
    rw [ha, hb, hc, hd] at hcode
    convert hcode using 1
    omega

/-! ## Whole texts -/

/-- The first code point of well-formed bytes, and what follows. -/
theorem Encoded.readings_append (h : Encoded bytes r) (t : Text) :
    readings (bytes ++ t) = ⟨r, bytes, true⟩ :: readings t := by
  have hfirst := h.firstRune t
  have hvalid : (bytes.length != 1 || r != replacement) = true := by
    cases h <;> simp
    rename_i a ha
    show ¬a.toNat = 0xFFFD
    omega
  obtain ⟨a, rest, hbytes⟩ : ∃ a rest, bytes ++ t = a :: rest := by
    cases h <;> exact ⟨_, _, rfl⟩
  rw [hbytes] at hfirst
  rw [hbytes, readings_cons, hfirst, hvalid, ← hbytes, take_left, drop_left]

theorem readings_ofRunes (hrs : ∀ r ∈ rs, IsScalar r) :
    readings (rs.flatMap ofRune) = rs.map fun r => ⟨r, ofRune r, true⟩ := by
  induction rs with
  | nil => rfl
  | cons r rest ih =>
    rw [flatMap_cons, (encoded_ofRune (hrs r mem_cons_self)).readings_append,
      ih fun r' hr' => hrs r' (mem_cons_of_mem r hr'), map_cons]

theorem runes_ofRunes (hrs : ∀ r ∈ rs, IsScalar r) : runes (rs.flatMap ofRune) = rs := by
  rw [runes, readings_ofRunes hrs, map_map]
  exact map_id rs

theorem isUtf8_ofRunes (hrs : ∀ r ∈ rs, IsScalar r) : isUtf8 (rs.flatMap ofRune) = true := by
  rw [isUtf8, readings_ofRunes hrs]
  simp

/-- Well-formed bytes are those of the code points that are read from them. -/
theorem ofRunes_runes (ht : isUtf8 t = true) :
    (runes t).flatMap ofRune = t ∧ ∀ r ∈ runes t, IsScalar r := by
  induction t using reading_induction with
  | nil => exact ⟨rfl, fun r hr => by cases hr⟩
  | cons a rest ih =>
    rw [isUtf8, readings_cons, all_cons, Bool.and_eq_true] at ht
    have hcode := encoded_of_firstRune (cons_ne_nil a rest) (by simpa using ht.1)
    obtain ⟨hbytes, hscalar⟩ := ih ht.2
    rw [runes, readings_cons, map_cons]
    constructor
    · rw [flatMap_cons, hcode.ofRune_eq]
      exact (congrArg _ hbytes).trans (take_append_drop _ _)
    · intro r hr
      rcases mem_cons.mp hr with rfl | hrest
      · exact hcode.isScalar
      · exact hscalar r hrest

theorem Encoded.mem_iff (h : Encoded bytes r) (hb : b < 0x80) : b ∈ bytes ↔ r = b.toNat := by
  have hlow : b.toNat < 0x80 := UInt8.lt_iff_toNat_lt.mp hb
  have hother : ∀ {c : UInt8}, 0x80 ≤ c.toNat → b ≠ c := by
    rintro c hc rfl
    omega
  cases h with
  | @one a ha => simp [eq_comm, UInt8.toNat_inj]
  | two ha hc => grind
  | three ha hc hleast hmost hd => grind
  | four ha hc hleast hmost hd he => grind

theorem mem_ofRunes_iff (hrs : ∀ r ∈ rs, IsScalar r) (hb : b < 0x80) :
    b ∈ rs.flatMap ofRune ↔ b.toNat ∈ rs := by
  rw [mem_flatMap]
  constructor
  · rintro ⟨r, hr, hmem⟩
    rwa [← ((encoded_ofRune (hrs r hr)).mem_iff hb).mp hmem]
  · intro hmem
    exact ⟨b.toNat, hmem, ((encoded_ofRune (hrs _ hmem)).mem_iff hb).mpr rfl⟩

/-! ## Bytes that are code points -/

/-- Below 128 a byte is a code point of its own. -/
theorem ofRunes_ascii (ht : ∀ b ∈ t, b < 0x80) :
    (t.map UInt8.toNat).flatMap ofRune = t ∧ ∀ r ∈ t.map UInt8.toNat, IsScalar r := by
  induction t with
  | nil => exact ⟨rfl, by simp⟩
  | cons b t ih =>
    have hb : b.toNat < 0x80 := UInt8.lt_iff_toNat_lt.mp (ht b mem_cons_self)
    obtain ⟨hbytes, hscalar⟩ := ih fun b' hb' => ht b' (mem_cons_of_mem b hb')
    constructor
    · rw [map_cons, flatMap_cons, hbytes, ofRune, if_pos hb, Nat.toUInt8_eq, UInt8.ofNat_toNat]
      rfl
    · intro r hr
      rcases mem_cons.mp hr with rfl | hr
      · exact .inl (Nat.lt_trans hb (by decide))
      · exact hscalar r hr

theorem runes_ascii (ht : ∀ b ∈ t, b < 0x80) : runes t = t.map UInt8.toNat ∧ isUtf8 t = true := by
  obtain ⟨hbytes, hscalar⟩ := ofRunes_ascii ht
  have hrunes := runes_ofRunes hscalar
  have hutf8 := isUtf8_ofRunes hscalar
  rw [hbytes] at hrunes hutf8
  exact ⟨hrunes, hutf8⟩

end FaultRepair.Text
