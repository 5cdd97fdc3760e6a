/-
# Code points and their bytes

How far a code point reaches. A byte below `0x80` is a code point of its own, and all bytes of
any other code point are at least `0x80`; so reading code points never runs over an ASCII
byte.
-/

import FaultRepair.Text.Rune
import Mathlib.Data.List.TakeDrop

namespace FaultRepair.Text

open List

variable {b : UInt8} {t : Text}

theorem le_of_cont (hb : cont b = true) : 0x80 ≤ b := by
  simp only [cont, Bool.and_eq_true, decide_eq_true_eq] at hb
  exact hb.1

theorem le_of_low {a lead low : UInt8} (hlow : 0x80 ≤ low)
    (hb : (if a == lead then low else 0x80) ≤ b) : 0x80 ≤ b := by
  refine UInt8.le_trans ?_ hb
  split
  · exact hlow
  · exact UInt8.le_refl _

/-- A code point with its width consists of bytes that are not ASCII. -/
structure Spans (t : Text) (r : Rune × Nat) : Prop where
  pos : 0 < r.2
  bytes : ∀ b ∈ t.take r.2, 0x80 ≤ b

theorem Spans.ite {r other : Rune × Nat} {whole : Bool} (hother : Spans t other)
    (hwhole : whole = true → Spans t r) : Spans t (if whole then r else other) := by
  cases whole with
  | true => exact hwhole rfl
  | false => exact hother

/-- The first code point is one ASCII byte, or it consists of bytes that are none. -/
theorem firstRune_cases (a : UInt8) (rest : Text) :
    (a < 0x80 ∧ firstRune (a :: rest) = (a.toNat, 1)) ∨ Spans (a :: rest)
    (firstRune (a :: rest)) := by
  by_cases hascii : a < 0x80
  · exact .inl ⟨hascii, by simp [firstRune, hascii]⟩
  · have ha : 0x80 ≤ a := UInt8.not_lt.mp hascii
    have hone : ∀ t, Spans (a :: t) (replacement, 1) := fun t => ⟨Nat.one_pos, by simp [ha]⟩
    refine .inr ?_
    simp only [firstRune, hascii, if_false]
    split
    · -- Two bytes.
      split
      · refine (hone _).ite fun hb => ⟨by simp, ?_⟩
        simp [ha, le_of_cont hb]
      · exact hone _
    · split
      · -- Three bytes.
        split
        · refine (hone _).ite fun hbounds => ⟨by simp, ?_⟩
          grind [le_of_cont]
        · exact hone _
      · split
        · -- Four bytes.
          split
          · refine (hone _).ite fun hbounds => ⟨by simp, ?_⟩
            grind [le_of_cont]
          · exact hone _
        · exact hone _

theorem firstRune_width_pos (ht : t ≠ []) : 0 < (firstRune t).2 := by
  obtain ⟨a, rest, rfl⟩ := exists_cons_of_ne_nil ht
  rcases firstRune_cases a rest with ⟨-, hone⟩ | hspans
  · rw [hone]
    exact Nat.one_pos
  · exact hspans.pos

/-- A code point ends before an ASCII byte. -/
theorem firstRune_width_le {s : Text} (hs : s ≠ []) (hb : b < 0x80) (t : Text) :
    (firstRune (s ++ b :: t)).2 ≤ s.length := by
  obtain ⟨a, rest, rfl⟩ := exists_cons_of_ne_nil hs
  rcases firstRune_cases a (rest ++ b :: t) with ⟨-, hone⟩ | hspans
  · rw [cons_append, hone]
    exact Nat.succ_pos _
  · have hbytes := hspans.bytes
    rw [cons_append]
    generalize (firstRune (a :: (rest ++ b :: t))).2 = width at hbytes ⊢
    by_contra hover
    refine UInt8.not_lt.mpr (hbytes b ?_) hb
    rw [← cons_append, take_append, take_of_length_le (by omega), mem_append]
    obtain ⟨more, hmore⟩ : ∃ more, width - (a :: rest).length = more + 1 :=
      Nat.exists_eq_add_one.mpr (by omega)
    rw [hmore]
    exact .inr mem_cons_self

/-! ## Whole texts -/

theorem readingsFrom_cons (fuel : Nat) (a : UInt8) (rest : Text) :
    readingsFrom (fuel + 1) (a :: rest) =
      ⟨(firstRune (a :: rest)).1, (a :: rest).take (firstRune (a :: rest)).2,
        (firstRune (a :: rest)).2 != 1 || (firstRune (a :: rest)).1 != replacement⟩ ::
        readingsFrom fuel ((a :: rest).drop (firstRune (a :: rest)).2) := rfl

/-- Fuel that is enough gives the same readings. -/
theorem readingsFrom_eq {fuel : Nat} (hfuel : t.length ≤ fuel) :
    readingsFrom fuel t = readings t := by
  suffices h : ∀ (more : Nat) (t : Text) (fuel : Nat), t.length ≤ fuel →
      readingsFrom (fuel + more) t = readingsFrom fuel t by
    obtain ⟨more, rfl⟩ := Nat.exists_eq_add_of_le hfuel
    exact h more t t.length (Nat.le_refl _)
  intro more t fuel hfuel
  induction fuel generalizing t with
  | zero =>
    rw [length_eq_zero_iff.mp (Nat.le_zero.mp hfuel)]
    cases more <;> rfl
  | succ fuel ih =>
    cases t with
    | nil => rw [Nat.add_right_comm]; rfl
    | cons a rest => grind [firstRune_width_pos, readingsFrom_cons]

theorem length_drop_firstRune (a : UInt8) (rest : Text) :
    ((a :: rest).drop (firstRune (a :: rest)).2).length ≤ rest.length := by
  have hpos := firstRune_width_pos (cons_ne_nil a rest)
  rw [length_drop, length_cons]
  omega

theorem readings_cons (a : UInt8) (rest : Text) :
    readings (a :: rest) =
      ⟨(firstRune (a :: rest)).1, (a :: rest).take (firstRune (a :: rest)).2,
        (firstRune (a :: rest)).2 != 1 || (firstRune (a :: rest)).1 != replacement⟩ ::
        readings ((a :: rest).drop (firstRune (a :: rest)).2) := by
  rw [readings, length_cons, readingsFrom_cons, readingsFrom_eq (length_drop_firstRune a rest)]

/-- A text is read one code point after the other. -/
@[elab_as_elim]
theorem reading_induction {P : Text → Prop} (nil : P [])
    (cons : ∀ a rest, P ((a :: rest).drop (firstRune (a :: rest)).2) → P (a :: rest)) (t : Text) :
    P t := by
  induction hn : t.length using Nat.strongRecOn generalizing t with
  | ind n ih =>
    cases t with
    | nil => exact nil
    | cons a rest => grind [length_drop_firstRune]

theorem exists_reading (hmem : b ∈ t) (hb : b < 0x80) :
    ∃ g ∈ readings t, g.rune = b.toNat ∧ g.raw ≠ [] := by
  induction t using reading_induction with
  | nil => cases hmem
  | cons a rest ih =>
    rw [readings_cons]
    by_cases hdrop : b ∈ (a :: rest).drop (firstRune (a :: rest)).2
    · obtain ⟨g, hg, hread⟩ := ih hdrop
      exact ⟨g, mem_cons_of_mem _ hg, hread⟩
    · have htake : b ∈ (a :: rest).take (firstRune (a :: rest)).2 := by
        rw [← take_append_drop (firstRune (a :: rest)).2 (a :: rest), mem_append] at hmem
        exact hmem.resolve_right hdrop
      refine ⟨_, mem_cons_self, ?_⟩
      rcases firstRune_cases a rest with ⟨-, hone⟩ | hspans
      · grind
      · exact absurd hb (UInt8.not_lt.mpr (hspans.bytes b htake))

/-- Nothing of a text is lost when it is read. -/
theorem flatten_raw_readings (t : Text) : ((readings t).map (·.raw)).flatten = t := by
  induction t using reading_induction with
  | nil => rfl
  | cons a rest ih => rw [readings_cons, map_cons, flatten_cons, ih, take_append_drop]

theorem mem_dropSpaces {gs : List Reading} {g : Reading} (hg : g ∈ gs)
    (hink : isSpaceRune g.rune = false) : g ∈ dropSpaces gs := by
  induction gs with
  | nil => cases hg
  | cons first rest ih =>
    rw [dropSpaces, dropWhile_cons]
    split
    · rename_i hspace
      rcases mem_cons.mp hg with rfl | hrest
      · rw [hink] at hspace
        cases hspace
      · exact ih hrest
    · exact hg

/-- Trimming leaves something of a text that has an ASCII byte which is no white space. -/
theorem trimSpace_ne_nil (hmem : b ∈ t) (hb : b < 0x80) (hink : isSpaceRune b.toNat = false) :
    trimSpace t ≠ [] := by
  obtain ⟨g, hg, hrune, hraw⟩ := exists_reading hmem hb
  rw [← hrune] at hink
  have hkept : g ∈ (dropSpaces (dropSpaces (readings t)).reverse).reverse :=
    mem_reverse.mpr (mem_dropSpaces (mem_reverse.mpr (mem_dropSpaces hg hink)) hink)
  intro hnone
  exact hraw (flatten_eq_nil_iff.mp hnone _ (mem_map_of_mem hkept))

end FaultRepair.Text
