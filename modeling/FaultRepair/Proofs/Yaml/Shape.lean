/-
# The shape of a text, place by place

The flags of a shape are gathered in one pass over the text. Each of them says that some place
of the text has a property of its own and of its neighbours, so a shape that allows a style says
that every place does.
-/

import FaultRepair.Yaml.Writer
import Mathlib.Data.Bool.Basic

namespace FaultRepair.Yaml

open Text (Rune)

/-! ## Every place -/

namespace Shape

theorem plainAllowed_or (a b : Shape) :
    (a.or b).plainAllowed = (a.plainAllowed && b.plainAllowed) := by
  simp only [plainAllowed, or, Bool.not_or]
  ac_rfl

theorem singleAllowed_or (a b : Shape) :
    (a.or b).singleAllowed = (a.singleAllowed && b.singleAllowed) := by
  simp only [singleAllowed, or, Bool.not_or]
  ac_rfl

theorem blockAllowed_or (a b : Shape) :
    (a.or b).blockAllowed = (a.blockAllowed && b.blockAllowed) := by
  simp only [blockAllowed, or, Bool.not_or]
  ac_rfl

end Shape

variable {p : Bool → Option Rune → Rune → List Rune → Prop} {before : Option Rune} {first : Bool}
  {rs rest : List Rune} {r : Rune}

/-- Every character of a text has a property at its place. -/
def Everywhere (p : Bool → Option Rune → Rune → List Rune → Prop) :
    Bool → Option Rune → List Rune → Prop
  | _, _, [] => True
  | first, before, r :: rest => p first before r rest ∧ Everywhere p false (some r) rest

/-- A property that does not look at the place. -/
theorem Everywhere.forall_mem {q : Rune → Prop}
    (hpq : ∀ first before r rest, p first before r rest → q r) (h : Everywhere p first before rs) :
    ∀ r ∈ rs, q r := by
  induction rs generalizing first before with
  | nil => simp
  | cons r rest ih =>
    intro r' hr'
    rcases List.mem_cons.mp hr' with rfl | hrest
    · exact hpq _ _ _ _ h.1
    · exact ih h.2 r' hrest

theorem Everywhere.of_append {front back : List Rune}
    (h : Everywhere p first before (front ++ back)) :
    Everywhere p (first && front.isEmpty) (front.getLast?.or before) back := by
  induction front generalizing first before with
  | nil => simpa using h
  | cons f front ih =>
    have htail := ih h.2
    grind

/-- A style is allowed if it is at every place. -/
theorem allowed_shapeFrom {allowed : Shape → Bool}
    (hor : ∀ a b : Shape, allowed (a.or b) = (allowed a && allowed b)) (first : Bool)
    (before : Option Rune) (s : Shape) (rs : List Rune) :
    allowed (shapeFrom first before s rs) = true ↔ allowed s = true ∧
      Everywhere (fun first before r rest => allowed (shapeAt first before r rest) = true) first
        before rs := by
  induction rs generalizing first before s with
  | nil => simp [shapeFrom, Everywhere]
  | cons r rest ih => rw [shapeFrom, ih, hor, Bool.and_eq_true, and_assoc, Everywhere]

/-! ## Styles -/

/-- A character that can stand at its place without quotes. -/
structure PlainAt (first : Bool) (before : Option Rune) (r : Rune) (rest : List Rune) : Prop where
  indicator : isIndicator r first (spacedAfter before) (followedBy rest) = false
  printable : isPrintable r = true
  inLine : isBreak r = false
  notFirst : r = 32 → first = false
  notLast : r = 32 → rest ≠ []
  notAfterBreak : r = 32 → (before.map isBreak).getD false = false

/-- A character that can stand at its place in single quotes. -/
structure SingleAt (_first : Bool) (before : Option Rune) (r : Rune) (_rest : List Rune) :
    Prop where
  printable : isPrintable r = true
  notAfterBreak : r = 32 → (before.map isBreak).getD false = false
  notAfterSpace : isBreak r = true → before ≠ some 32

/-- A character that can stand at its place in a literal block. -/
structure BlockAt (_first : Bool) (before : Option Rune) (r : Rune) (rest : List Rune) : Prop where
  allowed : r = 9 ∨ isPrintable r = true
  notLast : r = 32 → rest ≠ []
  notAfterSpace : isBreak r = true → before ≠ some 32

theorem printable_iff :
    (r == 9) = false ∧ (r != 9 && !isPrintable r) = false ↔ isPrintable r = true := by
  by_cases htab : r = 9
  · subst htab
    simp [isPrintable]
  · simp [htab]

theorem plainAllowed_shapeAt :
    (shapeAt first before r rest).plainAllowed = true ↔ PlainAt first before r rest := by
  have hprintable := @printable_iff r
  constructor
  · intro h
    simp only [Shape.plainAllowed, shapeAt, Bool.not_eq_true', Bool.or_eq_false_iff] at h
    obtain ⟨⟨⟨⟨⟨⟨⟨⟨⟨hfirst, -⟩, hlast⟩, -⟩, hafter⟩, -⟩, htab⟩, hspecial⟩, hbreak⟩, hindicator⟩ := h
    refine ⟨hindicator, hprintable.mp ⟨htab, hspecial⟩, hbreak, ?_, ?_, ?_⟩ <;> rintro rfl
    · simpa using hfirst
    · simpa using hlast
    · simpa using hafter
  · rintro ⟨hindicator, hprint, hbreak, hfirst, hlast, hafter⟩
    grind [Shape.plainAllowed, shapeAt]

theorem singleAllowed_shapeAt :
    (shapeAt first before r rest).singleAllowed = true ↔ SingleAt first before r rest := by
  have hprintable := @printable_iff r
  constructor
  · intro h
    simp only [Shape.singleAllowed, shapeAt, Bool.not_eq_true', Bool.or_eq_false_iff] at h
    obtain ⟨⟨⟨hafter, hspace⟩, htab⟩, hspecial⟩ := h
    refine ⟨hprintable.mp ⟨htab, hspecial⟩, ?_, ?_⟩
    · rintro rfl
      simpa using hafter
    · intro hbreak
      simpa [hbreak] using hspace
  · rintro ⟨hprint, hafter, hspace⟩
    grind [Shape.singleAllowed, shapeAt]

theorem blockAllowed_shapeAt :
    (shapeAt first before r rest).blockAllowed = true ↔ BlockAt first before r rest := by
  constructor
  · intro h
    simp only [Shape.blockAllowed, shapeAt, Bool.not_eq_true', Bool.or_eq_false_iff] at h
    obtain ⟨⟨hlast, hspace⟩, hspecial⟩ := h
    refine ⟨?_, ?_, ?_⟩
    · grind
    · rintro rfl
      simpa using hlast
    · intro hbreak
      simpa [hbreak] using hspace
  · rintro ⟨hallowed, hlast, hspace⟩
    grind [Shape.blockAllowed, shapeAt]

theorem everywhere_congr {q : Bool → Option Rune → Rune → List Rune → Prop}
    (hpq : ∀ first before r rest, p first before r rest ↔ q first before r rest) :
    Everywhere p = Everywhere q := by
  have : p = q := by
    funext first before r rest
    exact propext (hpq first before r rest)
  rw [this]

theorem plainAllowed_shapeOf :
    (shapeOf rs).plainAllowed = true ↔
      (rs.take 3 == [45, 45, 45] || rs.take 3 == [46, 46, 46]) = false ∧
        Everywhere PlainAt true none rs := by
  rw [shapeOf, allowed_shapeFrom Shape.plainAllowed_or,
    everywhere_congr fun _ _ _ _ => plainAllowed_shapeAt]
  simp [Shape.plainAllowed]

theorem singleAllowed_shapeOf :
    (shapeOf rs).singleAllowed = true ↔ Everywhere SingleAt true none rs := by
  rw [shapeOf, allowed_shapeFrom Shape.singleAllowed_or,
    everywhere_congr fun _ _ _ _ => singleAllowed_shapeAt]
  simp [Shape.singleAllowed]

theorem blockAllowed_shapeOf :
    (shapeOf rs).blockAllowed = true ↔ Everywhere BlockAt true none rs := by
  rw [shapeOf, allowed_shapeFrom Shape.blockAllowed_or,
    everywhere_congr fun _ _ _ _ => blockAllowed_shapeAt]
  simp [Shape.blockAllowed]

end FaultRepair.Yaml
