/-
# Cutting and joining texts

What the operations that take a text apart say about the text: a lead that was dropped was
there, a text occurs exactly when it stands somewhere as a whole, and the pieces between
separators are those that were joined.
-/

import FaultRepair.Text.Basic
import Mathlib.Data.List.Infix

namespace FaultRepair.Text

open List Option

/-! ## Leads and occurrences -/

@[simp]
theorem dropLead?_append (lead t : Text) : dropLead? lead (lead ++ t) = some t := by
  induction lead with
  | nil => rw [nil_append, dropLead?]
  | cons b lead ih => simpa [dropLead?] using ih

theorem dropLead?_eq_some_iff {lead t rest : Text} :
    dropLead? lead t = some rest ↔ t = lead ++ rest := by
  constructor
  · intro h
    induction lead generalizing t with
    | nil => simpa [dropLead?] using h
    | cons b lead ih =>
      cases t with
      | nil => simp [dropLead?] at h
      | cons c t => grind [dropLead?]
  · rintro rfl
    exact dropLead?_append lead rest

theorem dropLead?_isSome_iff {lead t : Text} : (dropLead? lead t).isSome ↔ lead <+: t := by
  rw [isSome_iff_exists]
  exact exists_congr fun rest => dropLead?_eq_some_iff.trans eq_comm

theorem eq_of_cut? {sep t before after : Text} (h : cut? sep t = some (before, after)) :
    t = before ++ sep ++ after := by
  induction t generalizing before with
  | nil => grind [cut?]
  | cons b t ih =>
    rw [cut?] at h
    split at h
    · rename_i rest hlead
      cases h
      simpa using dropLead?_eq_some_iff.mp hlead
    · obtain ⟨⟨left, right⟩, hcut, hequal⟩ := map_eq_some_iff.mp h
      cases hequal
      rw [ih hcut]
      simp

/-- What follows a cut does not decide where the cut is. -/
theorem cut?_append {sep t before after : Text} (hsep : sep ≠ [])
    (h : cut? sep t = some (before, after)) (other : Text) :
      cut? sep (before ++ sep ++ other) = some (before, other) := by
  induction t generalizing before with
  | nil =>
    rw [cut?, if_neg (by simpa using hsep)] at h
    cases h
  | cons b t ih =>
    rw [cut?] at h
    split at h
    · cases h
      obtain ⟨first, rest, rfl⟩ := exists_cons_of_ne_nil hsep
      grind [dropLead?_append, cut?]
    · rename_i hnone
      obtain ⟨⟨front, after'⟩, hcut, hequal⟩ := map_eq_some_iff.mp h
      cases hequal
      have hlead : dropLead? sep (b :: (front ++ sep ++ other)) = none := by
        -- A separator this early would stand before what follows, and so in the text too.
        rw [← not_isSome_iff_eq_none, dropLead?_isSome_iff]
        intro hstarts
        have hearly : sep <+: b :: (front ++ sep) :=
          prefix_of_prefix_length_le hstarts (prefix_append (b :: (front ++ sep)) other)
            (by simp; omega)
        have htext : sep <+: b :: t := by
          rw [eq_of_cut? hcut]
          exact hearly.trans (prefix_append (b :: (front ++ sep)) after)
        rw [← dropLead?_isSome_iff, hnone] at htext
        cases htext
      rw [cons_append, cons_append, cut?, hlead, ih hcut, map_some]

/-- A text occurs in another exactly where it stands as a whole. -/
theorem contains_iff {t sub : Text} : contains t sub = true ↔ sub <:+: t := by
  rw [contains]
  constructor
  · intro h
    obtain ⟨⟨before, after⟩, hcut⟩ := isSome_iff_exists.mp h
    exact ⟨before, after, (eq_of_cut? hcut).symm⟩
  · intro h
    induction t with
    | nil => simp [cut?, infix_nil.mp h]
    | cons b t ih =>
      rw [cut?]
      split
      · rfl
      · rename_i hlead
        rcases infix_cons_iff.mp h with hstarts | hrest
        · rw [← dropLead?_isSome_iff, hlead] at hstarts
          cases hstarts
        · simpa using ih hrest

/-! ## Pieces between separators -/

variable {sep : UInt8}

theorem splitAt_ne_nil (sep : UInt8) (t : Text) : splitAt sep t ≠ [] := by
  cases t with
  | nil => simp [splitAt]
  | cons b t =>
    rw [splitAt]
    split
    · simp
    · split <;> simp

theorem splitAt_append_sep (sep : UInt8) (s t : Text) :
    splitAt sep (s ++ sep :: t) = splitAt sep s ++ splitAt sep t := by
  induction s with
  | nil => simp [splitAt]
  | cons b s ih => grind [splitAt, splitAt_ne_nil]

/-- The last piece of a text is that of what follows a separator. -/
theorem getLast?_splitAt_append (sep : UInt8) (s t : Text) :
    (splitAt sep (s ++ sep :: t)).getLast? = (splitAt sep t).getLast? := by
  rw [splitAt_append_sep, getLast?_append_of_ne_nil _ (splitAt_ne_nil sep t)]

theorem splitAt_of_not_mem {t : Text} (h : sep ∉ t) : splitAt sep t = [t] := by
  induction t with
  | nil => rfl
  | cons b t ih =>
    rw [mem_cons, not_or] at h
    rw [splitAt, ih h.2, if_neg]
    simpa using Ne.symm h.1

theorem not_mem_of_mem_splitAt {t piece : Text} (h : piece ∈ splitAt sep t) : sep ∉ piece := by
  induction t generalizing piece with
  | nil =>
    rw [mem_singleton.mp h]
    exact not_mem_nil
  | cons b t ih => grind [splitAt]

@[simp]
theorem join_singleton (sep t : Text) : join sep [t] = t := rfl

theorem join_cons_cons (sep t next : Text) (rest : List Text) :
    join sep (t :: next :: rest) = t ++ sep ++ join sep (next :: rest) := by
  rw [join]
  simp

/-- Joining two runs of pieces puts one separator between them. -/
theorem join_append (sep : Text) {first second : List Text} (hfirst : first ≠ [])
    (hsecond : second ≠ []) :
    join sep (first ++ second) = join sep first ++ sep ++ join sep second := by
  induction first with
  | nil => exact absurd rfl hfirst
  | cons t rest ih =>
    cases rest with
    | nil =>
      obtain ⟨next, more, rfl⟩ := exists_cons_of_ne_nil hsecond
      exact join_cons_cons sep t next more
    | cons next more => grind [join_cons_cons]

theorem splitAt_join {pieces : List Text} (hpieces : pieces ≠ []) (hfree : ∀ p ∈ pieces, sep ∉ p) :
    splitAt sep (join [sep] pieces) = pieces := by
  induction pieces with
  | nil => exact absurd rfl hpieces
  | cons t rest ih =>
    have ht := splitAt_of_not_mem (hfree t mem_cons_self)
    cases rest with
    | nil => rw [join_singleton, ht]
    | cons next more => grind [join_cons_cons, splitAt_append_sep]

theorem splitAt_ended {pieces : List Text} (hfree : ∀ p ∈ pieces, sep ∉ p) :
    splitAt sep (pieces.flatMap (· ++ [sep])) = pieces ++ [[]] := by
  induction pieces with
  | nil => rfl
  | cons t rest ih => grind [splitAt_append_sep, splitAt_of_not_mem]

theorem join_splitAt (sep : UInt8) (t : Text) : join [sep] (splitAt sep t) = t := by
  induction t with
  | nil => rfl
  | cons b t ih =>
    obtain ⟨piece, rest, hpieces⟩ := exists_cons_of_ne_nil (splitAt_ne_nil sep t)
    rw [splitAt, hpieces]
    rw [hpieces] at ih
    split
    · rename_i hb
      rw [join_cons_cons, ih, eq_of_beq hb]
      rfl
    · cases rest with
      | nil => rw [← ih, join_singleton, join_singleton]
      | cons next rest => rw [← ih, join_cons_cons, join_cons_cons, cons_append, cons_append]

/-! ## The last separator -/

theorem cutAt?_of_not_mem {t : Text} (h : sep ∉ t) : cutAt? sep t = none := by
  induction t with
  | nil => rfl
  | cons b t ih =>
    rw [mem_cons, not_or] at h
    rw [cutAt?, if_neg (by simpa using Ne.symm h.1), ih h.2, map_none]

theorem cutAt?_append {s : Text} (h : sep ∉ s) (t : Text) :
    cutAt? sep (s ++ sep :: t) = some (s, t) := by
  induction s with
  | nil => simp [cutAt?]
  | cons b s ih => grind [cutAt?]

theorem cutLastAt?_of_not_mem {t : Text} (h : sep ∉ t) : cutLastAt? sep t = none := by
  rw [cutLastAt?, cutAt?_of_not_mem (by simpa using h), map_none]

theorem cutLastAt?_append {t : Text} (h : sep ∉ t) (s : Text) :
    cutLastAt? sep (s ++ sep :: t) = some (s, t) := by
  rw [cutLastAt?, reverse_append, reverse_cons, append_assoc, singleton_append,
    cutAt?_append (by simpa using h)]
  simp

end FaultRepair.Text
