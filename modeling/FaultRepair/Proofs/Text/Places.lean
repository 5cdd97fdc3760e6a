/-
# Names and places

The lexical theory of paths. A name is a component that leads one level down, a place is the
list of names on the way down from the root, and the spelling of a place is the one clean path
that leads there. A path, read from some place, leads to a place: names go down, `..` goes up
as long as that is possible, all else stays.

Cleaning a path does not change where it leads, and joining two paths leads on from where the
first one led.
-/

import FaultRepair.Text.Path
import FaultRepair.Proofs.Text.Cutting

namespace FaultRepair.Text.Path

open List

/-! ## Names -/

/-- A component that leads one level down. -/
structure IsName (c : Text) : Prop where
  ne_nil : c ≠ []
  ne_dot : c ≠ Text.ofString "."
  ne_dotdot : c ≠ dotdot
  slash_notMem : slash ∉ c

instance (c : Text) : Decidable (IsName c) :=
  decidable_of_iff (c ≠ [] ∧ c ≠ Text.ofString "." ∧ c ≠ dotdot ∧ slash ∉ c)
    ⟨fun h => ⟨h.1, h.2.1, h.2.2.1, h.2.2.2⟩, fun h => ⟨h.1, h.2, h.3, h.4⟩⟩

structure Name where
  text : Text
  isName : IsName text
  deriving DecidableEq

/-- The names on the way down from the root. -/
abbrev Place := List Name

variable (place : Place)

def spell : Text := slash :: join [slash] (place.map (·.text))

/-- One more component after a way that is kept innermost first. -/
def follow (kept : List Name) (c : Text) : List Name :=
  if h : IsName c then ⟨c, h⟩ :: kept else if c = dotdot then kept.tail else kept

/-- The place that some components lead to from another one. -/
def reach (start : Place) (parts : List Text) : Place := (parts.foldl follow start.reverse).reverse

/-- The place that a path leads to; one that is not rooted starts at home. -/
def goal (home : Place) (p : Text) : Place := reach (if isAbs p then [] else home) (splitAt slash p)

section Follow

variable {c : Text}

theorem not_isName_nil : ¬ IsName [] := fun h => h.ne_nil rfl

theorem not_isName_dot : ¬ IsName (Text.ofString ".") := fun h => h.ne_dot rfl

theorem not_isName_dotdot : ¬ IsName dotdot := fun h => h.ne_dotdot rfl

/-- A component without a slash is a name or one of the three that are not. -/
theorem isName_or (hc : slash ∉ c) : IsName c ∨ c = [] ∨ c = Text.ofString "." ∨ c = dotdot := by
  by_cases hnil : c = []
  · exact .inr (.inl hnil)
  by_cases hdot : c = Text.ofString "."
  · exact .inr (.inr (.inl hdot))
  by_cases hdotdot : c = dotdot
  · exact .inr (.inr (.inr hdotdot))
  exact .inl ⟨hnil, hdot, hdotdot, hc⟩

variable (kept : List Name)

@[simp]
theorem follow_name (name : Name) : follow kept name.text = name :: kept :=
  dif_pos name.isName

@[simp]
theorem follow_nil : follow kept [] = kept := by
  rw [follow, dif_neg not_isName_nil, if_neg (by decide)]

@[simp]
theorem follow_dot : follow kept (Text.ofString ".") = kept := by
  rw [follow, dif_neg not_isName_dot, if_neg (by decide)]

@[simp]
theorem follow_dotdot : follow kept dotdot = kept.tail := by
  rw [follow, dif_neg not_isName_dotdot, if_pos rfl]

theorem pushComponent_name (rooted : Bool) (kept : List Text) (hc : IsName c) :
    pushComponent rooted kept c = c :: kept := by
  simp [pushComponent, hc.ne_nil, hc.ne_dot, hc.ne_dotdot]

theorem pushComponent_nil (rooted : Bool) (kept : List Text) :
    pushComponent rooted kept [] = kept := rfl

theorem pushComponent_dot (rooted : Bool) (kept : List Text) :
    pushComponent rooted kept (Text.ofString ".") = kept := by
  unfold pushComponent
  rw [if_pos (by decide)]

theorem pushComponent_dotdot_nil (rooted : Bool) :
    pushComponent rooted [] dotdot = if rooted then [] else [dotdot] := by
  cases rooted <;> rfl

theorem pushComponent_dotdot_cons (rooted : Bool) (last : Text) (kept : List Text) :
    pushComponent rooted (last :: kept) dotdot =
      if last = dotdot then dotdot :: last :: kept else kept := by
  unfold pushComponent
  rw [if_neg (by decide), if_pos (by decide)]
  by_cases hlast : last = dotdot <;> simp [hlast]

theorem pushComponent_rooted (hc : slash ∉ c) :
    pushComponent true (kept.map (·.text)) c = (follow kept c).map (·.text) := by
  rcases isName_or hc with hname | rfl | rfl | rfl
  · rw [pushComponent_name _ _ hname, follow_name kept ⟨c, hname⟩, map_cons]
  · rw [pushComponent_nil, follow_nil]
  · rw [pushComponent_dot, follow_dot]
  · rw [follow_dotdot]
    cases kept with
    | nil => exact pushComponent_dotdot_nil true
    | cons last rest =>
      rw [map_cons, pushComponent_dotdot_cons, if_neg last.isName.ne_dotdot, tail_cons]

end Follow

variable {p c a : Text}

/-! ## Ways -/

theorem reach_append (start : Place) (first second : List Text) :
    reach start (first ++ second) = reach (reach start first) second := by
  simp [reach]

@[simp]
theorem reach_nil (start : Place) : reach start [] = start := by simp [reach]

@[simp]
theorem reach_names (start names : Place) : reach start (names.map (·.text)) = start ++ names := by
  have hdown : ∀ kept : List Name, (names.map (·.text)).foldl follow kept = names.reverse ++
      kept := by
    induction names with
    | nil => exact fun _ => rfl
    | cons name rest ih => simp_all
  rw [reach, hdown, reverse_append, reverse_reverse, reverse_reverse]

/-- A component that stands still at the front may be left out. -/
theorem reach_nil_cons (start : Place) (parts : List Text) :
    reach start ([] :: parts) = reach start parts := by
  rw [reach, foldl_cons, follow_nil, reach]

theorem foldl_pushComponent_rooted (kept : List Name) {parts : List Text}
    (hparts : ∀ c ∈ parts, slash ∉ c) :
    parts.foldl (pushComponent true) (kept.map (·.text)) =
      (parts.foldl follow kept).map (·.text) := by
  induction parts generalizing kept with
  | nil => rfl
  | cons c rest ih => grind [pushComponent_rooted]

theorem components_of_isAbs (hp : isAbs p = true) :
    components p = (reach [] (splitAt slash p)).map (·.text) := by
  have hkept : (splitAt slash p).foldl (pushComponent true) [] =
      ((splitAt slash p).foldl follow []).map (·.text) :=
    foldl_pushComponent_rooted [] fun _ hc => not_mem_of_mem_splitAt hc
  rw [components, hp, hkept, reach, reverse_nil, map_reverse]

/-- A rooted path is cleaned to the spelling of its place. -/
theorem clean_of_isAbs (hp : isAbs p = true) : clean p = spell (goal [] p) := by
  rw [clean, if_pos hp, components_of_isAbs hp, goal, if_pos hp, spell]

@[simp]
theorem isAbs_spell : isAbs (spell place) = true := rfl

theorem splitAt_spell {place : Place} (hplace : place ≠ []) :
    splitAt slash (spell place) = [] :: place.map (·.text) := by
  have hjoin : splitAt slash (join [slash] (place.map (·.text))) = place.map (·.text) := by
    refine splitAt_join (by simpa using hplace) fun c hc => ?_
    obtain ⟨name, -, rfl⟩ := mem_map.mp hc
    exact name.isName.slash_notMem
  rw [spell, splitAt, if_pos (by decide), hjoin]

@[simp]
theorem goal_spell (home place : Place) : goal home (spell place) = place := by
  rw [goal, if_pos (isAbs_spell place)]
  by_cases hplace : place = []
  · rw [hplace]
    rfl
  · rw [splitAt_spell hplace, reach_nil_cons, reach_names, nil_append]

theorem spell_injective : Function.Injective spell := by
  intro first second h
  rw [← goal_spell [] first, h, goal_spell]

theorem components_spell : components (spell place) = place.map (·.text) := by
  have hgoal := goal_spell [] place
  rw [goal, if_pos (isAbs_spell place)] at hgoal
  rw [components_of_isAbs (isAbs_spell place), hgoal]

/-! ## Cleaning -/

/-- What a cleaned path keeps: names and steps up. -/
theorem mem_foldl_pushComponent {rooted : Bool} {kept parts : List Text}
    (hkept : ∀ c ∈ kept, IsName c ∨ c = dotdot) (hparts : ∀ c ∈ parts, slash ∉ c) :
    ∀ c ∈ parts.foldl (pushComponent rooted) kept, IsName c ∨ c = dotdot := by
  induction parts generalizing kept with
  | nil => exact hkept
  | cons part rest ih =>
    rw [foldl_cons]
    refine ih ?_ fun c hc => hparts c (mem_cons_of_mem _ hc)
    rcases isName_or (hparts part mem_cons_self) with hname | rfl | rfl | rfl
    · rw [pushComponent_name _ _ hname]
      exact forall_mem_cons.mpr ⟨.inl hname, hkept⟩
    · exact hkept
    · rwa [pushComponent_dot]
    · cases kept with
      | nil =>
        rw [pushComponent_dotdot_nil]
        cases rooted <;> simp
      | cons last kept => grind [pushComponent_dotdot_cons]

theorem mem_components (hc : c ∈ components p) : IsName c ∨ c = dotdot :=
  mem_foldl_pushComponent (by simp) (fun _ hd => not_mem_of_mem_splitAt hd) c (mem_reverse.mp hc)

theorem slash_notMem_of_mem_components (hc : c ∈ components p) : slash ∉ c := by
  rcases mem_components hc with hname | rfl
  · exact hname.slash_notMem
  · decide

theorem ne_nil_of_mem_components (hc : c ∈ components p) : c ≠ [] := by
  rcases mem_components hc with hname | rfl
  · exact hname.ne_nil
  · decide

/-- Keeping a component and following what is kept is following what was kept, and then the
component. -/
theorem foldl_follow_pushComponent (start : List Name) {kept : List Text}
    (hkept : ∀ c ∈ kept, IsName c ∨ c = dotdot) (hc : slash ∉ c) :
    (pushComponent false kept c).reverse.foldl follow start =
      follow (kept.reverse.foldl follow start) c := by
  rcases isName_or hc with hname | rfl | rfl | rfl
  · rw [pushComponent_name _ _ hname, reverse_cons, foldl_concat]
  · rw [pushComponent_nil, follow_nil]
  · rw [pushComponent_dot, follow_dot]
  · cases kept with
    | nil => rfl
    | cons last kept =>
      rw [pushComponent_dotdot_cons]
      rcases hkept last mem_cons_self with hname | rfl
      · rw [if_neg hname.ne_dotdot, reverse_cons, foldl_concat,
          follow_name _ ⟨last, hname⟩, follow_dotdot, tail_cons]
      · rw [if_pos rfl, reverse_cons, foldl_concat]

theorem reach_components (hp : isAbs p = false) (start : Place) :
    reach start (components p) = reach start (splitAt slash p) := by
  have hfold : ∀ {kept : List Text} {parts : List Text}, (∀ c ∈ kept, IsName c ∨ c = dotdot) →
      (∀ c ∈ parts, slash ∉ c) → ∀ start : List Name,
      (parts.foldl (pushComponent false) kept).reverse.foldl follow start =
        parts.foldl follow (kept.reverse.foldl follow start) := by
    intro kept parts hkept hparts start
    induction parts generalizing kept with
    | nil => rfl
    | cons c rest ih =>
      have hc := hparts c mem_cons_self
      have hnext : ∀ d ∈ pushComponent false kept c, IsName d ∨ d = dotdot :=
        mem_foldl_pushComponent hkept (forall_mem_singleton.mpr hc)
      rw [foldl_cons, foldl_cons,
        ih hnext fun d hd => hparts d (mem_cons_of_mem _ hd),
        foldl_follow_pushComponent start hkept hc]
  rw [reach, reach, components, hp,
    hfold (by simp) (fun _ hc => not_mem_of_mem_splitAt hc) start.reverse]
  rfl

theorem join_components_eq_nil (h : join [slash] (components p) = []) : components p = [] := by
  cases hc : components p with
  | nil => rfl
  | cons c rest =>
    have hne := ne_nil_of_mem_components (hc ▸ mem_cons_self : c ∈ components p)
    rw [hc] at h
    cases rest with
    | nil => exact absurd h hne
    | cons next rest =>
      rw [join_cons_cons] at h
      simp at h

theorem clean_of_not_isAbs (hp : isAbs p = false) :
    components p = [] ∧ clean p = Text.ofString "." ∨
      components p ≠ [] ∧ clean p = join [slash] (components p) := by
  grind [clean, join, join_components_eq_nil]

theorem splitAt_join_components (hp : components p ≠ []) :
    splitAt slash (join [slash] (components p)) = components p :=
  splitAt_join hp fun _ hc => slash_notMem_of_mem_components hc

/-- A path starts with a slash just if its first component is empty and not the only one. -/
theorem isAbs_eq_false_of_splitAt {rest : List Text} (hp : splitAt slash p = c :: rest)
    (hc : c ≠ []) : isAbs p = false := by
  cases p with
  | nil => rfl
  | cons b p => grind [splitAt, isAbs]

@[simp]
theorem isAbs_clean (p : Text) : isAbs (clean p) = isAbs p := by
  cases hp : isAbs p with
  | true => rw [clean_of_isAbs hp, isAbs_spell]
  | false =>
    rcases clean_of_not_isAbs hp with ⟨-, hclean⟩ | ⟨hne, hclean⟩
    · rw [hclean]
      rfl
    · obtain ⟨c, rest, hc⟩ := exists_cons_of_ne_nil hne
      rw [hclean]
      exact isAbs_eq_false_of_splitAt ((splitAt_join_components hne).trans hc)
        (ne_nil_of_mem_components (hc ▸ mem_cons_self))

/-- A cleaned path leads where the path led. -/
@[simp]
theorem goal_clean (home : Place) (p : Text) : goal home (clean p) = goal home p := by
  cases hp : isAbs p with
  | true => rw [clean_of_isAbs hp, goal_spell, goal, goal, if_pos hp, if_pos hp]
  | false =>
    have hclean := isAbs_clean p
    rw [hp] at hclean
    rw [goal, goal, hp, hclean, ← reach_components hp]
    rcases clean_of_not_isAbs hp with ⟨hnone, hdot⟩ | ⟨hne, hjoin⟩
    · rw [hdot, hnone, splitAt_of_not_mem (by decide), reach, foldl_cons, follow_dot]
      rfl
    · rw [hjoin, splitAt_join_components hne]

/-- A cleaned path has no empty component between others. -/
theorem not_infix_clean (p : Text) : ¬ [slash, slash] <:+: clean p := by
  rintro ⟨before, after, hclean⟩
  have hsplit : splitAt slash (clean p) = splitAt slash before ++ [] :: splitAt slash after := by
    have hafter : splitAt slash (slash :: after) = [] :: splitAt slash after :=
      splitAt_append_sep slash [] after
    rw [← hclean, append_assoc, cons_append, singleton_append, splitAt_append_sep, hafter]
  obtain ⟨first, more, hfirst⟩ := exists_cons_of_ne_nil (splitAt_ne_nil slash before)
  obtain ⟨last, rest, hlast⟩ := exists_cons_of_ne_nil (splitAt_ne_nil slash after)
  rw [hfirst, hlast, cons_append] at hsplit
  have hinside : ([] : Text) ∈ more ++ [] :: last :: rest := by simp
  cases hp : isAbs p with
  | true =>
    rw [clean_of_isAbs hp] at hsplit
    by_cases hplace : goal [] p = []
    · rw [hplace] at hsplit
      have hlength := congrArg length hsplit
      have hroot : (splitAt slash (spell [])).length = 2 := rfl
      simp only [hroot, length_cons, length_append] at hlength
      omega
    · rw [splitAt_spell hplace] at hsplit
      obtain ⟨-, htail⟩ := cons.inj hsplit
      rw [← htail] at hinside
      obtain ⟨name, -, hname⟩ := mem_map.mp hinside
      exact name.isName.ne_nil hname
  | false =>
    rcases clean_of_not_isAbs hp with ⟨-, hdot⟩ | ⟨hne, hjoin⟩
    · rw [hdot, splitAt_of_not_mem (by decide)] at hsplit
      simp at hsplit
    · rw [hjoin, splitAt_join_components hne] at hsplit
      exact ne_nil_of_mem_components (hsplit ▸ mem_cons_of_mem first hinside) rfl

/-! ## Joining and taking apart -/

theorem joinTwo_eq (ha : a ≠ []) (b : Text) : joinTwo a b = clean (a ++ slash :: b) := by
  obtain ⟨first, rest, rfl⟩ := exists_cons_of_ne_nil ha
  simp [joinTwo, joinAll, join]

theorem isAbs_append (ha : a ≠ []) (b : Text) : isAbs (a ++ b) = isAbs a := by
  obtain ⟨first, rest, rfl⟩ := exists_cons_of_ne_nil ha
  rfl

/-- A joined path leads on from where its first part led. -/
theorem goal_joinTwo (home : Place) (ha : a ≠ []) (b : Text) :
    goal home (joinTwo a b) = reach (goal home a) (splitAt slash b) := by
  rw [joinTwo_eq ha, goal_clean, goal, goal, isAbs_append ha, splitAt_append_sep, reach_append]

theorem spell_ne_nil : spell place ≠ [] := cons_ne_nil _ _

/-- Below a rooted path a joined path is the spelling of its place. -/
theorem joinTwo_of_isAbs (ha : isAbs a = true) (b : Text) :
    joinTwo a b = spell (reach (goal [] a) (splitAt slash b)) := by
  have hne : a ≠ [] := by
    rintro rfl
    cases ha
  have habs : isAbs (a ++ slash :: b) = true := (isAbs_append hne _).trans ha
  rw [← goal_joinTwo [] hne, joinTwo_eq hne, goal_clean, clean_of_isAbs habs]

theorem joinTwo_spell (b : Text) :
    joinTwo (spell place) b = spell (reach place (splitAt slash b)) := by
  rw [joinTwo_of_isAbs (isAbs_spell place), goal_spell]

/-- The spelling of a place that is not the root ends in its last name. -/
theorem spell_concat (name : Name) :
    spell (place ++ [name]) = (if place = [] then [] else spell place) ++ slash :: name.text := by
  by_cases hplace : place = []
  · simp [hplace, spell]
  · rw [if_neg hplace, spell, spell, map_append,
      join_append _ (by simpa using hplace) (by simp)]
    simp

theorem dir_spell_concat (name : Name) : dir (spell (place ++ [name])) = spell place := by
  have habs : ∀ before : Text, before = (if place = [] then [] else spell place) →
      clean (before ++ [slash]) = spell place := by
    rintro before rfl
    by_cases hplace : place = []
    · rw [if_pos hplace, hplace]
      rfl
    · have hrooted : isAbs (spell place ++ [slash]) = true := isAbs_append (spell_ne_nil place) _
      rw [if_neg hplace, clean_of_isAbs hrooted, goal, if_pos hrooted, splitAt_append_sep,
        reach_append, splitAt_spell hplace, reach_nil_cons, reach_names, nil_append]
      exact congrArg spell ((reach_nil_cons place []).trans (reach_nil place))
  rw [dir, spell_concat, cutLastAt?_append name.isName.slash_notMem]
  exact habs _ rfl

theorem dir_root : dir (spell []) = spell [] := by decide

/-- The base of a path is its last component, if that is not empty. -/
theorem base_of_getLast? {last : Text} (hp : (splitAt slash p).getLast? = some last)
    (hlast : last ≠ []) : base p = last := by
  obtain ⟨parts, hp⟩ := getLast?_eq_some_iff.mp hp
  have hslash : slash ∉ last := not_mem_of_mem_splitAt (hp ▸ mem_append_right _ mem_cons_self)
  have htext : p = join [slash] (parts ++ [last]) := by rw [← hp, join_splitAt]
  have hbody : p = last ∨ ∃ before, p = before ++ slash :: last := by
    by_cases hparts : parts = []
    · exact .inl (by rw [htext, hparts]; rfl)
    · refine .inr ⟨join [slash] parts, ?_⟩
      rw [htext, join_append _ hparts (by simp)]
      simp [join]
  obtain ⟨b, front, hconcat⟩ : ∃ b front, last.reverse = b :: front :=
    exists_cons_of_ne_nil (by simpa using hlast)
  grind [dropWhile_cons_of_neg, reverse_reverse, base, cutLastAt?_of_not_mem, cutLastAt?_append]

end FaultRepair.Text.Path
