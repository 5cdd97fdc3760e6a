/-
# Numbers and truth values

A word is written without quotes whatever it says. Integers of 64 bits and truth values have
their own meaning when they are read; of a score only the characters matter here.
-/

import FaultRepair.Fault.CandidateFile
import FaultRepair.Proofs.Text.Digits
import FaultRepair.Proofs.Yaml.Written

namespace FaultRepair.Yaml

open List

open Text
open Number

variable {t : Text} {x : Binary64} {n : Nat}

/-! ## Words on their lines -/

/-- Digits, small letters, signs and the point. -/
def IsWordLetter (r : Nat) : Prop :=
  r = 43 ∨ r = 45 ∨ r = 46 ∨ (48 ≤ r ∧ r ≤ 57) ∨ (97 ≤ r ∧ r ≤ 122)

instance (r : Nat) : Decidable (IsWordLetter r) := inferInstanceAs (Decidable (_ ∨ _))

/-- A word that is more than a dash. -/
structure IsWord (t : Text) : Prop where
  letters : ∀ b ∈ t, IsWordLetter b.toNat
  ne_nil : t ≠ []
  ne_dash : t ≠ [45]

theorem IsWordLetter.plainAt {r : Nat} (hr : IsWordLetter r) {first : Bool} {before : Option Rune}
    {rest : List Rune} (hdash : r = 45 → first = true → followedBy rest = false) :
    PlainAt first before r rest := by
  rw [IsWordLetter] at hr
  have hne : ∀ c : Nat, ¬IsWordLetter c → r ≠ c := by
    rintro c hc rfl
    exact hc hr
  refine ⟨?_, ?_, ?_, ?_, ?_, ?_⟩
  · cases first with
    | true =>
      rw [Scanner.isIndicator_first]
      refine ⟨fun hmem => ?_, ?_⟩
      · have hstarters : ∀ c ∈ Scanner.starters, ¬IsWordLetter c := by decide
        exact hstarters r hmem hr
      · grind
    | false => grind [Scanner.isIndicator_later]
  · have hvisible : 0x20 ≤ r ∧ r ≤ 0x7E := by omega
    simp [isPrintable, hvisible.1, hvisible.2]
  · grind [isBreak]
  all_goals exact fun hspace => absurd hspace (hne 32 (by decide))

theorem everywhere_plainAt_later {before : Option Rune} {rs : List Rune}
    (hrs : ∀ r : Nat, r ∈ rs → IsWordLetter r) : Everywhere PlainAt false before rs := by
  induction rs generalizing before with
  | nil => trivial
  | cons r rest ih =>
    refine ⟨(hrs r mem_cons_self).plainAt fun _ hfirst => absurd hfirst Bool.false_ne_true, ?_⟩
    exact ih fun r' hr' => hrs r' (mem_cons_of_mem r hr')

theorem IsWord.ascii (ht : IsWord t) : ∀ b ∈ t, b < 0x80 := by
  intro b hb
  have hletter := ht.letters b hb
  rw [IsWordLetter] at hletter
  rw [UInt8.lt_iff_toNat_lt]
  show b.toNat < 128
  omega

theorem IsWord.everywhere (ht : IsWord t) : Everywhere PlainAt true none (runes t) := by
  rw [(runes_ascii ht.ascii).1]
  obtain ⟨b, rest, rfl⟩ := exists_cons_of_ne_nil ht.ne_nil
  have hrest : ∀ r : Nat, r ∈ rest.map UInt8.toNat → IsWordLetter r := by
    intro r hr
    obtain ⟨c, hc, rfl⟩ := mem_map.mp hr
    exact ht.letters c (mem_cons_of_mem b hc)
  refine ⟨(ht.letters b mem_cons_self).plainAt fun hdash _ => ?_, everywhere_plainAt_later hrest⟩
  cases rest with
  | nil =>
    refine absurd ?_ ht.ne_dash
    rw [UInt8.toNat_inj.mp (show b.toNat = (45 : UInt8).toNat from hdash)]
  | cons c more => grind [IsWordLetter, mem_cons_self, followedBy, isBlank]

theorem scansTo_word (indent : Nat) (ht : IsWord t) :
    ScansTo indent (32 :: (runes t ++ [10])) (wordSpelling t).tokens := by
  have hutf8 := (runes_ascii ht.ascii).2
  have h := scansTo_plain indent ht.everywhere (runes_ne_nil hutf8 ht.ne_nil)
  rwa [ofRunes_runes hutf8] at h

theorem all_isAllowed_word (ht : IsWord t) : (32 :: (runes t ++ [10])).all isAllowed = true := by
  have hletters : (runes t).all isAllowed = true :=
    all_eq_true.mpr (ht.everywhere.forall_mem fun _ _ _ _ h => isAllowed_of_isPrintable h.printable)
  rw [all_cons, all_append, hletters]
  decide

/-! ## Integers -/

theorem magnitudeFrom_append (base : Nat) (underscores : Bool) (acc : Nat) (front back : Text) :
    magnitudeFrom base underscores acc (front ++ back) =
      magnitudeFrom base underscores acc front >>= fun n =>
        magnitudeFrom base underscores n back := by
  induction front generalizing acc with
  | nil => rfl
  | cons b front ih =>
    rw [cons_append, magnitudeFrom, magnitudeFrom]
    split
    · exact ih acc
    · cases digitValue? b with
      | none => rfl
      | some d =>
        simp only []
        split_ifs
        · rfl
        · rfl
        · exact ih _

theorem magnitudeFrom_digit {acc d : Nat} (hd : d < 10)
    (hsize : acc * 10 + d < 0x10000000000000000) :
    magnitudeFrom 10 true acc [(48 + d).toUInt8] = .ok (acc * 10 + d) := by
  have hvalue : ∀ d < 10, ((48 + d).toUInt8 == byte '_') = false ∧
      digitValue? (48 + d).toUInt8 = some d := by
    decide
  grind [magnitudeFrom]

theorem magnitudeFrom_ofNat (hn : n < 0x10000000000000000) :
    magnitudeFrom 10 true 0 (ofNat n) = .ok n := by
  induction n using Nat.strong_induction_on with
  | _ n ih =>
    have hlast : n % 10 < 10 := Nat.mod_lt n (by decide)
    have hfront : magnitudeFrom 10 true 0 (if n < 10 then [] else ofNat (n / 10)) =
        .ok (n / 10) := by
      split
      · rw [Nat.div_eq_of_lt ‹_›]
        rfl
      · exact ih (n / 10) (by omega) (by omega)
    have hwhole : n / 10 * 10 + n % 10 = n := by omega
    rw [ofNat_eq, magnitudeFrom_append, hfront]
    show magnitudeFrom 10 true (n / 10) _ = _
    rw [magnitudeFrom_digit hlast (by omega), hwhole]

theorem head?_ofNat_ne_zero (hn : n ≠ 0) : (ofNat n).head? ≠ some 48 := by
  induction n using Nat.strong_induction_on with
  | _ n ih =>
    rw [ofNat_eq]
    split
    · rename_i hsmall
      have hdigits : ∀ d < 10, d ≠ 0 → (48 + d).toUInt8 ≠ 48 := by decide
      rw [Nat.mod_eq_of_lt hsmall]
      simpa using hdigits n hsmall hn
    · obtain ⟨b, more, hcons⟩ := exists_cons_of_ne_nil (ofNat_ne_nil (n / 10))
      grind

/-- Digits of a number announce no other base. -/
theorem magnitudeFrom_announced (hn : n < 0x10000000000000000) :
    magnitudeFrom (announcedBase (ofNat n)).1 true 0 (announcedBase (ofNat n)).2 = .ok n := by
  by_cases hzero : n = 0
  · subst hzero
    rfl
  · have hhead := head?_ofNat_ne_zero hzero
    have hbase : announcedBase (ofNat n) = (10, ofNat n) := by
      rw [announcedBase.eq_def]
      split
      · rename_i rest heq
        rw [heq] at hhead
        exact absurd rfl hhead
      · rfl
    rw [hbase]
    exact magnitudeFrom_ofNat hn

/-- A digit or the sign of a negative number. -/
def isNumeral (b : UInt8) : Bool := isDigit b || b == 45

theorem isNumeral_of_mem_ofInt {n : Int} {b : UInt8} (hb : b ∈ ofInt n) : isNumeral b = true := by
  cases n with
  | ofNat n => simp [isNumeral, isDigit_of_mem_ofNat hb]
  | negSucc n =>
    rcases mem_cons.mp hb with rfl | hdigit
    · rfl
    · simp [isNumeral, isDigit_of_mem_ofNat hdigit]

theorem dropSign_ofNat (n : Nat) : dropSign (ofNat n) = (false, ofNat n) := by
  obtain ⟨b, more, hcons⟩ := exists_cons_of_ne_nil (ofNat_ne_nil n)
  have hdigit : isDigit b = true := isDigit_of_mem_ofNat (hcons ▸ mem_cons_self)
  have hminus : (b == byte '-') = false := by
    rw [beq_eq_false_iff_ne]
    rintro rfl
    cases hdigit
  have hplus : (b == byte '+') = false := by
    rw [beq_eq_false_iff_ne]
    rintro rfl
    cases hdigit
  rw [hcons, dropSign, hminus, hplus]
  rfl

/-- Digits with or without a sign are read as the number, if it fits. -/
theorem literal_of_dropSign {negative : Bool} (hsign : dropSign t = (negative, ofNat n))
    (hline : t.any (· == byte '_') = false) (hn : n < 0x10000000000000000) :
    Number.literal t = signed negative n := by
  have hne : (ofNat n).isEmpty = false := by simpa using ofNat_ne_nil n
  have hmagnitude := magnitudeFrom_announced hn
  rw [Number.literal, hsign]
  simp only [hne, Bool.false_eq_true, if_false, hmagnitude, hline, Bool.false_and]
  rfl

theorem literal_ofInt {n : Int} (hlow : -0x8000000000000000 ≤ n) (hhigh : n < 0x8000000000000000) :
    Number.literal (ofInt n) = .ok n := by
  have hline : (ofInt n).any (· == byte '_') = false := by
    rw [any_eq_false]
    intro b hb hunderscore
    have hnumeral := isNumeral_of_mem_ofInt hb
    rw [eq_of_beq hunderscore] at hnumeral
    cases hnumeral
  cases n with
  | ofNat n =>
    have hn : n < 0x8000000000000000 := Int.ofNat_lt.mp hhigh
    have hsign : dropSign (ofInt (.ofNat n)) = (false, ofNat n) := dropSign_ofNat n
    rw [literal_of_dropSign hsign hline (by omega), signed]
    simp [Nat.not_le.mpr hn]
  | negSucc n =>
    have hn : n + 1 ≤ 0x8000000000000000 := by omega
    have hsign : dropSign (ofInt (.negSucc n)) = (true, ofNat (n + 1)) := rfl
    rw [literal_of_dropSign hsign hline (by omega), signed, if_neg (by simp),
      if_neg (by simpa using hn)]
    rfl

theorem oneOf_numeral (hne : t ≠ []) (ht : ∀ b ∈ t, isNumeral b = true) {words : List String}
    (hwords : ∀ w ∈ words, ofString w = [] ∨ ∃ b ∈ ofString w, isNumeral b = false) :
    oneOf t words = false := by grind [oneOf]

/-- Numbers are none of the words with a meaning of their own. -/
theorem word?_numeral (hne : t ≠ []) (ht : ∀ b ∈ t, isNumeral b = true) : word? t = none := by
  have hone : ∀ words : List String,
      (∀ w ∈ words, ofString w = [] ∨ ∃ b ∈ ofString w, isNumeral b = false) →
        oneOf t words = false := fun words => oneOf_numeral hne ht
  rw [word?, hone _ (by decide), hone _ (by decide), hone _ (by decide), hone _ (by decide),
    hone _ (by decide), hone _ (by decide)]
  rfl

theorem isMoment_ofInt (n : Int) : isMoment (ofInt n) = false := by
  cases n with
  | ofNat n =>
    have htake : (ofNat n).takeWhile isDigit = ofNat n :=
      takeWhile_eq_self_iff.mpr fun b hb => isDigit_of_mem_ofNat hb
    show isMoment (ofNat n) = false
    rw [isMoment, htake]
    by_cases hfour : (ofNat n).length = 4
    · have hnone : (ofNat n).drop 4 = [] := by rw [← hfour, drop_length]
      cases hyear : toNat? (ofNat n) <;> simp [hfour, hnone, dropByte?]
    · simp [hfour]
  | negSucc n => rfl

theorem meaningOf_ofInt {n : Int} (hlow : -0x8000000000000000 ≤ n)
    (hhigh : n < 0x8000000000000000) :
    meaningOf true (ofInt n) = .integer n := by
  have hliteral := literal_ofInt hlow hhigh
  have hmoment := isMoment_ofInt n
  have hnumeral : ∀ b ∈ ofInt n, isNumeral b = true := fun b hb => isNumeral_of_mem_ofInt hb
  have hne : ofInt n ≠ [] := by
    cases n with
    | ofNat n => exact ofNat_ne_nil n
    | negSucc n => exact cons_ne_nil _ _
  have hword := word?_numeral hne hnumeral
  have hplain : (ofInt n).filter (· != byte '_') = ofInt n := by
    rw [filter_eq_self]
    intro b hb
    rw [bne_iff_ne]
    rintro rfl
    cases hnumeral _ hb
  obtain ⟨b, more, hcons⟩ := exists_cons_of_ne_nil hne
  have hb : isNumeral b = true := hnumeral b (hcons ▸ mem_cons_self)
  have hnumeric : (isDigit b || b == byte '+' || b == byte '-') = true := by
    rcases Bool.or_eq_true_iff.mp hb with hdigit | hminus
    · rw [hdigit, Bool.true_or, Bool.true_or]
    · rw [show (b == byte '-') = true from hminus, Bool.or_true]
  have hhead : (ofInt n).head? = some b := by rw [hcons]; rfl
  have hinteger : integer? (ofInt n) = some n := by simp only [integer?, hliteral]
  have hpoint : b ≠ 46 := by
    rintro rfl
    cases hb
  grind [meaningOf]

theorem isWordLetter_of_isDigit {b : UInt8} (hb : isDigit b = true) : IsWordLetter b.toNat := by
  simp only [isDigit, Bool.and_eq_true, decide_eq_true_eq, UInt8.le_iff_toNat_le] at hb
  exact .inr (.inr (.inr (.inl hb)))

theorem isWord_ofInt (n : Int) : IsWord (ofInt n) := by
  cases n with
  | ofNat n =>
    refine ⟨fun b hb => isWordLetter_of_isDigit (isDigit_of_mem_ofNat hb), ofNat_ne_nil n,
      fun heq => ?_⟩
    have hdash : (45 : UInt8) ∈ ofNat n := by
      rw [show ofNat n = [45] from heq]
      exact mem_singleton_self _
    cases isDigit_of_mem_ofNat hdash
  | negSucc n =>
    refine ⟨fun b hb => ?_, cons_ne_nil _ _, fun heq => ?_⟩
    · rcases mem_cons.mp hb with rfl | hdigit
      · decide
      · exact isWordLetter_of_isDigit (isDigit_of_mem_ofNat hdigit)
    · exact ofNat_ne_nil (n + 1) (cons.inj heq).2

/-! ## Scores -/

theorem lt_ten_of_mem_shortest {d : Nat} (hd : d ∈ x.shortest.1) : d < 10 := by
  have hdigits : ∀ n, ∀ d ∈ (Nat.toDigits 10 n).map fun c => c.toNat - 48, d < 10 := by
    intro n d hd
    obtain ⟨c, hc, rfl⟩ := mem_map.mp hd
    have hdigit := Nat.isDigit_of_mem_toDigits (by decide) (by decide) hc
    simp only [Char.isDigit, Bool.and_eq_true, decide_eq_true_eq] at hdigit
    have hhigh : c.toNat ≤ 57 := UInt32.le_iff_toNat_le.mp hdigit.2
    omega
  grind [dropWhile_sublist, Binary64.shortest]

theorem isWordLetter_digitText {ds : List Nat} (hds : ∀ d ∈ ds, d < 10) :
    ∀ b ∈ Binary64.digitText ds, IsWordLetter b.toNat := by
  intro b hb
  obtain ⟨d, hd, rfl⟩ := mem_map.mp hb
  have hdigits : ∀ d < 10, IsWordLetter (48 + d).toUInt8.toNat := by decide
  exact hdigits d (hds d hd)

theorem isWordLetter_render (hnan : x.isNaN = false) (hinf : x.isInf = false) :
    ∀ b ∈ x.render, IsWordLetter b.toNat := by
  have hds : ∀ d ∈ x.shortest.1, d < 10 := fun d hd => lt_ten_of_mem_shortest hd
  have hsign : ∀ b ∈ (if x.isNegative then ofString "-" else ofString ""),
      IsWordLetter b.toNat := by
    split <;> decide +kernel
  have htake : ∀ n, ∀ b ∈ Binary64.digitText (x.shortest.1.take n), IsWordLetter b.toNat := fun n =>
    isWordLetter_digitText fun d hd => hds d (mem_of_mem_take hd)
  have hdrop : ∀ n, ∀ b ∈ Binary64.digitText (x.shortest.1.drop n), IsWordLetter b.toNat := fun n =>
    isWordLetter_digitText fun d hd => hds d (mem_of_mem_drop hd)
  have hpoint : ∀ b ∈ ofString ".", IsWordLetter b.toNat := by decide +kernel
  have hzeros : ∀ n, ∀ b ∈ replicate n (48 : UInt8), IsWordLetter b.toNat := by
    intro n b hb
    rw [eq_of_mem_replicate hb]
    decide
  have hsize : ∀ n, ∀ b ∈ padLeft 48 2 (ofNat n), IsWordLetter b.toNat := fun n b hb =>
    isWordLetter_of_isDigit (isDigit_of_mem_padLeft hb)
  rw [Binary64.render, hnan, hinf]
  simp only [Bool.false_eq_true, if_false]
  split
  · exact forall_mem_append.mpr ⟨hsign, by decide +kernel⟩
  split
  · refine forall_mem_append.mpr ⟨forall_mem_append.mpr ⟨forall_mem_append.mpr
      ⟨forall_mem_append.mpr ⟨hsign, forall_mem_append.mpr ⟨htake 1, ?_⟩⟩, by decide +kernel⟩, ?_⟩,
        hsize _⟩
    · split
      · exact forall_mem_append.mpr ⟨hpoint, hdrop 1⟩
      · simp
    · split <;> decide +kernel
  split
  · exact forall_mem_append.mpr ⟨forall_mem_append.mpr ⟨forall_mem_append.mpr
      ⟨hsign, by decide +kernel⟩, hzeros _⟩, isWordLetter_digitText hds⟩
  · grind

/-- A score that is read back is written as a word. -/
theorem isWord_scoreWord
    (hread : Fault.scoreIn (.scalar [] (Fault.scoreWord x) .plain) = some (some x)) :
    IsWord (Fault.scoreWord x) := by
  refine ⟨?_, fun hnil => ?_, fun hdash => ?_⟩
  · rw [Fault.scoreWord]
    split
    · decide +kernel
    split
    · split <;> decide +kernel
    · rename_i hnan hinf
      exact isWordLetter_render (by simpa using hnan) (by simpa using hinf)
  · rw [hnil] at hread
    cases hread
  · rw [hdash] at hread
    cases hread

end FaultRepair.Yaml
