/-
# Values on their lines

A value behind a name is scanned to the tokens of that value, whatever the next line is, as long
as that line is not indented more. A text in a literal block must not start with a blank or a
line end: the number of spaces in front of its first line is all that shows its indentation.
-/

import FaultRepair.Proofs.Text.Base64
import FaultRepair.Proofs.Yaml.Blocks
import FaultRepair.Proofs.Yaml.Quoted

namespace FaultRepair.Yaml

open List

open Text (Rune IsScalar runes isUtf8)
open Text.Base64 (encode isCode)
open Scanner (Stands Ready Leads Onward Ink)

variable {rs : List Rune} {t : Text} (indent : Nat)

/-- Behind a name in a block, the characters are scanned to the tokens. -/
def ScansTo (written : List Rune) (piece : List Token) : Prop :=
  ∀ ⦃s : Scanner⦄ ⦃column : Nat⦄ ⦃is : List Int⦄ ⦃tokens : List Token⦄ ⦃tail body : List Rune⦄
    ⦃column' : Nat⦄, Stands s (written ++ tail) column (indent :: is) tokens false →
      indent ≤ column →
      Onward tail column' body → column' ≤ indent →
        ∃ s', Leads s s' ∧ Ready s' body column' (indent :: is) (tokens ++ piece)

/-! ## Styles -/

theorem scansTo_plain (hrs : Everywhere PlainAt true none rs) (hne : rs ≠ []) :
    ScansTo indent (32 :: (rs ++ [10])) [.scalar (ofRunes rs) .plain] := by
  intro s column is tokens tail body column' h hindent honward hcolumn
  rw [cons_append, append_assoc] at h
  exact h.plain hrs hne (by omega) honward (by omega)

theorem scansTo_quoted {single : Bool} {written : List Rune}
    (hbetween : Scanner.Between single written rs) :
    ScansTo indent (32 :: (Scanner.quote single :: written ++ [Scanner.quote single] ++ [10]))
      [.scalar (ofRunes rs) (if single then .singleQuoted else .doubleQuoted)] := by
  intro s column is tokens tail body column' h hindent honward hcolumn
  simp only [cons_append, append_assoc, nil_append] at h
  exact h.quoted hbetween (by omega) honward

theorem lt_nested : indent < nested indent := by
  rw [nested]
  omega

/-- Line ends that can stand in a literal block. -/
theorem printable_of_blockAt (hrs : Everywhere BlockAt true none rs) :
    ∀ r ∈ rs, isBreak r = true → isPrintable r = true := by
  refine hrs.forall_mem fun first before r rest h hbreak => ?_
  rcases h.allowed with rfl | hprintable
  · cases hbreak
  · exact hprintable

theorem scansTo_literal {rs : List Rune} (hrs : Everywhere BlockAt true none rs)
    (hne : rs ≠ []) (hstart : Ink rs) :
    ScansTo indent (32 :: (literal (nested indent) rs ++ Scanner.lineEnd rs))
      [.scalar (ofRunes rs) .literal] := by
  intro s column is tokens tail body column' h hindent honward hcolumn
  have hwidth := lt_nested indent
  rw [cons_append, append_assoc] at h
  exact h.literal_text hne hstart (printable_of_blockAt hrs) (by omega) (by omega) honward
    (by omega)

/-! ## Text -/

def styledLine (binary : Bool) (body : Text) : List Rune :=
  32 :: (writeStyled (nested indent) (runes body) (styleOf binary body) ++
    (if styleOf binary body = .literal then Scanner.lineEnd (runes body) else [10]))

theorem styleOf_cases (binary : Bool) (body : Text) :
    (styleOf binary body = .literal ∧ 10 ∈ body ∧ Everywhere BlockAt true none (runes body)) ∨
      (styleOf binary body = .plain ∧ (binary = true ∨ readsAsText body = true) ∧
        Everywhere PlainAt true none (runes body)) ∨
      (styleOf binary body = .singleQuoted ∧ 10 ∉ body ∧
        Everywhere SingleAt true none (runes body)) ∨
      styleOf binary body = .doubleQuoted := by
  rw [← blockAllowed_shapeOf, ← singleAllowed_shapeOf]
  by_cases hline : 10 ∈ body
  · grind [styleOf]
  · have hmulti : body.any (· == 10) = false := by
      rw [any_eq_false]
      intro b hb hten
      exact hline (eq_of_beq hten ▸ hb)
    cases hreads : binary || readsAsText body with
    | false => simp [styleOf, hmulti, hreads]
    | true =>
      cases hplain : (shapeOf (runes body)).plainAllowed with
      | true =>
        have hstyle : styleOf binary body = .plain := by simp [styleOf, hmulti, hreads, hplain]
        exact .inr (.inl ⟨hstyle, Bool.or_eq_true_iff.mp hreads,
          (plainAllowed_shapeOf.mp hplain).2⟩)
      | false => grind [styleOf]

theorem ofRunes_runes (ht : isUtf8 t = true) : ofRunes (runes t) = t :=
  (Text.ofRunes_runes ht).1

theorem mem_runes_iff (ht : isUtf8 t = true) {b : UInt8} (hb : b < 0x80) :
    b.toNat ∈ runes t ↔ b ∈ t := by
  obtain ⟨hbytes, hscalar⟩ := Text.ofRunes_runes ht
  rw [← Text.mem_ofRunes_iff hscalar hb, hbytes]

theorem runes_ne_nil (ht : isUtf8 t = true) (hne : t ≠ []) : runes t ≠ [] := by
  intro hnil
  rw [← ofRunes_runes ht, hnil] at hne
  exact hne rfl

/-- A text on its line is scanned to a scalar of its style. -/
theorem scansTo_styled {binary : Bool} {body : Text} (hutf8 : isUtf8 body = true)
    (hbinary : binary = true → body ≠ [])
    (hstart : styleOf binary body = .literal → Ink (runes body)) :
    ScansTo indent (styledLine indent binary body) [.scalar body (styleOf binary body)] := by
  have hbytes := ofRunes_runes hutf8
  rw [styledLine]
  rcases styleOf_cases binary body with ⟨hstyle, hline, hrs⟩ | ⟨hstyle, hreads, hrs⟩ |
    ⟨hstyle, hline, hrs⟩ |
    hstyle
  · grind [runes_ne_nil, scansTo_literal, writeStyled]
  · have hne : body ≠ [] := by
      rcases hreads with hcode | htext
      · exact hbinary hcode
      · rintro rfl
        cases htext
    grind [scansTo_plain, runes_ne_nil, writeStyled]
  · have hrunes : 10 ∉ runes body := fun hmem => hline ((mem_runes_iff hutf8 (by decide)).mp hmem)
    have h := scansTo_quoted indent
      (Scanner.between_single (Nat.zero_lt_of_lt (lt_nested indent)) hrs hrunes)
    rw [hbytes] at h
    simp only [hstyle, writeStyled, reduceCtorEq, if_false]
    exact h
  · have h := scansTo_quoted indent
      (Scanner.between_double ((runes body).head? == some 0xFEFF) (Text.ofRunes_runes hutf8).2)
    rw [hbytes] at h
    simp only [hstyle, writeStyled, doubleQuoted, reduceCtorEq, if_false]
    exact h

/-! ## Encoded bytes -/

theorem scansTo_tagged {indent : Nat} {more : List Rune} {piece : List Token}
    (h : ScansTo indent (32 :: more) piece) :
    ScansTo indent (32 :: (Scanner.binaryTag ++ 32 :: more)) (.tag "!!" "binary" :: piece) := by
  intro s column is tokens tail body column' hstands hindent honward hcolumn
  simp only [cons_append, append_assoc] at hstands
  obtain ⟨s₁, hfirst, h₁⟩ := hstands.binary (by omega)
  obtain ⟨s₂, hsecond, h₂⟩ := h h₁ (by omega) honward hcolumn
  rw [append_assoc] at h₂
  exact ⟨s₂, hfirst.trans hsecond, h₂⟩

theorem mem_base64Chunks {n : Nat} {b : UInt8} (hb : b ∈ base64Chunks n t) : b ∈ t ∨ b = 10 := by
  induction n generalizing t with
  | zero => cases hb
  | succ n ih =>
    rw [base64Chunks] at hb
    split at hb
    · cases hb
    · simp only [mem_append] at hb
      rcases hb with (hline | hend) | hmore
      · exact .inl (mem_of_mem_take hline)
      · exact .inr (mem_singleton.mp hend)
      · exact (ih hmore).imp_left mem_of_mem_drop

theorem filter_base64Chunks {n : Nat} (hline : 10 ∉ t) (hn : t.length ≤ n) :
    ((base64Chunks n t).filter fun b => b != 10) = t := by
  induction n generalizing t with
  | zero =>
    rw [length_eq_zero_iff.mp (Nat.le_zero.mp hn)]
    rfl
  | succ n ih =>
    rw [base64Chunks]
    split
    · rename_i hempty
      rw [isEmpty_iff.mp hempty]
      rfl
    · have hfirst : ((t.take 70).filter fun b => b != 10) = t.take 70 := by
        rw [filter_eq_self]
        intro b hb
        exact bne_iff_ne.mpr fun heq => hline (heq ▸ mem_of_mem_take hb)
      have hmore := ih (t := t.drop 70) (fun hmem => hline (mem_of_mem_drop hmem))
        (by rw [length_drop]; omega)
      have hend : ((Text.ofString "\n").filter fun b => b != 10) = [] := by decide
      rw [filter_append, filter_append, hfirst, hmore, hend, append_nil,
        take_append_drop]

/-- What the lines of encoded bytes hold. -/
structure IsCodeOf (t code : Text) : Prop where
  ascii : ∀ b ∈ code, b < 0x80
  decode_eq : Text.Base64.decode? code = some t
  ne_nil : code ≠ []
  start : ∀ b ∈ code.head?, isCode b = true

theorem isCodeOf_base64Lines (ht : t ≠ []) : IsCodeOf t (base64Lines (encode t)) := by
  have hcode : ∀ b ∈ encode t, 43 ≤ b.toNat ∧ b.toNat ≤ 122 := fun b hb =>
    Text.Base64.isCode_bounds (Text.Base64.isCode_of_mem_encode hb)
  have hline : 10 ∉ encode t := fun hmem => absurd (hcode 10 hmem).1 (by decide)
  have hmem : ∀ b ∈ base64Lines (encode t), b ∈ encode t ∨ b = 10 := by
    intro b hb
    rw [base64Lines] at hb
    split at hb
    · exact .inl hb
    · exact mem_base64Chunks hb
  have hfilter : ((base64Lines (encode t)).filter fun b => b != 10) = encode t := by
    rw [base64Lines]
    split
    · rw [filter_eq_self]
      intro b hb
      exact bne_iff_ne.mpr fun heq => hline (heq ▸ hb)
    · exact filter_base64Chunks hline (Nat.le_refl _)
  obtain ⟨c, more, hcons⟩ := exists_cons_of_ne_nil (Text.Base64.encode_eq_nil_iff.not.mpr ht)
  have hhead : (base64Lines (encode t)).head? = some c := by
    rw [base64Lines, hcons]
    split <;> rfl
  refine ⟨?_, Text.Base64.decode?_of_filter hfilter ?_, ?_, ?_⟩
  · grind [UInt8.lt_iff_toNat_lt]
  · grind
  · intro hnil
    rw [hnil] at hhead
    cases hhead
  · rw [hhead]
    rintro b ⟨⟩
    exact Text.Base64.isCode_of_mem_encode (hcons ▸ mem_cons_self)

/-! ## Spellings -/

/-- A scalar as a document spells it; encoded bytes have a tag. -/
structure Spelling where
  encoded : Bool := false
  value : Text
  style : Style

def Spelling.tokens (p : Spelling) : List Token :=
  (if p.encoded then [.tag "!!" "binary"] else []) ++ [.scalar p.value p.style]

def textSpelling (t : Text) : Spelling :=
  if isUtf8 t then { value := t, style := styleOf false t }
  else
    let code := base64Lines (encode t)
    { encoded := true, value := code, style := styleOf true code }

def wordSpelling (t : Text) : Spelling where
  value := t
  style := .plain

/-- A text that does not start with a blank or a line end where it is written as a block. -/
def StartsFirm (t : Text) : Prop :=
  isUtf8 t = true → styleOf false t = .literal →
    ∀ r ∈ (runes t).head?, isBlank r = false ∧ isBreak r = false

theorem styledLine_eq (binary : Bool) (body : Text) :
    styledLine indent binary body =
      32 :: (writeStyled (nested indent) (runes body) (styleOf binary body) ++
        (if !(styleOf binary body == .literal && ((runes body).getLast?.map isBreak).getD false)
          then [10] else [])) := by
  grind [styledLine, Scanner.lineEnd]

theorem writeLine_eq (t : Text) :
    writeLine indent t =
      if isUtf8 t then styledLine indent false t
      else 32 :: (Scanner.binaryTag ++ styledLine indent true (base64Lines (encode t))) := by
  grind [styledLine_eq, writeLine, writeText, Scanner.chars_binary]

/-- Bytes that are no text are scanned to their code. -/
theorem scansTo_code (hutf8 : isUtf8 t = false) :
    ScansTo indent (writeLine indent t) (textSpelling t).tokens := by
  have ht : t ≠ [] := by
    rintro rfl
    cases hutf8
  have hcode := isCodeOf_base64Lines ht
  rw [writeLine_eq, textSpelling, hutf8, if_neg Bool.false_ne_true, if_neg Bool.false_ne_true]
  obtain ⟨hrunes, hutf8⟩ := Text.runes_ascii hcode.ascii
  refine scansTo_tagged (scansTo_styled indent hutf8 (fun _ => hcode.ne_nil) fun _ r hr => ?_)
  rw [hrunes, head?_map] at hr
  obtain ⟨b, hb, rfl⟩ := Option.map_eq_some_iff.mp hr
  obtain ⟨hlow, hhigh⟩ := Text.Base64.isCode_bounds (hcode.start b hb)
  grind [isBlank, isBreak]

/-- A text on the line of its name is scanned to its spelling. -/
theorem scansTo_text (hstart : StartsFirm t) :
    ScansTo indent (writeLine indent t) (textSpelling t).tokens := by
  cases hutf8 : isUtf8 t with
  | true =>
    rw [writeLine_eq, textSpelling, hutf8, if_pos rfl, if_pos rfl]
    exact scansTo_styled indent hutf8 (fun h => by cases h) (hstart hutf8)
  | false => exact scansTo_code indent hutf8

/-- In the outermost block a text may also start with a space or a line end: its indentation is
given, and it is scanned as some text. -/
theorem scans_outermost {s : Scanner} {t : Text} {column : Nat} {is : List Int}
    {tokens : List Token} {tail body : List Rune}
    (hstart : isUtf8 t = true → styleOf false t = .literal → (runes t).head? ≠ some 9)
    (h : Stands s (writeLine 0 t ++ tail) column (0 :: is) tokens false)
    (honward : Onward tail 0 body) :
    ∃ s' p, Leads s s' ∧ Ready s' body 0 (0 :: is) (tokens ++ p.tokens) ∧
      (p = textSpelling t ∨ ∃ value, p = { value, style := .literal }) := by
  by_cases hfirm : StartsFirm t
  · obtain ⟨s', hleads, hready⟩ := scansTo_text 0 hfirm h (Nat.zero_le _) honward (Nat.le_refl 0)
    exact ⟨s', _, hleads, hready, .inl rfl⟩
  · simp only [StartsFirm, not_forall] at hfirm
    obtain ⟨hutf8, hstyle, r, hr, hloose⟩ := hfirm
    obtain ⟨rest, hrunes⟩ : ∃ rest, runes t = r :: rest := head?_eq_some_iff.mp hr
    have hhead : r = 32 ∨ isBreak r = true := by
      have htab : r ≠ 9 := fun heq => hstart hutf8 hstyle (heq ▸ hr)
      by_cases hbreak : isBreak r = true
      · exact .inr hbreak
      · grind [isBlank]
    have hrs : Everywhere BlockAt true none (runes t) := by
      rcases styleOf_cases false t with ⟨-, -, hrs⟩ | ⟨hother, -⟩ | ⟨hother, -⟩ | hother
      · exact hrs
      all_goals
        rw [hstyle] at hother
        cases hother
    rw [writeLine_eq, if_pos hutf8, styledLine, hstyle, writeStyled, if_pos rfl, hrunes,
      cons_append, append_assoc] at h
    obtain ⟨s', value, hleads, hready⟩ :=
      h.literal_hinted hhead (hrunes ▸ printable_of_blockAt hrs) honward (by decide)
    exact ⟨s', { value := ofRunes value, style := .literal }, hleads, hready, .inr ⟨_, rfl⟩⟩

/-! ## Characters of a file -/

theorem isAllowed_of_isPrintable {r : Nat} (hr : isPrintable r = true) : isAllowed r = true := by
  grind [isPrintable, isAllowed]

theorem isScalar_of_isAllowed {r : Nat} (hr : isAllowed r = true) : IsScalar r := by
  grind [isAllowed, IsScalar]

theorem all_isAllowed_spaces (n : Nat) : (spaces n).all isAllowed = true := by
  rw [spaces, all_replicate]
  cases n <;> rfl

theorem all_isAllowed_hexUpper (w n : Nat) :
    ((Text.hexUpper w n).map UInt8.toNat).all isAllowed = true := by
  have hdigit : ∀ d < 16, isAllowed (Scanner.hexDigit d).toNat = true := by decide
  have hdigits : ∀ n, ((Scanner.hexDigits n).map UInt8.toNat).all isAllowed = true := by
    intro n
    induction n using Nat.strong_induction_on with
    | _ n ih => grind [Scanner.hexDigits_eq]
  rw [Scanner.hexUpper_eq, map_append, all_append, hdigits, map_replicate, all_replicate,
    Bool.and_true]
  split <;> rfl

theorem all_isAllowed_escaped (r : Rune) : (escaped r).all isAllowed = true := by
  have hletters : ∀ p ∈ escapeLetters, isAllowed p.2.toNat = true := by decide
  grind [isAllowed, escaped, all_isAllowed_hexUpper]

theorem all_isAllowed_doubleQuoted (rs : List Rune) : (doubleQuoted rs).all isAllowed = true := by
  grind [doubleQuoted, doubleCode, all_isAllowed_escaped, isAllowed_of_isPrintable]

theorem all_isAllowed_singleQuoted (broken : Bool) (hrs : rs.all isAllowed = true) :
    (singleQuoted indent broken rs).all isAllowed = true := by
  induction rs generalizing broken with
  | nil => rfl
  | cons r rest ih => grind [singleQuoted, all_isAllowed_spaces]

theorem all_isAllowed_literalLines (atStart : Bool) (hrs : rs.all isAllowed = true) :
    (literalLines indent atStart rs).all isAllowed = true := by
  induction rs generalizing atStart with
  | nil => rfl
  | cons r rest ih => grind [literalLines, all_isAllowed_spaces]

theorem all_isAllowed_literal (hrs : rs.all isAllowed = true) :
    (literal indent rs).all isAllowed = true := by
  cases rs with
  | nil => rfl
  | cons r rest =>
    obtain ⟨chomp, hmark⟩ := Scanner.exists_mark (r :: rest)
    have hchomp : chomp.mark.all isAllowed = true := by cases chomp <;> decide
    grind [isAllowed, Scanner.literal_cons, all_isAllowed_literalLines]

theorem all_isAllowed_styledLine (binary : Bool) (body : Text) :
    (styledLine indent binary body).all isAllowed = true := by
  have hspace : isAllowed 32 = true := by decide
  have hline : [10].all isAllowed = true := by decide
  rw [styledLine, all_cons, hspace, Bool.true_and, all_append, Bool.and_eq_true]
  rcases styleOf_cases binary body with ⟨hstyle, -, hrs⟩ | ⟨hstyle, -, hrs⟩ |
    ⟨hstyle, -, hrs⟩ | hstyle
  · have hallowed : (runes body).all isAllowed = true := by
      refine all_eq_true.mpr (hrs.forall_mem fun _ _ r _ h => ?_)
      rcases h.allowed with rfl | hprintable
      · decide
      · exact isAllowed_of_isPrintable hprintable
    rw [hstyle, if_pos rfl, Scanner.lineEnd]
    refine ⟨all_isAllowed_literal _ hallowed, ?_⟩
    split
    · rfl
    · exact hline
  · rw [hstyle]
    exact ⟨all_eq_true.mpr (hrs.forall_mem fun _ _ _ _ h => isAllowed_of_isPrintable h.printable),
      hline⟩
  · have hallowed : (runes body).all isAllowed = true :=
      all_eq_true.mpr (hrs.forall_mem fun _ _ _ _ h => isAllowed_of_isPrintable h.printable)
    have hquoted := all_isAllowed_singleQuoted (nested indent) false hallowed
    rw [hstyle]
    refine ⟨?_, hline⟩
    rw [writeStyled, all_append, all_cons, hquoted]
    decide
  · rw [hstyle]
    refine ⟨?_, hline⟩
    rw [writeStyled, all_append, all_cons, all_isAllowed_doubleQuoted]
    decide

theorem all_isAllowed_writeLine (t : Text) : (writeLine indent t).all isAllowed = true := by
  rw [writeLine_eq]
  split
  · exact all_isAllowed_styledLine indent false t
  · have htag : Scanner.binaryTag.all isAllowed = true := by decide
    rw [all_cons, all_append, htag, all_isAllowed_styledLine]
    decide

end FaultRepair.Yaml
