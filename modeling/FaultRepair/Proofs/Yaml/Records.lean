/-
# Records and lists of records

The fields of a record stand on lines of their own in one column, and the records of a list
behind dashes. Field by field and record by record, what is written is scanned to the tokens of
the values, with the marks of the blocks around them.
-/

import FaultRepair.Proofs.Yaml.Tree

namespace FaultRepair.Yaml

open List

open Text
open Scanner (Stands Ready Leads Onward Visible IsName opening openAt)

/-- A field: its name, what is written behind the colon, and how its value is spelled. -/
structure Field where
  name : Text
  written : List Rune
  spelling : Spelling

namespace Field

def line (f : Field) : List Rune := runes f.name ++ 58 :: f.written

def tokens (f : Field) : List Token := .key :: .scalar f.name .plain :: .value :: f.spelling.tokens

/-- A field whose value can be read in a block. -/
structure Fits (indent : Nat) (f : Field) : Prop where
  name : IsName (runes f.name)
  bytes : ofRunes (runes f.name) = f.name
  behind : f.written.head? = some 32
  scans : ScansTo indent f.written f.spelling.tokens
  allowed : f.written.all isAllowed = true

end Field

variable {f : Field}

/-- The lines of the fields behind the first one. -/
def laterLines (indent : Nat) (fields : List Field) : List Rune :=
  fields.flatMap fun f => spaces indent ++ f.line

/-- A record of at least one field. -/
structure Row where
  first : Field
  more : List Field

def Row.fields (row : Row) : List Field := row.first :: row.more

def Row.lines (indent : Nat) (row : Row) : List Rune := row.first.line ++ laterLines indent row.more

def Row.tokens (row : Row) : List Token := .blockMappingStart :: row.fields.flatMap Field.tokens

/-- The lines of the records behind the first one. -/
def laterRows (indent : Nat) (rows : List Row) : List Rune :=
  rows.flatMap fun row => spaces indent ++ 45 :: 32 :: row.lines (indent + 2)

/-- The fields of a record as a tree has them. -/
def Row.entries (row : Row) : List NodeReader.Entry :=
  row.fields.map fun f => ⟨f.name, f.spelling.tokens, f.spelling.node⟩

def Row.node (row : Row) : Node := .mapping (row.entries.map NodeReader.Entry.pair)

/-- What is written for a list of records behind its name, in the outermost block. -/
def listLines : List Row → List Rune
  | [] => [32, 91, 93, 10]
  | rows => 10 :: laterRows 4 rows

def listTokens : List Row → List Token
  | [] => [.flowSequenceStart, .flowSequenceEnd]
  | rows =>
    NodeReader.sequenceTokens (rows.map fun row => (NodeReader.mappingTokens row.entries, row.node))

variable {s : Scanner} {indent column' : Nat} {i : Int} {is : List Int} {tokens : List Token}
  {tail after body : List Rune}

/-! ## Fields -/

theorem Field.Fits.line_cons (hf : f.Fits indent) :
    ∃ r more, f.line = r :: more ∧ Visible r ∧ r ≠ 45 ∧ r ≠ 46 := by
  obtain ⟨r, rest, hcons⟩ := exists_cons_of_ne_nil hf.name.ne_nil
  have hr : r ∈ runes f.name := hcons ▸ mem_cons_self
  obtain ⟨hvisible, -, -, -, hdash, hdot⟩ := hf.name.isPlain hr
  refine ⟨r, rest ++ 58 :: f.written, ?_, hvisible, hdash, hdot⟩
  rw [Field.line, hcons]
  rfl

theorem Field.Fits.onward (hf : f.Fits indent) (column : Nat) (tail : List Rune) :
    Onward (spaces column ++ (f.line ++ tail)) column (f.line ++ tail) := by
  obtain ⟨r, more, hline, hvisible, hmark⟩ := hf.line_cons
  rw [hline]
  exact .line hvisible fun _ => hmark

theorem openAt_cons (hindent : i ≤ indent) : ∃ outer, openAt indent i is =
    (indent : Int) :: outer := by
  rw [openAt]
  split
  · exact ⟨is, by rw [show i = (indent : Int) by omega]⟩
  · exact ⟨i :: is, rfl⟩

/-- A field is scanned; the first one of a record opens a block. -/
theorem Scanner.Ready.field (h : Ready s (f.line ++ tail) indent (i :: is) tokens)
    (hf : f.Fits indent) (hindent : i ≤ indent) (honward : Onward tail column' body)
    (hcolumn : column' ≤ indent) :
    ∃ s', Leads s s' ∧ Ready s' body column' (openAt indent i is)
      (tokens ++ opening .blockMappingStart indent i ++ f.tokens) := by
  obtain ⟨more, hmore⟩ := head?_eq_some_iff.mp hf.behind
  have hbehind : blankOrEnd (f.written ++ tail) = true := by
    rw [hmore]
    rfl
  rw [Field.line, append_assoc, cons_append] at h
  obtain ⟨s₁, hfirst, h₁⟩ := h.key hf.name hbehind hindent
  obtain ⟨outer, hopen⟩ := openAt_cons hindent
  rw [hopen, hf.bytes] at h₁
  obtain ⟨s₂, hsecond, h₂⟩ := hf.scans h₁ (by omega) honward hcolumn
  refine ⟨s₂, hfirst.trans hsecond, ?_⟩
  rw [hopen]
  simpa [Field.tokens] using h₂

theorem Scanner.Ready.fields {fields : List Field} (hfields : ∀ g ∈ f :: fields, g.Fits indent)
    (h : Ready s (f.line ++ (laterLines indent fields ++ after)) indent (i :: is) tokens)
    (hindent : i ≤ indent) (honward : Onward after column' body) (hcolumn : column' ≤ indent) :
    ∃ s', Leads s s' ∧ Ready s' body column' (openAt indent i is)
      (tokens ++ opening .blockMappingStart indent i ++ (f :: fields).flatMap Field.tokens) := by
  induction fields generalizing s f i is tokens with
  | nil =>
    obtain ⟨s', hleads, h'⟩ := h.field (hfields f mem_cons_self) hindent honward hcolumn
    exact ⟨s', hleads, by simpa using h'⟩
  | cons g fields ih =>
    have hg : g.Fits indent := hfields g (by simp)
    have hlines : laterLines indent (g :: fields) ++ after =
        spaces indent ++ (g.line ++ (laterLines indent fields ++ after)) := by
      simp [laterLines]
    rw [hlines] at h
    obtain ⟨s₁, hfirst, h₁⟩ :=
      h.field (hfields f mem_cons_self) hindent (hg.onward indent _) (Nat.le_refl indent)
    obtain ⟨outer, hopen⟩ := openAt_cons hindent
    rw [hopen] at h₁ ⊢
    -- The block is open now.
    obtain ⟨s₂, hsecond, h₂⟩ :=
      ih (fun g' hg' => hfields g' (mem_cons_of_mem f hg')) h₁ (Int.le_refl _)
    refine ⟨s₂, hfirst.trans hsecond, ?_⟩
    grind [openAt, opening]

/-! ## Records in a list -/

/-- Record by record; each of them ends at the dash of the next one. -/
theorem Scanner.Ready.rows {row : Row} {rows : List Row}
    (hrows : ∀ r ∈ row :: rows, ∀ f ∈ r.fields, f.Fits (indent + 2)) (hpos : 0 < indent)
    (h : Ready s (row.lines (indent + 2) ++ (laterRows indent rows ++ after)) (indent + 2)
      (indent :: is) tokens)
    (honward : Onward after column' body) (hcolumn : column' ≤ indent + 2) :
    ∃ s', Leads s s' ∧ Ready s' body column' (((indent + 2 : Nat) : Int) :: indent :: is)
      (tokens ++ row.tokens ++ rows.flatMap fun r => .blockEnd :: .blockEntry :: r.tokens) := by
  have hopen : openAt (indent + 2) indent is = ((indent + 2 : Nat) : Int) :: indent :: is := by
    rw [openAt, if_neg (by omega)]
  have hstart : opening .blockMappingStart (indent + 2) indent = [.blockMappingStart] := by
    rw [opening, if_neg (by omega)]
  -- One record, up to what follows it.
  have hone : ∀ {s : Scanner} {row : Row} {tokens : List Token} {tail body : List Rune}
      {column' : Nat},
      (∀ f ∈ row.fields, f.Fits (indent + 2)) →
        Ready s (row.lines (indent + 2) ++ tail) (indent + 2) (indent :: is) tokens →
          Onward tail column' body → column' ≤ indent + 2 →
            ∃ s', Leads s s' ∧ Ready s' body column' (((indent + 2 : Nat) : Int) :: indent :: is)
              (tokens ++ row.tokens) := by
    intro s row tokens tail body column' hrow h honward hcolumn
    rw [Row.lines, append_assoc] at h
    obtain ⟨s', hleads, h'⟩ := h.fields hrow (by omega) honward hcolumn
    rw [hopen, hstart, append_assoc] at h'
    exact ⟨s', hleads, h'⟩
  induction rows generalizing s row tokens with
  | nil => simpa using hone (hrows row mem_cons_self) h honward hcolumn
  | cons next rows ih =>
    obtain ⟨r, more, hcons, hvisible, -⟩ := (hrows next (by simp) _ mem_cons_self).line_cons
    have hlines : next.lines (indent + 2) ++ (laterRows indent rows ++ after) =
        r :: (more ++ (laterLines (indent + 2) next.more ++ (laterRows indent rows ++ after))) := by
      simp [Row.lines, hcons]
    have hbehind : laterRows indent (next :: rows) ++ after =
        spaces indent ++ 45 :: 32 ::
          (next.lines (indent + 2) ++ (laterRows indent rows ++ after)) := by
      simp [laterRows]
    rw [hbehind, hlines] at h
    have hdash : Visible 45 := ⟨rfl, rfl, by decide⟩
    obtain ⟨s₁, hfirst, h₁⟩ := hone (hrows row mem_cons_self) h
      (.line hdash fun hzero => absurd hzero (Nat.ne_of_gt hpos)) (Nat.le_add_right indent 2)
    obtain ⟨s₂, hsecond, h₂⟩ := h₁.next_dash (by omega) hpos hvisible
    rw [← hlines] at h₂
    obtain ⟨s₃, hthird, h₃⟩ := ih (fun r' hr' => hrows r' (mem_cons_of_mem row hr')) h₂
    exact ⟨s₃, hfirst.trans (hsecond.trans hthird), by simpa using h₃⟩

/-! ## Lists -/

theorem Row.tokens_blockEnd (row : Row) :
    row.tokens ++ [.blockEnd] = NodeReader.mappingTokens row.entries := by
  rw [Row.tokens, NodeReader.mappingTokens, Row.entries, flatMap_map]
  rfl

/-- The ends of the records stand before the dashes of the next ones. -/
theorem rowTokens_eq (row : Row) (rows : List Row) :
    row.tokens ++ (rows.flatMap fun r => .blockEnd :: .blockEntry :: r.tokens) ++ [.blockEnd] =
      NodeReader.mappingTokens row.entries ++
        rows.flatMap fun r => .blockEntry :: NodeReader.mappingTokens r.entries := by
  induction rows generalizing row with
  | nil => simpa using row.tokens_blockEnd
  | cons next rows ih =>
    rw [flatMap_cons, flatMap_cons, ← row.tokens_blockEnd, append_assoc, append_assoc,
      append_assoc]
    grind

theorem Scanner.Stands.list {column : Nat} {rows : List Row}
    (hrows : ∀ r ∈ rows, ∀ f ∈ r.fields, f.Fits 6)
    (h : Stands s (listLines rows) column [0, -1] tokens false) :
    ∃ s' deeper tokens', Leads s s' ∧ Ready s' [] 0 (deeper ++ [0, -1]) tokens' ∧
      (∀ j ∈ deeper, 0 < j) ∧
      tokens' ++ replicate deeper.length .blockEnd = tokens ++ listTokens rows := by
  cases rows with
  | nil =>
    obtain ⟨s', hleads, h'⟩ := h.empty_list (Int.natCast_nonneg column) .finish
    exact ⟨s', [], _, hleads, h', by simp, by simp [listTokens]⟩
  | cons row rows =>
    obtain ⟨r, more, hcons, hvisible, -⟩ := (hrows row mem_cons_self _ mem_cons_self).line_cons
    have hlines : row.lines 6 ++ (laterRows 4 rows ++ []) =
        r :: (more ++ (laterLines 6 row.more ++ laterRows 4 rows)) := by
      simp [Row.lines, hcons]
    have hlist : listLines (row :: rows) = 10 :: (spaces 4 ++ 45 :: 32 ::
        (row.lines 6 ++ (laterRows 4 rows ++ []))) := by
      simp [listLines, laterRows]
    rw [hlist, hlines] at h
    have hdash : Visible 45 := ⟨rfl, rfl, by decide⟩
    have h₁ := h.ready_line (.line hdash (by decide))
    obtain ⟨s₂, hfirst, h₂⟩ := h₁.first_dash (by decide) (by decide) hvisible
    rw [← hlines] at h₂
    obtain ⟨s₃, hsecond, h₃⟩ := h₂.rows hrows (by decide) .finish (by decide)
    refine ⟨s₃, [6, 4], _, hfirst.trans hsecond, h₃, by decide, ?_⟩
    grind [listTokens, NodeReader.sequenceTokens, NodeReader.itemTokens, flatMap_map, rowTokens_eq]

/-- A list of records is read record by record. -/
theorem spells_list (depth : Nat) (rows : List Row) :
    NodeReader.Spells (depth + 3) (listTokens rows) (.sequence (rows.map Row.node)) := by
  cases rows with
  | nil => exact NodeReader.spells_empty (depth + 2)
  | cons row rows =>
    have hrows : ∀ item ∈ (row :: rows).map fun r => (NodeReader.mappingTokens r.entries, r.node),
        NodeReader.Spells (depth + 2) item.1 item.2 := by
      intro item hitem
      obtain ⟨r, -, rfl⟩ := mem_map.mp hitem
      refine NodeReader.spells_mapping fun e he => ?_
      obtain ⟨f, -, rfl⟩ := mem_map.mp he
      exact NodeReader.spells_scalar depth f.spelling
    have hlist := NodeReader.spells_sequence hrows
    rwa [map_map] at hlist

/-! ## Characters -/

theorem all_isAllowed_name {name : List Rune} (hname : IsName name) :
    name.all isAllowed = true := by
  rw [all_eq_true]
  intro r hr
  rcases hname.letters r hr with ⟨hlow, hhigh⟩ | hline
  · grind [isAllowed]
  · rw [hline]
    decide

theorem Field.Fits.all_isAllowed_line (hf : f.Fits indent) : f.line.all isAllowed = true := by
  rw [Field.line, all_append, all_cons, all_isAllowed_name hf.name, hf.allowed]
  decide

theorem all_isAllowed_laterRows {rows : List Row}
    (hrows : ∀ r ∈ rows, ∀ f ∈ r.fields, f.Fits (indent + 2)) :
    (laterRows indent rows).all isAllowed = true := by
  have hmarks : ∀ rs : List Rune, (45 :: 32 :: rs).all isAllowed = rs.all isAllowed := fun rs => rfl
  rw [laterRows, all_flatMap, all_eq_true]
  intro row hrow
  have hfields := hrows row hrow
  rw [all_append, all_isAllowed_spaces, hmarks, Row.lines, all_append,
    (hfields _ mem_cons_self).all_isAllowed_line, laterLines, all_flatMap]
  rw [Bool.true_and, Bool.true_and, all_eq_true]
  intro f hf
  rw [all_append, all_isAllowed_spaces, (hfields f (mem_cons_of_mem _ hf)).all_isAllowed_line]
  rfl

theorem all_isAllowed_listLines {rows : List Row} (hrows : ∀ r ∈ rows, ∀ f ∈ r.fields, f.Fits 6) :
    (listLines rows).all isAllowed = true := by
  cases rows with
  | nil => decide
  | cons row rows =>
    rw [listLines, all_cons, all_isAllowed_laterRows hrows]
    · decide
    · simp

end FaultRepair.Yaml
