/-
# Handing candidates over

Candidates that are written to a file are read back in the same order with the same content.
Texts that are written as blocks must not start with a blank or a line end: the block then tells
its indentation by a number that does not hold inside of a list, and the file cannot be read or
the text loses its first line.
-/

import FaultRepair.Proofs.Yaml.Records
import FaultRepair.Proofs.Yaml.Words

namespace FaultRepair.Fault

open Yaml Number List
open Text

variable {f : CandidateFile} {name t : Text}

/-! ## Filling records -/

/-- A name that is written as it stands and that stands for itself. -/
structure IsKey (name : Text) : Prop where
  read : textIn (.scalar [] name .plain) = some (some name)
  notMerge : isMerge (.scalar [] name .plain) = false

def keyed (e : Text × Node) : Node × Node := (.scalar [] e.1 .plain, e.2)

variable {α : Type} {set : Text → Node → α → Option (α × Bool)} {entries : List (Text × Node)}

theorem hasRepeatedKey_keyed (hnodup : (entries.map Prod.fst).Nodup) :
    hasRepeatedKey (entries.map keyed) = false := by
  induction entries with
  | nil => rfl
  | cons e entries ih => grind [keyed, sameKey, hasRepeatedKey]

/-- Entries whose names are not given yet are set one after another. -/
theorem foldlM_setEntry (hkeys : ∀ e ∈ entries, IsKey e.1) (hnodup : (entries.map Prod.fst).Nodup)
    {given : List Text} (hfresh : ∀ e ∈ entries, e.1 ∉ given) (a : α) :
    ((entries.map keyed).foldlM (setEntry set) (a, none, given)).map (fun acc => (acc.1, acc.2.1)) =
      (entries.foldlM (fun a e => (set e.1 e.2 a).map Prod.fst) a).map fun a => (a, none) := by
  induction entries generalizing a given with
  | nil => rfl
  | cons e entries ih =>
    obtain ⟨hnext, hnodup⟩ := nodup_cons.mp hnodup
    have hnew : e.1 ∉ given := hfresh e mem_cons_self
    have hstep : setEntry set (a, none, given) (keyed e) =
        (set e.1 e.2 a).map fun x => (x.1, none, e.1 :: given) := by
      rw [setEntry, keyed, (hkeys e mem_cons_self).read]
      cases hset : set e.1 e.2 a <;> simp [hset, hnew]
    rw [map_cons, foldlM_cons, foldlM_cons, hstep]
    grind

/-- A record is filled from entries with different names in their order. -/
theorem fill_eq (hkeys : ∀ e ∈ entries, IsKey e.1) (hnodup : (entries.map Prod.fst).Nodup)
    (fuel : Nat) (a : α) : (fill set (fuel + 1) none (entries.map keyed) a).map Prod.fst =
      entries.foldlM (fun a e => (set e.1 e.2 a).map Prod.fst) a := by
  have hplain : (entries.map keyed).filter (fun e => !isMerge e.1) = entries.map keyed := by
    rw [filter_eq_self]
    intro e he
    obtain ⟨f, hf, rfl⟩ := mem_map.mp he
    rw [keyed, (hkeys f hf).notMerge]
    rfl
  have hmerge : (entries.map keyed).find? (fun e => isMerge e.1) = none := by
    rw [find?_eq_none]
    intro e he
    obtain ⟨f, hf, rfl⟩ := mem_map.mp he
    rw [keyed, (hkeys f hf).notMerge]
    exact Bool.false_ne_true
  have hfold := @foldlM_setEntry α set entries hkeys hnodup [] (by simp) a
  rw [fill, hasRepeatedKey_keyed hnodup]
  simp only [Bool.false_eq_true, if_false, hplain, hmerge, Option.map_none, Option.bind_eq_bind]
  cases hset : (entries.map keyed).foldlM (setEntry set) (a, none, []) with
  | none =>
    rw [hset] at hfold
    rw [Option.map_eq_none_iff.mp hfold.symm]
    rfl
  | some acc => simp_all

/-! ## Values -/

theorem word?_ne_text (t u : Text) : word? t ≠ some (.text u) := by
  rw [word?]
  split_ifs <;> simp

/-- What is read as text is the text itself. -/
theorem eq_of_meaningOf {moments : Bool} {u : Text} (h : meaningOf moments t = .text u) :
    u = t := by
  have hword : ∀ m, word? t = some m → m ≠ .text u := by
    rintro m hm rfl
    exact word?_ne_text t u hm
  -- Every branch gives the text itself, something else, or a word's meaning.
  simp only [meaningOf] at h
  repeat' split at h
  all_goals grind

theorem scalarMeaning?_untagged (v : Text) (style : Style) :
    scalarMeaning? [] v style = some (if style = .plain then meaningOf true v else .text v) := by
  have htag : (if ([] : Text) == ofString "!" then [] else shortTag []) = [] := by decide
  rw [scalarMeaning?, htag]
  by_cases hstyle : style = .plain <;> simp [hstyle]

theorem scalarMeaning?_binary (v : Text) (style : Style) :
    scalarMeaning? (ofString "tag:yaml.org,2002:binary") v style =
      (Text.Base64.decode? v).map .text := by
  have htag : (if ofString "tag:yaml.org,2002:binary" == ofString "!" then []
      else shortTag (ofString "tag:yaml.org,2002:binary")) = ofString "!!binary" := by
    decide
  rw [scalarMeaning?, htag]
  rfl

/-- The spelling of a text is read as that text. -/
theorem textIn_textSpelling (t : Text) : textIn (textSpelling t).node = some (some t) := by
  have hmeaning : ∃ v, scalar? (textSpelling t).node = some (.text t, v) := by
    cases hutf8 : isUtf8 t with
    | true =>
      have htext : (if styleOf false t = .plain then meaningOf true t else .text t) = .text t := by
        split
        · grind [readsAsText, styleOf_cases, eq_of_meaningOf]
        · rfl
      refine ⟨t, ?_⟩
      simp [textSpelling, hutf8, Spelling.node, scalar?, follow?, scalarMeaning?_untagged, htext]
    | false =>
      have hne : t ≠ [] := by
        rintro rfl
        cases hutf8
      refine ⟨base64Lines (Text.Base64.encode t), ?_⟩
      simp [textSpelling, hutf8, Spelling.node, scalar?, follow?, scalarMeaning?_binary,
        (isCodeOf_base64Lines hne).decode_eq]
  obtain ⟨v, hv⟩ := hmeaning
  rw [textIn, hv]
  rfl

theorem intIn_ofInt {n : Int} (hlow : -0x8000000000000000 ≤ n) (hhigh : n < 0x8000000000000000) :
    intIn (wordSpelling (ofInt n)).node = some (some n) := by
  have hmeaning := meaningOf_ofInt hlow hhigh
  simp [intIn, scalar?, follow?, Spelling.node, wordSpelling, scalarMeaning?_untagged,
    hmeaning, hhigh]

def truthText (b : Bool) : Text := if b then "true" else "false"

theorem truthIn_truthText (b : Bool) :
    truthIn (wordSpelling (truthText b)).node = some (some b) := by
  cases b <;> decide

theorem isWord_truthText (b : Bool) : IsWord (truthText b) := by
  cases b <;> exact ⟨by decide +kernel, by decide, by decide⟩

/-! ## Candidates -/

/-- A candidate whose numbers are of 64 bits, whose score reads back, and whose texts do not start
with a blank or a line end where they are written as blocks. -/
structure Candidate.Portable (c : Candidate) : Prop where
  ident : StartsFirm c.ident
  file : StartsFirm c.file
  line : -0x8000000000000000 ≤ c.line ∧ c.line < 0x8000000000000000
  col : -0x8000000000000000 ≤ c.col ∧ c.col < 0x8000000000000000
  depth : -0x8000000000000000 ≤ c.depth ∧ c.depth < 0x8000000000000000
  score : scoreIn (.scalar [] (scoreWord c.score) .plain) = some (some c.score)

def textField (name t : Text) : Field := ⟨name, writeLine 6 t, textSpelling t⟩

def wordField (name t : Text) : Field := ⟨name, 32 :: (runes t ++ [10]), wordSpelling t⟩

def Candidate.row (c : Candidate) : Row where
  first := textField "ident" c.ident
  more := [wordField "line" (ofInt c.line), wordField "col" (ofInt c.col), textField "file" c.file,
    wordField "is_dep" (truthText c.isDep), wordField "depth" (ofInt c.depth),
    wordField "score" (scoreWord c.score)]

def fieldNames : List Text :=
  ["revision", "candidates", "ident", "line", "col", "file", "is_dep", "depth",
    "score"].map ofString

theorem fieldNames_spec : ∀ name ∈ fieldNames,
    Scanner.IsName (runes name) ∧ ofRunes (runes name) = name ∧ IsKey name := by
  have h : ∀ name ∈ fieldNames, runes name ≠ [] ∧ (runes name).length ≤ 1024 ∧
      (∀ r : Nat, r ∈ runes name → (97 ≤ r ∧ r ≤ 122) ∨ r = 95) ∧ ofRunes (runes name) = name ∧
        textIn (.scalar [] name .plain) = some (some name) ∧
          isMerge (.scalar [] name .plain) = false := by
    decide
  intro name hname
  obtain ⟨hne, hshort, hletters, hbytes, hread, hmerge⟩ := h name hname
  exact ⟨⟨hne, hshort, hletters⟩, hbytes, hread, hmerge⟩

theorem fits_textField (hname : name ∈ fieldNames) (ht : StartsFirm t) :
    (textField name t).Fits 6 :=
  ⟨(fieldNames_spec name hname).1, (fieldNames_spec name hname).2.1, rfl, scansTo_text 6 ht,
    all_isAllowed_writeLine 6 t⟩

theorem fits_wordField (hname : name ∈ fieldNames) (ht : IsWord t) : (wordField name t).Fits 6 :=
  ⟨(fieldNames_spec name hname).1, (fieldNames_spec name hname).2.1, rfl, scansTo_word 6 ht,
    all_isAllowed_word ht⟩

theorem Candidate.Portable.fits {c : Candidate} (hc : c.Portable) :
    ∀ f ∈ c.row.fields, f.Fits 6 := by
  simp only [Row.fields, Candidate.row, forall_mem_cons]
  exact ⟨fits_textField (by decide) hc.ident, fits_wordField (by decide) (isWord_ofInt _),
    fits_wordField (by decide) (isWord_ofInt _), fits_textField (by decide) hc.file,
    fits_wordField (by decide) (isWord_truthText _), fits_wordField (by decide) (isWord_ofInt _),
    fits_wordField (by decide) (isWord_scoreWord hc.score), by simp⟩

theorem setField_eq (n : Node) (c : Candidate) :
    setField "ident" n c = (textIn n).map (fun v => ({ c with ident := v.getD c.ident }, true)) ∧
      setField "line" n c = (intIn n).map (fun v => ({ c with line := v.getD c.line }, true)) ∧
      setField "col" n c = (intIn n).map (fun v => ({ c with col := v.getD c.col }, true)) ∧
      setField "file" n c = (textIn n).map (fun v => ({ c with file := v.getD c.file }, true)) ∧
      setField "is_dep" n c =
        (truthIn n).map (fun v => ({ c with isDep := v.getD c.isDep }, true)) ∧
      setField "depth" n c = (intIn n).map (fun v => ({ c with depth := v.getD c.depth }, true)) ∧
      setField "score" n c =
        (scoreIn n).map (fun v => ({ c with score := v.getD c.score }, true)) :=
  ⟨rfl, rfl, rfl, rfl, rfl, rfl, rfl⟩

/-- A record is read as the candidate it was written for. -/
theorem Candidate.Portable.candidateIn_row {c : Candidate} (hc : c.Portable) (fuel : Nat) :
    candidateIn (fuel + 1) c.row.node = some (some c) := by
  obtain ⟨entries, hentries⟩ :
      ∃ entries, entries = c.row.fields.map fun f => (f.name, f.spelling.node) := ⟨_, rfl⟩
  have hnode : c.row.node = .mapping (entries.map keyed) := by
    rw [hentries]
    rfl
  have hnames : entries.map Prod.fst =
      ["ident", "line", "col", "file", "is_dep", "depth", "score"].map ofString := by
    rw [hentries]
    rfl
  have hkeys : ∀ e ∈ entries, IsKey e.1 := by
    intro e he
    have hmem : e.1 ∈ entries.map Prod.fst := mem_map_of_mem he
    rw [hnames] at hmem
    refine (fieldNames_spec e.1 ?_).2.2
    exact mem_of_mem_drop (i := 2) hmem
  have hfill := @fill_eq Candidate setField entries hkeys (by rw [hnames]; decide) fuel
    { ident := [], line := 0, col := 0, file := [] }
  have hset : entries.foldlM (fun a e => (setField e.1 e.2 a).map Prod.fst)
      { ident := [], line := 0, col := 0, file := [] } = some c := by
    have hline := intIn_ofInt hc.line.1 hc.line.2
    have hcol := intIn_ofInt hc.col.1 hc.col.2
    have hdepth := intIn_ofInt hc.depth.1 hc.depth.2
    have hscore : scoreIn (wordSpelling (scoreWord c.score)).node = some (some c.score) := hc.score
    rw [hentries]
    simp only [Row.fields, Candidate.row, textField, wordField, map_cons, map_nil, foldlM_cons,
      foldlM_nil, (setField_eq _ _).1, (setField_eq _ _).2.1, (setField_eq _ _).2.2.1,
      (setField_eq _ _).2.2.2.1, (setField_eq _ _).2.2.2.2.1, (setField_eq _ _).2.2.2.2.2.1,
      (setField_eq _ _).2.2.2.2.2.2, textIn_textSpelling, hline, hcol, hdepth,
        truthIn_truthText, hscore,
      Option.map_some, Option.bind_eq_bind, Option.bind_some, Option.getD_some]
    rfl
  rw [hset] at hfill
  obtain ⟨result, hresult, hfirst⟩ := Option.map_eq_some_iff.mp hfill
  rw [hnode, candidateIn]
  simp only [follow?, hresult, Option.bind_eq_bind, Option.bind_some, hfirst]

/-! ## Files -/

theorem writeItem_document (c : Candidate) : writeItem 4 c.document = 32 :: c.row.lines 6 := by
  simp [Candidate.document, writeItem, writeFields, writeValue, numberWord, truthWord, truthText,
    Row.lines, Candidate.row, laterLines, Field.line, textField, wordField]

theorem writeItems_documents (cs : List Candidate) :
    writeItems 4 (cs.map Candidate.document) = laterRows 4 (cs.map Candidate.row) := by
  induction cs with
  | nil => rfl
  | cons c cs ih =>
    rw [map_cons, map_cons, writeItems, writeItem_document, ih, laterRows, laterRows,
      flatMap_cons]
    simp

theorem writeValue_documents (cs : List Candidate) :
    writeValue 0 (.list (cs.map Candidate.document)) = listLines (cs.map Candidate.row) := by
  cases cs with
  | nil => rfl
  | cons c cs =>
    rw [writeValue, if_neg (by simp)]
    exact congrArg (10 :: ·) (writeItems_documents (c :: cs))

def listPart (rows : List Row) : List Rune := runes "candidates" ++ 58 :: listLines rows

theorem characters_document (f : CandidateFile) :
    f.document.characters =
      if f.revision.isEmpty then listPart (f.candidates.map Candidate.row)
      else runes "revision" ++ 58 ::
        (writeLine 0 f.revision ++ listPart (f.candidates.map Candidate.row)) := by
  grind [CandidateFile.document, Document.characters, writeFields, writeValue_documents, listPart,
    writeValue, spaces]

def listEntry (rows : List Row) : NodeReader.Entry where
  name := "candidates"
  piece := listTokens rows
  node := .sequence (rows.map Row.node)

/-- The list is scanned to the end of the text. -/
theorem run_listPart {s : Scanner} {i : Int} {is : List Int} {tokens : List Token} {rows : List Row}
    (hrows : ∀ r ∈ rows, ∀ f ∈ r.fields, f.Fits 6) (hi : i ≤ 0)
    (hopen : Scanner.openAt 0 i is = [0, -1]) (h : s.Ready (listPart rows) 0 (i :: is) tokens) :
    ∃ s', s.Leads s' ∧ ∀ n, (Scanner.run (n + 2) s').1.toList =
      tokens ++ Scanner.opening .blockMappingStart 0 i ++
        (listEntry rows).tokens ++ [.blockEnd, .streamEnd] ∧
        (Scanner.run (n + 2) s').2 = true := by
  obtain ⟨hname, hbytes, -⟩ := fieldNames_spec "candidates" (by decide)
  have hbehind : blankOrEnd (listLines rows) = true := by cases rows <;> rfl
  obtain ⟨s₁, hfirst, h₁⟩ := h.key hname hbehind hi
  rw [hopen, hbytes] at h₁
  obtain ⟨s₂, deeper, tokens', hsecond, h₂, hdeeper, htokens⟩ := h₁.list hrows
  refine ⟨s₂, hfirst.trans hsecond, fun n => ?_⟩
  obtain ⟨hrun, hdone⟩ := h₂.finish hdeeper n
  rw [htokens] at hrun
  refine ⟨?_, hdone⟩
  rw [hrun]
  simp [listEntry, NodeReader.Entry.tokens]

theorem scan_of_leads {rs : List Rune} {s : Scanner} {tokens : List Token}
    (hleads : Scanner.Leads { rest := rs, tokens := #[.streamStart] } s)
    (hrun : ∀ n, (Scanner.run (n + 2) s).1.toList = tokens ∧ (Scanner.run (n + 2) s).2 = true) :
    (Token.scan rs).1.toList = tokens ∧ (Token.scan rs).2 = true := by
  obtain ⟨n, hn, hsteps⟩ := hleads
  have hfuel : rs.length + 2 = rs.length - n + 2 + n := by
    have : n ≤ rs.length := Nat.le_trans (Nat.le_add_right _ _) hn
    omega
  rw [Token.scan, hfuel, hsteps]
  exact hrun (rs.length - n)

def revisionEntry (p : Spelling) : NodeReader.Entry where
  name := "revision"
  piece := p.tokens
  node := p.node

/-- A revision that does not start with a tab where it is written as a block. -/
def RevisionFirm (t : Text) : Prop :=
  isUtf8 t = true → styleOf false t = .literal → (runes t).head? ≠ some 9

theorem onward_name (hname : name ∈ fieldNames) (back : List Rune) :
    Scanner.Onward (runes name ++ back) 0 (runes name ++ back) := by
  obtain ⟨hletters, -⟩ := fieldNames_spec name hname
  obtain ⟨r, rest, hcons⟩ := exists_cons_of_ne_nil hletters.ne_nil
  have hr : r ∈ runes name := hcons ▸ mem_cons_self
  obtain ⟨hvisible, -, -, -, hmark⟩ := hletters.isPlain hr
  have honward : Scanner.Onward (spaces 0 ++ r :: (rest ++ back)) 0 (r :: (rest ++ back)) :=
    .line hvisible fun _ => hmark
  rwa [hcons]

theorem ready_start {rs : List Rune} (honward : Scanner.Onward rs 0 rs) :
    Scanner.Ready { rest := rs, tokens := #[.streamStart] } rs 0 [-1] [.streamStart] :=
  Scanner.Stands.ready ⟨rfl, rfl, rfl, rfl, rfl, rfl, ⟨{}, rfl, rfl⟩, rfl⟩ honward.visible

/-- The tokens of a file, with the revision read as some text. -/
theorem scan_file (hrevision : RevisionFirm f.revision)
    (hcandidates : ∀ c ∈ f.candidates, c.Portable) :
    ∃ lead : Option Spelling, (∀ p ∈ lead, ∃ t, textIn p.node = some (some t)) ∧
      (Token.scan f.document.characters).1.toList = .streamStart ::
        (NodeReader.mappingTokens
          (lead.toList.map revisionEntry ++ [listEntry (f.candidates.map Candidate.row)]) ++
          [.streamEnd]) ∧ (Token.scan f.document.characters).2 = true := by
  have hrows : ∀ r ∈ f.candidates.map Candidate.row, ∀ g ∈ r.fields, g.Fits 6 := by
    intro r hr
    obtain ⟨c, hc, rfl⟩ := mem_map.mp hr
    exact (hcandidates c hc).fits
  have hlist : Scanner.Onward (listPart (f.candidates.map Candidate.row)) 0
      (listPart (f.candidates.map Candidate.row)) := onward_name (by decide) _
  rw [characters_document]
  split
  · obtain ⟨s, hleads, hrun⟩ := run_listPart hrows (by decide) rfl (ready_start hlist)
    refine ⟨none, by simp, ?_⟩
    have hscan := scan_of_leads hleads hrun
    simpa [Scanner.opening, NodeReader.mappingTokens] using hscan
  · have hname : ofString "revision" ∈ fieldNames := by decide
    obtain ⟨hletters, hbytes, -⟩ := fieldNames_spec _ hname
    have hstart := ready_start (onward_name hname
      (58 :: (writeLine 0 f.revision ++ listPart (f.candidates.map Candidate.row))))
    obtain ⟨s₁, hfirst, h₁⟩ := hstart.key hletters rfl (by decide)
    rw [hbytes] at h₁
    obtain ⟨s₂, p, hsecond, h₂, hp⟩ := scans_outermost hrevision h₁ hlist
    obtain ⟨s₃, hthird, hrun⟩ := run_listPart hrows (Int.le_refl 0) rfl h₂
    have hscan := scan_of_leads (hfirst.trans (hsecond.trans hthird)) hrun
    refine ⟨some p, ?_, ?_⟩
    · rintro _ ⟨⟩
      rcases hp with rfl | ⟨value, rfl⟩
      · exact ⟨f.revision, textIn_textSpelling f.revision⟩
      · refine ⟨value, ?_⟩
        simp [textIn, scalar?, follow?, Spelling.node, scalarMeaning?_untagged]
    · simpa [Scanner.opening, NodeReader.mappingTokens, revisionEntry,
        NodeReader.Entry.tokens] using hscan

theorem all_isAllowed_characters (hcandidates : ∀ c ∈ f.candidates, c.Portable) :
    f.document.characters.all isAllowed = true := by
  have hlist : (listPart (f.candidates.map Candidate.row)).all isAllowed = true := by
    have hrows : (listLines (f.candidates.map Candidate.row)).all isAllowed = true := by
      refine all_isAllowed_listLines fun r hr => ?_
      obtain ⟨c, hc, rfl⟩ := mem_map.mp hr
      exact (hcandidates c hc).fits
    rw [listPart, all_append, all_cons, hrows]
    decide
  rw [characters_document]
  split
  · exact hlist
  · rw [all_append, all_cons, all_append, all_isAllowed_writeLine, hlist]
    decide

theorem withoutMark_render (f : CandidateFile) : withoutMark f.render = f.render := by
  obtain ⟨b, more, hcons, hb⟩ : ∃ b more, f.render = b :: more ∧ b ≠ 0xEF := by
    rw [CandidateFile.render, Document.render, characters_document]
    split
    · exact ⟨99, _, rfl, by decide⟩
    · exact ⟨114, _, rfl, by decide⟩
  rw [hcons]
  rw [withoutMark]
  simp [hb]

theorem read?_file (hrevision : RevisionFirm f.revision)
    (hcandidates : ∀ c ∈ f.candidates, c.Portable) :
    ∃ lead : Option Spelling, (∀ p ∈ lead, ∃ t, textIn p.node = some (some t)) ∧
      Node.read? f.render = some (some (.mapping ((lead.toList.map revisionEntry ++
        [listEntry (f.candidates.map Candidate.row)]).map NodeReader.Entry.pair))) := by
  obtain ⟨lead, hlead, htokens, hcomplete⟩ := scan_file hrevision hcandidates
  refine ⟨lead, hlead, ?_⟩
  have hallowed := all_isAllowed_characters hcandidates
  have hscalar : ∀ r ∈ f.document.characters, Text.IsScalar r := fun r hr =>
    isScalar_of_isAllowed (all_eq_true.mp hallowed r hr)
  have hutf8 : isUtf8 f.render = true := isUtf8_ofRunes hscalar
  have hrunes : runes f.render = f.document.characters := runes_ofRunes hscalar
  obtain ⟨entries, hentries⟩ : ∃ entries, entries =
      lead.toList.map revisionEntry ++ [listEntry (f.candidates.map Candidate.row)] := ⟨_, rfl⟩
  rw [← hentries] at htokens ⊢
  obtain ⟨depth, hdepth⟩ : ∃ depth, (Token.scan f.document.characters).1.size + 1 = depth + 4 := by
    have hsize := congrArg length htokens
    simp [NodeReader.mappingTokens] at hsize
    exact ⟨_, by rw [hsize]⟩
  have hspells : NodeReader.Spells (depth + 4) (NodeReader.mappingTokens entries)
      (.mapping (entries.map NodeReader.Entry.pair)) := by
    refine NodeReader.spells_mapping fun e he => ?_
    rw [hentries, mem_append, mem_singleton] at he
    rcases he with hfirst | rfl
    · obtain ⟨p, -, rfl⟩ := mem_map.mp hfirst
      exact NodeReader.spells_scalar (depth + 2) p
    · exact spells_list depth _
  grind [Node.read?, withoutMark_render, NodeReader.ofTokens?_eq]

theorem filterMapM_rows {cs : List Candidate} (hcs : ∀ c ∈ cs, c.Portable) (fuel : Nat) :
    ((cs.map Candidate.row).map Row.node).filterMapM (candidateIn (fuel + 1)) = some cs := by
  induction cs with
  | nil => rfl
  | cons c cs ih =>
    have hrest := ih fun c' hc' => hcs c' (mem_cons_of_mem c hc')
    rw [map_cons, map_cons, filterMapM_cons, (hcs c mem_cons_self).candidateIn_row]
    simp only [Option.bind_eq_bind, Option.bind_some, hrest]
    rfl

/-- Each part of the file has its own name. -/
theorem setPart_eq (fuel : Nat) (n : Node) (f : CandidateFile) :
    setPart fuel "revision" n f =
      (textIn n).map (fun v => ({ f with revision := v.getD f.revision }, true)) ∧
      setPart fuel "candidates" n f =
        (candidatesIn fuel n).map (fun v => ({ f with candidates := v.getD f.candidates }, true)) :=
  ⟨rfl, rfl⟩

/-- The candidates of a file are read back in their order. -/
theorem candidates_handed_over {revision : Text} {cs : List Candidate}
    (hrevision : RevisionFirm revision) (hcandidates : ∀ c ∈ cs, c.Portable) :
    (CandidateFile.read? (CandidateFile.mk revision cs).render).map CandidateFile.candidates =
      some cs := by
  obtain ⟨lead, hlead, htree⟩ := read?_file (f := ⟨revision, cs⟩) hrevision hcandidates
  obtain ⟨parts, hparts⟩ : ∃ parts : List (Text × Node), parts =
      lead.toList.map (fun p => (ofString "revision", p.node)) ++
        [(ofString "candidates", (listEntry (cs.map Candidate.row)).node)] := ⟨_, rfl⟩
  have hentries : (lead.toList.map revisionEntry ++ [listEntry (cs.map Candidate.row)]).map
      NodeReader.Entry.pair = parts.map keyed := by
    rw [hparts]
    cases lead <;> rfl
  have hkeys : ∀ e ∈ parts, IsKey e.1 := by
    have hrevision := (fieldNames_spec "revision" (by decide)).2.2
    have hlist := (fieldNames_spec "candidates" (by decide)).2.2
    rw [hparts]
    cases lead <;> simp [hrevision, hlist]
  have hnodup : (parts.map Prod.fst).Nodup := by
    rw [hparts]
    cases lead <;> simp
    decide
  rw [hentries] at htree
  generalize (CandidateFile.mk revision cs).render = t at htree ⊢
  have hfill := @fill_eq CandidateFile (setPart (t.length + 1)) parts hkeys hnodup t.length {}
  have hlist : candidatesIn (t.length + 1) (listEntry (cs.map Candidate.row)).node =
      some (some cs) := by
    rw [candidatesIn, listEntry]
    simp only [follow?, Option.bind_eq_bind, Option.bind_some, filterMapM_rows hcandidates,
      Option.map_some]
  have hset : ∃ r, parts.foldlM (fun a e => (setPart (t.length + 1) e.1 e.2 a).map Prod.fst) {} =
      some ⟨r, cs⟩ := by
    rw [hparts]
    cases lead with
    | none => exact ⟨[], by simp [(setPart_eq _ _ _).2, hlist]⟩
    | some p =>
      obtain ⟨r, hr⟩ := hlead p rfl
      exact ⟨r, by simp [(setPart_eq _ _ _).1, (setPart_eq _ _ _).2, hr, hlist]⟩
  obtain ⟨r, hset⟩ := hset
  rw [hset] at hfill
  obtain ⟨result, hresult, hfirst⟩ := Option.map_eq_some_iff.mp hfill
  rw [CandidateFile.read?, htree]
  simp only [Option.bind_eq_bind, Option.bind_some, hresult, Option.map_some, hfirst]

instance (t : Text) : Decidable (StartsFirm t) :=
  inferInstanceAs (Decidable (_ → _ → ∀ r ∈ (runes t).head?, isBlank r = false ∧ isBreak r = false))

instance (t : Text) : Decidable (RevisionFirm t) :=
  inferInstanceAs (Decidable (_ → _ → _))

/-- Candidates with texts that look like something else, with line ends, and with bytes that are
no text. -/
def trickyCandidates : List Candidate :=
  [{ ident := "say: \"hi\" #1 ", line := -1, col := 0x7FFFFFFFFFFFFFFF, file := "null",
     score := Binary64.ofDecimal false 5 (-1) },
   { ident := "a\n\n  b\n\n", line := 0, col := 7, file := "2024-02-29", isDep := true,
     depth := -3 },
   { ident := [0xFF, 0x0A], line := 12, col := 7, file := " ~\t", isDep := true, depth := -3 }]

theorem tricky_candidates_handed_over :
    RevisionFirm "\n yes" ∧ (∀ c ∈ trickyCandidates, c.Portable) ∧
      (CandidateFile.read? (CandidateFile.mk "\n yes" trickyCandidates).render).map
        CandidateFile.candidates =
        some trickyCandidates := by
  have hrevision : RevisionFirm "\n yes" := by decide +kernel
  have hcandidates : ∀ c ∈ trickyCandidates, c.Portable := by
    intro c hc
    simp only [trickyCandidates, mem_cons, not_mem_nil, or_false] at hc
    rcases hc with rfl | rfl | rfl <;> constructor <;> decide +kernel
  exact ⟨hrevision, hcandidates, candidates_handed_over hrevision hcandidates⟩

/-- An identifier that starts with a line end makes the file unreadable, and one that is nothing
but a line end is lost. -/
theorem leading_break_not_handed_over :
    CandidateFile.read? (CandidateFile.mk []
      [{ ident := "\na", line := 1, col := 1, file := "f" }]).render = none ∧
      CandidateFile.read? (CandidateFile.mk []
        [{ ident := "\n", line := 1, col := 1, file := "f" }]).render =
        some ⟨[], [{ ident := [], line := 1, col := 1, file := "f" }]⟩ := by
  decide +kernel

end FaultRepair.Fault
