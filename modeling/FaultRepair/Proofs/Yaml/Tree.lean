/-
# Trees of tokens

The tokens of a node are read as that node, whatever follows them. Blocks are read entry by
entry, so what holds of the entries of a block holds of the block.
-/

import FaultRepair.Proofs.Yaml.Written

namespace FaultRepair.Yaml

open List Option

def Spelling.node (p : Spelling) : Node :=
  .scalar (if p.encoded then Text.ofString "tag:yaml.org,2002:binary" else []) p.value p.style

namespace NodeReader

/-- The reader stands before the tokens, and handles have the meaning they have without any
directive. -/
structure At (r : NodeReader) (left : List Token) : Prop where
  complete_eq : r.complete = true
  left_eq : r.tokens.toList.drop r.next = left
  handles_eq : r.handles =
    [(Text.ofString "!", Text.ofString "!"),
      (Text.ofString "!!", Text.ofString "tag:yaml.org,2002:")]

variable {r : NodeReader} {t : Token} {left more : List Token}

theorem At.peek? (h : At r (t :: left)) : r.peek? = some t := by
  have hget : r.tokens.toList[r.next]? = some t := by
    have hfirst := congrArg head? h.left_eq
    rwa [head?_drop] at hfirst
  have hgetD : r.tokens.getD r.next .streamEnd = t := by
    rw [Array.getD_eq_getD_getElem?, ← Array.getElem?_toList, hget]
    rfl
  rw [NodeReader.peek?, h.complete_eq, hgetD]
  rfl

theorem At.skip (h : At r (t :: left)) : At r.skip left := by
  refine ⟨h.complete_eq, ?_, h.handles_eq⟩
  have htail := congrArg tail h.left_eq
  rwa [tail_drop] at htail

theorem At.length_le (h : At r left) : left.length ≤ r.tokens.size := by
  rw [← h.left_eq, length_drop, Array.length_toList]
  exact Nat.sub_le _ _

def startsNode : Token → Bool
  | .tag .. | .scalar .. | .flowSequenceStart | .blockSequenceStart | .blockMappingStart => true
  | _ => false

/-- Tokens that are read as a node. -/
structure Spells (depth : Nat) (piece : List Token) (n : Node) : Prop where
  start : ∃ t rest, piece = t :: rest ∧ startsNode t = true
  read : ∀ (flat : Bool) {r : NodeReader} {more : List Token}, At r (piece ++ more) →
    ∃ r', nodeOfDepth depth true flat r = some (n, r') ∧ At r' more

/-! ## Scalars -/

theorem spells_scalar (depth : Nat) (p : Spelling) : Spells (depth + 1) p.tokens p.node := by
  obtain ⟨encoded, value, style⟩ := p
  cases encoded with
  | false =>
    refine ⟨⟨_, _, rfl, rfl⟩, fun flat r more h => ?_⟩
    have hfirst : At r (.scalar value style :: more) := h
    refine ⟨r.skip, ?_, hfirst.skip⟩
    rw [nodeOfDepth, properties]
    simp [hfirst.peek?, openAnchor, closeAnchor, Spelling.node]
  | true =>
    refine ⟨⟨_, _, rfl, rfl⟩, fun flat r more h => ?_⟩
    have hfirst : At r (.tag "!!" "binary" :: .scalar value style :: more) := h
    have hsecond := hfirst.skip
    have htag : r.fullTag? "!!" "binary" = some (Text.ofString "tag:yaml.org,2002:binary") := by
      rw [fullTag?, h.handles_eq]
      decide
    refine ⟨r.skip.skip, ?_, hsecond.skip⟩
    rw [nodeOfDepth, properties]
    simp [hfirst.peek?, hsecond.peek?, htag, openAnchor, closeAnchor, Spelling.node]

theorem spells_empty (depth : Nat) :
    Spells (depth + 1) [.flowSequenceStart, .flowSequenceEnd] (.sequence []) := by
  refine ⟨⟨_, _, rfl, rfl⟩, fun flat r more h => ?_⟩
  have hsecond : At r.skip (.flowSequenceEnd :: more) := h.skip
  refine ⟨r.skip.skip, ?_, hsecond.skip⟩
  rw [nodeOfDepth, properties]
  simp [At.peek? h, flowItems, hsecond.peek?, openAnchor, closeAnchor]

/-! ## Blocks -/

theorem length_le_flatMap {α β : Type} {f : α → List β} (hf : ∀ a, f a ≠ []) (l : List α) :
    l.length ≤ (l.flatMap f).length := by
  induction l with
  | nil => exact Nat.le_refl 0
  | cons a l ih =>
    have hpos : 0 < (f a).length := length_pos_iff.mpr (hf a)
    rw [flatMap_cons, length_append, length_cons]
    omega

/-- A node with its name and its tokens. -/
structure Entry where
  name : Text
  piece : List Token
  node : Node

def Entry.tokens (e : Entry) : List Token := .key :: .scalar e.name .plain :: .value :: e.piece

def Entry.pair (e : Entry) : Node × Node := (.scalar [] e.name .plain, e.node)

theorem blockPart_eq {node : Reader} (h : At r (t :: left)) (ht : startsNode t = true) :
    blockPart node r = node r := by
  rw [blockPart, h.peek?]
  cases t <;> first | rfl | cases ht

/-- The entries of a mapping are read one after another. -/
theorem blockEntries_eq {depth fuel : Nat} {entries : List Entry} {acc : List (Node × Node)}
    (hentries : ∀ e ∈ entries, Spells (depth + 1) e.piece e.node) (hfuel : entries.length < fuel)
    (h : At r (entries.flatMap Entry.tokens ++ .blockEnd :: more)) :
    ∃ r', blockEntries (nodeOfDepth (depth + 1) true true) fuel acc r =
      some (.mapping (acc.reverse ++ entries.map Entry.pair), r') ∧ At r' more := by
  induction entries generalizing fuel acc r with
  | nil =>
    obtain ⟨fuel, rfl⟩ := Nat.exists_eq_add_one.mpr hfuel
    refine ⟨r.skip, ?_, At.skip h⟩
    rw [blockEntries, At.peek? h]
    simp
  | cons e entries ih =>
    obtain ⟨fuel, rfl⟩ := Nat.exists_eq_add_one.mpr (Nat.zero_lt_of_lt hfuel)
    have hkey : At r (.key :: .scalar e.name .plain :: .value ::
        (e.piece ++ (entries.flatMap Entry.tokens ++ .blockEnd :: more))) := by
      simpa [Entry.tokens] using h
    -- The name, which is a scalar.
    obtain ⟨r₁, hname, h₁⟩ := (spells_scalar depth (wordSpelling e.name)).read true hkey.skip
    have hname' : blockPart (nodeOfDepth (depth + 1) true true) r.skip =
        some (.scalar [] e.name .plain, r₁) := (blockPart_eq hkey.skip rfl).trans hname
    -- What stands behind it.
    obtain ⟨t, rest, hpiece, hstart⟩ := (hentries e mem_cons_self).start
    obtain ⟨r₂, hvalue, h₂⟩ := (hentries e mem_cons_self).read true h₁.skip
    have hvalue' : blockPart (nodeOfDepth (depth + 1) true true) r₁.skip = some (e.node, r₂) := by
      have hbehind : At r₁.skip
          (t :: (rest ++ (entries.flatMap Entry.tokens ++ .blockEnd :: more))) := by
        simpa [hpiece] using h₁.skip
      rw [← hvalue]
      exact blockPart_eq hbehind hstart
    have hrest : ∃ r', blockEntries (nodeOfDepth (depth + 1) true true) fuel
        ((.scalar [] e.name .plain, e.node) :: acc) r₂ =
          some (.mapping (((.scalar [] e.name .plain, e.node) :: acc).reverse ++
            entries.map Entry.pair), r') ∧
            At r' more :=
      ih (fun e' he' => hentries e' (mem_cons_of_mem e he')) (Nat.lt_of_succ_lt_succ hfuel) h₂
    obtain ⟨r', hread, h'⟩ := hrest
    refine ⟨r', ?_, h'⟩
    rw [blockEntries, hkey.peek?]
    simp only [bind_eq_bind, bind_some, hname', h₁.peek?, hvalue']
    simpa [Entry.pair] using hread

def mappingTokens (entries : List Entry) : List Token :=
  .blockMappingStart :: (entries.flatMap Entry.tokens ++ [.blockEnd])

theorem spells_mapping {depth : Nat} {entries : List Entry}
    (hentries : ∀ e ∈ entries, Spells (depth + 1) e.piece e.node) :
    Spells (depth + 2) (mappingTokens entries) (.mapping (entries.map Entry.pair)) := by
  refine ⟨⟨_, _, rfl, rfl⟩, fun flat r more h => ?_⟩
  have hstart : At r (.blockMappingStart ::
    (entries.flatMap Entry.tokens ++ .blockEnd :: more)) := by
    simpa [mappingTokens] using h
  have hfuel : entries.length < r.tokens.size + 1 := by
    have hleft := hstart.length_le
    have hentries : entries.length ≤ (entries.flatMap Entry.tokens).length :=
      length_le_flatMap (fun e => cons_ne_nil _ _) entries
    simp only [length_cons, length_append] at hleft
    omega
  have hread : ∃ r', blockEntries (nodeOfDepth (depth + 1) true true)
      (r.tokens.size + 1) [] r.skip =
      some (.mapping ([].reverse ++ entries.map Entry.pair), r') ∧ At r' more :=
    blockEntries_eq hentries hfuel hstart.skip
  obtain ⟨r', hread, h'⟩ := hread
  refine ⟨r', ?_, h'⟩
  rw [nodeOfDepth, properties]
  simpa [hstart.peek?, openAnchor, closeAnchor] using hread

def itemTokens (item : List Token × Node) : List Token := .blockEntry :: item.1

/-- The entries of a sequence are read one after another. -/
theorem blockItems_eq {depth fuel : Nat} {items : List (List Token × Node)} {acc : List Node}
    (hitems : ∀ i ∈ items, Spells depth i.1 i.2) (hfuel : items.length < fuel)
    (h : At r (items.flatMap itemTokens ++ .blockEnd :: more)) :
    ∃ r', blockItems (nodeOfDepth depth true false) fuel acc r =
      some (.sequence (acc.reverse ++ items.map Prod.snd), r') ∧ At r' more := by
  induction items generalizing fuel acc r with
  | nil =>
    obtain ⟨fuel, rfl⟩ := Nat.exists_eq_add_one.mpr hfuel
    refine ⟨r.skip, ?_, At.skip h⟩
    rw [blockItems, At.peek? h]
    simp
  | cons i items ih =>
    obtain ⟨fuel, rfl⟩ := Nat.exists_eq_add_one.mpr (Nat.zero_lt_of_lt hfuel)
    have hspells := hitems i mem_cons_self
    obtain ⟨t, rest, hpiece, hstart⟩ := hspells.start
    have hentry : At r (.blockEntry ::
      (i.1 ++ (items.flatMap itemTokens ++ .blockEnd :: more))) := by
      simpa [itemTokens] using h
    have hbehind : At r.skip (t :: (rest ++ (items.flatMap itemTokens ++ .blockEnd :: more))) := by
      simpa [hpiece] using hentry.skip
    obtain ⟨r₁, hnode, h₁⟩ := hspells.read false hentry.skip
    have hrest : ∃ r', blockItems (nodeOfDepth depth true false) fuel (i.2 :: acc) r₁ =
        some (.sequence ((i.2 :: acc).reverse ++ items.map Prod.snd), r') ∧ At r' more :=
      ih (fun i' hi' => hitems i' (mem_cons_of_mem i hi')) (Nat.lt_of_succ_lt_succ hfuel) h₁
    obtain ⟨r', hread, h'⟩ := hrest
    refine ⟨r', ?_, h'⟩
    rw [blockItems, hentry.peek?]
    simp only [bind_eq_bind, bind_some, hbehind.peek?, hnode]
    have hwhole : (i.2 :: acc).reverse ++ items.map Prod.snd = acc.reverse ++
        (i :: items).map Prod.snd := by
      simp
    rw [← hwhole, ← hread]
    cases t <;> first | rfl | cases hstart

def sequenceTokens (items : List (List Token × Node)) : List Token :=
  .blockSequenceStart :: (items.flatMap itemTokens ++ [.blockEnd])

theorem spells_sequence {depth : Nat} {items : List (List Token × Node)}
    (hitems : ∀ i ∈ items, Spells depth i.1 i.2) :
    Spells (depth + 1) (sequenceTokens items) (.sequence (items.map Prod.snd)) := by
  refine ⟨⟨_, _, rfl, rfl⟩, fun flat r more h => ?_⟩
  have hstart : At r (.blockSequenceStart :: (items.flatMap itemTokens ++ .blockEnd :: more)) := by
    simpa [sequenceTokens] using h
  have hfuel : items.length < r.tokens.size + 1 := by
    have hleft := hstart.length_le
    have hitems : items.length ≤ (items.flatMap itemTokens).length :=
      length_le_flatMap (fun i => cons_ne_nil _ _) items
    simp only [length_cons, length_append] at hleft
    omega
  have hread : ∃ r', blockItems (nodeOfDepth depth true false) (r.tokens.size + 1) [] r.skip =
      some (.sequence ([].reverse ++ items.map Prod.snd), r') ∧ At r' more :=
    blockItems_eq hitems hfuel hstart.skip
  obtain ⟨r', hread, h'⟩ := hread
  refine ⟨r', ?_, h'⟩
  rw [nodeOfDepth, properties]
  simpa [hstart.peek?, openAnchor, closeAnchor] using hread

/-! ## Documents -/

/-- A document of one node is read as that node. -/
theorem ofTokens?_eq {tokens : Array Token} {piece : List Token} {n : Node}
    (htokens : tokens.toList = .streamStart :: (piece ++ [.streamEnd]))
    (hspells : Spells (tokens.size + 1) piece n) : Node.ofTokens? tokens true = some (some n) := by
  obtain ⟨t, rest, rfl, hstart⟩ := hspells.start
  have hroot : At { tokens, complete := true, next := 1 } (t :: rest ++ [.streamEnd]) :=
    ⟨rfl, by rw [htokens]; rfl, rfl⟩
  obtain ⟨r', hnode, h'⟩ := hspells.read false hroot
  have hpeek := At.peek? hroot
  rw [Node.ofTokens?]
  simp only [bind_eq_bind, hpeek, bind_some, hnode, h'.peek?]
  cases t <;> first | rfl | cases hstart

end NodeReader

end FaultRepair.Yaml
