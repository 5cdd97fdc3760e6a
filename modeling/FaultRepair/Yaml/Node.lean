/-
# YAML nodes

The tree of the first document of a text. An alias keeps the node it refers to; it has
none if that node is still open, that is, if the alias stands inside of it.

Tokens are read with some foresight: a failure of the scanner shortly after the token
that is looked at already counts.
-/

import FaultRepair.Yaml.Scanner

namespace FaultRepair.Yaml

/-- A node. The tag of a scalar is empty if the text gives none. -/
inductive Node where
  | scalar (tag value : Text) (style : Style)
  | sequence (items : List Node)
  | mapping (entries : List (Node × Node))
  | alias (name : Text) (target : Option Node)

/-- The tokens that are left, the anchors met so far with the newest first, and the
handles of tags. An anchor is bound to a number while its node is open, and `closed`
has the nodes of the numbers. -/
structure NodeReader where
  tokens : Array Token
  complete : Bool
  next : Nat := 0
  anchors : List (Text × Nat) := []
  closed : List (Nat × Node) := []
  count : Nat := 0
  handles : List (Text × Text) := [("!", "!"), ("!!", "tag:yaml.org,2002:")]

namespace NodeReader

variable (r : NodeReader)

def peek? : Option Token :=
  if !r.complete && r.tokens.size ≤ r.next + 2 then none
  else some (r.tokens.getD r.next .streamEnd)

def skip : NodeReader := { r with next := r.next + 1 }

def emptyNode : Node := .scalar [] [] .plain

def openAnchor : Option Text → Option Nat × NodeReader
  | none => (none, r)
  | some name =>
    (some r.count, { r with anchors := (name, r.count) :: r.anchors, count := r.count + 1 })

def closeAnchor (id : Option Nat) (n : Node) : NodeReader :=
  match id with
  | none => r
  | some i => { r with closed := (i, n) :: r.closed }

/-- What a reader of nested nodes is given. -/
abbrev Reader := NodeReader → Option (Node × NodeReader)

/-- The entries of a block sequence; each starts with a dash. -/
def blockItems (node : Reader) : Nat → List Node → Reader
  | 0, _, _ => none
  | n + 1, acc, r => do
    match ← r.peek? with
    | .blockEntry =>
      let r := r.skip
      match ← r.peek? with
      | .blockEntry | .blockEnd => blockItems node n (emptyNode :: acc) r
      | _ =>
        let (item, r) ← node r
        blockItems node n (item :: acc) r
    | .blockEnd => some (.sequence acc.reverse, r.skip)
    | _ => none

/-- The entries of a sequence that is not indented more than the mapping it is in. -/
def flatItems (node : Reader) : Nat → List Node → Reader
  | 0, _, _ => none
  | n + 1, acc, r => do
    match ← r.peek? with
    | .blockEntry =>
      let r := r.skip
      match ← r.peek? with
      | .blockEntry | .key | .value | .blockEnd => flatItems node n (emptyNode :: acc) r
      | _ =>
        let (item, r) ← node r
        flatItems node n (item :: acc) r
    | _ => some (.sequence acc.reverse, r)

def blockPart (node : Reader) (r : NodeReader) : Option (Node × NodeReader) := do
  match ← r.peek? with
  | .key | .value | .blockEnd => some (emptyNode, r)
  | _ => node r

def blockEntries (node : Reader) : Nat → List (Node × Node) → Reader
  | 0, _, _ => none
  | n + 1, acc, r => do
    match ← r.peek? with
    | .key =>
      let (k, r) ← blockPart node r.skip
      match ← r.peek? with
      | .value =>
        let (v, r) ← blockPart node r.skip
        blockEntries node n ((k, v) :: acc) r
      | _ => blockEntries node n ((k, emptyNode) :: acc) r
    | .blockEnd => some (.mapping acc.reverse, r.skip)
    | _ => none

def flowPair (node : Reader) (r : NodeReader) : Option (Node × NodeReader) := do
  let (k, r) ← match ← r.peek? with
    | .value | .flowEntry | .flowSequenceEnd => some (emptyNode, r.skip)
    | _ => node r
  match ← r.peek? with
  | .value =>
    let r := r.skip
    match ← r.peek? with
    | .flowEntry | .flowSequenceEnd => some (.mapping [(k, emptyNode)], r)
    | _ =>
      let (v, r) ← node r
      some (.mapping [(k, v)], r)
  | _ => some (.mapping [(k, emptyNode)], r)

def flowItems (node : Reader) : Nat → List Node → Reader
  | 0, _, _ => none
  | n + 1, acc, r => do
    match ← r.peek? with
    | .flowSequenceEnd => some (.sequence acc.reverse, r.skip)
    | t =>
      let (t, r) ←
        if acc.isEmpty then some (t, r)
        else if t == .flowEntry then do some ((← r.skip.peek?), r.skip)
        else none
      match t with
      | .key =>
        let (item, r) ← flowPair node r.skip
        flowItems node n (item :: acc) r
      | .flowSequenceEnd => some (.sequence acc.reverse, r.skip)
      | _ =>
        let (item, r) ← node r
        flowItems node n (item :: acc) r

def flowValue (node : Reader) (r : NodeReader) : Option (Node × NodeReader) := do
  match ← r.peek? with
  | .value =>
    let r := r.skip
    match ← r.peek? with
    | .flowEntry | .flowMappingEnd => some (emptyNode, r)
    | _ => node r
  | _ => some (emptyNode, r)

def flowEntries (node : Reader) : Nat → List (Node × Node) → Reader
  | 0, _, _ => none
  | n + 1, acc, r => do
    match ← r.peek? with
    | .flowMappingEnd => some (.mapping acc.reverse, r.skip)
    | t =>
      let (t, r) ←
        if acc.isEmpty then some (t, r)
        else if t == .flowEntry then do some ((← r.skip.peek?), r.skip)
        else none
      match t with
      | .key =>
        let r := r.skip
        let (k, r) ← match ← r.peek? with
          | .value | .flowEntry | .flowMappingEnd => some (emptyNode, r)
          | _ => node r
        let (v, r) ← flowValue node r
        flowEntries node n ((k, v) :: acc) r
      | .flowMappingEnd => some (.mapping acc.reverse, r.skip)
      | _ =>
        let (k, r) ← node r
        flowEntries node n ((k, emptyNode) :: acc) r

def fullTag? (handle suffix : Text) : Option Text :=
  if handle.isEmpty then some suffix
  else
    match r.handles.find? (·.1 == handle) with
    | some (_, lead) => if (lead ++ suffix).isEmpty then none else some (lead ++ suffix)
    | none => none

def properties : Option (Option Text × Option Text × NodeReader) := do
  match ← r.peek? with
  | .anchor name =>
    let r := r.skip
    match ← r.peek? with
    | .tag h s => some (some name, some (← r.fullTag? h s), r.skip)
    | _ => some (some name, none, r)
  | .tag h s =>
    let t ← r.fullTag? h s
    let r := r.skip
    match ← r.peek? with
    | .anchor name => some (some name, some t, r.skip)
    | _ => some (none, some t, r)
  | _ => some (none, none, r)

/-- A node. Blocks may only start where blocks can stand; `flat` allows a sequence
without indentation. -/
def nodeOfDepth : Nat → (block flat : Bool) → Reader
  | 0, _, _, _ => none
  | depth + 1, block, flat, r => do
    match ← r.peek? with
    | .alias name =>
      let (_, id) ← r.anchors.find? (·.1 == name)
      some (.alias name ((r.closed.find? (·.1 == id)).map (·.2)), r.skip)
    | _ =>
      let (anchor, tag, r) ← r.properties
      let (id, r) := r.openAnchor anchor
      let finish (made : Option (Node × NodeReader)) : Option (Node × NodeReader) :=
        made.map fun (n, r) => (n, r.closeAnchor id n)
      let fuel := r.tokens.size + 1
      let inBlock := nodeOfDepth depth true false
      let inMapping := nodeOfDepth depth true true
      let inFlow := nodeOfDepth depth false false
      match ← r.peek? with
      | .blockEntry =>
        if flat then finish (flatItems inBlock fuel [] r)
        else if anchor.isSome || tag.isSome then finish (some (.scalar (tag.getD []) [] .plain, r))
        else none
      | .scalar v style => finish (some (.scalar (tag.getD []) v style, r.skip))
      | .flowSequenceStart => finish (flowItems inFlow fuel [] r.skip)
      | .flowMappingStart => finish (flowEntries inFlow fuel [] r.skip)
      | t =>
        if block && t == .blockSequenceStart then finish (blockItems inBlock fuel [] r.skip)
        else if block && t == .blockMappingStart then finish (blockEntries inMapping fuel [] r.skip)
        else if anchor.isSome || tag.isSome then finish (some (.scalar (tag.getD []) [] .plain, r))
        else none

def directives : Nat → Bool → NodeReader → Option NodeReader
  | 0, _, _ => none
  | n + 1, versioned, r => do
    match ← r.peek? with
    | .version major minor =>
      if versioned || major != 1 || minor != 1 then none
      directives n true r.skip
    | .tagDirective h lead =>
      -- The handles that are always there may be given another meaning once.
      if (r.handles.drop 2).any (·.1 == h) then none
      directives n versioned { r.skip with handles := r.handles ++ [(h, lead)] }
    | _ => some r

end NodeReader

/-- The root of the first document; the inner `none` means that there is no document. -/
def Node.ofTokens? (tokens : Array Token) (complete : Bool) : Option (Option Node) := do
  let r : NodeReader := { tokens, complete, next := 1 }
  let root := NodeReader.nodeOfDepth (tokens.size + 1) true false
  let finish (n : Node) (r : NodeReader) : Option (Option Node) := do
    match ← r.peek? with
    | _ => some (some n)
  match ← r.peek? with
  | .streamEnd => some none
  | .version .. | .tagDirective .. | .documentStart =>
    let r ← NodeReader.directives (tokens.size + 1) false r
    let r := { r with handles := r.handles.drop 2 ++ r.handles.take 2 }
    if (← r.peek?) != .documentStart then none
    let r := r.skip
    match ← r.peek? with
    | .version .. | .tagDirective .. | .documentStart | .documentEnd | .streamEnd =>
      finish NodeReader.emptyNode r
    | _ =>
      let (n, r) ← root r
      finish n r
  | _ =>
    let (n, r) ← root r
    finish n r

/-- A byte order mark in front of a text is passed over. -/
def withoutMark : Text → Text
  | 0xEF :: 0xBB :: 0xBF :: rest => rest
  | t => t

def Node.read? (t : Text) : Option (Option Node) :=
  let t := withoutMark t
  let rs := Text.runes t
  if !Text.isUtf8 t || !rs.all isAllowed then none
  else
    let (tokens, complete) := Token.scan rs
    Node.ofTokens? tokens complete

end FaultRepair.Yaml
