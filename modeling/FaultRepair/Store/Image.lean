/-
# Databases as bytes

A database is kept in a file as lines of words. Texts are written in hexadecimal digits
after a point, so that no word holds a blank; the tables that are absent have no line.
-/

import FaultRepair.Store.Database

namespace FaultRepair.Store

open FaultRepair.Graph Text

namespace Image

def mark : Text := "faultfix graph 1"

def encode (t : Text) : Text := byte '.' :: t.flatMap fun b => hex 2 b.toNat

def pairUp? : Text → Option Text
  | [] => some []
  | a :: b :: rest =>
    if isHexDigit a && isHexDigit b then
      (pairUp? rest).map ((16 * hexValue a + hexValue b).toUInt8 :: ·)
    else none
  | [_] => none

def decode? : Text → Option Text
  | c :: rest => if c == byte '.' then pairUp? rest else none
  | [] => none

def integer? : Text → Option Int
  | c :: rest =>
    if c == byte '-' then (toNat? rest).map fun n => -(n : Int)
    else (toNat? (c :: rest)).map fun n => (n : Int)
  | [] => none

def line (words : List Text) : Text := join " " words

def key (s : String) : Text := ofString s

def locationLine (l : StoredLocation) : Text :=
  line [key "location", ofInt l.id, encode l.location.ident, encode l.location.file,
    ofInt l.location.line, ofInt l.location.col]

def dependencyLine (d : Dependency) : Text :=
  line [key "dependency", ofInt d.id, ofInt d.lhs, ofInt d.rhs]

def sourceLine (s : SourceFile) : Text :=
  line [key "source", encode s.path, encode s.hash, encode s.revision]

def tableLines (name : String) (row : α → Text) : Option (Numbered α) → List Text
  | none => []
  | some t => line [key name, ofNat t.last] :: t.rows.map row

def lines (d : Database) : List Text :=
  mark :: line [key "version", ofNat d.version] ::
    tableLines "locations" locationLine d.locations ++
      tableLines "dependencies" dependencyLine d.dependencies ++
    match d.sources with
    | none => []
    | some ss => key "sources" :: ss.map sourceLine

def addLocation (l : StoredLocation) (d : Database) : Database :=
  { d with locations := d.locations.map fun t => { t with rows := t.rows ++ [l] } }

def addDependency (e : Dependency) (d : Database) : Database :=
  { d with dependencies := d.dependencies.map fun t => { t with rows := t.rows ++ [e] } }

def addSource (s : SourceFile) (d : Database) : Database :=
  { d with sources := d.sources.map (· ++ [s]) }

def addLine (d : Database) (t : Text) : Option Database :=
  match splitAt 32 t with
  | [k] => if k == key "sources" then some { d with sources := some [] } else none
  | [k, n] => do
    let n ← toNat? n
    if k == key "version" then some { d with version := n }
    else if k == key "locations" then some { d with locations := some { last := n } }
    else if k == key "dependencies" then some { d with dependencies := some { last := n } }
    else none
  | [k, a, b, c] =>
    if k == key "dependency" then do
      some (addDependency ⟨← integer? a, ← integer? b, ← integer? c⟩ d)
    else if k == key "source" then do some (addSource ⟨← decode? a, ← decode? b, ← decode? c⟩ d)
    else none
  | [k, id, ident, file, row, col] =>
    if k == key "location" then do
      some (addLocation ⟨← integer? id,
        ⟨← decode? ident, ← decode? file, ← integer? row, ← integer? col⟩⟩ d)
    else none
  | _ => none

end Image

def Database.image (d : Database) : Text := (Image.lines d).flatMap fun l => l ++ ofString "\n"

/-- The database that some bytes are; `none` if they are something else. -/
def Database.ofImage? (t : Text) : Option Database := do
  let rest ← dropLead? (Image.mark ++ "\n") t
  ((splitAt 10 rest).filter (!·.isEmpty)).foldlM Image.addLine .blank

end FaultRepair.Store
