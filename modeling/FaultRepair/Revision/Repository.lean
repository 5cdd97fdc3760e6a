/-
# Revisions

Which revision a directory is at, if it lies in a repository: the first digits of the
commit that is checked out, and a mark if tracked files are not as they were committed.
-/

import FaultRepair.Files.Tree
import FaultRepair.Text.Rune

namespace FaultRepair.Revision

open Files Text

/-! ## The digest that names objects: 160 bits over blocks of 64 bytes -/

/-- The five words of a digest. -/
structure Digest where
  a : UInt32
  b : UInt32
  c : UInt32
  d : UInt32
  e : UInt32

def rotate (x : UInt32) (n : UInt32) : UInt32 := (x <<< n) ||| (x >>> (32 - n))

def bigEndian (n : Nat) : Text :=
  (List.range 8).map fun i => (n / Nat.pow 256 (7 - i) % 256).toUInt8

/-- The message with a mark, zeros and its length in bits, a multiple of 64 bytes. -/
def pad (t : Text) : Text :=
  let zeros := (119 - t.length % 64) % 64
  t ++ 0x80 :: List.replicate zeros 0 ++ bigEndian (8 * t.length)

def wordsOf : Text → List UInt32
  | a :: b :: c :: d :: rest =>
    ((a.toUInt32 <<< 24) ||| (b.toUInt32 <<< 16) ||| (c.toUInt32 <<< 8) ||| d.toUInt32) ::
      wordsOf rest
  | _ => []

/-- The sixteen words of a block and the sixty-four made from them. -/
def schedule (block : List UInt32) : Array UInt32 :=
  (List.range 64).foldl (fun (w : Array UInt32) i =>
    let pick (back : Nat) : UInt32 := w.getD (i + 16 - back) 0
    w.push (rotate (pick 3 ^^^ pick 8 ^^^ pick 14 ^^^ pick 16) 1)) block.toArray

def round (s : Digest) (i : Nat) (word : UInt32) : Digest :=
  let (f, k) : UInt32 × UInt32 :=
    if i < 20 then ((s.b &&& s.c) ||| ((~~~ s.b) &&& s.d), 0x5A827999)
    else if i < 40 then (s.b ^^^ s.c ^^^ s.d, 0x6ED9EBA1)
    else if i < 60 then ((s.b &&& s.c) ||| (s.b &&& s.d) ||| (s.c &&& s.d), 0x8F1BBCDC)
    else (s.b ^^^ s.c ^^^ s.d, 0xCA62C1D6)
  { a := rotate s.a 5 + f + s.e + k + word, b := s.a, c := rotate s.b 30, d := s.c, e := s.d }

def Digest.absorb (s : Digest) (block : List UInt32) : Digest :=
  let t := (schedule block).toList.zipIdx.foldl (fun t (word, i) => round t i word) s
  ⟨s.a + t.a, s.b + t.b, s.c + t.c, s.d + t.d, s.e + t.e⟩

def blocks : Nat → List UInt32 → List (List UInt32)
  | 0, _ => []
  | _, [] => []
  | fuel + 1, ws => ws.take 16 :: blocks fuel (ws.drop 16)

def Digest.of (t : Text) : Digest :=
  let words := wordsOf (pad t)
  (blocks (words.length + 1) words).foldl Digest.absorb
    ⟨0x67452301, 0xEFCDAB89, 0x98BADCFE, 0x10325476, 0xC3D2E1F0⟩

def Digest.render (d : Digest) : Text :=
  [d.a, d.b, d.c, d.d, d.e].flatMap fun w => Text.hex 8 w.toNat

/-! ## Repositories -/

/-- What the head of a repository names: a commit, or a reference to one. -/
inductive Head where
  | commit (id : Text)
  | reference (name : Text)

def isId (t : Text) : Bool := t.length == 40 && t.all isHexDigit

/-- Reads the head; `none` if it is malformed. -/
def Head.read? (t : Text) : Option Head :=
  match dropLead? "ref:" t with
  | some rest =>
    let name := trimSpace rest
    if startsWith name "refs/" then some (.reference name) else none
  | none =>
    let id := trimSpace t
    if isId id then some (.commit (lower id)) else none

/-- A repository: its administrative directory, the directory it tracks, and its head. -/
structure Repository where
  admin : Text
  work : Text
  head : Head

/-- The repository whose administrative directory is this one. -/
def repositoryAt? (files : Tree) (work admin : Text) : Option Repository := do
  let head ← Head.read? (← files.read? (Path.joinTwo admin "HEAD"))
  if files.isDirectory (Path.joinTwo admin "objects") &&
      files.isDirectory (Path.joinTwo admin "refs") then
    some ⟨admin, work, head⟩
  else none

/-- The repository of the innermost directory that has one. -/
def findFrom (files : Tree) : Nat → Text → Option Repository
  | 0, _ => none
  | fuel + 1, dir =>
    match repositoryAt? files dir (Path.joinTwo dir ".git") with
    | some r => some r
    | none => if dir == ofString "/" then none else findFrom files fuel (Path.dir dir)

def Repository.find? (files : Tree) (dir : Text) : Option Repository :=
  let place := files.absolute dir
  findFrom files (place.length + 1) place

namespace Repository

def packed? (files : Tree) (r : Repository) (name : Text) : Option Text := do
  let source ← files.read? (Path.joinTwo r.admin "packed-refs")
  (splitAt 10 source).findSome? fun line =>
    match cutAt? 32 line with
    | some (id, n) => if isId id && trimSpace n == name then some (lower id) else none
    | none => none

/-- The commit that is checked out; none if its branch has no commit yet. -/
def commit? (files : Tree) (r : Repository) : Option Text := do
  match r.head with
  | .commit id => some id
  | .reference name =>
    let some t := files.read? (Path.joinTwo r.admin name) | r.packed? files name
    let id := trimSpace t
    if isId id then some (lower id) else none

def hasObject (files : Tree) (r : Repository) (id : Text) : Bool :=
  (files.read? (Path.joinAll [r.admin, "objects", id.take 2, id.drop 2])).isSome

end Repository

/-- A tracked file and the digest of its contents. -/
structure Entry where
  name : Text
  digest : Text

def number (t : Text) : Nat := t.foldl (fun n b => 256 * n + b.toNat) 0

def entryHead : Nat := 62

/-- Reads entries. Each is padded with zeros to a multiple of eight bytes, at least
one. -/
def entriesFrom : Nat → Text → List Entry
  | 0, _ => []
  | count + 1, t =>
    let length := number ((t.drop 60).take 2) % 4096
    let name := (t.drop entryHead).take length
    let digest := ((t.drop 40).take 20).flatMap fun b => hex 2 b.toNat
    ⟨name, digest⟩ :: entriesFrom count (t.drop ((entryHead + length + 8) / 8 * 8))

def readIndex (t : Text) : List Entry :=
  if startsWith t "DIRC" then entriesFrom (number ((t.drop 8).take 4)) (t.drop 12) else []

def contentDigest (data : Text) : Text :=
  (Digest.of ("blob " ++ ofNat data.length ++ 0 :: data)).render

/-- Are tracked files other than they were committed? Without the commit nothing can be
said. -/
def Repository.isDirty (files : Tree) (r : Repository) (commit : Text) : Bool :=
  r.hasObject files commit &&
    match files.read? (Path.joinTwo r.admin "index") with
    | none => true
    | some index => (readIndex index).any fun e =>
      match files.read? (Path.joinTwo r.work e.name) with
      | some data => contentDigest data != e.digest
      | none => true

def shownDigits : Nat := 12

def revision? (files : Tree) (dir : Text) : Option Text := do
  let r ← Repository.find? files dir
  let id ← r.commit? files
  some (id.take shownDigits ++ if r.isDirty files id then ofString "-dirty" else [])

end FaultRepair.Revision
