/-
# Code points in byte text

Bytes are read as UTF-8 one code point at a time. A byte that does not start a
well-formed sequence is read alone as the replacement character, so that reading
never fails and always moves forward; the width tells the two cases apart.
-/

import FaultRepair.Text.Basic

namespace FaultRepair.Text

/-- A code point number. Negative values never occur; the replacement character
stands for bytes that are not UTF-8. -/
abbrev Rune := Nat

def replacement : Rune := 0xFFFD

def maxRune : Rune := 0x10FFFF

def cont (b : UInt8) : Bool := 0x80 ≤ b && b ≤ 0xBF

/-- The first code point of a text and the number of bytes it takes; the
replacement character of width one where the bytes are not well-formed, and width
zero at the end. -/
def firstRune : Text → Rune × Nat
  | [] => (replacement, 0)
  | a :: rest =>
    if a < 0x80 then (a.toNat, 1)
    else if 0xC2 ≤ a && a ≤ 0xDF then
      match rest with
      | b :: _ => if cont b then ((a.toNat - 0xC0) * 64 + (b.toNat - 0x80), 2) else (replacement, 1)
      | [] => (replacement, 1)
    else if 0xE0 ≤ a && a ≤ 0xEF then
      match rest with
      | b :: c :: _ =>
        let low : UInt8 := if a == 0xE0 then 0xA0 else 0x80
        let high : UInt8 := if a == 0xED then 0x9F else 0xBF
        if low ≤ b && b ≤ high && cont c then
          ((a.toNat - 0xE0) * 4096 + (b.toNat - 0x80) * 64 + (c.toNat - 0x80), 3)
        else (replacement, 1)
      | _ => (replacement, 1)
    else if 0xF0 ≤ a && a ≤ 0xF4 then
      match rest with
      | b :: c :: d :: _ =>
        let low : UInt8 := if a == 0xF0 then 0x90 else 0x80
        let high : UInt8 := if a == 0xF4 then 0x8F else 0xBF
        if low ≤ b && b ≤ high && cont c && cont d then
          ((a.toNat - 0xF0) * 262144 + (b.toNat - 0x80) * 4096 + (c.toNat - 0x80) * 64
            + (d.toNat - 0x80), 4)
        else (replacement, 1)
      | _ => (replacement, 1)
    else (replacement, 1)

/-- The bytes of a code point; a number that is none is written as the
replacement character. -/
def ofRune (r : Rune) : Text :=
  if r < 0x80 then [r.toUInt8]
  else if r < 0x800 then [(0xC0 + r / 64).toUInt8, (0x80 + r % 64).toUInt8]
  else if (0xD800 ≤ r && r < 0xE000) || maxRune < r then [0xEF, 0xBF, 0xBD]
  else if r < 0x10000 then
    [(0xE0 + r / 4096).toUInt8, (0x80 + r / 64 % 64).toUInt8, (0x80 + r % 64).toUInt8]
  else
    [(0xF0 + r / 262144).toUInt8, (0x80 + r / 4096 % 64).toUInt8,
      (0x80 + r / 64 % 64).toUInt8, (0x80 + r % 64).toUInt8]

/-- One code point as read: its number, the bytes it was read from, and whether
those bytes were well-formed. -/
structure Reading where
  rune : Rune
  raw : Text
  valid : Bool
  deriving Inhabited

def readingsFrom : Nat → Text → List Reading
  | 0, _ => []
  | _, [] => []
  | fuel + 1, t@(_ :: _) =>
    let (r, w) := firstRune t
    { rune := r, raw := t.take w, valid := w != 1 || r != replacement } ::
      readingsFrom fuel (t.drop w)

variable (t : Text)

def readings : List Reading := readingsFrom t.length t

/-- The code points of a text, ill-formed bytes as replacement characters. -/
def runes : List Rune := (readings t).map (·.rune)

def isUtf8 : Bool := (readings t).all (·.valid)

def isSpaceRune (r : Rune) : Bool :=
  (9 ≤ r && r ≤ 13) || r == 32 || r == 0x85 || r == 0xA0 || r == 0x1680
    || (0x2000 ≤ r && r ≤ 0x200A) || r == 0x2028 || r == 0x2029 || r == 0x202F
    || r == 0x205F || r == 0x3000

def dropSpaces : List Reading → List Reading := List.dropWhile (isSpaceRune ·.rune)

/-- A text without the white space at its two ends. -/
def trimSpace : Text :=
  ((dropSpaces (dropSpaces (readings t)).reverse).reverse.map (·.raw)).flatten

def trimSpaceRight : Text :=
  ((dropSpaces (readings t).reverse).reverse.map (·.raw)).flatten

def fields : List Text :=
  let (done, last) := (readings t).foldl (fun (acc : List Text × Text) g =>
    if isSpaceRune g.rune then (if acc.2.isEmpty then acc else (acc.1 ++ [acc.2], []))
    else (acc.1, acc.2 ++ g.raw)) ([], [])
  if last.isEmpty then done else done ++ [last]

end FaultRepair.Text
