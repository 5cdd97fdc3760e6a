/-
# Byte text

Every text the tool reads or writes is a sequence of bytes: source files, crash
traces and paths are not promised to be valid UTF-8, and columns are counted in
bytes. `Text` is therefore a list of bytes, and this module supplies the few
operations on it that the rest of the library shares: cutting at a byte,
searching, trimming, and writing numbers.

String literals coerce to their UTF-8 bytes.
-/

namespace FaultRepair

/-- Text as raw bytes. -/
abbrev Text := List UInt8

namespace Text

def ofString (s : String) : Text := s.toUTF8.data.toList

instance : Coe String Text := ⟨ofString⟩

instance : HAppend Text String Text := ⟨fun t s => t ++ ofString s⟩

instance : HAppend String Text Text := ⟨fun s t => ofString s ++ t⟩

@[inline] def byte (c : Char) : UInt8 := c.toUInt8

/-- The string with these bytes, when they are valid UTF-8. -/
def toString? (t : Text) : Option String := String.fromUTF8? ⟨t.toArray⟩

/-- The string with these bytes; bytes that are not UTF-8 become question marks.
Only meant for messages that are known to be ASCII. -/
def toStringLossy (t : Text) : String :=
  (toString? t).getD (String.ofList (t.map fun b => if b < 128 then Char.ofNat b.toNat else '?'))

variable (b : UInt8)

def isDigit : Bool := 48 ≤ b && b ≤ 57

def isAlpha : Bool := (65 ≤ b && b ≤ 90) || (97 ≤ b && b ≤ 122)

def isHexDigit : Bool :=
  isDigit b || (65 ≤ b && b ≤ 70) || (97 ≤ b && b ≤ 102)

/-- The value of a hexadecimal digit; 16 for any other byte. -/
def hexValue : Nat :=
  if isDigit b then b.toNat - 48
  else if 97 ≤ b && b ≤ 102 then b.toNat - 87
  else if 65 ≤ b && b ≤ 70 then b.toNat - 55
  else 16

/-- An ASCII capital becomes its small letter; all else is kept. -/
def lowerByte : UInt8 := if 65 ≤ b && b ≤ 90 then b + 32 else b

/-- An ASCII small letter becomes its capital; all else is kept. -/
def upperByte : UInt8 := if 97 ≤ b && b ≤ 122 then b - 32 else b

def lower (t : Text) : Text := t.map lowerByte

/-- The rest of `t` after `lead`, when `t` starts with it. -/
def dropLead? : (lead t : Text) → Option Text
  | [], t => some t
  | _ :: _, [] => none
  | a :: lead, b :: t => if a == b then dropLead? lead t else none

def startsWith (t lead : Text) : Bool := lead.isPrefixOf t

def endsWith (t tail : Text) : Bool := tail.isSuffixOf t

/-- `t` without `tail` at its end, when it ends with it. -/
def dropTail? (t tail : Text) : Option Text :=
  if endsWith t tail then some (t.take (t.length - tail.length)) else none

/-- `t` without `lead` at its start, if it is there. -/
def trimLead (t lead : Text) : Text := (dropLead? lead t).getD t

/-- `t` without `tail` at its end, if it is there. -/
def trimTail (t tail : Text) : Text := (dropTail? t tail).getD t

/-- The first occurrence of a byte: what stands before it and what follows. -/
def cutAt? (sep : UInt8) : Text → Option (Text × Text)
  | [] => none
  | b :: t =>
    if b == sep then some ([], t)
    else (cutAt? sep t).map fun (before, after) => (b :: before, after)

/-- The first occurrence of a text: what stands before it and what follows. -/
def cut? (sep : Text) : Text → Option (Text × Text)
  | [] => if sep.isEmpty then some ([], []) else none
  | b :: t =>
    match dropLead? sep (b :: t) with
    | some after => some ([], after)
    | none => (cut? sep t).map fun (before, after) => (b :: before, after)

def contains (t sub : Text) : Bool := (cut? sub t).isSome

/-- The last occurrence of a byte: what stands before it and what follows. -/
def cutLastAt? (sep : UInt8) (t : Text) : Option (Text × Text) :=
  (cutAt? sep t.reverse).map fun (after, before) => (before.reverse, after.reverse)

/-- The pieces between the occurrences of a byte; there is always at least one. -/
def splitAt (sep : UInt8) : Text → List Text
  | [] => [[]]
  | b :: t =>
    if b == sep then [] :: splitAt sep t
    else
      match splitAt sep t with
      | [] => [[b]]
      | piece :: rest => (b :: piece) :: rest

/-- At most `n` pieces: the last one keeps the separators that are left. -/
def splitAtMost (sep : UInt8) : Nat → Text → List Text
  | 0, _ => []
  | 1, t => [t]
  | n + 2, t =>
    match cutAt? sep t with
    | none => [t]
    | some (before, after) => before :: splitAtMost sep (n + 1) after

/-- The texts with `sep` between them. -/
def join (sep : Text) : List Text → Text
  | [] => []
  | [t] => t
  | t :: rest => t ++ sep ++ join sep rest

def replaceByte (old : UInt8) (new : Text) (t : Text) : Text :=
  t.flatMap fun b => if b == old then new else [b]

def copies (n : Nat) (t : Text) : Text := (List.replicate n t).flatten

def ofNat (n : Nat) : Text := (Nat.toDigits 10 n).map Char.toUInt8

/-- Decimal digits of an integer, with a minus sign in front of a negative one. -/
def ofInt : Int → Text
  | .ofNat n => ofNat n
  | .negSucc n => byte '-' :: ofNat (n + 1)

/-- A text padded on the left with a byte to at least `width` bytes. -/
def padLeft (pad : UInt8) (width : Nat) (t : Text) : Text :=
  List.replicate (width - t.length) pad ++ t

/-- The lower-case hexadecimal digits of a number, at least `width` of them. -/
def hex (width n : Nat) : Text :=
  padLeft (byte '0') width ((Nat.toDigits 16 n).map Char.toUInt8)

/-- The upper-case hexadecimal digits of a number, at least `width` of them. -/
def hexUpper (width n : Nat) : Text := (hex width n).map upperByte

/-- The value of a run of decimal digits; `none` if there is none or any byte is
not a digit. -/
def toNat? (t : Text) : Option Nat :=
  if t.isEmpty then none
  else t.foldl (fun acc b => acc.bind fun n =>
    if isDigit b then some (n * 10 + (b.toNat - 48)) else none) (some 0)

def compare : Text → Text → Ordering
  | [], [] => .eq
  | [], _ :: _ => .lt
  | _ :: _, [] => .gt
  | a :: s, b :: t => if a < b then .lt else if b < a then .gt else compare s t

/-- Does `s` come strictly before `t` in byte-wise order? -/
def before (s t : Text) : Bool := compare s t == .lt

end Text

end FaultRepair
