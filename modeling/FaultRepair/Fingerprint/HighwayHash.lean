/-
# HighwayHash

A keyed hash of 64 bits over packets of 32 bytes. The state is four groups of four
words; a packet is added to it, multiplied through and mixed byte by byte.
-/

import FaultRepair.Text.Basic

namespace FaultRepair.Fingerprint

/-- Four words that are updated together. -/
structure Lanes where
  a : UInt64
  b : UInt64
  c : UInt64
  d : UInt64

namespace Lanes

def map (f : UInt64 → UInt64) (x : Lanes) : Lanes := ⟨f x.a, f x.b, f x.c, f x.d⟩

def zip (f : UInt64 → UInt64 → UInt64) (x y : Lanes) : Lanes :=
  ⟨f x.a y.a, f x.b y.b, f x.c y.c, f x.d y.d⟩

end Lanes

structure HashState where
  v0 : Lanes
  v1 : Lanes
  mul0 : Lanes
  mul1 : Lanes

namespace HashState

def swapHalves (x : UInt64) : UInt64 := (x >>> 32) ||| (x <<< 32)

def start (key : Lanes) : HashState :=
  let mul0 : Lanes :=
    ⟨0xdbe6d5d5fe4cce2f, 0xa4093822299f31d0, 0x13198a2e03707344, 0x243f6a8885a308d3⟩
  let mul1 : Lanes :=
    ⟨0x3bd39e10cb0ef593, 0xc0acf169b5f18a8c, 0xbe5466cf34e90c6c, 0x452821e638d01377⟩
  { mul0, mul1, v0 := mul0.zip (· ^^^ ·) key, v1 := mul1.zip (· ^^^ ·) (key.map swapHalves) }

def pick (x mask : UInt64) : UInt64 := x &&& mask

/-- The bytes of two words in a mixed order, as the words to add to the lower and the
upper one. -/
def zipper (v1 v0 : UInt64) : UInt64 × UInt64 :=
  let lower : UInt64 :=
    (((pick v0 0xff000000) ||| (pick v1 0xff00000000)) >>> 24) |||
      (((pick v0 0xff0000000000) ||| (pick v1 0xff000000000000)) >>> 16) |||
      (pick v0 0xff0000) ||| ((pick v0 0xff00) <<< 32) |||
      ((pick v1 0xff00000000000000) >>> 8) ||| (v0 <<< 56)
  let upper : UInt64 :=
    (((pick v1 0xff000000) ||| (pick v0 0xff00000000)) >>> 24) |||
      (pick v1 0xff0000) ||| ((pick v1 0xff0000000000) >>> 16) |||
      ((pick v1 0xff00) <<< 24) ||| ((pick v0 0xff000000000000) >>> 8) |||
      ((pick v1 0xff) <<< 48) ||| (pick v0 0xff00000000000000)
  (lower, upper)

def mix (source target : Lanes) : Lanes :=
  let (p, q) := zipper source.b source.a
  let (r, s) := zipper source.d source.c
  ⟨target.a + p, target.b + q, target.c + r, target.d + s⟩

def low (x : UInt64) : UInt64 := x &&& 0xffffffff
def high (x : UInt64) : UInt64 := x >>> 32

def update (s : HashState) (packet : Lanes) : HashState :=
  let v1 := s.v1.zip (· + ·) (s.mul0.zip (· + ·) packet)
  let mul0 := s.mul0.zip (· ^^^ ·) (v1.zip (fun x y => low x * high y) s.v0)
  let v0 := s.v0.zip (· + ·) s.mul1
  let mul1 := s.mul1.zip (· ^^^ ·) (v0.zip (fun x y => low x * high y) v1)
  let v0 := mix v1 v0
  let v1 := mix v0 v1
  { v0, v1, mul0, mul1 }

def permuted (v : Lanes) : Lanes :=
  ⟨swapHalves v.c, swapHalves v.d, swapHalves v.a, swapHalves v.b⟩

def finish (s : HashState) : UInt64 :=
  let round (s : HashState) : HashState := s.update (permuted s.v0)
  let s := round (round (round (round s)))
  s.v0.a + s.v1.a + s.mul0.a + s.mul1.a

end HashState

def wordOf (bytes : Text) : UInt64 :=
  (bytes.take 8).foldr (fun b acc => (acc <<< 8) ||| b.toUInt64) 0

def lanesOf (bytes : Text) : Lanes :=
  ⟨wordOf bytes, wordOf (bytes.drop 8), wordOf (bytes.drop 16), wordOf (bytes.drop 24)⟩

def rotate32 (count x : UInt64) : UInt64 :=
  ((x <<< count) ||| (x >>> (32 - count))) &&& 0xffffffff

def rotateHalves (count x : UInt64) : UInt64 :=
  rotate32 count (x &&& 0xffffffff) ||| (rotate32 count (x >>> 32) <<< 32)

/-- The packet for less than 32 bytes: whole words in place, and the bytes left over
at a place that depends on their number. -/
def lastPacket (bytes : Text) : Text :=
  let n := bytes.length
  let rest := n % 4
  let whole := bytes.take (n - rest)
  let padded := whole ++ List.replicate (32 - whole.length) 0
  if n ≥ 16 then padded.take 28 ++ (bytes.drop (n - 4)).take 4
  else if rest == 0 then padded
  else
    let tail := bytes.drop (n - rest)
    padded.take 16 ++
      [tail.getD 0 0, tail.getD (rest / 2) 0, tail.getD (rest - 1) 0] ++ padded.drop 19

def absorb : Nat → HashState → Text → HashState
  | 0, s, _ => s
  | fuel + 1, s, bytes =>
    let packet := bytes.take 32
    if packet.length == 32 then absorb fuel (s.update (lanesOf packet)) (bytes.drop 32)
    else if bytes.isEmpty then s
    else
      let n := bytes.length.toUInt64
      let s := { s with v0 := s.v0.map (· + ((n <<< 32) + n)), v1 := s.v1.map (rotateHalves n) }
      s.update (lanesOf (lastPacket bytes))

def hash64 (key bytes : Text) : UInt64 :=
  (absorb (bytes.length / 32 + 1) (HashState.start (lanesOf key)) bytes).finish

def ofSource (bytes : Text) : UInt64 := hash64 "faultfix-source-fingerprint-key!" bytes

def render (h : UInt64) : Text := Text.hex 16 h.toNat

end FaultRepair.Fingerprint
