/-
# Numbers in decimal digits

A written number is a run of digits that is never empty, and reading it gives the number
back, also with zeros in front.
-/

import FaultRepair.Text.Basic
import Mathlib.Data.Nat.Basic
import Mathlib.Tactic.IntervalCases

namespace FaultRepair.Text

open List

theorem toUInt8_digitChar {d : Nat} (hd : d < 10) :
    (Nat.digitChar d).toUInt8 = (48 + d).toUInt8 := by
  interval_cases d <;> rfl

/-- The last digit of a number stands last. -/
theorem ofNat_eq (n : Nat) :
    ofNat n = (if n < 10 then [] else ofNat (n / 10)) ++ [(48 + n % 10).toUInt8] := by
  grind [ofNat, Nat.toDigits_eq_if, toUInt8_digitChar]

theorem ofNat_ne_nil (n : Nat) : ofNat n ≠ [] := by
  rw [ofNat_eq]
  simp

theorem toNat_digit (n : Nat) : ((48 + n % 10).toUInt8).toNat = 48 + n % 10 := by
  have hlt : 48 + n % 10 < 256 := by omega
  simpa using hlt

theorem isDigit_digit (n : Nat) : isDigit (48 + n % 10).toUInt8 = true := by
  grind [isDigit, UInt8.le_iff_toNat_le, toNat_digit]

theorem isDigit_of_mem_ofNat {n : Nat} {b : UInt8} (hb : b ∈ ofNat n) : isDigit b = true := by
  induction n using Nat.strong_induction_on with
  | _ n ih => grind [ofNat_eq, isDigit_digit]

/-- Reading goes on from what was read before the last digit. -/
theorem toNat?_concat {t : Text} (ht : t ≠ []) (b : UInt8) :
    toNat? (t ++ [b]) = (toNat? t).bind fun n =>
      if isDigit b then some (n * 10 + (b.toNat - 48)) else none := by
  rw [toNat?, toNat?, if_neg (by simp), if_neg (by simpa using ht), foldl_append]
  rfl

theorem toNat?_ofNat (n : Nat) : toNat? (ofNat n) = some n := by
  induction n using Nat.strong_induction_on with
  | _ n ih =>
    rw [ofNat_eq]
    split
    · grind [toNat?, isDigit_digit, toNat_digit]
    · grind [toNat?_concat, ofNat_ne_nil, isDigit_digit, toNat_digit]

theorem toNat?_padLeft (width n : Nat) : toNat? (padLeft 48 width (ofNat n)) = some n := by
  have hzeros : ∀ (zeros : Nat) {t : Text}, t ≠ [] →
      toNat? (replicate zeros 48 ++ t) = toNat? t := by
    intro zeros t ht
    induction zeros with
    | zero => rfl
    | succ zeros ih =>
      rw [← ih, toNat?, toNat?, if_neg (by simp), if_neg (by simp [ht]), replicate_succ,
        cons_append, foldl_cons]
      rfl
  rw [padLeft, hzeros _ (ofNat_ne_nil n), toNat?_ofNat]

theorem isDigit_of_mem_padLeft {width n : Nat} {b : UInt8} (hb : b ∈ padLeft 48 width (ofNat n)) :
    isDigit b = true := by
  rw [padLeft, mem_append] at hb
  rcases hb with hzero | hdigit
  · rw [eq_of_mem_replicate hzero]
    rfl
  · exact isDigit_of_mem_ofNat hdigit

end FaultRepair.Text
