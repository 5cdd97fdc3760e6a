/-
# Quotients in double precision

A quotient is rounded to a mantissa of 53 bits. Two quotients that differ by more than one
part in `2 ^ 52` are kept apart and in order; equal quotients are rounded to the same number,
however they are written; and halving is exact. All this is for positive quotients with a
negative exponent, far from the least number.
-/

import FaultRepair.Number.Binary64
import Mathlib.Tactic

namespace FaultRepair.Number.Binary64

variable {n d m k a b c num den : Nat}

/-! ## Rounding to an integer -/

theorem roundDiv_cases (n d : Nat) :
    roundDiv n d = n / d ∧ 2 * (n % d) ≤ d ∨ roundDiv n d = n / d + 1 ∧ d ≤ 2 * (n % d) := by
  unfold roundDiv
  dsimp only
  split_ifs <;> omega

/-- The rounded quotient is at most a half away from the exact one. -/
theorem roundDiv_near (hd : 0 < d) :
    2 * (d * roundDiv n d) ≤ 2 * n + d ∧ 2 * n ≤ 2 * (d * roundDiv n d) + d := by
  have hdiv := Nat.div_add_mod n d
  have hmod := Nat.mod_lt n hd
  grind [roundDiv_cases, mul_add]

theorem roundDiv_mul_left (hc : 0 < c) (n d : Nat) : roundDiv (c * n) (c * d) = roundDiv n d := by
  grind [mul_left_comm, Nat.mul_lt_mul_left, roundDiv, Nat.mul_div_mul_left, Nat.mul_mod_mul_left]

/-- Rounding does not depend on how the quotient is written. -/
theorem roundDiv_congr {n' d' : Nat} (hd : 0 < d) (hd' : 0 < d') (hsame : n * d' = n' * d) :
    roundDiv n d = roundDiv n' d' := by
  rw [← roundDiv_mul_left hd' n d, ← roundDiv_mul_left hd n' d', mul_comm d' n, hsame,
    mul_comm n' d, mul_comm d' d]

theorem roundDiv_mul_self (hd : 0 < d) (m : Nat) : roundDiv (m * d) d = m := by
  rw [roundDiv_congr hd Nat.one_pos (by rw [mul_one] : m * d * 1 = m * d)]
  simp [roundDiv, Nat.mod_one]

/-! ## Mantissas -/

/-- The power `2 ^ k` brings a quotient into the range of mantissas. -/
structure Scaled (num den k : Nat) : Prop where
  low : hiddenBit * den ≤ num * 2 ^ k
  high : num * 2 ^ k < 2 * hiddenBit * den

theorem Scaled.den_pos (hscaled : Scaled num den k) : 0 < den := by
  apply Nat.pos_of_ne_zero
  rintro rfl
  exact absurd hscaled.high (Nat.not_lt_zero _)

theorem Scaled.num_pos (hscaled : Scaled num den k) : 0 < num := by
  apply Nat.pos_of_ne_zero
  rintro rfl
  have hlow := hscaled.low
  have hden := hscaled.den_pos
  simp [hiddenBit] at hlow
  omega

/-- Every quotient below the least mantissa is brought into the range by some power, and not by
a larger one than need be. -/
theorem exists_scaled (hnum : num < hiddenBit * den) (hden : hiddenBit * den ≤ num * 2 ^ d) :
    ∃ k, 1 ≤ k ∧ k ≤ d ∧ Scaled num den k := by
  have hsome : ∃ k, hiddenBit * den ≤ num * 2 ^ k := ⟨d, hden⟩
  have hlow := Nat.find_spec hsome
  have hle : Nat.find hsome ≤ d := Nat.find_min' hsome hden
  cases hk : Nat.find hsome with
  | zero =>
    rw [hk, pow_zero, mul_one] at hlow
    omega
  | succ k =>
    rw [hk] at hlow hle
    have hhigh := Nat.find_min hsome (m := k) (by omega)
    refine ⟨k + 1, by omega, hle, hlow, ?_⟩
    rw [pow_succ', mul_left_comm, mul_assoc]
    omega

/-- The rounded mantissa is in the range, or just beyond it. -/
theorem Scaled.mantissa (hscaled : Scaled num den k) :
    hiddenBit ≤ roundDiv (num * 2 ^ k) den ∧ roundDiv (num * 2 ^ k) den ≤ 2 * hiddenBit := by
  obtain ⟨hbelow, habove⟩ := roundDiv_near (n := num * 2 ^ k) hscaled.den_pos
  have hlow := hscaled.low
  have hhigh := hscaled.high
  have hden := hscaled.den_pos
  constructor
  · by_contra hless
    have hmul : den * (roundDiv (num * 2 ^ k) den + 1) ≤ den * hiddenBit :=
      Nat.mul_le_mul_left den (by omega)
    rw [mul_comm den hiddenBit, mul_add] at hmul
    omega
  · by_contra hmore
    have hmul : den * (2 * hiddenBit + 1) ≤ den * roundDiv (num * 2 ^ k) den :=
      Nat.mul_le_mul_left den (by omega)
    rw [mul_add, mul_comm den (2 * hiddenBit)] at hmul
    omega

/-- The lengths of the two numbers tell the power, up to one. -/
theorem Scaled.log2_cases (hscaled : Scaled num den k) :
    num.log2 + k = den.log2 + 52 ∨ num.log2 + k = den.log2 + 53 := by
  have hnum := Nat.log2_self_le hscaled.num_pos.ne'
  have hnum' := Nat.lt_log2_self (n := num)
  have hden := Nat.log2_self_le hscaled.den_pos.ne'
  have hden' := Nat.lt_log2_self (n := den)
  have hbit : hiddenBit = 2 ^ 52 := rfl
  have hlow : 2 ^ (52 + den.log2) < 2 ^ (num.log2 + 1 + k) := by
    calc 2 ^ (52 + den.log2) = hiddenBit * 2 ^ den.log2 := by rw [hbit, pow_add]
      _ ≤ hiddenBit * den := Nat.mul_le_mul_left _ hden
      _ ≤ num * 2 ^ k := hscaled.low
      _ < 2 ^ (num.log2 + 1) * 2 ^ k := Nat.mul_lt_mul_of_pos_right hnum' (Nat.two_pow_pos k)
      _ = 2 ^ (num.log2 + 1 + k) := by rw [pow_add _ (num.log2 + 1) k]
  have hhigh : 2 ^ (num.log2 + k) < 2 ^ (53 + (den.log2 + 1)) := by
    calc 2 ^ (num.log2 + k) = 2 ^ num.log2 * 2 ^ k := by rw [pow_add]
      _ ≤ num * 2 ^ k := Nat.mul_le_mul_right _ hnum
      _ < 2 * hiddenBit * den := hscaled.high
      _ ≤ 2 * hiddenBit * 2 ^ (den.log2 + 1) := Nat.mul_le_mul_left _ hden'.le
      _ = 2 ^ (53 + (den.log2 + 1)) := by rw [hbit, pow_add _ 53, pow_succ' 2 52]
  grind [Nat.pow_lt_pow_iff_right]

/-- The exponent is estimated from the lengths of the two numbers, one too low at most, and
then corrected. -/
theorem Scaled.ofRatio_eq (hscaled : Scaled num den k) (hpos : 1 ≤ k) (hmost : k ≤ 1074) :
    ofRatio false num den = ofParts false (roundDiv (num * 2 ^ k) den) (-k) := by
  obtain ⟨j, rfl⟩ := Nat.exists_eq_add_of_le' hpos
  have hzero : (num == 0 || den == 0) = false := by
    simp [hscaled.num_pos.ne', hscaled.den_pos.ne']
  have hmax : max (Int.negSucc j) (-1074) = Int.negSucc j := by omega
  have hk : (-((j + 1 : Nat) : Int)) = Int.negSucc j := rfl
  unfold ofRatio
  simp only [hzero, Bool.false_eq_true, if_false, hk, Nat.pow_eq]
  rcases hscaled.log2_cases with hlog | hlog
  · -- The estimate is one too low.
    have hguess : (num.log2 : Int) - den.log2 - 53 = Int.negSucc (j + 1) := by omega
    have hlarge : num * 2 ^ (j + 1 + 1) / den ≥ 2 * hiddenBit := by
      apply (Nat.le_div_iff_mul_le hscaled.den_pos).mpr
      rw [pow_succ' 2 (j + 1), mul_left_comm, mul_assoc]
      exact Nat.mul_le_mul_left 2 hscaled.low
    have hnext : Int.negSucc (j + 1) + 1 = Int.negSucc j := by omega
    simp only [hguess, hlarge, if_true, hnext, hmax]
  · have hguess : (num.log2 : Int) - den.log2 - 53 = Int.negSucc j := by omega
    have hsmall : ¬ num * 2 ^ (j + 1) / den ≥ 2 * hiddenBit := by
      rw [ge_iff_le, Nat.le_div_iff_mul_le hscaled.den_pos]
      exact Nat.not_le.mpr hscaled.high
    simp only [hguess, hsmall, if_false, hmax]

/-! ## The order of the bits -/

/-- The number is finite and not negative; its bits are its magnitude. -/
def Ordinary (x : Binary64) : Prop := x.bits.toNat < infinityBits

namespace Ordinary

variable {x y : Binary64}

theorem magnitude_eq (hx : x.Ordinary) : x.magnitude = x.bits.toNat :=
  Nat.mod_eq_of_lt (Nat.lt_trans hx (by decide))

theorem isNaN_eq (hx : x.Ordinary) : x.isNaN = false := by
  rw [isNaN, hx.magnitude_eq]
  exact decide_eq_false (Nat.lt_asymm hx)

theorem isInf_eq (hx : x.Ordinary) : x.isInf = false := by
  rw [isInf, hx.magnitude_eq]
  exact beq_eq_false_iff_ne.mpr (Nat.ne_of_lt hx)

theorem isNegative_eq (hx : x.Ordinary) : x.isNegative = false :=
  decide_eq_false (Nat.not_le.mpr (Nat.lt_trans hx (by decide)))

theorem lt_iff (hx : x.Ordinary) (hy : y.Ordinary) :
    x.lt y = true ↔ x.bits.toNat < y.bits.toNat := by
  simp [lt, hx.isNaN_eq, hy.isNaN_eq, hx.isNegative_eq, hy.isNegative_eq, hx.magnitude_eq,
    hy.magnitude_eq]

end Ordinary

theorem eq_of_bits {x y : Binary64} (hbits : x.bits.toNat = y.bits.toNat) : x = y := by
  cases x
  cases y
  exact congrArg Binary64.mk (UInt64.toNat_inj.mp hbits)

theorem body_lt (hhigh : m ≤ 2 * hiddenBit) (k : Nat) :
    (1074 - k) * hiddenBit + m < infinityBits := by grind [hiddenBit, infinityBits]

theorem bits_ofParts (hlow : hiddenBit ≤ m) (hhigh : m ≤ 2 * hiddenBit) (hmost : k ≤ 1074) :
    (ofParts false m (-k)).bits.toNat = (1074 - k) * hiddenBit + m := by
  have hfield : (-(k : Int) + 1075).toNat - 1 = 1074 - k := by omega
  have hless := body_lt hhigh k
  grind [hiddenBit, ofParts, UInt64.toNat_ofNat_of_lt']

theorem ordinary_ofParts (hlow : hiddenBit ≤ m) (hhigh : m ≤ 2 * hiddenBit) (hmost : k ≤ 1074) :
    (ofParts false m (-k)).Ordinary := by
  rw [Ordinary, bits_ofParts hlow hhigh hmost]
  exact body_lt hhigh k

/-- A mantissa just beyond the range is the least one of the next exponent. -/
theorem ofParts_carry (hmost : k + 1 ≤ 1074) :
    ofParts false (2 * hiddenBit) (-(k + 1 : Nat)) = ofParts false hiddenBit (-k) := by
  apply eq_of_bits
  have hle : hiddenBit ≤ 2 * hiddenBit := by omega
  have hfield : 1074 - k = 1074 - (k + 1) + 1 := by omega
  rw [bits_ofParts hle le_rfl hmost, bits_ofParts le_rfl hle (by omega), hfield, add_mul]
  omega

theorem parts_ofParts (hlow : hiddenBit ≤ m) (hhigh : m < 2 * hiddenBit) (hmost : k ≤ 1074) :
    (ofParts false m (-k)).parts = (m, -(k : Int)) := by
  have hmagnitude := (ordinary_ofParts hlow hhigh.le hmost).magnitude_eq
  grind [hiddenBit, bits_ofParts, parts]

theorem half_ofParts (hlow : hiddenBit ≤ m) (hhigh : m < 2 * hiddenBit) (hmost : k + 1 ≤ 1074) :
    (ofParts false m (-k)).half = ofParts false m (-(k + 1 : Nat)) := by
  have hordinary := ordinary_ofParts hlow hhigh.le (Nat.le_of_succ_le hmost)
  have hscaled : Scaled m (2 ^ (k + 1)) (k + 1) :=
    ⟨Nat.mul_le_mul_right _ hlow, Nat.mul_lt_mul_of_pos_right hhigh (Nat.two_pow_pos _)⟩
  have hexponent : -(k : Int) - 1 = Int.negSucc k := by omega
  have hratio := hscaled.ofRatio_eq (Nat.le_add_left 1 k) hmost
  rw [roundDiv_mul_self (Nat.two_pow_pos _)] at hratio
  simp only [half, hordinary.isNaN_eq, hordinary.isInf_eq, hordinary.isNegative_eq, Bool.or_self,
    Bool.false_eq_true, if_false, parts_ofParts hlow hhigh (Nat.le_of_succ_le hmost), hexponent,
    Nat.pow_eq, hratio]

/-- Half of a rounded quotient is the rounded half. -/
theorem Scaled.half_ofRatio (hscaled : Scaled num den k) (hpos : 1 ≤ k) (hmost : k + 1 ≤ 1074) :
    (ofRatio false num den).half = ofRatio false num (2 * den) := by
  have hhalf : Scaled num (2 * den) (k + 1) := by
    have hlow := hscaled.low
    have hhigh := hscaled.high
    constructor
    · rw [pow_succ', mul_left_comm, mul_left_comm num]
      omega
    · rw [pow_succ', mul_left_comm num, mul_left_comm _ 2]
      omega
  have hmantissa : roundDiv (num * 2 ^ (k + 1)) (2 * den) = roundDiv (num * 2 ^ k) den := by
    rw [pow_succ', mul_left_comm, roundDiv_mul_left Nat.two_pos]
  obtain ⟨hlow, hhigh⟩ := hscaled.mantissa
  rw [hscaled.ofRatio_eq hpos (by omega), hhalf.ofRatio_eq (by omega) hmost, hmantissa]
  rcases Nat.lt_or_eq_of_le hhigh with hless | hcarry
  · exact half_ofParts hlow hless hmost
  · -- Before and after halving, the mantissa carries into the exponent.
    obtain ⟨j, rfl⟩ := Nat.exists_eq_add_of_le' hpos
    rw [hcarry, ofParts_carry (by omega), ofParts_carry (by omega)]
    exact half_ofParts le_rfl (by decide) (by omega)

/-! ## The order of quotients -/

theorem Scaled.bits_ofRatio (hscaled : Scaled num den k) (hpos : 1 ≤ k) (hmost : k ≤ 1074) :
    (ofRatio false num den).bits.toNat = (1074 - k) * hiddenBit + roundDiv (num * 2 ^ k) den := by
  obtain ⟨hlow, hhigh⟩ := hscaled.mantissa
  rw [hscaled.ofRatio_eq hpos hmost, bits_ofParts hlow hhigh hmost]

theorem Scaled.ordinary_ofRatio (hscaled : Scaled num den k) (hpos : 1 ≤ k) (hmost : k ≤ 1074) :
    (ofRatio false num den).Ordinary := by
  obtain ⟨hlow, hhigh⟩ := hscaled.mantissa
  rw [hscaled.ofRatio_eq hpos hmost]
  exact ordinary_ofParts hlow hhigh hmost

/-- Equal quotients are rounded to the same number. -/
theorem Scaled.ofRatio_congr (hscaled : Scaled a b k) (hpos : 1 ≤ k) (hmost : k ≤ 1074) (hd : 0 < d)
    (hsame : a * d = c * b) : ofRatio false a b = ofRatio false c d := by
  have hb := hscaled.den_pos
  have hpower : a * 2 ^ k * d = c * 2 ^ k * b := by
    rw [mul_right_comm, hsame, mul_right_comm]
  have hscaled' : Scaled c d k := by
    constructor
    · apply Nat.le_of_mul_le_mul_right _ hb
      rw [← hpower, mul_right_comm]
      exact Nat.mul_le_mul_right d hscaled.low
    · apply Nat.lt_of_mul_lt_mul_right (a := b)
      rw [← hpower, mul_right_comm _ d b]
      exact Nat.mul_lt_mul_of_pos_right hscaled.high hd
  rw [hscaled.ofRatio_eq hpos hmost, hscaled'.ofRatio_eq hpos hmost, roundDiv_congr hb hd hpower]

/-- The quotient `a / b` is below `c / d` by more than one part in `2 ^ 52` of the latter. -/
def Apart (a b c d : Nat) : Prop := hiddenBit * (a * d) < (hiddenBit - 1) * (c * b)

theorem Apart.lt (hapart : Apart a b c d) : a * d < c * b := by
  unfold Apart hiddenBit at hapart
  omega

/-- The larger quotient needs no larger power. -/
theorem Apart.scale_le {j : Nat} (hapart : Apart a b c d) (hab : Scaled a b k)
    (hcd : Scaled c d j) :
    j ≤ k := by
  by_contra hless
  have hpow : 2 ^ (k + 1) ≤ 2 ^ j := Nat.pow_le_pow_right Nat.two_pos (by omega)
  have hcontra : 2 * hiddenBit * d * b < 2 * hiddenBit * d * b := by
    calc 2 * hiddenBit * d * b = 2 * d * (hiddenBit * b) := by ring
      _ ≤ 2 * d * (a * 2 ^ k) := Nat.mul_le_mul_left _ hab.low
      _ = a * d * 2 ^ (k + 1) := by ring
      _ ≤ a * d * 2 ^ j := Nat.mul_le_mul_left _ hpow
      _ ≤ c * b * 2 ^ j := Nat.mul_le_mul_right _ hapart.lt.le
      _ = c * 2 ^ j * b := by ring
      _ < 2 * hiddenBit * d * b := Nat.mul_lt_mul_of_pos_right hcd.high hab.den_pos
  exact Nat.lt_irrefl _ hcontra

theorem Apart.roundDiv_lt (hapart : Apart a b c d) (hab : Scaled a b k) (hcd : Scaled c d k) :
    roundDiv (a * 2 ^ k) b < roundDiv (c * 2 ^ k) d := by
  have hgap : a * 2 ^ k * d + d * b < c * 2 ^ k * b := by
    have hmul := Nat.mul_lt_mul_of_pos_right hapart (Nat.two_pow_pos k)
    have hlow := Nat.mul_le_mul_right b hcd.low
    simp only [hiddenBit] at hmul hlow
    nlinarith
  obtain ⟨hbelow, -⟩ := roundDiv_near (n := a * 2 ^ k) hab.den_pos
  obtain ⟨-, habove⟩ := roundDiv_near (n := c * 2 ^ k) hcd.den_pos
  by_contra hnot
  have hle : d * roundDiv (c * 2 ^ k) d ≤ d * roundDiv (a * 2 ^ k) b :=
    Nat.mul_le_mul_left d (by omega)
  have hbelow' := Nat.mul_le_mul_right d hbelow
  have habove' := Nat.mul_le_mul_right b habove
  nlinarith

/-- At neighbouring powers the quotients are too far apart to meet at the power of two between
them. -/
theorem Apart.not_carry (hapart : Apart a b c d) (hab : Scaled a b (k + 1)) (hcd : Scaled c d k) :
    ¬ (roundDiv (a * 2 ^ (k + 1)) b = 2 * hiddenBit ∧ roundDiv (c * 2 ^ k) d = hiddenBit) := by
  rintro ⟨hcarry, hleast⟩
  obtain ⟨hbelow, -⟩ := roundDiv_near (n := a * 2 ^ (k + 1)) hab.den_pos
  obtain ⟨-, habove⟩ := roundDiv_near (n := c * 2 ^ k) hcd.den_pos
  rw [hcarry, pow_succ'] at hbelow
  rw [hleast] at habove
  have hmul := Nat.mul_lt_mul_of_pos_right hapart (Nat.two_pow_pos k)
  have hbelow' := Nat.mul_le_mul_right d hbelow
  have habove' := Nat.mul_le_mul_right b habove
  have hpos := Nat.mul_pos hab.den_pos hcd.den_pos
  simp only [hiddenBit] at hmul hbelow' habove'
  nlinarith

/-- **Quotients that are apart are rounded in order.** -/
theorem Apart.ofRatio_lt {j : Nat} (hapart : Apart a b c d) (hab : Scaled a b k)
    (hcd : Scaled c d j) (hpos : 1 ≤ j) (hmost : k ≤ 1074) :
    (ofRatio false a b).lt (ofRatio false c d) = true := by
  have hle := hapart.scale_le hab hcd
  have hab' := hab.mantissa
  have hcd' := hcd.mantissa
  rw [(hab.ordinary_ofRatio (by omega) hmost).lt_iff (hcd.ordinary_ofRatio hpos (by omega)),
    hab.bits_ofRatio (by omega) hmost, hcd.bits_ofRatio hpos (by omega)]
  have hpowers : k = j ∨ k = j + 1 ∨ j + 2 ≤ k := by omega
  rcases hpowers with rfl | rfl | hfar
  · have hrounded := hapart.roundDiv_lt hab hcd
    omega
  · have hfield : 1074 - j = 1074 - (j + 1) + 1 := by omega
    have hnot := hapart.not_carry hab hcd
    rw [hfield, add_mul]
    omega
  · grind [hiddenBit]

/-! ## Quotients of small numbers -/

/-- The quotient of two positive numbers below `2 ^ 26`. -/
structure Small (num den : Nat) : Prop where
  num_pos : 0 < num
  num_lt : num < 2 ^ 26
  den_pos : 0 < den
  den_lt : den < 2 ^ 26

def divisor (halved : Bool) (den : Nat) : Nat := if halved then 2 * den else den

namespace Small

variable {p q : Bool}

theorem divisor_pos (hsmall : Small num den) (halved : Bool) : 0 < divisor halved den := by
  have hden := hsmall.den_pos
  unfold divisor
  split <;> omega

theorem exists_scaled (hsmall : Small num den) (halved : Bool) :
    ∃ k, 1 ≤ k ∧ k ≤ 80 ∧ Scaled num (divisor halved den) k := by
  obtain ⟨hnum, hnum', hden, hden'⟩ := hsmall
  have hdivisor : den ≤ divisor halved den ∧ divisor halved den ≤ 2 * den := by
    unfold divisor
    split <;> omega
  apply Binary64.exists_scaled
  · simp only [hiddenBit]
    omega
  · calc hiddenBit * divisor halved den ≤ hiddenBit * 2 ^ 27 := Nat.mul_le_mul_left _ (by omega)
      _ ≤ 1 * 2 ^ 80 := by decide
      _ ≤ num * 2 ^ 80 := Nat.mul_le_mul_right _ hnum

theorem half_eq (hsmall : Small num den) (halved : Bool) :
    (if halved then (ofRatio false num den).half else ofRatio false num den) =
      ofRatio false num (divisor halved den) := by
  cases halved with
  | false => rfl
  | true =>
    obtain ⟨k, hpos, hmost, hscaled⟩ := hsmall.exists_scaled false
    exact hscaled.half_ofRatio hpos (by omega)

/-- Two different quotients are apart: the cross products of the one that is halved, or of
either, are below `2 ^ 52`. -/
theorem apart (hab : Small a b) (hcd : Small c d) (hlt : a * divisor q d < c * divisor p b) :
    Apart a (divisor p b) c (divisor q d) := by
  have hproduct {x y : Nat} (hx : x < 2 ^ 26) (hy : y < 2 ^ 26) : x * y < hiddenBit - 1 :=
    calc x * y ≤ (2 ^ 26 - 1) * (2 ^ 26 - 1) := Nat.mul_le_mul (by omega) (by omega)
      _ < hiddenBit - 1 := by decide
  have had := hproduct hab.num_lt hcd.den_lt
  have hcb := hproduct hcd.num_lt hab.den_lt
  cases p <;> cases q <;>
    simp only [Apart, divisor, hiddenBit, Bool.false_eq_true, if_true, if_false,
      mul_left_comm _ 2] at * <;> omega

/-- Quotients of small numbers, halved or not, are compared as they are. -/
theorem ofRatio_lt_iff (hab : Small a b) (hcd : Small c d) :
    (ofRatio false a (divisor p b)).lt (ofRatio false c (divisor q d)) = true ↔
      a * divisor q d < c * divisor p b := by
  obtain ⟨k, hk, hk', hfirst⟩ := hab.exists_scaled p
  obtain ⟨j, hj, hj', hsecond⟩ := hcd.exists_scaled q
  have hordinary := hfirst.ordinary_ofRatio hk (by omega)
  have hordinary' := hsecond.ordinary_ofRatio hj (by omega)
  constructor
  · intro hlt
    by_contra hnot
    rw [hordinary.lt_iff hordinary'] at hlt
    rcases Nat.lt_or_eq_of_le (Nat.not_lt.mp hnot) with hgreater | hsame
    · have hgt := (apart hcd hab hgreater).ofRatio_lt hsecond hfirst hk (by omega)
      rw [hordinary'.lt_iff hordinary] at hgt
      omega
    · rw [hfirst.ofRatio_congr hk (by omega) (hcd.divisor_pos q) hsame.symm] at hlt
      exact Nat.lt_irrefl _ hlt
  · intro hless
    exact (apart hab hcd hless).ofRatio_lt hfirst hsecond hj (by omega)

end Small

end FaultRepair.Number.Binary64
