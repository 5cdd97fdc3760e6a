/-
# Saturation is clamping

The operations on words recognise an overflow after the fact, from signs and comparisons of
the wrapped result. What they give is the exact result, or the bound that it passes.

A word stands for the one number of its residue class between the bounds of its type, and
there are as many numbers between the bounds as words. The exact result of an operation is
less than one turn away from the bounds, so the wrapped result is exact or one turn off, and
its sign tells which.
-/

import FaultRepair.Number.Saturating
import Mathlib.Tactic
import Mathlib.Order.Bounds.Basic

namespace FaultRepair.Number.IntKind

def least (k : IntKind) : Int := k.value k.bounds.1

def greatest (k : IntKind) : Int := k.value k.bounds.2

/-- The number between the bounds that is nearest to a number. -/
def clamp (k : IntKind) (n : Int) : Int := max k.least (min k.greatest n)

variable {k : IntKind} {n : Int} {x y : k.Word}

/-! ## The bounds -/

theorem least_of_unsigned (hsigned : k.signed = false) : k.least = 0 := by
  simp [least, value, bounds, hsigned]

theorem greatest_of_unsigned (hsigned : k.signed = false) : k.greatest = 2 ^ k.width - 1 := by
  simp [greatest, value, bounds, hsigned]

theorem least_of_signed (hsigned : k.signed = true) :
    k.least = -((2 ^ (k.width - 1) % 2 ^ k.width : Nat) : Int) := by
  rw [← BitVec.toInt_intMin]
  simp only [least, value, bounds, hsigned, if_true, BitVec.intMin, BitVec.twoPow]

theorem not_intMin (w : Nat) : ~~~BitVec.intMin w = BitVec.intMax w := by
  cases w with
  | zero => exact BitVec.eq_of_zero_length rfl
  | succ w =>
    grind [BitVec.eq_of_toNat_eq, BitVec.toNat_not, BitVec.toNat_intMin_of_pos, BitVec.toNat_intMax]

theorem greatest_of_signed (hsigned : k.signed = true) : k.greatest = 2 ^ (k.width - 1) - 1 := by
  rw [← BitVec.toInt_intMax, ← not_intMin]
  simp only [greatest, value, bounds, hsigned, if_true, BitVec.intMin, BitVec.twoPow]

/-- There are as many numbers between the bounds as words. -/
theorem greatest_add_one (k : IntKind) : k.greatest + 1 = k.least + 2 ^ k.width := by
  cases hsigned : k.signed with
  | false =>
    rw [least_of_unsigned hsigned, greatest_of_unsigned hsigned]
    omega
  | true =>
    rw [least_of_signed hsigned, greatest_of_signed hsigned]
    rcases Nat.eq_zero_or_pos k.width with hwidth | hwidth
    · simp [hwidth]
    · have hpow : (2 : Int) ^ k.width = 2 * 2 ^ (k.width - 1) := (mul_pow_sub_one hwidth.ne' 2).symm
      rw [Nat.mod_eq_of_lt (Nat.two_pow_pred_lt_two_pow hwidth), hpow]
      push_cast
      omega

theorem symmetric_of_signed (hsigned : k.signed = true) :
    k.greatest ≤ -k.least ∧ -k.least ≤ k.greatest + 1 := by
  rw [least_of_signed hsigned, greatest_of_signed hsigned]
  rcases Nat.eq_zero_or_pos k.width with hwidth | hwidth
  · simp [hwidth]
  · rw [Nat.mod_eq_of_lt (Nat.two_pow_pred_lt_two_pow hwidth)]
    push_cast
    omega

theorem least_le (x : k.Word) : k.least ≤ k.value x := by
  cases hsigned : k.signed with
  | false => simp [least_of_unsigned hsigned, value, hsigned]
  | true =>
    rw [least_of_signed hsigned, ← BitVec.toInt_intMin]
    simpa [value, hsigned] using BitVec.toInt_intMin_le x

theorem le_greatest (x : k.Word) : k.value x ≤ k.greatest := by
  cases hsigned : k.signed with
  | false =>
    have hlt : (x.toNat : Int) < 2 ^ k.width := by exact_mod_cast x.isLt
    simp only [greatest_of_unsigned hsigned, value, hsigned, Bool.false_eq_true, if_false]
    omega
  | true =>
    rw [greatest_of_signed hsigned]
    simpa [value, hsigned] using BitVec.toInt_le

theorem value_bounds (x : k.Word) : k.least ≤ k.value x ∧ k.value x ≤ k.greatest :=
  ⟨least_le x, le_greatest x⟩

/-! ## Words and their numbers -/

theorem less_iff : k.less x y = true ↔ k.value x < k.value y := by
  grind [less, value, BitVec.ult_iff_lt, BitVec.lt_def, BitVec.slt_iff_toInt_lt]

theorem value_zero (k : IntKind) : k.value (0#k.width) = 0 := by
  simp [value]

theorem isNegative_iff : k.isNegative x = true ↔ k.value x < 0 := by
  rw [isNegative, less_iff, value_zero]

theorem isPositive_iff : k.isPositive x = true ↔ 0 < k.value x := by
  rw [isPositive, less_iff, value_zero]

theorem word_value (x : k.Word) : k.word (k.value x) = x := by grind [word, value]

theorem value_injective : Function.Injective k.value :=
  Function.LeftInverse.injective word_value

/-- A word stands for a number of its residue class. -/
theorem dvd_value_word (k : IntKind) (n : Int) : 2 ^ k.width ∣ k.value (k.word n) - n := by
  cases hsigned : k.signed with
  | false =>
    have hvalue : k.value (k.word n) = n % 2 ^ k.width := by
      have hnonneg : 0 ≤ n % 2 ^ k.width := Int.emod_nonneg n (by positivity)
      simp [word, value, hsigned, hnonneg]
    rw [hvalue]
    exact Int.dvd_emod_sub_self
  | true =>
    have hvalue : k.value (k.word n) = n.bmod (2 ^ k.width) := by
      simp [word, value, hsigned, BitVec.toInt_ofInt]
    rw [hvalue]
    exact_mod_cast Int.dvd_bmod_sub_self

/-- A number less than one turn away from the bounds is kept, or wrapped once. -/
theorem value_word_cases (hlow : k.least - 2 ^ k.width ≤ n) (hhigh : n ≤ k.greatest + 2 ^ k.width) :
    k.value (k.word n) = n ∨ k.value (k.word n) = n + 2 ^ k.width ∨
      k.value (k.word n) = n - 2 ^ k.width := by
  obtain ⟨turns, hturns⟩ := dvd_value_word k n
  have hspan := greatest_add_one k
  have hbounds := value_bounds (k.word n)
  have hsize : (0 : Int) < 2 ^ k.width := by positivity
  -- Two turns would lead past the other bound.
  have hbelow : turns < 2 := by nlinarith
  have habove : -2 < turns := by nlinarith
  have hcases : turns = 0 ∨ turns = 1 ∨ turns = -1 := by omega
  rcases hcases with rfl | rfl | rfl <;> omega

theorem value_word_of_mem (hlow : k.least ≤ n) (hhigh : n ≤ k.greatest) :
    k.value (k.word n) = n := by
  have hspan := greatest_add_one k
  have hbounds := value_bounds (k.word n)
  grind [value_word_cases]

theorem word_add (x y : k.Word) : k.word (k.value x + k.value y) = x + y := by
  rw [word, BitVec.ofInt_add]
  exact congrArg₂ _ (word_value x) (word_value y)

theorem word_neg (x : k.Word) : k.word (-k.value x) = -x := by
  rw [word, BitVec.ofInt_neg]
  exact congrArg _ (word_value x)

theorem word_sub (x y : k.Word) : k.word (k.value x - k.value y) = x - y := by
  rw [Int.sub_eq_add_neg, word, BitVec.ofInt_add, BitVec.sub_eq_add_neg]
  exact congrArg₂ _ (word_value x) (word_neg y)

/-! ## The operations -/

theorem clamp_of_mem (hlow : k.least ≤ n) (hhigh : n ≤ k.greatest) : k.clamp n = n := by
  rw [clamp, min_eq_right hhigh, max_eq_right hlow]

theorem clamp_of_le (hlow : n ≤ k.least) : k.clamp n = k.least := by
  rw [clamp, max_eq_left (min_le_of_right_le hlow)]

theorem clamp_of_ge (hhigh : k.greatest ≤ n) : k.clamp n = k.greatest := by
  rw [clamp, min_eq_left hhigh]
  exact max_eq_right (least_le k.bounds.2)

theorem add_of_unsigned (hsigned : k.signed = false) (x y : k.Word) :
    k.add x y = if k.value (x + y) < k.value x then k.bounds.2 else x + y := by
  simp only [add, hsigned, Bool.not_false, if_true, less_iff]

theorem add_of_signed (hsigned : k.signed = true) (x y : k.Word) :
    k.add x y =
      if 0 < k.value x ∧ 0 < k.value y ∧ k.value (x + y) < 0 then k.bounds.2
      else if k.value x < 0 ∧ k.value y < 0 ∧ 0 ≤ k.value (x + y) then k.bounds.1
      else x + y := by grind [add, isPositive_iff, isNegative_iff]

theorem value_add (x y : k.Word) : k.value (k.add x y) = k.clamp (k.value x + k.value y) := by
  have hspan := greatest_add_one k
  have hx := value_bounds x
  have hy := value_bounds y
  have hsum := value_bounds (x + y)
  cases hsigned : k.signed with
  | false =>
    have hzero := least_of_unsigned hsigned
    have hturn := value_word_cases (k := k) (n := k.value x + k.value y) (by omega) (by omega)
    rw [word_add] at hturn
    rw [add_of_unsigned hsigned]
    split
    case isTrue hpassed => exact (clamp_of_ge (by omega)).symm
    case isFalse hkept =>
      rw [clamp_of_mem (by omega) (by omega)]
      omega
  | true =>
    -- Operands of one sign give a sum of that sign, unless it was wrapped; of two signs,
    -- the sum lies between them.
    have hsymmetric := symmetric_of_signed hsigned
    have hturn := value_word_cases (k := k) (n := k.value x + k.value y) (by omega) (by omega)
    rw [word_add] at hturn
    rw [add_of_signed hsigned]
    split
    case isTrue hpassed => exact (clamp_of_ge (by omega)).symm
    case isFalse hbelow =>
      split
      case isTrue hpassed => exact (clamp_of_le (by omega)).symm
      case isFalse habove =>
        rw [clamp_of_mem (by omega) (by omega)]
        omega

theorem sub_of_unsigned (hsigned : k.signed = false) (x y : k.Word) :
    k.sub x y = if k.value x < k.value y then k.bounds.1 else x - y := by
  simp only [sub, hsigned, Bool.not_false, if_true, less_iff]

theorem sub_of_signed (hsigned : k.signed = true) (x y : k.Word) :
    k.sub x y =
      if 0 ≤ k.value x ∧ k.value y < 0 ∧ k.value (x - y) < 0 then k.bounds.2
      else if k.value x < 0 ∧ 0 < k.value y ∧ 0 ≤ k.value (x - y) then k.bounds.1
      else x - y := by grind [sub, isPositive_iff, isNegative_iff]

theorem value_sub (x y : k.Word) : k.value (k.sub x y) = k.clamp (k.value x - k.value y) := by
  have hspan := greatest_add_one k
  have hx := value_bounds x
  have hy := value_bounds y
  have hdiff := value_bounds (x - y)
  cases hsigned : k.signed with
  | false =>
    have hzero := least_of_unsigned hsigned
    have hturn := value_word_cases (k := k) (n := k.value x - k.value y) (by omega) (by omega)
    rw [word_sub] at hturn
    rw [sub_of_unsigned hsigned]
    split
    case isTrue hpassed => exact (clamp_of_le (by omega)).symm
    case isFalse hkept =>
      rw [clamp_of_mem (by omega) (by omega)]
      omega
  | true =>
    have hsymmetric := symmetric_of_signed hsigned
    have hturn := value_word_cases (k := k) (n := k.value x - k.value y) (by omega) (by omega)
    rw [word_sub] at hturn
    rw [sub_of_signed hsigned]
    split
    case isTrue hpassed => exact (clamp_of_ge (by omega)).symm
    case isFalse hbelow =>
      split
      case isTrue hpassed => exact (clamp_of_le (by omega)).symm
      case isFalse habove =>
        rw [clamp_of_mem (by omega) (by omega)]
        omega

theorem abs_of_not_negative (hx : 0 ≤ k.value x) : k.abs x = x := by
  have hnegative := mt isNegative_iff.mp (not_lt.mpr hx)
  simp [abs, hnegative]

theorem signed_of_neg (hx : k.value x < 0) : k.signed = true := by
  by_contra hunsigned
  have hzero := least_of_unsigned (Bool.not_eq_true _ ▸ hunsigned)
  have hleast := least_le x
  omega

theorem abs_of_negative (hx : k.value x < 0) :
    k.abs x = if k.value x = k.least then k.bounds.2 else -x := by
  simp only [abs, signed_of_neg hx, isNegative_iff.mpr hx, Bool.not_true, Bool.or_self,
    Bool.false_eq_true, if_false, beq_iff_eq, least, value_injective.eq_iff]

theorem value_abs (x : k.Word) : k.value (k.abs x) = k.clamp |k.value x| := by
  have hleast := least_le x
  have hgreatest := le_greatest x
  rcases le_or_gt 0 (k.value x) with hx | hx
  · rw [abs_of_not_negative hx, abs_of_nonneg hx, clamp_of_mem hleast hgreatest]
  · have hsymmetric := symmetric_of_signed (signed_of_neg hx)
    rw [abs_of_negative hx, abs_of_neg hx]
    split
    case isTrue hbound => exact (clamp_of_ge (by omega)).symm
    case isFalse hother =>
      rw [← word_neg, value_word_of_mem (by omega) (by omega), clamp_of_mem (by omega) (by omega)]

/-- **Saturating arithmetic is exact arithmetic clamped.**  In every integer type the bounds
are the least and the greatest number of a word, and the sum, the difference and the absolute
value are the exact ones, clamped to these bounds. -/
theorem saturating_eq_clamped (k : IntKind) :
    IsLeast (Set.range k.value) (k.value k.bounds.1) ∧
    IsGreatest (Set.range k.value) (k.value k.bounds.2) ∧
    ∀ x y : k.Word,
      k.value (k.add x y) = k.clamp (k.value x + k.value y) ∧
      k.value (k.sub x y) = k.clamp (k.value x - k.value y) ∧
      k.value (k.abs x) = k.clamp |k.value x| := by
  refine ⟨⟨Set.mem_range_self _, ?_⟩, ⟨Set.mem_range_self _, ?_⟩, ?_⟩
  · rintro n ⟨x, rfl⟩
    exact least_le x
  · rintro n ⟨x, rfl⟩
    exact le_greatest x
  · intro x y
    exact ⟨value_add x y, value_sub x y, value_abs x⟩

example : IntKind.value ⟨8, true⟩ (IntKind.abs ⟨8, true⟩ (-128#8)) = 127 := by decide

end FaultRepair.Number.IntKind
