/-
# Base 64 and back

Bytes that are written in base 64 are read back, and all that is written is letters, digits,
`+`, `/` and `=`.
-/

import FaultRepair.Text.Base64
import FaultRepair.Proofs.Text.Encoding

namespace FaultRepair.Text.Base64

variable {b a : UInt8} {na nb n : Nat} {t : Text}

def isCode (b : UInt8) : Bool := (value? b).isSome || b == 61

theorem value?_letter (hn : n < 64) : value? (letter n) = some n := by
  revert n
  decide

theorem letter_ne_padding (hn : n < 64) : letter n ≠ 61 := by
  revert n
  decide

theorem isCode_letter (hn : n < 64) : isCode (letter n) = true := by
  rw [isCode, value?_letter hn]
  rfl

/-- Four letters that are not the last ones stand for three bytes. -/
theorem groups?_cons {c d : UInt8} {nc nd : Nat} (ha : value? a = some na) (hb : value? b = some nb)
    (hc : value? c = some nc) (hd : value? d = some nd) (hpad : d ≠ 61) (rest : Text) :
    groups? (a :: b :: c :: d :: rest) = (groups? rest).map fun more =>
      ((((na * 64 + nb) * 64 + nc) * 64 + nd) / 65536).toUInt8 ::
        ((((na * 64 + nb) * 64 + nc) * 64 + nd) / 256 % 256).toUInt8 ::
        ((((na * 64 + nb) * 64 + nc) * 64 + nd) % 256).toUInt8 :: more := by
  rw [groups?]
  · simp only [ha, hb, hc, hd, Option.bind_eq_bind, Option.bind_some]
    cases groups? rest <;> rfl
  · intro _ hlast
    exact absurd hlast hpad
  · intro hlast
    exact absurd hlast hpad

theorem groups?_three {c : UInt8} {nc : Nat} (ha : value? a = some na) (hb : value? b = some nb)
    (hc : value? c = some nc) (hpad : c ≠ 61) :
    groups? [a, b, c, byte '='] = some [(((na * 64 + nb) * 64 + nc) / 1024).toUInt8,
      (((na * 64 + nb) * 64 + nc) / 4 % 256).toUInt8] := by
  show groups? [a, b, c, 61] = _
  rw [groups?]
  · simp [ha, hb, hc]
  · exact hpad

theorem groups?_two (ha : value? a = some na) (hb : value? b = some nb) :
    groups? [a, b, byte '=', byte '='] = some [((na * 64 + nb) / 16).toUInt8] := by
  show groups? [a, b, 61, 61] = _
  rw [groups?]
  simp [ha, hb]

theorem groups?_encode (t : Text) : groups? (encode t) = some t := by
  fun_induction encode t with
  | case1 a b c rest n ih =>
    have ha := a.toNat_lt
    have hb := b.toNat_lt
    have hc := c.toNat_lt
    have hn : n = a.toNat * 65536 + b.toNat * 256 + c.toNat := rfl
    rw [groups?_cons (value?_letter (by omega)) (value?_letter (by omega))
      (value?_letter (by omega))
      (value?_letter (by omega)) (letter_ne_padding (by omega)), ih]
    rw [Option.map_some, toUInt8_eq (show _ = a.toNat by omega),
      toUInt8_eq (show _ = b.toNat by omega), toUInt8_eq (show _ = c.toNat by omega)]
  | case2 a b n =>
    have ha := a.toNat_lt
    have hb := b.toNat_lt
    have hn : n = a.toNat * 1024 + b.toNat * 4 := rfl
    rw [groups?_three (value?_letter (by omega)) (value?_letter (by omega))
      (value?_letter (by omega))
      (letter_ne_padding (by omega)), toUInt8_eq (show _ = a.toNat by omega),
      toUInt8_eq (show _ = b.toNat by omega)]
  | case3 a n =>
    have ha := a.toNat_lt
    have hn : n = a.toNat * 16 := rfl
    rw [groups?_two (value?_letter (by omega)) (value?_letter (by omega)),
      toUInt8_eq (show _ = a.toNat by omega)]
  | case4 => rfl

theorem isCode_of_mem_encode (hb : b ∈ encode t) : isCode b = true := by
  fun_induction encode t with
  | case1 x y z rest n ih =>
    have hx := x.toNat_lt
    have hy := y.toNat_lt
    have hz := z.toNat_lt
    grind [isCode_letter]
  | case2 x y n =>
    have hx := x.toNat_lt
    have hy := y.toNat_lt
    have hn : n = x.toNat * 1024 + y.toNat * 4 := rfl
    simp only [List.mem_cons, List.not_mem_nil, or_false] at hb
    rcases hb with rfl | rfl | rfl | rfl
    · exact isCode_letter (by omega)
    · exact isCode_letter (by omega)
    · exact isCode_letter (by omega)
    · rfl
  | case3 x n =>
    have hx := x.toNat_lt
    have hn : n = x.toNat * 16 := rfl
    simp only [List.mem_cons, List.not_mem_nil, or_false] at hb
    rcases hb with rfl | rfl | rfl | rfl
    · exact isCode_letter (by omega)
    · exact isCode_letter (by omega)
    · rfl
    · rfl
  | case4 => cases hb

/-- The code lies among the visible characters. -/
theorem isCode_bounds (hb : isCode b = true) : 43 ≤ b.toNat ∧ b.toNat ≤ 122 := by
  simp only [isCode, value?, isDigit, Bool.or_eq_true, beq_iff_eq] at hb
  rcases hb with hletter | rfl
  · simp only [Bool.and_eq_true, decide_eq_true_eq, UInt8.le_iff_toNat_le] at hletter
    split at hletter
    · rename_i h
      exact ⟨Nat.le_trans (by decide) h.1, Nat.le_trans h.2 (by decide)⟩
    split at hletter
    · rename_i h
      exact ⟨Nat.le_trans (by decide) h.1, h.2⟩
    split at hletter
    · rename_i h
      exact ⟨Nat.le_trans (by decide) h.1, Nat.le_trans h.2 (by decide)⟩
    split at hletter
    · rename_i h
      rw [h]
      decide
    split at hletter
    · rename_i h
      rw [h]
      decide
    · cases hletter
  · decide

theorem encode_eq_nil_iff : encode t = [] ↔ t = [] := by
  fun_cases encode t <;> simp

/-- Line ends between the letters do not count. -/
theorem decode?_of_filter {code : Text} (hcode : (code.filter fun b => b != 10) = encode t)
    (hreturn : 13 ∉ code) : decode? code = some t := by
  grind [List.filter_congr, decode?, groups?_encode]

end FaultRepair.Text.Base64
