import Mathlib.Data.Nat.Cast.Field
import Quill.Number.Decimal
import Quill.Proofs.Number.Rounding

/-!
# The shortest decimal reads back

A decimal stands for a rational number, and its code is the one nearest to that number, however the
decimal is written: the limits on the exponent decide nothing that rounding would decide otherwise
(`code_eq_nearestCode`). So the decimal that is written for a finite double is read as that double
(`code_shortest`), and so is the integer that is written for a whole one (`code_wholePart`).
-/

set_option autoImplicit false

namespace Quill

namespace Decimal

variable {d d' : Decimal} {a b : Nat}

/-- The number that the decimal stands for. -/
def value (d : Decimal) : ℚ := d.digits * 10 ^ d.exponent

theorem value_ofNat (digits e : Nat) :
    (⟨digits, Int.ofNat e⟩ : Decimal).value = (digits * 10 ^ e : Nat) / (1 : Nat) := by
  simp [value]

theorem value_negSucc (digits e : Nat) :
    (⟨digits, Int.negSucc e⟩ : Decimal).value = digits / (10 ^ (e + 1) : Nat) := by
  rw [value, zpow_negSucc, Nat.cast_pow, Nat.cast_ofNat]
  rfl

/-! ## The limits on the exponent -/

theorem two_pow_le_ten_pow {e : Nat} (he : 310 ≤ e) : Nat.pow 2 1029 ≤ Nat.pow 10 e :=
  calc
    Nat.pow 2 1029 ≤ Nat.pow 10 310 := by decide +kernel
    _ ≤ Nat.pow 10 e := Nat.pow_le_pow_right (by decide) he

theorem two_mul_unitsPerOne : 2 * Number.unitsPerOne = Nat.pow 2 1075 := by decide +kernel

/-- Three binary digits are fewer than a decimal one. -/
theorem lt_ten_pow {digits e : Nat} (h : digits.log2 + 1 + 1075 < 3 * e) :
    2 * (digits * Number.unitsPerOne) < Nat.pow 10 e := by
  have hdigits : digits < Nat.pow 2 (digits.log2 + 1) := Nat.lt_log2_self
  rw [Nat.mul_left_comm, two_mul_unitsPerOne]
  generalize 1075 = k at h ⊢
  calc
    digits * Nat.pow 2 k ≤ Nat.pow 2 (digits.log2 + 1) * Nat.pow 2 k :=
      Nat.mul_le_mul_right _ hdigits.le
    _ = Nat.pow 2 (digits.log2 + 1 + k) := (Nat.pow_add _ _ _).symm
    _ < Nat.pow 2 (3 * e) := Nat.pow_lt_pow_right (by decide) h
    _ = Nat.pow 8 e := Nat.pow_mul 2 3 e
    _ ≤ Nat.pow 10 e := Nat.pow_le_pow_left (by decide) e

/-! ## The code of a decimal -/

theorem code_ofNat (digits e : Nat) :
    (⟨digits, Int.ofNat e⟩ : Decimal).code =
      if digits = 0 then 0
      else if 310 ≤ e then Number.infinityCode
      else Number.nearestCode (digits * Nat.pow 10 e) 1 := rfl

theorem code_negSucc (digits e : Nat) :
    (⟨digits, Int.negSucc e⟩ : Decimal).code =
      if digits.log2 + 1 + 1075 < 3 * (e + 1) then 0
      else Number.nearestCode digits (Nat.pow 10 (e + 1)) := rfl

/-- The code of a decimal is the code nearest to its value, as whatever fraction that is given. -/
theorem code_eq_nearestCode (hb : 0 < b) (h : d.value = a / b) :
    d.code = Number.nearestCode a b := by
  obtain ⟨digits, e | e⟩ := d
  · rw [value_ofNat] at h
    have hcode : Number.nearestCode (digits * Nat.pow 10 e) 1 = Number.nearestCode a b :=
      Number.nearestCode_eq_of_div_eq Nat.one_pos hb h
    rw [code_ofNat]
    split
    · next hzero =>
      rw [← hcode, Number.nearestCode_eq_zero (by simp [hzero])]
    · next hzero =>
      split
      · next he =>
        have hlarge : Nat.pow 2 1029 ≤ digits * Nat.pow 10 e :=
          (two_pow_le_ten_pow he).trans (Nat.le_mul_of_pos_left _ (Nat.pos_of_ne_zero hzero))
        rw [← hcode, Number.nearestCode_eq_infinityCode hlarge]
      · exact hcode
  · rw [value_negSucc] at h
    have hcode : Number.nearestCode digits (Nat.pow 10 (e + 1)) = Number.nearestCode a b :=
      Number.nearestCode_eq_of_div_eq (Nat.pow_pos (by decide)) hb h
    rw [code_negSucc]
    split
    · next hsmall => rw [← hcode, Number.nearestCode_eq_zero (lt_ten_pow hsmall)]
    · exact hcode

/-- Every decimal is a fraction. -/
theorem exists_value_eq (d : Decimal) : ∃ a b : Nat, 0 < b ∧ d.value = a / b := by
  obtain ⟨digits, e | e⟩ := d
  · exact ⟨_, 1, Nat.one_pos, value_ofNat digits e⟩
  · exact ⟨digits, _, Nat.pow_pos (by decide), value_negSucc digits e⟩

/-- Decimals of one value are read as one double. -/
theorem code_congr (h : d.value = d'.value) : d.code = d'.code := by
  obtain ⟨a, b, hb, hd⟩ := exists_value_eq d'
  rw [code_eq_nearestCode hb hd, code_eq_nearestCode hb (h.trans hd)]

end Decimal

namespace Number

variable {n : Number}

theorem value_exactDecimal (n : Number) : n.exactDecimal.value = n.units / unitsPerOne := by
  have hten : (10 : ℚ) ^ 1074 = 2 ^ 1074 * 5 ^ 1074 := by
    rw [← mul_pow]
    norm_num
  have hexponent : (10 : ℚ) ^ (-1074 : Int) = (10 ^ 1074)⁻¹ := zpow_neg_coe_of_pos 10 (by decide)
  have hunits : (unitsPerOne : ℚ) = 2 ^ 1074 := Nat.cast_pow 2 1074
  have hdigits : ((n.units * Nat.pow 5 1074 : Nat) : ℚ) = n.units * 5 ^ 1074 := by
    rw [Nat.cast_mul]
    exact congrArg _ (Nat.cast_pow 5 1074)
  rw [Decimal.value, exactDecimal, hexponent, hten, hunits, hdigits]
  generalize hfive : (5 : ℚ) ^ 1074 = five
  have hne : five ≠ 0 := by
    rw [← hfive]
    exact pow_ne_zero _ (by norm_num)
  generalize (2 : ℚ) ^ 1074 = two
  field_simp

/-- Whatever grid the shortest decimal was found on, it reads back; if none was found, the exact
expansion does. -/
theorem code_shortest (h : n.isFinite = true) : n.shortest.code = n.code := by
  rw [shortest]
  generalize hfound : List.find? _ _ = found
  cases found with
  | none =>
    rw [Option.getD_none, Decimal.code_eq_nearestCode unitsPerOne_pos (value_exactDecimal n)]
    exact nearestCode_units h
  | some d => simpa using List.find?_some hfound

/-- The integer that a whole number is reads back. -/
theorem code_wholePart (h : n.isWhole = true) : (⟨n.wholePart, 0⟩ : Decimal).code = n.code := by
  simp only [isWhole, Bool.and_eq_true, beq_iff_eq] at h
  have hdvd : unitsPerOne ∣ n.units := Nat.dvd_of_mod_eq_zero h.2
  have hvalue : (⟨n.wholePart, 0⟩ : Decimal).value = n.units / unitsPerOne := by
    have hne : (unitsPerOne : ℚ) ≠ 0 := by exact_mod_cast unitsPerOne_pos.ne'
    rw [Decimal.value, zpow_zero, mul_one, wholePart, Nat.cast_div hdvd hne]
  rw [Decimal.code_eq_nearestCode unitsPerOne_pos hvalue]
  exact nearestCode_units h.1

end Number

end Quill
