import Mathlib.Algebra.Order.Field.Rat
import Mathlib.Tactic.FieldSimp
import Mathlib.Tactic.Linarith
import Quill.Number.Basic

/-!
# Rounding to the nearest double

What `nearestCode` gives depends on the fraction alone and not on how it is written
(`nearestCode_congr`), it is exact where the fraction is a double (`nearestCode_units`), and it is
infinite or zero where the fraction is far outside the range of doubles.
-/

set_option autoImplicit false

namespace Quill.Number

variable {a b a' b' k : Nat} {n : Number}

/-! ## Rounding a quotient -/

theorem roundDiv_mul_left (hk : 0 < k) : roundDiv (k * a) (k * b) = roundDiv a b := by
  have hless : 2 * (k * (a % b)) < k * b ↔ 2 * (a % b) < b := by
    rw [Nat.mul_left_comm, Nat.mul_lt_mul_left hk]
  have hmore : k * b < 2 * (k * (a % b)) ↔ b < 2 * (a % b) := by
    rw [Nat.mul_left_comm, Nat.mul_lt_mul_left hk]
  simp only [roundDiv, Nat.mul_div_mul_left _ _ hk, Nat.mul_mod_mul_left, hless, hmore]

/-- The same fraction is rounded to the same integer. -/
theorem roundDiv_congr (hb : 0 < b) (hb' : 0 < b') (h : a * b' = a' * b) :
    roundDiv a b = roundDiv a' b' :=
  calc
    roundDiv a b = roundDiv (b' * a) (b' * b) := (roundDiv_mul_left hb').symm
    _ = roundDiv (b * a') (b * b') := by rw [Nat.mul_comm b' a, h, Nat.mul_comm a', Nat.mul_comm b']
    _ = roundDiv a' b' := roundDiv_mul_left hb

theorem roundDiv_exact (hb : 0 < b) : roundDiv (a * b) b = a := by
  simp [roundDiv, hb]

theorem roundDiv_eq_zero (h : 2 * a < b) : roundDiv a b = 0 := by
  have hlt : a < b := by omega
  simp [roundDiv, Nat.mod_eq_of_lt hlt, Nat.div_eq_of_lt hlt, h]

/-! ## The nearest code -/

theorem unitsPerOne_pos : 0 < unitsPerOne := by decide +kernel

theorem hiddenBit_pos : 0 < hiddenBit := Nat.two_pow_pos 52

theorem nearestCode_congr (hb : 0 < b) (hb' : 0 < b') (h : a * b' = a' * b) :
    nearestCode a b = nearestCode a' b' := by
  have hscaled : a * unitsPerOne * b' = a' * unitsPerOne * b := by
    rw [Nat.mul_right_comm, h, Nat.mul_right_comm]
  have hquotient : a * unitsPerOne / b = a' * unitsPerOne / b' :=
    calc
      a * unitsPerOne / b = a * unitsPerOne * b' / (b * b') := (Nat.mul_div_mul_right _ _ hb').symm
      _ = a' * unitsPerOne * b / (b' * b) := by rw [hscaled, Nat.mul_comm b b']
      _ = a' * unitsPerOne / b' := Nat.mul_div_mul_right _ _ hb
  simp only [nearestCode, hquotient]
  generalize (a' * unitsPerOne / b').log2 - 52 = shift
  have hpow : 0 < Nat.pow 2 shift := Nat.two_pow_pos shift
  have hround := roundDiv_congr (Nat.mul_pos hb hpow) (Nat.mul_pos hb' hpow)
    (show a * unitsPerOne * (b' * Nat.pow 2 shift) = a' * unitsPerOne * (b * Nat.pow 2 shift) by
      rw [← Nat.mul_assoc, hscaled, Nat.mul_assoc])
  rw [hround]

/-- Equal rational numbers have the same nearest double. -/
theorem nearestCode_eq_of_div_eq (hb : 0 < b) (hb' : 0 < b') (h : (a : ℚ) / b = a' / b') :
    nearestCode a b = nearestCode a' b' := by
  apply nearestCode_congr hb hb'
  have hb₀ : (b : ℚ) ≠ 0 := by exact_mod_cast hb.ne'
  have hb₀' : (b' : ℚ) ≠ 0 := by exact_mod_cast hb'.ne'
  rw [div_eq_div_iff hb₀ hb₀'] at h
  exact_mod_cast h

/-- Less than half a unit is rounded to zero. -/
theorem nearestCode_eq_zero (h : 2 * (a * unitsPerOne) < b) : nearestCode a b = 0 := by
  have hquotient : a * unitsPerOne / b = 0 := Nat.div_eq_of_lt (by omega)
  have hround : roundDiv (a * unitsPerOne) b = 0 := roundDiv_eq_zero h
  simp [nearestCode, hquotient, hround]

/-- From `2 ^ 1029` on everything is infinite; the largest finite double is less than
`2 ^ 1024`. -/
theorem nearestCode_eq_infinityCode (h : Nat.pow 2 1029 ≤ a) : nearestCode a 1 = infinityCode := by
  have hlog : 1029 + 1074 ≤ (a * unitsPerOne / 1).log2 := by
    have hle : 2 ^ (1029 + 1074) ≤ a * unitsPerOne := by
      rw [Nat.pow_add]
      exact Nat.mul_le_mul_right _ h
    rw [Nat.div_one, Nat.le_log2 (by have := Nat.two_pow_pos (1029 + 1074); omega)]
    exact hle
  have hshift : 2047 ≤ (a * unitsPerOne / 1).log2 - 52 := by omega
  simp only [nearestCode]
  generalize (a * unitsPerOne / 1).log2 - 52 = shift at hshift
  apply Nat.min_eq_left
  calc
    infinityCode = 2047 * hiddenBit := rfl
    _ ≤ shift * hiddenBit := Nat.mul_le_mul_right _ hshift
    _ ≤ shift * hiddenBit + _ := Nat.le_add_right _ _

/-! ## Doubles are rounded to themselves -/

theorem code_le (h : n.isFinite = true) : n.code ≤ infinityCode := by
  simp only [isFinite, decide_eq_true_eq] at h
  exact Nat.le_of_lt h

/-- The scale is what rounding would shift by, so that no digit of the significand is lost. -/
theorem log2_units (hnormal : hiddenBit ≤ n.code) : n.units.log2 - 52 = n.scale := by
  have hsignificand : n.significand = hiddenBit + n.code % hiddenBit := by
    rw [significand, if_neg (Nat.not_lt.mpr hnormal)]
  have hmod := Nat.mod_lt n.code hiddenBit_pos
  have hpos : 0 < n.units := by
    apply Nat.mul_pos
    · have := hiddenBit_pos
      omega
    · exact Nat.two_pow_pos _
  have hlog : n.units.log2 = 52 + n.scale := by
    rw [Nat.log2_eq_iff hpos.ne', units, hsignificand]
    constructor
    · rw [Nat.pow_add]
      exact Nat.mul_le_mul_right _ (Nat.le_add_right _ _)
    · rw [Nat.add_right_comm, Nat.pow_add]
      exact Nat.mul_lt_mul_of_pos_right (show _ < 2 * hiddenBit by omega) (Nat.two_pow_pos _)
  omega

theorem scale_mul_add_significand (n : Number) : n.scale * hiddenBit + n.significand = n.code := by
  have hdiv := Nat.div_add_mod n.code hiddenBit
  rw [scale, significand]
  split
  · next hlt => rw [Nat.div_eq_of_lt hlt, Nat.zero_sub, Nat.zero_mul, Nat.zero_add]
  · next hle =>
    have hquotient : 1 ≤ n.code / hiddenBit :=
      (Nat.one_le_div_iff hiddenBit_pos).mpr (Nat.not_lt.mp hle)
    obtain ⟨q, hq⟩ := Nat.exists_eq_add_of_le hquotient
    rw [hq] at hdiv ⊢
    rw [Nat.add_sub_cancel_left, Nat.mul_comm q]
    rw [Nat.mul_add, Nat.mul_one] at hdiv
    omega

/-- The double nearest to a finite double is that double. -/
theorem nearestCode_units (h : n.isFinite = true) : nearestCode n.units unitsPerOne = n.code := by
  have hshift : n.units.log2 - 52 = n.scale := by
    by_cases hnormal : hiddenBit ≤ n.code
    · exact log2_units hnormal
    · have hscale : n.scale = 0 := by
        rw [scale, Nat.div_eq_of_lt (Nat.not_le.mp hnormal)]
      have hunits : n.units = n.code := by
        rw [units, hscale, significand, if_pos (Nat.not_le.mp hnormal)]
        exact Nat.mul_one _
      have hlog : n.units.log2 ≤ 52 := by
        rw [hunits]
        by_cases hzero : n.code = 0
        · simp [hzero]
        · exact Nat.le_of_lt ((Nat.log2_lt hzero).mpr (Nat.not_le.mp hnormal))
      omega
  have hquotient : n.units * unitsPerOne / unitsPerOne = n.units :=
    Nat.mul_div_cancel _ unitsPerOne_pos
  have hround : roundDiv (n.units * unitsPerOne) (unitsPerOne * Nat.pow 2 n.scale) =
      n.significand := by
    rw [units, Nat.mul_assoc, Nat.mul_comm (Nat.pow 2 n.scale)]
    exact roundDiv_exact (Nat.mul_pos unitsPerOne_pos (Nat.two_pow_pos _))
  simp only [nearestCode, hquotient, hshift, hround, scale_mul_add_significand]
  exact Nat.min_eq_right (code_le h)

/-! ## Order -/

theorem significand_lt (n : Number) : n.significand < 2 * hiddenBit := by
  have hmod := Nat.mod_lt n.code hiddenBit_pos
  rw [significand]
  split <;> omega

/-- Codes are in the order of the magnitudes. -/
theorem units_lt_units {m n : Number} (h : m.code < n.code) : m.units < n.units := by
  have hm := scale_mul_add_significand m
  have hn := scale_mul_add_significand n
  have hscale : m.scale ≤ n.scale := Nat.sub_le_sub_right (Nat.div_le_div_right h.le) 1
  rcases hscale.eq_or_lt with heq | hlt
  · have hsignificand : m.significand < n.significand := by
      rw [heq] at hm
      omega
    rw [units, units, heq]
    exact Nat.mul_lt_mul_of_pos_right hsignificand (Nat.two_pow_pos _)
  · -- One scale up even the least significand is above all of this scale.
    have hhidden : hiddenBit ≤ n.significand := by
      have hnormal : ¬n.code < hiddenBit := by
        intro hsmall
        rw [scale, scale, Nat.div_eq_of_lt hsmall] at hlt
        omega
      rw [significand, if_neg hnormal]
      exact Nat.le_add_right _ _
    calc
      m.units < 2 * hiddenBit * Nat.pow 2 m.scale :=
        Nat.mul_lt_mul_of_pos_right m.significand_lt (Nat.two_pow_pos _)
      _ = hiddenBit * Nat.pow 2 (m.scale + 1) := by
        rw [Nat.mul_comm 2, Nat.mul_assoc]
        exact congrArg _ (Nat.pow_succ' (m := 2)).symm
      _ ≤ n.significand * Nat.pow 2 n.scale :=
        Nat.mul_le_mul hhidden (Nat.pow_le_pow_right (by decide) hlt)

/-! ## Sign and code -/

/-- A number is its sign and its code. -/
theorem ofCode_code (n : Number) : ofCode n.isNegative n.code = n := by
  have hlt : n.bits.toNat < 2 * signBit := n.bits.toNat_lt
  have hbits : (if n.isNegative then signBit + n.code else n.code) = n.bits.toNat := by
    cases hsign : n.isNegative with
    | true =>
      have hneg : signBit ≤ n.bits.toNat := by simpa [isNegative] using hsign
      have hcode : n.code = n.bits.toNat - signBit := by
        rw [code, Nat.mod_eq_sub_mod hneg, Nat.mod_eq_of_lt (by omega)]
      rw [if_pos rfl]
      omega
    | false =>
      have hpos : n.bits.toNat < signBit := by simpa [isNegative] using hsign
      rw [if_neg Bool.false_ne_true, code, Nat.mod_eq_of_lt hpos]
  rw [ofCode, hbits, UInt64.ofNat_toNat]

end Quill.Number
