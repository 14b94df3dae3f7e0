import Quill.Method.OfString
import Quill.Proofs.Number.Rounding

/-!
# Positions as numbers

Scripts count with doubles. Below `2 ^ 53` that is no loss: the double nearest to a natural number is
that number, and reading it as an index gives the number back. Above, different positions may share
a double, but never with the first position and never with minus one, which stands for none.
-/

set_option autoImplicit false

namespace Quill

namespace Number

/-! ## Sign and code -/

theorem infinityCode_lt_signBit : infinityCode < signBit := by decide +kernel

theorem code_ofCode (negative : Bool) {c : Nat} (hc : c < signBit) :
    (ofCode negative c).code = c := by
  have hword : 2 * signBit = 2 ^ 64 := by decide +kernel
  rw [code, ofCode, UInt64.toNat_ofNat']
  split <;> rw [Nat.mod_eq_of_lt (a := _) (b := 2 ^ 64) (by omega)]
  · rw [Nat.add_mod_left, Nat.mod_eq_of_lt hc]
  · exact Nat.mod_eq_of_lt hc

theorem isNegative_ofCode (negative : Bool) {c : Nat} (hc : c < signBit) :
    (ofCode negative c).isNegative = negative := by
  have hword : 2 * signBit = 2 ^ 64 := by decide +kernel
  rw [isNegative, ofCode, UInt64.toNat_ofNat']
  cases negative with
  | true =>
    rw [if_pos rfl, Nat.mod_eq_of_lt (by omega)]
    exact decide_eq_true (Nat.le_add_right _ _)
  | false =>
    rw [if_neg Bool.false_ne_true, Nat.mod_eq_of_lt (by omega)]
    exact decide_eq_false (Nat.not_le.mpr hc)

theorem nearestCode_lt_signBit (num den : Nat) : nearestCode num den < signBit :=
  Nat.lt_of_le_of_lt (Nat.min_le_left _ _) infinityCode_lt_signBit

/-! ## Naturals are exact -/

/-- A significand that fills its place, at a scale below that of the infinities. -/
theorem units_ofCode {significand scale : Nat} (hlow : hiddenBit ≤ significand)
    (hhigh : significand < 2 * hiddenBit) (hscale : scale < 2046) :
    let n := ofCode false (scale * hiddenBit + significand)
    n.isFinite = true ∧ n.units = significand * 2 ^ scale := by
  have hfinite : scale * hiddenBit + significand < infinityCode := by
    have hle : scale * hiddenBit ≤ 2045 * hiddenBit := Nat.mul_le_mul_right _ (by omega)
    rw [infinityCode]
    omega
  have hcode := code_ofCode false (hfinite.trans infinityCode_lt_signBit)
  -- The code is one more full step and what the significand has beyond the hidden bit.
  have hsplit : scale * hiddenBit + significand =
      (significand - hiddenBit) + hiddenBit * (scale + 1) := by
    rw [Nat.mul_add, Nat.mul_comm scale]
    omega
  have hdiv : (scale * hiddenBit + significand) / hiddenBit = scale + 1 := by
    rw [hsplit, Nat.add_mul_div_left _ _ hiddenBit_pos, Nat.div_eq_of_lt (by omega), Nat.zero_add]
  have hmod : (scale * hiddenBit + significand) % hiddenBit = significand - hiddenBit := by
    rw [hsplit, Nat.add_mul_mod_self_left, Nat.mod_eq_of_lt (by omega)]
  refine ⟨by rw [isFinite, hcode]; exact decide_eq_true hfinite, ?_⟩
  rw [units, Number.scale, Number.significand, hcode, hdiv, hmod, if_neg (by omega),
    Nat.add_sub_cancel, Nat.add_sub_cancel' hlow]
  rfl

/-- The exponent is kept as a variable, so that nothing computes the power. -/
theorem unitsPerOne_eq : ∃ k, k = 1074 ∧ unitsPerOne = 2 ^ k := ⟨1074, rfl, Nat.pow_eq⟩

theorem log2_mul_unitsPerOne {n : Nat} (hn : 0 < n) :
    (n * unitsPerOne / 1).log2 = n.log2 + 1074 := by
  have hpos : 0 < n * unitsPerOne := Nat.mul_pos hn unitsPerOne_pos
  have hlog := (Nat.log2_eq_iff hn.ne').mp rfl
  obtain ⟨k, hk, hunits⟩ := unitsPerOne_eq
  rw [Nat.div_one, Nat.log2_eq_iff hpos.ne', hunits, ← hk]
  constructor
  · rw [Nat.pow_add]
    exact Nat.mul_le_mul_right _ hlog.1
  · rw [Nat.add_right_comm, Nat.pow_add]
    exact Nat.mul_lt_mul_of_pos_right hlog.2 (Nat.two_pow_pos _)

/-- The code of a natural number that needs no more digits than a significand has. -/
theorem nearestCode_natCast {n : Nat} (hpos : 0 < n) (hn : n < 2 ^ 53) :
    nearestCode n 1 = (n.log2 + 1022) * hiddenBit + n * 2 ^ (52 - n.log2) ∧
      hiddenBit ≤ n * 2 ^ (52 - n.log2) ∧ n * 2 ^ (52 - n.log2) < 2 * hiddenBit ∧
      n.log2 ≤ 52 := by
  have hlog : n.log2 < 53 := (Nat.log2_lt hpos.ne').mpr hn
  have hbounds := (Nat.log2_eq_iff hpos.ne').mp rfl
  have hhidden : hiddenBit = 2 ^ n.log2 * 2 ^ (52 - n.log2) := by
    rw [← Nat.pow_add, Nat.add_sub_cancel' (by omega)]
    rfl
  have hlow : hiddenBit ≤ n * 2 ^ (52 - n.log2) := by
    rw [hhidden]
    exact Nat.mul_le_mul_right _ hbounds.1
  have hhigh : n * 2 ^ (52 - n.log2) < 2 * hiddenBit := by
    rw [hhidden, ← Nat.mul_assoc, ← Nat.pow_succ']
    exact Nat.mul_lt_mul_of_pos_right hbounds.2 (Nat.two_pow_pos _)
  have hshift : (n * unitsPerOne / 1).log2 - 52 = n.log2 + 1022 := by
    rw [log2_mul_unitsPerOne hpos]
    omega
  have hscaled : n * unitsPerOne = n * 2 ^ (52 - n.log2) * 2 ^ (n.log2 + 1022) := by
    have hexponent : 1074 = 52 - n.log2 + (n.log2 + 1022) := by omega
    obtain ⟨k, hk, hunits⟩ := unitsPerOne_eq
    rw [hunits, Nat.mul_assoc, hk.trans hexponent]
    exact congrArg _ (Nat.pow_add 2 _ _)
  have hround : roundDiv (n * unitsPerOne) (1 * Nat.pow 2 (n.log2 + 1022)) =
      n * 2 ^ (52 - n.log2) := by
    rw [Nat.one_mul, hscaled]
    exact roundDiv_exact (Nat.two_pow_pos _)
  refine ⟨?_, hlow, hhigh, by omega⟩
  simp only [nearestCode, hshift, hround]
  apply Nat.min_eq_right
  have hle : (n.log2 + 1022) * hiddenBit ≤ 1074 * hiddenBit := Nat.mul_le_mul_right _ (by omega)
  rw [infinityCode]
  omega

theorem nearestCode_zero : nearestCode 0 1 = 0 :=
  nearestCode_eq_zero (by rw [Nat.zero_mul]; exact Nat.one_pos)

/-- The double nearest to a natural number below `2 ^ 53` is that number. -/
theorem wholePart_ofNat {n : Nat} (hn : n < 2 ^ 53) :
    (ofNat n).isFinite = true ∧ (ofNat n).wholePart = n := by
  by_cases hzero : n = 0
  · subst hzero
    have hcode := code_ofCode false (c := 0) (by decide)
    rw [ofNat, nearestCode_zero, isFinite, wholePart, units, significand, hcode,
      if_pos hiddenBit_pos, Nat.zero_mul, Nat.zero_div]
    exact ⟨by decide, rfl⟩
  · obtain ⟨hcode, hlow, hhigh, hlog⟩ := nearestCode_natCast (Nat.pos_of_ne_zero hzero) hn
    obtain ⟨hfinite, hunits⟩ := units_ofCode hlow hhigh (show n.log2 + 1022 < 2046 by omega)
    have hexponent : 52 - n.log2 + (n.log2 + 1022) = 1074 := by omega
    obtain ⟨k, hk, hone⟩ := unitsPerOne_eq
    rw [ofNat, hcode]
    refine ⟨hfinite, ?_⟩
    rw [wholePart, hunits, Nat.mul_assoc, ← Nat.pow_add, hexponent.trans hk.symm, hone]
    exact Nat.mul_div_cancel _ (Nat.two_pow_pos _)

/-! ## Indexes -/

/-- An index fits into sixty-four bits. -/
theorem toIndex_bounds (n : Number) :
    Int64.minValue.toInt ≤ n.toIndex ∧ n.toIndex ≤ Int64.maxValue.toInt := by
  have hmin : Int64.minValue.toInt = -9223372036854775808 := rfl
  have hmax : Int64.maxValue.toInt = 9223372036854775807 := rfl
  rw [toIndex, truncateWithin, hmin, hmax]
  split <;> omega

theorem toIndex_ofNat {n : Nat} (hn : n < 2 ^ 53) : (ofNat n).toIndex = n := by
  obtain ⟨hfinite, hwhole⟩ := wholePart_ofNat hn
  have hnan : (ofNat n).isNaN = false := by
    simp only [isFinite, decide_eq_true_eq] at hfinite
    exact decide_eq_false (by omega)
  have hsign : (ofNat n).isNegative = false :=
    isNegative_ofCode false (nearestCode_lt_signBit n 1)
  have hmin : Int64.minValue.toInt = -9223372036854775808 := rfl
  have hmax : Int64.maxValue.toInt = 9223372036854775807 := rfl
  rw [toIndex, truncateWithin, hnan, hsign, hwhole, hmin, hmax]
  simp only [Bool.false_eq_true, if_false]
  omega

/-! ## Positions apart -/

theorem ofNat_ne_ofInt_neg (n : Nat) : ofNat n ≠ ofInt (-1) := by
  intro h
  have hsign := congrArg isNegative h
  rw [ofNat, ofInt, isNegative_ofCode _ (nearestCode_lt_signBit _ _),
    isNegative_ofCode _ (nearestCode_lt_signBit _ _)] at hsign
  exact absurd hsign (by decide)

/-- However large, no other number is rounded to zero. -/
theorem ofNat_eq_zero_iff {n : Nat} : ofNat n = ofNat 0 ↔ n = 0 := by
  refine ⟨fun h => ?_, fun h => h ▸ rfl⟩
  by_contra hne
  have hcode := congrArg code h
  rw [ofNat, ofNat, code_ofCode _ (nearestCode_lt_signBit _ _),
    code_ofCode _ (nearestCode_lt_signBit _ _), nearestCode_zero] at hcode
  have hpos : 0 < n := Nat.pos_of_ne_zero hne
  have hshift : 0 < (n * unitsPerOne / 1).log2 - 52 := by
    rw [log2_mul_unitsPerOne hpos]
    omega
  have hlarge := Nat.mul_pos hshift hiddenBit_pos
  have hinfinity : 0 < infinityCode := by decide +kernel
  have hmin : 0 < nearestCode n 1 :=
    Nat.lt_min.mpr ⟨hinfinity, Nat.lt_of_lt_of_le hlarge (Nat.le_add_right _ _)⟩
  omega

end Number

/-! ## Values that name positions -/

/-- The value is read as a position. Null is not, though it has the index zero: where it is passed
as a bound it stands for the end. -/
def Value.Names (v : Value) (position : Nat) : Prop := v ≠ .null ∧ v.toIndex = position

theorem Value.names_ofNat {n : Nat} (hn : n < 2 ^ 53) : (Value.ofNat n).Names n :=
  ⟨Value.noConfusion, Number.toIndex_ofNat hn⟩

theorem Value.toIndex_bounds (v : Value) :
    Int64.minValue.toInt ≤ v.toIndex ∧ v.toIndex ≤ Int64.maxValue.toInt :=
  v.toNumber.toIndex_bounds

/-- A bound that is not null is read as an index. -/
theorem boundOr_eq {v : Value} (hv : v ≠ .null) (otherwise : Int) :
    boundOr otherwise v = v.toIndex := by
  cases v with
  | null => exact absurd rfl hv
  | _ => rfl

theorem positionValue_eq_none_iff {found : Option Nat} :
    positionValue found = .number (Number.ofInt (-1)) ↔ found = none := by
  cases found with
  | none => exact ⟨fun _ => rfl, fun _ => rfl⟩
  | some i =>
    refine ⟨fun h => ?_, fun h => by cases h⟩
    exact absurd (Value.number.inj h) (Number.ofNat_ne_ofInt_neg i)

theorem positionValue_eq_zero_iff {found : Option Nat} :
    positionValue found = .ofNat 0 ↔ found = some 0 := by
  cases found with
  | none =>
    refine ⟨fun h => ?_, fun h => by cases h⟩
    exact absurd (Value.number.inj h).symm (Number.ofNat_ne_ofInt_neg 0)
  | some i =>
    rw [Option.some.injEq]
    exact ⟨fun h => Number.ofNat_eq_zero_iff.mp (Value.number.inj h), fun h => h ▸ rfl⟩

end Quill
