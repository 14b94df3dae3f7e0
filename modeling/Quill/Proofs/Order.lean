import Mathlib.Order.Compare
import Mathlib.Order.WithBot
import Quill.Eval.Operator
import Quill.Proofs.Bisimilarity
import Quill.Proofs.Number.Rounding

/-!
# Values in order

Values of all kinds are compared as numbers, and numbers by their bits: sign and code make a place
on a line. This is the order of the real numbers that doubles stand for, with the infinities at the
ends (`compare_of_reals`). NaN is no real number and is given a rank above all of them, so that
nothing is left without an order: comparison is the linear order of ranks (`compare_eq_cmp`), and
from there on nothing looks at bits.

Values of one rank are level, which does not make them equal: zero and negative zero are level, as
are `2` and `"2"`, and everything without a number is level with NaN. The other way round there is
no exception, since equal values read as the same number (`rank_of_equal`).
-/

set_option autoImplicit false

namespace Quill

namespace Number

variable {a b n : Number}

/-! ## Places are in the order of the reals -/

theorem units_congr (h : a.code = b.code) : a.units = b.units := by
  simp only [units, significand, scale, h]

theorem units_lt_units_iff : a.units < b.units ↔ a.code < b.code := by
  refine ⟨fun hunits => ?_, units_lt_units⟩
  by_contra hcode
  rcases (Nat.not_lt.mp hcode).lt_or_eq with hlt | heq
  · exact absurd (units_lt_units hlt) (by omega)
  · exact absurd (units_congr heq) (by omega)

theorem units_pos_iff : 0 < n.units ↔ 0 < n.code := by
  have hcode : zero.code = 0 := by decide
  have hunits : zero.units = 0 := by decide
  have h := units_lt_units_iff (a := zero) (b := n)
  rwa [hcode, hunits] at h

/-- The number in units, with its sign. -/
def signedUnits (n : Number) : Int := if n.isNegative then -(n.units : Int) else n.units

theorem signedUnits_lt_iff : a.signedUnits < b.signedUnits ↔ a.place < b.place := by
  have hab := units_lt_units_iff (a := a) (b := b)
  have hba := units_lt_units_iff (a := b) (b := a)
  have ha := units_pos_iff (n := a)
  have hb := units_pos_iff (n := b)
  unfold signedUnits place
  split <;> split <;> omega

/-- The real number that a double other than NaN stands for, the infinities at the ends. -/
def real (n : Number) : WithBot (WithTop ℚ) :=
  if n.isInfinite then if n.isNegative then ⊥ else ⊤
  else (((n.signedUnits / unitsPerOne : ℚ) : WithTop ℚ) : WithBot (WithTop ℚ))

/-- Finite numbers have their places between those of the infinities. -/
theorem real_cases (h : n.isNaN = false) :
    (n.real = ⊥ ∧ n.place = -(infinityCode : Int)) ∨
    (n.real = ⊤ ∧ n.place = infinityCode) ∨
    (n.real = (((n.signedUnits / unitsPerOne : ℚ) : WithTop ℚ) : WithBot (WithTop ℚ)) ∧
      -(infinityCode : Int) < n.place ∧ n.place < infinityCode) := by
  have hle : n.code ≤ infinityCode := by simpa [isNaN] using h
  by_cases hinfinite : n.isInfinite = true
  · have hcode : n.code = infinityCode := by simpa [isInfinite] using hinfinite
    cases hsign : n.isNegative with
    | true => exact .inl (by simp [real, place, hinfinite, hsign, hcode])
    | false => exact .inr (.inl (by simp [real, place, hinfinite, hsign, hcode]))
  · have hne : n.code ≠ infinityCode := by simpa [isInfinite] using hinfinite
    refine .inr (.inr ⟨if_neg hinfinite, ?_⟩)
    unfold place
    split <;> omega

theorem real_lt_iff (ha : a.isNaN = false) (hb : b.isNaN = false) :
    a.real < b.real ↔ a.place < b.place := by
  have hpos : 0 < infinityCode := by decide +kernel
  have hone : (0 : ℚ) < unitsPerOne := by exact_mod_cast unitsPerOne_pos
  rcases real_cases ha with ⟨har, hap⟩ | ⟨har, hap⟩ | ⟨har, hap⟩ <;>
    rcases real_cases hb with ⟨hbr, hbp⟩ | ⟨hbr, hbp⟩ | ⟨hbr, hbp⟩ <;> rw [har, hbr]
  case inr.inr.inr.inr =>
    rw [WithBot.coe_lt_coe, WithTop.coe_lt_coe, div_lt_div_iff_of_pos_right hone, Int.cast_lt,
      signedUnits_lt_iff]
  -- With an infinity on one side or both the places are known to be at an end of the line.
  all_goals
    simp only [lt_self_iff_false, not_lt_bot, not_top_lt, WithBot.bot_lt_coe, ← WithBot.coe_top,
      WithBot.coe_lt_coe, WithTop.coe_lt_top, true_iff, false_iff, not_lt]
    omega

/-- Numbers other than NaN are in the order of the reals. -/
theorem compare_of_reals (ha : a.isNaN = false) (hb : b.isNaN = false) :
    a.compare b = cmp a.real b.real := by
  have hplaces : a.compare b = Ord.compare a.place b.place := by
    rw [Number.compare, ha, hb]
  have hab := real_lt_iff ha hb
  have hba := real_lt_iff hb ha
  rw [hplaces]
  rcases lt_trichotomy a.place b.place with hlt | heq | hgt
  · rw [compare_lt_iff_lt.mpr hlt, (cmp_eq_lt_iff _ _).mpr (hab.mpr hlt)]
  · have hreal : a.real = b.real := by
      apply le_antisymm <;> rw [← not_lt]
      · exact fun h => (hba.mp h).ne heq.symm
      · exact fun h => (hab.mp h).ne heq
    rw [compare_eq_iff_eq.mpr heq, (cmp_eq_eq_iff _ _).mpr hreal]
  · rw [compare_gt_iff_gt.mpr hgt, (cmp_eq_gt_iff _ _).mpr (hba.mpr hgt)]

/-! ## Ranks -/

/-- The place of a number in an order that has NaN behind the reals. -/
def rank (n : Number) : WithTop (WithBot (WithTop ℚ)) := if n.isNaN then ⊤ else n.real

theorem rank_of_real (h : n.isNaN = false) : n.rank = n.real := by
  rw [rank, h, if_neg Bool.false_ne_true]

theorem rank_of_nan (h : n.isNaN = true) : n.rank = ⊤ := if_pos h

/-- Comparison is the order of the ranks. -/
theorem compare_eq_cmp (a b : Number) : a.compare b = cmp a.rank b.rank := by
  cases ha : a.isNaN <;> cases hb : b.isNaN
  case false.false =>
    rw [compare_of_reals ha hb, rank_of_real ha, rank_of_real hb]
    exact (WithTop.coe_strictMono.cmp_map_eq a.real b.real).symm
  case false.true =>
    rw [Number.compare, ha, hb, rank_of_real ha, rank_of_nan hb]
    exact ((cmp_eq_lt_iff _ _).mpr (WithTop.coe_lt_top a.real)).symm
  case true.false =>
    rw [Number.compare, ha, hb, rank_of_nan ha, rank_of_real hb]
    exact ((cmp_eq_gt_iff _ _).mpr (WithTop.coe_lt_top b.real)).symm
  case true.true =>
    rw [Number.compare, ha, hb, rank_of_nan ha, rank_of_nan hb]
    exact (cmp_self_eq_eq _).symm

theorem rank_of_same (h : a.bits = b.bits ∨ a.isNaN ∧ b.isNaN) : a.rank = b.rank := by
  rcases h with hbits | ⟨ha, hb⟩
  · obtain ⟨x⟩ := a
    obtain ⟨y⟩ := b
    obtain rfl : x = y := hbits
    rfl
  · rw [rank_of_nan ha, rank_of_nan hb]

end Number

namespace Value

variable {a b : Value}

/-- The place of a value among all values. -/
def rank (v : Value) : WithTop (WithBot (WithTop ℚ)) := v.toNumber.rank

theorem compare_eq_cmp (a b : Value) : a.compare b = cmp a.rank b.rank :=
  Number.compare_eq_cmp a.toNumber b.toNumber

theorem compare_eq_eq_iff : a.compare b = .eq ↔ a.rank = b.rank := by
  rw [compare_eq_cmp, cmp_eq_eq_iff]

theorem compare_eq_gt_iff : a.compare b = .gt ↔ b.rank < a.rank := by
  rw [compare_eq_cmp, cmp_eq_gt_iff]

theorem compare_ne_gt_iff : a.compare b ≠ .gt ↔ a.rank ≤ b.rank := by
  rw [Ne, compare_eq_gt_iff, not_lt]

/-- Equal values read as the same number; those that cannot be read all read as NaN. -/
theorem rank_of_equal {h : Heap} (hequal : h.equal a b = true) : a.rank = b.rank := by
  have hmatch := Heap.isBisimulation_bisimilar a b (Heap.equal_eq_true_iff.mp hequal)
  cases a <;> cases b <;> simp only [Heap.Matches] at hmatch
  case number.number => exact Number.rank_of_same hmatch
  case bool.bool | string.string => rw [hmatch]
  all_goals rfl

end Value

/-! ## The order that scripts see -/

/-- One of three things holds, and the other two do not. -/
def ExactlyOne (p q r : Prop) : Prop := p ∧ ¬q ∧ ¬r ∨ ¬p ∧ q ∧ ¬r ∨ ¬p ∧ ¬q ∧ r

namespace Heap

/-- Values are in one order, whatever their kinds, and the operators of a script tell it. -/
structure PutsInOrder (h : Heap) : Prop where
  self (a : Value) : a.compare a = .eq
  swap (a b : Value) : b.compare a = (a.compare b).swap
  trans {a b c : Value} : a.compare b ≠ .gt → b.compare c ≠ .gt → a.compare c ≠ .gt
  trichotomy (a b : Value) : ExactlyOne
    (h.binary .lt a b = .bool true) (h.binary .gt a b = .bool true) (a.compare b = .eq)
  /-- The operators that allow for level values are the negations of those that do not. -/
  ltEq_eq (a b : Value) : h.binary .ltEq a b = .bool (!(h.binary .gt a b).toBool)
  gtEq_eq (a b : Value) : h.binary .gtEq a b = .bool (!(h.binary .lt a b).toBool)
  /-- What does not read as a number comes behind everything that does. -/
  nan {a b : Value} : a.toNumber.isNaN = true →
    a.compare b = if b.toNumber.isNaN then .eq else .gt
  /-- What reads as numbers is in the order of the reals; both zeros are the real zero. -/
  reals {a b : Value} : a.toNumber.isNaN = false → b.toNumber.isNaN = false →
    a.compare b = cmp a.toNumber.real b.toNumber.real
  equal {a b : Value} : h.equal a b = true → a.compare b = .eq

/-- Comparison is a total preorder of all values, and the relational operators follow it. -/
theorem puts_in_order (h : Heap) : h.PutsInOrder where
  self _ := Value.compare_eq_eq_iff.mpr rfl
  swap a b := by rw [Value.compare_eq_cmp, Value.compare_eq_cmp, cmp_swap]
  trans hab hbc := by
    rw [Value.compare_ne_gt_iff] at *
    exact hab.trans hbc
  trichotomy a b := by
    simp only [binary, ExactlyOne]
    cases a.compare b <;> simp
  ltEq_eq _ _ := rfl
  gtEq_eq _ _ := rfl
  nan {a b} ha := by
    cases hb : b.toNumber.isNaN with
    | true =>
      rw [if_pos rfl, Value.compare_eq_eq_iff, Value.rank, Value.rank, Number.rank_of_nan ha,
        Number.rank_of_nan hb]
    | false =>
      rw [if_neg Bool.false_ne_true, Value.compare_eq_gt_iff, Value.rank, Value.rank,
        Number.rank_of_nan ha, Number.rank_of_real hb]
      exact WithTop.coe_lt_top _
  reals ha hb := Number.compare_of_reals ha hb
  equal hequal := Value.compare_eq_eq_iff.mpr (Value.rank_of_equal hequal)

end Heap

end Quill
