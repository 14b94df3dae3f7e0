import Quill.Number.Reading
import Quill.Number.Text
import Quill.Proofs.Number.Shortest
import Quill.Token.Slice

/-!
# Numerals

All layouts of a number have one form: digits, behind a point more digits if there are any, and an
exponent behind a mark if there is one. A `Numeral` is such a form. There are two readers of
numerals, `Decimal.read?` that finds the value and `Slice.numberReach` that finds the end, and each
takes a numeral whole, so what has to be shown of a layout is that it is a numeral of the right
value (`Spells`).
-/

set_option autoImplicit false

namespace Quill

/-- A number written without a sign. -/
structure Numeral where
  whole : List Char
  fraction : List Char
  exponent? : Option Int
  whole_ne_nil : whole ≠ []
  isDigit_whole : ∀ c ∈ whole, c.isDigit = true
  isDigit_fraction : ∀ c ∈ fraction, c.isDigit = true

namespace Numeral

/-- A point is written only in front of digits. -/
def fractionChars : List Char → List Char
  | [] => []
  | d :: ds => '.' :: d :: ds

def integerChars (e : Int) : List Char := (toString e).toList

def exponentChars : Option Int → List Char
  | none => []
  | some e => 'E' :: integerChars e

def chars (x : Numeral) : List Char :=
  x.whole ++ (fractionChars x.fraction ++ exponentChars x.exponent?)

/-- The decimal that is read: the point moves behind the last digit. -/
def decimal (x : Numeral) : Decimal :=
  ⟨Decimal.ofDigits (x.whole ++ x.fraction), x.exponent?.getD 0 - x.fraction.length⟩

variable {x : Numeral} {c : Char} {cs ds rest : List Char}

/-! ## Digits -/

theorem head_isDigit_eq_false (fraction : List Char) (exponent? : Option Int) :
    ∀ c ∈ (fractionChars fraction ++ exponentChars exponent?).head?, c.isDigit = false := by
  cases fraction with
  | cons d ds => simp [fractionChars]
  | nil => cases exponent? <;> simp [fractionChars, exponentChars]

/-- A run of digits ends where no digit follows. -/
theorem spanDigits_append (hds : ∀ c ∈ ds, c.isDigit = true)
    (hrest : ∀ c ∈ rest.head?, c.isDigit = false) :
    Decimal.spanDigits (ds ++ rest) = (ds, rest) := by
  have hstop : rest.takeWhile Char.isDigit = [] ∧ rest.dropWhile Char.isDigit = rest := by
    cases rest with
    | nil => exact ⟨rfl, rfl⟩
    | cons c rest => simp [hrest c rfl]
  rw [Decimal.spanDigits, List.takeWhile_append_of_pos hds, List.dropWhile_append_of_pos hds,
    hstop.1, hstop.2, List.append_nil]

theorem run_append (hds : ∀ c ∈ ds, c.isDigit = true)
    (hrest : ∀ c ∈ rest.head?, c.isDigit = false) :
    Slice.run Char.isDigit (ds ++ rest) = ds.length :=
  congrArg (fun p => p.1.length) (spanDigits_append hds hrest)

theorem run_digits (hds : ∀ c ∈ ds, c.isDigit = true) : Slice.run Char.isDigit ds = ds.length := by
  have h : Slice.run Char.isDigit (ds ++ []) = ds.length := run_append hds (by simp)
  rwa [List.append_nil] at h

theorem isDigit_of_mem_toDigits {n : Nat} (h : c ∈ Nat.toDigits 10 n) : c.isDigit = true :=
  Nat.isDigit_of_mem_toDigits (by decide) (by decide) h

/-- The digits of a natural number, the first of them apart. -/
theorem exists_toDigits (n : Nat) : ∃ d ds, Nat.toDigits 10 n = d :: ds ∧ d.isDigit = true ∧
    ∀ c ∈ ds, c.isDigit = true := by
  have hdigits : ∀ c ∈ Nat.toDigits 10 n, c.isDigit = true := fun _ => isDigit_of_mem_toDigits
  obtain ⟨d, ds, hds⟩ := List.exists_cons_of_ne_nil (Nat.toDigits_ne_nil (n := n) (b := 10))
  rw [hds] at hdigits
  exact ⟨d, ds, hds, hdigits d (by simp), fun c hc => hdigits c (by simp [hc])⟩

/-! ## The exponent -/

theorem integerChars_natCast (n : Nat) : integerChars n = Nat.toDigits 10 n := by
  rw [integerChars, Int.toString_eq_repr]
  exact Nat.toList_repr

theorem integerChars_negSucc (n : Nat) :
    integerChars (Int.negSucc n) = '-' :: Nat.toDigits 10 (n + 1) := by
  rw [integerChars, Int.toString_eq_repr, Int.repr, String.toList_append, ← Nat.toList_repr]
  rfl

theorem natural?_toDigits (n : Nat) :
    Decimal.exponent?.natural? (Nat.toDigits 10 n) = some (n : Int) := by
  obtain ⟨d, ds, hds, hd, hmore⟩ := exists_toDigits n
  have hvalue : Decimal.ofDigits (Nat.toDigits 10 n) = n := Nat.ofDigitChars_ten_toDigits
  have hall : (Nat.toDigits 10 n).all Char.isDigit = true := by simpa [hds, hd] using hmore
  rw [Decimal.exponent?.natural?, hall, hvalue]
  simp [hds]

theorem exponent?_integerChars (e : Int) : Decimal.exponent? (integerChars e) = some e := by
  cases e with
  | ofNat n =>
    obtain ⟨d, ds, hds, hd, _⟩ := exists_toDigits n
    have hunsigned : Decimal.exponent? (d :: ds) = Decimal.exponent?.natural? (d :: ds) := by
      unfold Decimal.exponent?
      split
      · next heq => simp [(List.cons.inj heq).1] at hd
      · next heq => simp [(List.cons.inj heq).1] at hd
      · rfl
    rw [Int.ofNat_eq_natCast, integerChars_natCast, hds, hunsigned, ← hds]
    exact natural?_toDigits n
  | negSucc n =>
    rw [integerChars_negSucc, Decimal.exponent?, natural?_toDigits]
    rfl

theorem exponentReach_exponentChars (exponent? : Option Int) :
    Slice.exponentReach (exponentChars exponent?) = (exponentChars exponent?).length := by
  cases exponent? with
  | none => rfl
  | some e =>
    cases e with
    | ofNat n =>
      obtain ⟨d, ds, hds, hd, hmore⟩ := exists_toDigits n
      simp [exponentChars, integerChars_natCast, hds, Slice.exponentReach, hd, run_digits hmore]
      omega
    | negSucc n =>
      obtain ⟨d, ds, hds, hd, hmore⟩ := exists_toDigits (n + 1)
      simp [exponentChars, integerChars_negSucc, hds, Slice.exponentReach, hd, run_digits hmore]
      omega

/-! ## The two readers -/

theorem read?_chars (x : Numeral) : Decimal.read? x.chars = some x.decimal := by
  obtain ⟨whole, fraction, exponent?, hne, hwhole, hfraction⟩ := x
  have hspan := spanDigits_append hwhole (head_isDigit_eq_false fraction exponent?)
  have hfirst : whole.isEmpty = false := by simpa using hne
  cases fraction with
  | nil =>
    -- No point is written, and what follows the digits does not look like one.
    cases exponent? with
    | none =>
      simp only [chars, decimal, fractionChars, exponentChars, List.append_nil] at hspan ⊢
      simp [Decimal.read?, hspan, hfirst]
    | some e =>
      simp only [chars, decimal, fractionChars, exponentChars, List.nil_append] at hspan ⊢
      simp [Decimal.read?, hspan, hfirst, exponent?_integerChars]
  | cons d ds =>
    have hrest : Decimal.spanDigits ((d :: ds) ++ exponentChars exponent?) =
        (d :: ds, exponentChars exponent?) :=
      spanDigits_append hfraction (head_isDigit_eq_false [] exponent?)
    simp only [chars, decimal, fractionChars, List.cons_append] at hspan hrest ⊢
    cases exponent? with
    | none =>
      simp only [exponentChars, List.append_nil] at hspan hrest ⊢
      simp [Decimal.read?, hspan, hrest, hfirst]
    | some e =>
      simp only [exponentChars] at hspan hrest ⊢
      simp [Decimal.read?, hspan, hrest, hfirst, exponent?_integerChars]

theorem fractionReach_append (hds : ∀ c ∈ ds, c.isDigit = true) (exponent? : Option Int) :
    Slice.fractionReach (fractionChars ds ++ exponentChars exponent?) =
      (fractionChars ds).length := by
  cases ds with
  | nil => cases exponent? <;> simp [fractionChars, exponentChars, Slice.fractionReach]
  | cons d ds =>
    have hd := hds d (by simp)
    have htail : ∀ c ∈ ds, c.isDigit = true := fun c hc => hds c (List.mem_cons_of_mem d hc)
    have hrun := run_append htail (head_isDigit_eq_false [] exponent?)
    rw [fractionChars, List.nil_append] at hrun
    simp [fractionChars, Slice.fractionReach, hd, hrun]
    omega

/-- A numeral begins with a digit, and all that follows belongs to the same number. -/
theorem numberReach_chars (h : x.chars = c :: cs) :
    c.isDigit = true ∧ Slice.numberReach cs = cs.length := by
  obtain ⟨whole, fraction, exponent?, hne, hwhole, hfraction⟩ := x
  obtain ⟨d, ds, rfl⟩ := List.exists_cons_of_ne_nil hne
  simp only [chars, List.cons_append, List.cons.injEq] at h
  obtain ⟨rfl, rfl⟩ := h
  have hrun := run_append (fun c hc => hwhole c (List.mem_cons_of_mem d hc))
    (head_isDigit_eq_false fraction exponent?)
  refine ⟨hwhole d (by simp), ?_⟩
  simp only [Slice.numberReach, hrun, List.drop_left, fractionReach_append hfraction,
    ← List.drop_drop, exponentReach_exponentChars, List.length_append, Nat.add_assoc]

/-- The characters of a numeral. -/
theorem mem_chars (h : c ∈ x.chars) :
    c.isDigit = true ∨ c = '.' ∨ c = 'E' ∨ c = '-' := by
  rw [chars, List.mem_append, List.mem_append] at h
  rcases h with h | h | h
  · exact .inl (x.isDigit_whole c h)
  · cases hfraction : x.fraction with
    | nil => simp [hfraction, fractionChars] at h
    | cons d ds =>
      rw [hfraction, fractionChars, List.mem_cons, ← hfraction] at h
      exact h.elim (.inr ∘ .inl) (.inl ∘ x.isDigit_fraction c)
  · cases hexponent : x.exponent? with
    | none => simp [hexponent, exponentChars] at h
    | some e =>
      rw [hexponent, exponentChars, List.mem_cons] at h
      rcases h with h | h
      · exact .inr (.inr (.inl h))
      · cases e with
        | ofNat n =>
          rw [Int.ofNat_eq_natCast, integerChars_natCast] at h
          exact .inl (isDigit_of_mem_toDigits h)
        | negSucc n =>
          rw [integerChars_negSucc, List.mem_cons] at h
          exact h.elim (.inr ∘ .inr ∘ .inr) (.inl ∘ isDigit_of_mem_toDigits)

end Numeral

/-! ## The layouts -/

/-- The characters are a numeral with the value of the decimal. -/
def Spells (cs : List Char) (d : Decimal) : Prop :=
  ∃ x : Numeral, x.chars = cs ∧ x.decimal.value = d.value

theorem Spells.value_eq {cs : List Char} {d d' : Decimal} (h : Spells cs d) (h' : Spells cs d') :
    d.value = d'.value := by
  obtain ⟨x, rfl, hx⟩ := h
  obtain ⟨y, hchars, hy⟩ := h'
  have hread : x.decimal = y.decimal := by
    apply Option.some.inj
    rw [← x.read?_chars, ← y.read?_chars, hchars]
  rw [← hx, hread, hy]

namespace Decimal

/-- Zeros that are written behind the digits lower the exponent. -/
theorem value_mul_ten_pow (digits k : Nat) (e : Int) :
    (⟨digits * 10 ^ k, e - k⟩ : Decimal).value = (⟨digits, e⟩ : Decimal).value := by
  have hten : (10 : ℚ) ≠ 0 := by norm_num
  simp only [value, Nat.cast_mul, Nat.cast_pow, Nat.cast_ofNat]
  rw [mul_assoc, ← zpow_natCast, ← zpow_add₀ hten, add_sub_cancel]

theorem isDigit_of_mem_digitChars {d : Decimal} {c : Char} (h : c ∈ d.digitChars) :
    c.isDigit = true :=
  Numeral.isDigit_of_mem_toDigits h

theorem ofDigits_digitChars (d : Decimal) : ofDigits d.digitChars = d.digits :=
  Nat.ofDigitChars_ten_toDigits

theorem spells_toDigits (n : Nat) : Spells (Nat.toDigits 10 n) ⟨n, 0⟩ := by
  refine ⟨⟨Nat.toDigits 10 n, [], none, Nat.toDigits_ne_nil,
    fun _ => Numeral.isDigit_of_mem_toDigits, by simp⟩, ?_, ?_⟩
  · simp [Numeral.chars, Numeral.fractionChars, Numeral.exponentChars]
  · have hdigits : ofDigits (Nat.toDigits 10 n) = n := Nat.ofDigitChars_ten_toDigits
    simp [Numeral.decimal, hdigits]

theorem ofDigits_zeros_append (k : Nat) (cs : List Char) :
    ofDigits ('0' :: (List.replicate k '0' ++ cs)) = ofDigits cs := by
  show Nat.ofDigitChars 10 ('0' :: (List.replicate k '0' ++ cs)) 0 = Nat.ofDigitChars 10 cs 0
  simp [Nat.ofDigitChars_cons, Nat.ofDigitChars_append, Nat.ofDigitChars_replicate_zero]

theorem ofDigits_append_zeros (k : Nat) (cs : List Char) :
    ofDigits (cs ++ List.replicate k '0') = ofDigits cs * 10 ^ k := by
  show Nat.ofDigitChars 10 (cs ++ List.replicate k '0') 0 = Nat.ofDigitChars 10 cs 0 * 10 ^ k
  simp [Nat.ofDigitChars_append, Nat.ofDigitChars_replicate_zero, Nat.mul_comm]

theorem spells_positional (d : Decimal) : Spells (d.positional []) d := by
  have hdigits : ∀ c ∈ d.digitChars, c.isDigit = true := fun c => isDigit_of_mem_digitChars
  have hlength : 0 < d.digitChars.length := Nat.length_toDigits_pos
  have hpoint : d.point = d.digitChars.length + d.exponent := rfl
  have hzeros : ∀ k : Nat, ∀ c ∈ List.replicate k '0', c.isDigit = true := by
    intro k c hc
    rw [List.eq_of_mem_replicate hc]
    rfl
  simp only [positional]
  split
  · next hsmall =>
    -- Zeros stand between the point and the digits.
    refine ⟨⟨['0'], List.replicate (-d.point).toNat '0' ++ d.digitChars, none, by simp, by simp,
      fun c hc => (List.mem_append.mp hc).elim (hzeros _ c) (hdigits c)⟩, ?_, ?_⟩
    · obtain ⟨first, more, hcons⟩ :
          ∃ first more, List.replicate (-d.point).toNat '0' ++ d.digitChars = first :: more :=
        List.exists_cons_of_ne_nil (List.ne_nil_of_length_pos (by rw [List.length_append]; omega))
      simp [Numeral.chars, Numeral.fractionChars, Numeral.exponentChars, hcons]
    · have hexponent : (0 : Int) - (List.replicate (-d.point).toNat '0' ++ d.digitChars).length =
          d.exponent := by
        rw [List.length_append, List.length_replicate]
        omega
      simp only [Numeral.decimal, Option.getD_none, hexponent, List.singleton_append,
        ofDigits_zeros_append, ofDigits_digitChars]
  · next hlarge =>
    split
    · next hinside =>
      -- The point stands between two digits.
      have hdrop : 0 < (d.digitChars.drop d.point.toNat).length := by
        rw [List.length_drop]
        omega
      refine ⟨⟨d.digitChars.take d.point.toNat, d.digitChars.drop d.point.toNat, none, ?_,
        fun c hc => hdigits c (List.mem_of_mem_take hc),
        fun c hc => hdigits c (List.mem_of_mem_drop hc)⟩, ?_, ?_⟩
      · apply List.ne_nil_of_length_pos
        rw [List.length_take]
        omega
      · obtain ⟨first, more, hcons⟩ := List.exists_cons_of_ne_nil (List.ne_nil_of_length_pos hdrop)
        simp [Numeral.chars, Numeral.fractionChars, Numeral.exponentChars, hcons]
      · have hexponent : (0 : Int) - (d.digitChars.drop d.point.toNat).length = d.exponent := by
          rw [List.length_drop]
          omega
        simp only [Numeral.decimal, Option.getD_none, hexponent, List.take_append_drop,
          ofDigits_digitChars]
    · next houtside =>
      -- Zeros stand for what the exponent leaves open, and there is no point.
      refine ⟨⟨d.digitChars ++ List.replicate (d.point - d.digitChars.length).toNat '0', [], none,
        ?_, fun c hc => (List.mem_append.mp hc).elim (hdigits c) (hzeros _ c), by simp⟩, ?_, ?_⟩
      · apply List.ne_nil_of_length_pos
        rw [List.length_append]
        omega
      · simp [Numeral.chars, Numeral.fractionChars, Numeral.exponentChars]
      · have hexponent : d.exponent - (d.point - d.digitChars.length).toNat = 0 := by omega
        have hvalue := value_mul_ten_pow d.digits (d.point - d.digitChars.length).toNat d.exponent
        rw [hexponent] at hvalue
        simpa [Numeral.decimal, ofDigits_append_zeros, ofDigits_digitChars] using hvalue

theorem spells_scientific (d : Decimal) : Spells (d.scientific ['.', '0'] 'E') d := by
  have hpoint : d.point = d.digitChars.length + d.exponent := rfl
  have hvalue := ofDigits_digitChars d
  have hdigits : ∀ c ∈ d.digitChars, c.isDigit = true := fun c => isDigit_of_mem_digitChars
  obtain ⟨first, more, hcons⟩ :=
    List.exists_cons_of_ne_nil (Nat.toDigits_ne_nil (b := 10) (n := d.digits))
  rw [show d.digitChars = first :: more from hcons] at hvalue hdigits hpoint
  have hfirst : ∀ c ∈ [first], c.isDigit = true := fun c hc => hdigits c (by simp_all)
  simp only [scientific, show d.digitChars = first :: more from hcons, List.drop_succ_cons,
    List.drop_zero, List.take_succ_cons, List.take_zero]
  cases more with
  | nil =>
    refine ⟨⟨[first], ['0'], some (d.point - 1), by simp, hfirst, by simp⟩, ?_, ?_⟩
    · rfl
    · have hdigit : ofDigits [first, '0'] = d.digits * 10 ^ 1 := by
        rw [← hvalue]
        exact ofDigits_append_zeros 1 [first]
      have hexponent : d.point - 1 - (1 : Nat) = d.exponent - (1 : Nat) := by
        rw [hpoint, List.length_singleton]
        omega
      have hscaled := value_mul_ten_pow d.digits 1 d.exponent
      simpa only [Numeral.decimal, List.singleton_append, hdigit, Option.getD_some,
        List.length_singleton, hexponent] using hscaled
  | cons second more =>
    refine ⟨⟨[first], second :: more, some (d.point - 1), by simp, hfirst,
      fun c hc => hdigits c (List.mem_cons_of_mem _ hc)⟩, ?_, ?_⟩
    · rfl
    · have hexponent : d.point - 1 - (second :: more).length = d.exponent := by
        rw [hpoint]
        simp only [List.length_cons]
        omega
      simp only [Numeral.decimal, List.singleton_append, hvalue, Option.getD_some, hexponent]

end Decimal

end Quill
