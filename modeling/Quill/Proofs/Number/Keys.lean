import Quill.Host
import Quill.Proofs.Number.RoundTrip
import Quill.Session

/-!
# Numbers as keys

A number that is written as a key of an object literal becomes a text when the literal is read, and
a number that an object is indexed with becomes a text when the program runs. The two texts have
different layouts. They agree on the integers below a quadrillion and between a thousandth and ten
million, hardly anywhere else, and never on infinity (`keyText_eq_text_iff`); where they differ,
what was stored under a number is not found under it.
-/

set_option autoImplicit false

namespace Quill

namespace Decimal

variable {d : Decimal}

/-! ## Layouts that differ -/

/-- An exponent is always marked, and nothing else is written with that letter. -/
theorem positional_ne_scientific (d : Decimal) :
    d.positional [] ≠ d.scientific ['.', '0'] 'E' := by
  intro h
  have hmark : 'E' ∈ d.positional [] := by
    rw [h]
    simp [scientific]
  have hdigits : 'E' ∉ d.digitChars := fun hmem => by
    have := isDigit_of_mem_digitChars hmem
    simp at this
  simp only [positional] at hmark
  split at hmark
  · simp [hdigits, List.mem_replicate] at hmark
  · split at hmark
    · rcases List.mem_append.mp hmark with hmem | hmem
      · exact hdigits (List.mem_of_mem_take hmem)
      · simp at hmem
        exact hdigits (List.mem_of_mem_drop hmem)
    · simp [hdigits, List.mem_replicate] at hmark

/-- Zeros at the end multiply by ten. -/
theorem toDigits_mul_ten_pow {m : Nat} (hm : 0 < m) (k : Nat) :
    Nat.toDigits 10 (m * 10 ^ k) = Nat.toDigits 10 m ++ List.replicate k '0' := by
  induction k with
  | zero => simp
  | succ k ih =>
    have hpos : 0 < m * 10 ^ k := Nat.mul_pos hm (Nat.pow_pos (by decide))
    have happend := Nat.toDigits_append_toDigits (b := 10) (n := m * 10 ^ k) (d := 0) (by decide)
      hpos (by decide)
    rw [List.replicate_succ', ← List.append_assoc, ← ih, Nat.pow_succ, ← Nat.mul_assoc,
      Nat.mul_comm _ 10, ← Nat.add_zero (10 * _), ← happend]
    rfl

/-- A decimal is written as an integer is when no digits stand behind its point. -/
theorem positional_eq_toDigits_iff {m : Nat} (hm : 0 < m) :
    d.positional [] = Nat.toDigits 10 m ↔ 0 ≤ d.exponent ∧ d.value = m := by
  have hpoint : d.point = d.digitChars.length + d.exponent := rfl
  have hlength : 0 < d.digitChars.length := Nat.length_toDigits_pos
  constructor
  · intro h
    have hvalue : d.value = m := by
      have hinteger := spells_toDigits m
      rw [← h] at hinteger
      rw [(spells_positional d).value_eq hinteger]
      simp [value]
    have hnoPoint : '.' ∉ d.positional [] := by
      rw [h]
      intro hmem
      have := Numeral.isDigit_of_mem_toDigits hmem
      simp at this
    refine ⟨?_, hvalue⟩
    by_contra hnegative
    simp only [positional] at hnoPoint
    split at hnoPoint
    · simp at hnoPoint
    · rw [if_pos (by omega)] at hnoPoint
      simp at hnoPoint
  · rintro ⟨hexponent, hvalue⟩
    obtain ⟨digits, e⟩ := d
    obtain ⟨k, rfl⟩ := Int.eq_ofNat_of_zero_le hexponent
    have hdigits : digits * 10 ^ k = m := by
      rw [value, zpow_natCast] at hvalue
      exact_mod_cast hvalue
    have hpos : 0 < digits := by
      apply Nat.pos_of_ne_zero
      rintro rfl
      omega
    rw [← hdigits, toDigits_mul_ten_pow hpos]
    simp only [positional]
    rw [if_neg (by omega), if_neg (by simp only at hpoint; omega)]
    simp [hpoint, digitChars]

end Decimal

namespace Number

variable {n : Number}

/-! ## Where the two texts agree -/

/-- The text as a key is the text at run time: on NaN, on the integers below a quadrillion, on
larger ones below `2 ^ 63` if their shortest decimal is the integer itself, and where neither has an
exponent. -/
def KeyAgrees (n : Number) : Prop :=
  n.isNaN = true ∨
  n.isWhole = true ∧ (n.wholePart < Nat.pow 10 15 ∨
    n.wholePart < Nat.pow 2 63 ∧ 0 ≤ n.shortest.exponent ∧ n.shortest.value = n.wholePart) ∨
  thousandth.code ≤ n.code ∧ n.code < tenMillion.code

theorem signed_inj {cs ds : List Char} : n.signed cs = n.signed ds ↔ cs = ds := by
  rw [signed, signed, String.ofList_inj]
  split <;> simp

theorem isFinite_of_isWhole (h : n.isWhole = true) : n.isFinite = true := by
  rw [isWhole, Bool.and_eq_true] at h
  exact h.1

theorem keyText_eq_text_of_isNaN (h : n.isNaN = true) : n.keyText = n.text := by
  have hwhole : n.isWhole = false := by
    rw [← Bool.not_eq_true]
    intro hwhole
    have hnan := (isFinite_iff.mp (isFinite_of_isWhole hwhole)).1
    simp [h] at hnan
  simp [keyText, plainText, text, h, hwhole]

theorem keyText_ne_text_of_isInfinite (h : n.isInfinite = true) : n.keyText ≠ n.text := by
  have hcode : n.code = infinityCode := beq_iff_eq.mp h
  have hnan : n.isNaN = false := by simp [isNaN, hcode]
  have hwhole : n.isWhole = false := by simp [isWhole, isFinite, hcode]
  simp [keyText, plainText, text, h, hwhole, hnan, signed_inj]

theorem isZero_eq_false (h : 0 < n.wholePart ∨ n.isWhole = false) : n.isZero = false := by
  rw [← Bool.not_eq_true]
  intro hzero
  obtain ⟨hwhole, hpart⟩ := wholePart_of_isZero hzero
  rcases h with h | h
  · omega
  · simp [hwhole] at h

/-- The layouts of an integer that is not small. -/
theorem keyText_eq_text_of_isWhole (h : n.isWhole = true) (hlarge : ¬n.wholePart < Nat.pow 10 15)
    (hfits : n.wholePart < Nat.pow 2 63) :
    n.keyText = n.text ↔ 0 ≤ n.shortest.exponent ∧ n.shortest.value = n.wholePart := by
  obtain ⟨hnan, hinfinite⟩ := isFinite_iff.mp (isFinite_of_isWhole h)
  have hpos : 0 < n.wholePart := by
    have : 0 < Nat.pow 10 15 := by decide
    omega
  rw [← Decimal.positional_eq_toDigits_iff hpos, ← signed_inj (n := n)]
  simp [keyText, plainText, text, h, hnan, hinfinite, isZero_eq_false (.inl hpos), hlarge, hfits]

/-- The layouts of a number that does not fit sixty-four bits, or has a fraction. -/
theorem keyText_eq_text_of_not_fits (hfinite : n.isFinite = true)
    (h : n.isWhole = true → ¬n.wholePart < Nat.pow 2 63) :
    n.keyText = n.text ↔ thousandth.code ≤ n.code ∧ n.code < tenMillion.code := by
  obtain ⟨hnan, hinfinite⟩ := isFinite_iff.mp hfinite
  have hsmall : n.isWhole = true → ¬n.wholePart < Nat.pow 10 15 := by
    intro hwhole hsmall
    exact h hwhole (hsmall.trans (by decide))
  have hzero : n.isZero = false := by
    apply isZero_eq_false
    rw [← Bool.not_eq_true]
    by_contra hzero
    push Not at hzero
    have : 0 < Nat.pow 2 63 := by decide
    exact h hzero.2 (by omega)
  have hkey : n.keyText = n.signed (n.shortest.positional []) := by
    rw [keyText, if_neg (by simpa using hsmall), plainText]
    simp [hnan, hinfinite, hzero]
  have htext : n.text = if thousandth.code ≤ n.code ∧ n.code < tenMillion.code then
      n.signed (n.shortest.positional []) else n.signed (n.shortest.scientific ['.', '0'] 'E') := by
    rw [text, hnan, hinfinite, if_neg Bool.false_ne_true, if_neg Bool.false_ne_true,
      if_neg (by simpa using h)]
    simp
  rw [hkey, htext]
  split
  · next hrange => simp [hrange]
  · next hrange => simp [hrange, signed_inj, Decimal.positional_ne_scientific]

/-- Below ten million no integer is large. -/
theorem wholePart_lt (h : n.code < tenMillion.code) : n.wholePart < Nat.pow 10 7 := by
  have htenMillion : tenMillion.units = Nat.pow 10 7 * unitsPerOne := by decide +kernel
  have hunits := units_lt_units h
  rw [htenMillion] at hunits
  exact Nat.div_lt_of_lt_mul (Nat.mul_comm _ _ ▸ hunits)

theorem keyText_eq_text_iff (n : Number) : n.keyText = n.text ↔ n.KeyAgrees := by
  by_cases hnan : n.isNaN = true
  · simp [KeyAgrees, hnan, keyText_eq_text_of_isNaN]
  by_cases hinfinite : n.isInfinite = true
  · have hcode : n.code = infinityCode := beq_iff_eq.mp hinfinite
    have hrange : ¬infinityCode < tenMillion.code := by decide +kernel
    have hwhole : n.isWhole = false := by simp [isWhole, isFinite, hcode]
    simp [KeyAgrees, hnan, hwhole, hcode, hrange, keyText_ne_text_of_isInfinite hinfinite]
  rw [Bool.not_eq_true] at hnan hinfinite
  have hfinite := isFinite_iff.mpr ⟨hnan, hinfinite⟩
  have hlimits : Nat.pow 10 7 < Nat.pow 10 15 ∧ Nat.pow 10 15 < Nat.pow 2 63 := by decide
  by_cases hwhole : n.isWhole = true
  · by_cases hsmall : n.wholePart < Nat.pow 10 15
    · have hfits := hsmall.trans hlimits.2
      simp [KeyAgrees, keyText, text, hnan, hinfinite, hwhole, hsmall, hfits]
    · have hrange : ¬n.code < tenMillion.code := fun h =>
        hsmall ((wholePart_lt h).trans hlimits.1)
      by_cases hfits : n.wholePart < Nat.pow 2 63
      · rw [keyText_eq_text_of_isWhole hwhole hsmall hfits]
        simp [KeyAgrees, hnan, hwhole, hsmall, hfits, hrange]
      · rw [keyText_eq_text_of_not_fits hfinite fun _ => hfits]
        simp [KeyAgrees, hnan, hwhole, hsmall, hfits]
  · rw [keyText_eq_text_of_not_fits hfinite fun h => absurd h hwhole]
    simp [KeyAgrees, hnan, hwhole]

end Number

/-! ## Reading what was stored -/

variable {host : Host} {fuel : Nat} {e : Expr} {m m' : Machine} {v : Value}

/-- The machine with one more object, which has one entry. -/
def Machine.withEntry (m : Machine) (key : String) (v : Value) : Machine :=
  { m with heap := (m.heap.allocObject (Dict.empty.set key v)).2 }

theorem Heap.readIndex_allocObject (h : Heap) (entries : Dict Value) (key : Value) :
    (h.allocObject entries).2.readIndex (h.allocObject entries).1 key =
      (entries.get? key.toText).getD .null := by
  simp [allocObject, readIndex, object]

/-- An object of one entry is indexed with a number. -/
theorem evaluator_index_entry (key : String) (n : Number) (p q r : Position)
    (h : (evaluator host fuel).expr e m = .ok v m') :
    (evaluator host (fuel + 2)).expr (.index (.object [(key, e)] p) (.number n q) r) m =
      .ok (if n.text = key then v else .null) (m'.withEntry key v) := by
  have hobject : (evaluator host (fuel + 1)).expr (.object [(key, e)] p) m =
      .ok (m'.heap.allocObject (Dict.empty.set key v)).1 (m'.withEntry key v) := by
    show (evalEntries (evaluator host fuel) .empty [(key, e)] >>= Run.allocObject) m = _
    have hentries : evalEntries (evaluator host fuel) .empty [(key, e)] m =
        .ok (Dict.empty.set key v) m' := by
      simp only [evalEntries, bind, EStateM.bind, h]
      rfl
    simp only [bind, EStateM.bind, hentries]
    rfl
  have hread : (m'.withEntry key v).heap.readIndex
      (m'.heap.allocObject (Dict.empty.set key v)).1 (.number n) =
        if n.text = key then v else .null := by
    refine (Heap.readIndex_allocObject _ _ _).trans ?_
    rw [Dict.get?_set, Value.toText]
    split <;> rfl
  show (do
    let container ← (evaluator host (fuel + 1)).expr (.object [(key, e)] p)
    let index ← (evaluator host (fuel + 1)).expr (.number n q)
    Run.read (·.readIndex container index)) m = _
  simp only [bind, EStateM.bind, hobject]
  rw [← hread]
  rfl

/-- An object literal with one entry under a number is indexed with that number. The parser stores
the entry under `Number.keyText`; what it was set to is found where that is also the text at run
time, and otherwise null is, in every state and whatever the entry evaluates to. -/
theorem entry_under_number (host : Host) (fuel : Nat) (e : Expr) (m m' : Machine) (v : Value)
    (t : Token) (n : Number) (p q r : Position) (ht : t.kind = .number n)
    (h : (evaluator host fuel).expr e m = .ok v m') :
    ∃ key found, Syntax.propertyKey? t = some key ∧
      (evaluator host (fuel + 2)).expr (.index (.object [(key, e)] p) (.number n q) r) m =
        .ok found (m'.withEntry key v) ∧
      (n.KeyAgrees → key = n.text ∧ found = v) ∧
      (¬n.KeyAgrees → key ≠ n.text ∧ found = .null) := by
  have hkey : Syntax.propertyKey? t = some n.keyText := by
    rw [Syntax.propertyKey?, ht]
  refine ⟨n.keyText, _, hkey, evaluator_index_entry n.keyText n p q r h, ?_, ?_⟩
  · intro hagrees
    have htext := n.keyText_eq_text_iff.mpr hagrees
    exact ⟨htext, if_pos htext.symm⟩
  · intro hdiffers
    have htext := mt n.keyText_eq_text_iff.mp hdiffers
    exact ⟨htext, if_neg (Ne.symm htext)⟩

namespace Number

/-- As a key ten to the twentieth is written out, at run time with an exponent. -/
theorem tenToTheTwentieth_differs : ¬tenToTheTwentieth.KeyAgrees := by
  have hwhole : ¬tenToTheTwentieth.wholePart < Nat.pow 2 63 := by decide +kernel
  have hsmall : ¬tenToTheTwentieth.wholePart < Nat.pow 10 15 := by decide +kernel
  have hrange : ¬tenToTheTwentieth.code < tenMillion.code := by decide +kernel
  have hnan : ¬tenToTheTwentieth.isNaN = true := by decide
  rintro (h | ⟨_, h | ⟨h, _⟩⟩ | ⟨_, h⟩)
  · exact hnan h
  · exact hsmall h
  · exact hwhole h
  · exact hrange h

theorem entry_under_tenToTheTwentieth :
    ∃ key found m, Syntax.propertyKey? ⟨.number tenToTheTwentieth, "1e20", .start⟩ = some key ∧
      (evaluator smallHost 3).expr (.index (.object [(key, .bool true .start)] .start)
        (.number tenToTheTwentieth .start) .start) Machine.new = .ok found m ∧ found = .null := by
  obtain ⟨key, found, hkey, hrun, _, hdiffers⟩ :=
    entry_under_number smallHost 1 (.bool true .start) Machine.new Machine.new (.bool true)
      ⟨.number tenToTheTwentieth, "1e20", .start⟩ tenToTheTwentieth .start .start .start rfl rfl
  exact ⟨key, found, _, hkey, hrun, (hdiffers tenToTheTwentieth_differs).2⟩

/-- A program loses what it stored under ten to the twentieth. -/
theorem tenToTheTwentieth_not_found :
    (compile "({ 1e20: 5 })[1e20]").map
      (fun program => (Machine.new.run (execute (evaluator smallHost 20) program)).1) =
        .ok (.value .null) := by
  decide +kernel

end Number

end Quill
