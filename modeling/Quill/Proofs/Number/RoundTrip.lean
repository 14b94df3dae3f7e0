import Quill.Dict
import Quill.Proofs.Number.Numeral
import Quill.Proofs.Token.Spacing
import Quill.Token.Lexer
import Quill.Value

/-!
# Number text is read back

Every number but negative zero is read back from its text, so no two numbers share a text except the
two zeros and the NaNs. The text of a number that is finite and not negative is also a single token.
-/

set_option autoImplicit false

namespace Quill

namespace Spells

variable {cs : List Char} {d : Decimal}

theorem exists_cons (h : Spells cs d) : ∃ c more, cs = c :: more ∧ c.isDigit = true ∧
    Slice.numberReach more = more.length := by
  obtain ⟨x, rfl, _⟩ := h
  cases hchars : x.chars with
  | nil => simp [Numeral.chars, x.whole_ne_nil] at hchars
  | cons c more => exact ⟨c, more, rfl, x.numberReach_chars hchars⟩

theorem read? (h : Spells cs d) : ∃ d', Decimal.read? cs = some d' ∧ d'.code = d.code := by
  obtain ⟨x, rfl, hvalue⟩ := h
  exact ⟨x.decimal, x.read?_chars, Decimal.code_congr hvalue⟩

theorem toLower_of_isDigit {c : Char} (h : c.isDigit = true) : c.toLower = c := by
  simp only [Char.isDigit, Bool.and_eq_true, decide_eq_true_eq] at h
  refine dif_neg fun hupper => ?_
  exact absurd (UInt32.le_trans hupper.1 h.2) (by decide)

/-- A numeral is none of the words, which begin with a letter. -/
theorem readMagnitude? (h : Spells cs d) (negative : Bool) :
    Number.readMagnitude? negative cs = some (Number.ofCode negative d.code) := by
  obtain ⟨d', hread, hcode⟩ := h.read?
  obtain ⟨c, more, rfl, hc, _⟩ := h.exists_cons
  have hword : ∀ (first : Char) (rest : List Char), first.isDigit = false →
      String.ofList ((c :: more).map Char.toLower) ≠ String.ofList (first :: rest) := by
    intro first rest hfirst heq
    have hchars := String.ofList_injective heq
    rw [List.map_cons, toLower_of_isDigit hc, List.cons.injEq] at hchars
    rw [hchars.1, hfirst] at hc
    cases hc
  rw [Number.readMagnitude?, if_neg, if_neg (hword 'n' _ rfl), hread, Option.map_some,
    Decimal.toNumber, hcode]
  simp only [Bool.or_eq_true, decide_eq_true_eq, not_or]
  exact ⟨hword 'i' _ rfl, hword 'i' _ rfl⟩

/-! ## Between blanks -/

theorem not_isBlank (h : Spells cs d) : ∀ c ∈ cs, Text.isBlank c = false := by
  intro c hc
  obtain ⟨x, rfl, _⟩ := h
  rcases Numeral.mem_chars hc with hdigit | rfl | rfl | rfl
  · simp only [Char.isDigit, Bool.and_eq_true, decide_eq_true_eq, ge_iff_le] at hdigit
    have hlow : 48 ≤ c.toNat := hdigit.1
    have hhigh : c.toNat ≤ 57 := hdigit.2
    simp only [Text.isBlank, Bool.or_eq_false_iff, Bool.and_eq_false_iff, decide_eq_false_iff_not,
      beq_eq_false_iff_ne]
    omega
  all_goals rfl

end Spells

theorem Text.trim_eq_self {cs : List Char} (h : ∀ c ∈ cs, isBlank c = false) : trim cs = cs := by
  have hstart : ∀ ds : List Char, (∀ c ∈ ds, isBlank c = false) → ds.dropWhile isBlank = ds := by
    intro ds hds
    cases ds with
    | nil => rfl
    | cons d ds => simp [hds d (by simp)]
  rw [trim, trimStart, hstart cs h, trimEnd, hstart cs.reverse fun c hc => h c (by simpa using hc),
    List.reverse_reverse]

namespace Number

variable {a b n : Number} {cs : List Char} {d : Decimal}

/-- The sign is read, and then the magnitude. -/
theorem ofText_signed (h : Spells cs d) (hcode : d.code = n.code) : ofText (n.signed cs) = n := by
  have hread : read? (if n.isNegative then '-' :: cs else cs) = some n := by
    have hmagnitude := h.readMagnitude? n.isNegative
    rw [hcode, ofCode_code] at hmagnitude
    cases hsign : n.isNegative with
    | true => rwa [hsign] at hmagnitude
    | false =>
      obtain ⟨c, more, rfl, hc, _⟩ := h.exists_cons
      rw [hsign] at hmagnitude
      rw [if_neg Bool.false_ne_true, read?]
      · exact hmagnitude
      · rintro _ ⟨⟩
        simp at hc
      · rintro _ ⟨⟩
        simp at hc
  have hblank : ∀ c ∈ (if n.isNegative then '-' :: cs else cs), Text.isBlank c = false := by
    cases n.isNegative with
    | true => simpa using ⟨rfl, h.not_isBlank⟩
    | false => exact h.not_isBlank
  rw [ofText, signed, String.toList_ofList, Text.trim_eq_self hblank, hread, Option.getD_some]

/-! ## The text is a numeral -/

theorem code_eq_zero : n.isZero = true ↔ n.code = 0 := beq_iff_eq

theorem isFinite_iff : n.isFinite = true ↔ n.isNaN = false ∧ n.isInfinite = false := by
  simp only [isFinite, isNaN, isInfinite, decide_eq_true_eq, decide_eq_false_iff_not,
    beq_eq_false_iff_ne]
  omega

theorem wholePart_of_isZero (h : n.isZero = true) : n.isWhole = true ∧ n.wholePart = 0 := by
  have hcode := code_eq_zero.mp h
  have hunits : n.units = 0 := by
    rw [units, significand, hcode, if_pos hiddenBit_pos, Nat.zero_mul]
  simp [isWhole, wholePart, isFinite, hcode, hunits]
  decide

/-- Whatever the layout, the text of a finite number is its sign and a numeral. -/
theorem text_spells (hfinite : n.isFinite = true) (hzero : n.isZero = true → n.isNegative = false) :
    ∃ cs d, n.text = n.signed cs ∧ Spells cs d ∧ d.code = n.code := by
  obtain ⟨hnan, hinfinite⟩ := isFinite_iff.mp hfinite
  have hshortest := code_shortest hfinite
  rw [text, hnan, hinfinite, if_neg Bool.false_ne_true, if_neg Bool.false_ne_true]
  split
  · next hwhole =>
    rw [Bool.and_eq_true] at hwhole
    refine ⟨_, _, ?_, Decimal.spells_toDigits n.wholePart, code_wholePart hwhole.1⟩
    split
    · next hz => simp [signed, hzero hz, (wholePart_of_isZero hz).2]
    · rfl
  · split
    · exact ⟨_, _, rfl, Decimal.spells_positional _, hshortest⟩
    · exact ⟨_, _, rfl, Decimal.spells_scientific _, hshortest⟩

theorem same_iff_eq_or_isNaN : a.same b = true ↔ a = b ∨ a.isNaN = true ∧ b.isNaN = true := by
  rw [same, Bool.or_eq_true, Bool.and_eq_true, beq_iff_eq]

theorem ofText_text (hzero : n.isZero = true → n.isNegative = false) :
    (ofText n.text).same n = true := by
  rw [same_iff_eq_or_isNaN]
  by_cases hnan : n.isNaN = true
  · have hread : ofText "NaN" = nan := by decide
    rw [text, if_pos hnan, hread]
    exact .inr ⟨rfl, hnan⟩
  · left
    by_cases hinfinite : n.isInfinite = true
    · have hcode : n.code = infinityCode := beq_iff_eq.mp hinfinite
      have hread : ofText (n.signed "Infinity".toList) = ofCode n.isNegative infinityCode := by
        rw [signed]
        cases n.isNegative <;> decide
      rw [text, if_neg hnan, if_pos hinfinite, hread, ← hcode, ofCode_code]
    · rw [Bool.not_eq_true] at hnan hinfinite
      obtain ⟨cs, d, htext, hspells, hcode⟩ :=
        text_spells (isFinite_iff.mpr ⟨hnan, hinfinite⟩) hzero
      rw [htext, ofText_signed hspells hcode]

theorem text_of_isZero (h : n.isZero = true) : n.text = "0" := by
  obtain ⟨hwhole, hpart⟩ := wholePart_of_isZero h
  have hcode := code_eq_zero.mp h
  have hnan : n.isNaN = false := by simp [isNaN, hcode]
  have hinfinite : n.isInfinite = false := by
    rw [isInfinite, hcode]
    rfl
  simp [text, hnan, hinfinite, hwhole, hpart, h]

/-- No other number is written as the zeros are. -/
theorem isZero_of_text (h : n.text = "0") : n.isZero = true := by
  by_contra hzero
  have hread : ofText "0" = zero := by decide
  have hsame := ofText_text (n := n) fun h => absurd h hzero
  rw [h, hread, same_iff_eq_or_isNaN] at hsame
  rcases hsame with rfl | ⟨hnan, _⟩
  · exact hzero rfl
  · cases hnan

/-- Numbers of one text are one number, or both zero. -/
theorem same_of_text (h : a.text = b.text) :
    a.same b = true ∨ a.isZero = true ∧ b.isZero = true := by
  by_cases ha : a.isZero = true
  · exact .inr ⟨ha, isZero_of_text (h ▸ text_of_isZero ha)⟩
  · by_cases hb : b.isZero = true
    · exact .inr ⟨isZero_of_text (h ▸ text_of_isZero hb), hb⟩
    · have hreada := ofText_text (n := a) fun h => absurd h ha
      have hreadb := ofText_text (n := b) fun h => absurd h hb
      rw [h, same_iff_eq_or_isNaN] at hreada
      rw [same_iff_eq_or_isNaN] at hreadb
      left
      rw [same_iff_eq_or_isNaN]
      rcases hreada with rfl | ⟨hnan, ha⟩
      · exact hreadb
      · rcases hreadb with heq | ⟨_, hb⟩
        · exact .inr ⟨ha, heq ▸ hnan⟩
        · exact .inr ⟨ha, hb⟩

/-! ## The text is a token -/

/-- What begins with a digit is cut and read as a number. -/
theorem startsTrivia_of_isDigit {c : Char} (h : c.isDigit = true) (more : List Char) :
    Slice.startsTrivia c more = false ∧ Slice.isQuote c = false := by
  have hne : ∀ c' : Char, c'.isDigit = false → (c == c') = false := by
    intro c' hc'
    rw [beq_eq_false_iff_ne]
    rintro rfl
    simp [hc'] at h
  simp [Slice.startsTrivia, Slice.not_space_of_isDigit h, Slice.isQuote, hne '/' rfl, hne '"' rfl,
    hne '\'' rfl]

theorem tokenize_text (hfinite : n.isFinite = true) (hsign : n.isNegative = false) :
    tokenize n.text = ⟨[⟨.number n, n.text, .start⟩, endOfInput n.text], []⟩ := by
  obtain ⟨cs, d, htext, hspells, hcode⟩ := text_spells hfinite fun _ => hsign
  rw [signed, hsign, if_neg Bool.false_ne_true] at htext
  have hmagnitude := hspells.readMagnitude? false
  rw [hcode, ← hsign, ofCode_code, hsign] at hmagnitude
  obtain ⟨c, more, rfl, hc, hreach⟩ := hspells.exists_cons
  obtain ⟨htrivia, hquote⟩ := startsTrivia_of_isDigit hc more
  have hsigns : c ≠ '+' ∧ c ≠ '-' := by
    constructor <;> (rintro rfl; simp at hc)
  have hpieces : pieces n.text = [⟨c :: more, .start⟩] := by
    rw [pieces, htext, String.toList_ofList, Slice.slices, Slice.reach_of_not_trivia htrivia,
      hquote, hc]
    simp [hreach, Slice.slices, Piece.place]
  have hlexeme : (⟨c :: more, .start⟩ : Piece).lexeme = .token (.number n) := by
    rw [Piece.lexeme, Slice.ofSlice_of_not_trivia htrivia, hquote, hc]
    simp [read?, hsigns, hmagnitude]
  rw [tokenize, hpieces]
  simp only [List.filterMap_cons, List.filterMap_nil, Piece.token?, Piece.diagnostic?, Piece.fault?,
    hlexeme, Option.map_none, htext, List.singleton_append]

/-! ## Texts tell numbers apart -/

/-- Negative zero apart, a number is read back from its text, bit for bit unless it is NaN. Numbers
of one text are one number or both zero, so setting an object's key for one of two others does not
touch the key for the other. And a text without a sign is one token with its number. -/
theorem text_tells_numbers_apart :
    (∀ n : Number, ¬(n.isZero = true ∧ n.isNegative = true) → (ofText n.text).same n = true) ∧
    (∀ a b : Number, a.text = b.text → a.same b = true ∨ a.isZero = true ∧ b.isZero = true) ∧
    (∀ (a b : Number) (d : Dict Value) (v : Value),
      a.same b = false → ¬(a.isZero = true ∧ b.isZero = true) →
        (d.set (Value.number a).toText v).get? (Value.number b).toText =
          d.get? (Value.number b).toText) ∧
    (∀ n : Number, n.isFinite = true → n.isNegative = false →
      tokenize n.text = ⟨[⟨.number n, n.text, .start⟩, endOfInput n.text], []⟩) := by
  refine ⟨?_, fun _ _ => same_of_text, ?_, fun _ => tokenize_text⟩
  · intro n hzero
    apply ofText_text
    intro hz
    simpa [hz] using hzero
  · intro a b d v hsame hzero
    rw [Dict.get?_set, if_neg]
    intro htext
    rcases same_of_text htext.symm with h | h
    · simp [hsame] at h
    · exact hzero h

/-- Ten to the twentieth, too large for the layout of integers. -/
def tenToTheTwentieth : Number := ⟨0x4415AF1D78B58C40⟩

/-- An exponent is written, and read again by both readers. -/
theorem tenToTheTwentieth_reads_back :
    (ofText tenToTheTwentieth.text).same tenToTheTwentieth = true ∧
    (tokenize tenToTheTwentieth.text).tokens.map Token.kind =
      [.number tenToTheTwentieth, .eof] := by
  obtain ⟨hread, _, _, htoken⟩ := text_tells_numbers_apart
  refine ⟨hread _ (by decide), ?_⟩
  rw [htoken _ (by decide) (by decide)]
  rfl

end Number

end Quill
