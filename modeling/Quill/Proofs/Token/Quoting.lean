import Quill.Proofs.Token.Placement

/-!
# Strings between quotes

How a text is written as a string, said from the side of the writer: a backslash and the quote in
use need a backslash in front of them, a newline, a tab and a carriage return may be written as
escapes, and everything else stands for itself, the other quote and the null character included. A
character may be written in more than one way, so this is a relation between texts and no function.

Reading finds the closing quote where it was put and the text in front of it
(`Encodes.stringValue?_append`). What is cut off before the closing quote is never closed, also
where the cut goes through an escape (`Encodes.stringValue?_of_prefix`).
-/

set_option autoImplicit false

namespace Quill

namespace Slice

/-! ## The reader, one step at a time -/

variable {quote c : Char}

theorem stringValue?_quote (quote : Char) (cs : List Char) :
    stringValue? quote (quote :: cs) = some [] := by
  cases cs <;> simp [stringValue?]

theorem stringReach_quote (quote : Char) (cs : List Char) :
    stringReach quote (quote :: cs) = 1 := by
  cases cs <;> simp [stringReach]

theorem stringValue?_plain (hquote : c ≠ quote) (hback : c ≠ '\\') (cs : List Char) :
    stringValue? quote (c :: cs) = (stringValue? quote cs).map (c :: ·) := by
  cases cs <;> simp [stringValue?, hquote, hback]

theorem stringReach_plain (hquote : c ≠ quote) (hback : c ≠ '\\') (cs : List Char) :
    stringReach quote (c :: cs) = 1 + stringReach quote cs := by
  cases cs <;> simp [stringReach, hquote, hback]

theorem stringValue?_escape (hquote : '\\' ≠ quote) (d : Char) (cs : List Char) :
    stringValue? quote ('\\' :: d :: cs) = (stringValue? quote cs).map (unescape d :: ·) := by
  simp [stringValue?, hquote]

theorem stringReach_escape (hquote : '\\' ≠ quote) (d : Char) (cs : List Char) :
    stringReach quote ('\\' :: d :: cs) = 2 + stringReach quote cs := by
  simp [stringReach, hquote]

theorem ne_backslash_of_isQuote (h : isQuote quote = true) : '\\' ≠ quote := by
  rintro rfl
  simp [isQuote] at h

/-! ## The writer -/

/-- The ways to write a character between quotes. -/
inductive EncodesChar (quote : Char) : Char → List Char → Prop
  | plain {c : Char} : c ≠ quote → c ≠ '\\' → EncodesChar quote c [c]
  | guarded {c : Char} : c = quote ∨ c = '\\' → EncodesChar quote c ['\\', c]
  | newline : EncodesChar quote '\n' ['\\', 'n']
  | tab : EncodesChar quote '\t' ['\\', 't']
  | carriageReturn : EncodesChar quote '\r' ['\\', 'r']

/-- The ways to write a text between quotes, character by character. -/
inductive Encodes (quote : Char) : List Char → List Char → Prop
  | nil : Encodes quote [] []
  | cons {c : Char} {cs code text : List Char} :
      EncodesChar quote c code → Encodes quote cs text → Encodes quote (c :: cs) (code ++ text)

/-- Every text can be written. -/
theorem exists_encodes (quote : Char) (cs : List Char) : ∃ text, Encodes quote cs text := by
  induction cs with
  | nil => exact ⟨[], .nil⟩
  | cons c cs ih =>
    obtain ⟨text, htext⟩ := ih
    by_cases hspecial : c = quote ∨ c = '\\'
    · exact ⟨_, .cons (.guarded hspecial) htext⟩
    · rw [not_or] at hspecial
      exact ⟨_, .cons (.plain hspecial.1 hspecial.2) htext⟩

/-- A written character is itself, or a backslash and what an escape makes into the character. -/
theorem EncodesChar.cases {code : List Char} (hquote : isQuote quote = true)
    (h : EncodesChar quote c code) :
    (code = [c] ∧ c ≠ quote ∧ c ≠ '\\') ∨ ∃ d, code = ['\\', d] ∧ unescape d = c := by
  cases h with
  | plain hplain hback => exact .inl ⟨rfl, hplain, hback⟩
  | guarded hspecial =>
    refine .inr ⟨c, rfl, ?_⟩
    rcases hspecial with rfl | rfl
    · simp only [isQuote, Bool.or_eq_true, beq_iff_eq] at hquote
      rcases hquote with rfl | rfl <;> rfl
    · rfl
  | newline | tab | carriageReturn => exact .inr ⟨_, rfl, rfl⟩

namespace Encodes

variable {cs text : List Char}

/-- The closing quote ends the string, and what was written is read, whatever follows. -/
theorem stringValue?_append (hquote : isQuote quote = true) (h : Encodes quote cs text)
    (rest : List Char) : stringValue? quote (text ++ quote :: rest) = some cs := by
  induction h with
  | nil => exact stringValue?_quote quote rest
  | cons hchar _ ih =>
    rw [List.append_assoc]
    rcases hchar.cases hquote with ⟨rfl, hne, hback⟩ | ⟨d, rfl, rfl⟩
    · rw [List.singleton_append, stringValue?_plain hne hback, ih, Option.map_some]
    · rw [List.cons_append, List.singleton_append,
        stringValue?_escape (ne_backslash_of_isQuote hquote), ih, Option.map_some]

theorem stringReach_append (hquote : isQuote quote = true) (h : Encodes quote cs text)
    (rest : List Char) : stringReach quote (text ++ quote :: rest) = text.length + 1 := by
  induction h with
  | nil => exact stringReach_quote quote rest
  | cons hchar _ ih =>
    rw [List.append_assoc, List.length_append]
    rcases hchar.cases hquote with ⟨rfl, hne, hback⟩ | ⟨d, rfl, -⟩
    · rw [List.singleton_append, stringReach_plain hne hback, ih, List.length_singleton]
      omega
    · rw [List.cons_append, List.singleton_append,
        stringReach_escape (ne_backslash_of_isQuote hquote), ih]
      simp only [List.length_cons, List.length_nil]
      omega

/-- In front of the closing quote nothing closes the string. -/
theorem stringValue?_of_prefix (hquote : isQuote quote = true) (h : Encodes quote cs text)
    {front : List Char} (hfront : front <+: text) : stringValue? quote front = none := by
  have hback := ne_backslash_of_isQuote hquote
  induction h generalizing front with
  | nil =>
    rw [List.prefix_nil.mp hfront]
    rfl
  | cons hchar _ ih =>
    rcases hchar.cases hquote with ⟨rfl, hne, hplain⟩ | ⟨d, rfl, -⟩
    · rcases front with _ | ⟨e, front⟩
      · rfl
      · obtain ⟨rfl, hrest⟩ := List.cons_prefix_cons.mp hfront
        rw [stringValue?_plain hne hplain, ih hrest, Option.map_none]
    · rcases front with _ | ⟨e, _ | ⟨e', front⟩⟩
      · rfl
      · -- The cut goes through the escape.
        obtain ⟨rfl, -⟩ := List.cons_prefix_cons.mp hfront
        simp [stringValue?, hback]
      · obtain ⟨rfl, hmore⟩ := List.cons_prefix_cons.mp hfront
        obtain ⟨rfl, hrest⟩ := List.cons_prefix_cons.mp hmore
        rw [stringValue?_escape hback, ih hrest, Option.map_none]

end Encodes

/-! ## A string alone -/

theorem startsTrivia_of_isQuote (h : isQuote quote = true) (cs : List Char) :
    startsTrivia quote cs = false := by
  simp only [isQuote, Bool.or_eq_true, beq_iff_eq] at h
  rcases h with rfl | rfl <;> rfl

/-- A string that takes up all of the text is its only slice. -/
theorem slices_of_string {cs : List Char} (hquote : isQuote quote = true)
    (hreach : stringReach quote cs = cs.length) : slices (quote :: cs) = [quote :: cs] := by
  rw [slices, reach_of_not_trivia (startsTrivia_of_isQuote hquote cs), if_pos hquote, hreach,
    List.take_length, List.drop_length, slices]

end Slice

open Slice

variable {quote : Char} {cs : List Char}

theorem pieces_of_string (hquote : isQuote quote = true)
    (hreach : stringReach quote cs = cs.length) :
    pieces (String.ofList (quote :: cs)) = [⟨quote :: cs, .start⟩] := by
  rw [pieces, String.toList_ofList, slices_of_string hquote hreach]
  rfl

theorem tokenize_of_closed {value : List Char} (hquote : isQuote quote = true)
    (hreach : stringReach quote cs = cs.length) (hvalue : stringValue? quote cs = some value) :
    let source := String.ofList (quote :: cs)
    tokenize source =
      ⟨[⟨.string (String.ofList value), source, .start⟩, endOfInput source], []⟩ := by
  have hlexeme : (⟨quote :: cs, .start⟩ : Piece).lexeme =
      .token (.string (String.ofList value)) := by
    rw [Piece.lexeme, ofSlice_of_not_trivia (startsTrivia_of_isQuote hquote cs), if_pos hquote,
      hvalue]
  simp only [tokenize, pieces_of_string hquote hreach, List.filterMap_cons, List.filterMap_nil,
    Piece.token?, Piece.diagnostic?, Piece.fault?, hlexeme, Option.map_none, List.singleton_append]

theorem diagnostics_of_unclosed (hquote : isQuote quote = true)
    (hreach : stringReach quote cs = cs.length) (hvalue : stringValue? quote cs = none) :
    (tokenize (String.ofList (quote :: cs))).diagnostics =
      [⟨.unterminatedString .start, .start⟩] := by
  have hlexeme : (⟨quote :: cs, .start⟩ : Piece).lexeme = .unterminatedString := by
    rw [Piece.lexeme, ofSlice_of_not_trivia (startsTrivia_of_isQuote hquote cs), if_pos hquote,
      hvalue]
  simp only [tokenize, pieces_of_string hquote hreach, List.filterMap_cons, List.filterMap_nil,
    Piece.diagnostic?, Piece.fault?, hlexeme, Option.map_some]

/-! ## Written and read -/

/-- A written text between its quotes. -/
def literal (quote : Char) (text : List Char) : List Char := quote :: (text ++ [quote])

/-- Every text can be written between quotes of either kind. However it is written, it is read as
one string with that text, and all that is said of a piece cut off from it, so long as the opening
quote is there, is that the string which begins at the first character never ends. -/
theorem tokenize_literal {quote : Char} (hquote : isQuote quote = true) (value : String) :
    (∃ text, Encodes quote value.toList text) ∧
    ∀ text, Encodes quote value.toList text →
      (let source := String.ofList (literal quote text)
      tokenize source = ⟨[⟨.string value, source, .start⟩, endOfInput source], []⟩) ∧
      ∀ front, front <+: literal quote text → front ≠ [] → front ≠ literal quote text →
        ∃ d, (tokenize (String.ofList front)).diagnostics = [d] ∧
          d.code.label = "L002" ∧ d.position = ⟨1, 1⟩ := by
  refine ⟨exists_encodes quote value.toList, fun text htext => ⟨?_, ?_⟩⟩
  · have hreach : stringReach quote (text ++ [quote]) = (text ++ [quote]).length := by
      rw [htext.stringReach_append hquote, List.length_append, List.length_singleton]
    have htokens := tokenize_of_closed hquote hreach (htext.stringValue?_append hquote [])
    rwa [String.ofList_toList] at htokens
  · intro front hprefix hne hproper
    obtain ⟨c, cs, rfl⟩ := List.exists_cons_of_ne_nil hne
    obtain ⟨rfl, hcs⟩ := List.cons_prefix_cons.mp hprefix
    have hcut : cs <+: text :=
      (List.prefix_concat_iff.mp hcs).resolve_left fun h => hproper (congrArg (c :: ·) h)
    have hvalue := htext.stringValue?_of_prefix hquote hcut
    have hreach : stringReach c cs = cs.length := stringReach_eq_length
      (htext.stringValue?_of_prefix hquote ((List.take_prefix _ cs).trans hcut))
    exact ⟨_, diagnostics_of_unclosed hquote hreach hvalue, rfl, rfl⟩

/-- A text with the quote in use, the other one, a backslash, the null character and two newlines,
of which the first is written as an escape. -/
def twoNewlines : List Char :=
  ['t'] ++ (['\\', '\''] ++ (['\\', 'n'] ++ (['\n'] ++ (['"'] ++ (['\\', '\\'] ++ (['é'] ++
    (['\x00'] ++ [])))))))

theorem twoNewlines_encodes : Encodes '\'' "t'\n\n\"\\é\x00".toList twoNewlines :=
  have hplain : ∀ c : Char, c ≠ '\'' ∧ c ≠ '\\' → EncodesChar '\'' c [c] := fun _ h =>
    .plain h.1 h.2
  .cons (hplain 't' (by decide)) (.cons (.guarded (.inl rfl)) (.cons .newline
    (.cons (hplain '\n' (by decide)) (.cons (hplain '"' (by decide)) (.cons (.guarded (.inr rfl))
      (.cons (hplain 'é' (by decide)) (.cons (hplain '\x00' (by decide)) .nil)))))))

/-- The cut goes through the escape of the quote in use. -/
theorem tokenize_twoNewlines :
    isQuote '\'' = true ∧ Encodes '\'' "t'\n\n\"\\é\x00".toList twoNewlines ∧
    (let source := String.ofList (literal '\'' twoNewlines)
    tokenize source =
      ⟨[⟨.string "t'\n\n\"\\é\x00", source, .start⟩, endOfInput source], []⟩) ∧
    ∃ d, (tokenize (String.ofList ['\'', 't', '\\'])).diagnostics = [d] ∧
      d.code.label = "L002" ∧ d.position = ⟨1, 1⟩ :=
  have h := (@tokenize_literal '\'' rfl "t'\n\n\"\\é\x00").2 twoNewlines
    twoNewlines_encodes
  ⟨rfl, twoNewlines_encodes, h.1,
    h.2 ['\'', 't', '\\'] (by decide) (by decide) (by decide)⟩

end Quill
