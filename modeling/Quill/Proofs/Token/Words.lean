import Mathlib.Data.List.Basic
import Quill.Proofs.Token.Placement

/-!
# Words in their places

The pieces of a text that are not trivia, from a place on. Tokens and diagnostics are told from them
and from nothing else (`tokenize_eq`). White space and line comments in front of a text leave no
word, they only move what follows, and a character that no token can begin with is a word by itself.

A text that stands some lines further down has the same words there (`words_down`). Their tokens and
diagnostics are the same too but for the lines. One message tells a line: that about a string
without end.
-/

set_option autoImplicit false

namespace Quill

open Slice

namespace Piece

/-- The pieces of a text from a place on that are not trivia. -/
def words (p : Position) (cs : List Char) : List Piece :=
  (place p (slices cs)).filter fun piece => piece.lexeme ≠ .trivia

theorem words_nil (p : Position) : words p [] = [] := by
  rw [words, slices, place, List.filter_nil]

/-! ## Trivia in front -/

theorem words_trivia (p : Position) {c : Char} {cs : List Char} (h : startsTrivia c cs = true) :
    words p (c :: cs) =
      words (p.advance (c :: cs.take (reach c cs))) (cs.drop (reach c cs)) := by
  have htrivia := (ofSlice_eq_trivia_iff c _).mpr ((startsTrivia_take c cs).trans h)
  rw [words, slices, place, List.filter_cons_of_neg (by simp [lexeme, htrivia])]
  rfl

theorem words_dropWhile (p : Position) (cs : List Char) :
    words (p.advance (cs.takeWhile isSpace)) (cs.dropWhile isSpace) = words p cs := by
  cases cs with
  | nil => rfl
  | cons c cs =>
    by_cases hc : isSpace c = true
    · rw [words_trivia p (by simp [startsTrivia, hc]), reach_of_space hc, drop_run, take_run,
        List.takeWhile_cons_of_pos hc, List.dropWhile_cons_of_pos hc]
    · rw [List.takeWhile_cons_of_neg hc, List.dropWhile_cons_of_neg hc]
      rfl

/-- A run of white space is one slice, but may be passed character by character. -/
theorem words_space (p : Position) {c : Char} (hc : isSpace c = true) (cs : List Char) :
    words p (c :: cs) = words (p.step c) cs := by
  rw [← words_dropWhile (p.step c) cs, words_trivia p (by simp [startsTrivia, hc]),
    reach_of_space hc, drop_run, take_run]
  rfl

/-- A line comment is passed up to the newline behind it. -/
theorem words_comment (p : Position) {text rest : List Char} (htext : '\n' ∉ text)
    (hrest : ∀ c ∈ rest.head?, c = '\n') :
    words p ('/' :: '/' :: (text ++ rest)) = words (p.advance ('/' :: '/' :: text)) rest := by
  have hin : ∀ c ∈ text, (c != '\n') = true := fun c hc => by
    simpa using ne_of_mem_of_not_mem hc htext
  have hout : rest.takeWhile (· != '\n') = [] ∧ rest.dropWhile (· != '\n') = rest := by
    cases rest with
    | nil => exact ⟨rfl, rfl⟩
    | cons c rest =>
      obtain rfl := hrest c rfl
      exact ⟨rfl, rfl⟩
  rw [words_trivia p rfl, reach_line, Nat.add_comm, List.take_succ_cons, List.drop_succ_cons,
    take_run, drop_run, List.takeWhile_append_of_pos hin, List.dropWhile_append_of_pos hin, hout.1,
    hout.2, List.append_nil]

end Piece

/-- Tokens and diagnostics are told from words. -/
theorem tokenize_eq (source : List Char) : tokenize (String.ofList source) =
    { tokens := (Piece.words .start source).filterMap Piece.token? ++
        [⟨.eof, "", Position.start.advance source⟩]
      diagnostics := (Piece.words .start source).filterMap Piece.diagnostic? } := by
  have hskip {α : Type} {f : Piece → Option α} (hf : ∀ p : Piece, p.lexeme = .trivia → f p = none) :
      (pieces (String.ofList source)).filterMap f = (Piece.words .start source).filterMap f := by
    rw [Piece.words, List.filterMap_filter, pieces, String.toList_ofList]
    refine List.filterMap_congr fun p _ => ?_
    split
    · rfl
    · next h => exact hf p (not_not.mp (by simpa using h))
  rw [tokenize, endOfInput, String.toList_ofList,
    hskip fun p hp => by simp [Piece.token?, Piece.fault?, hp],
    hskip fun p hp => by simp [Piece.diagnostic?, Piece.fault?, hp]]

/-! ## Stray characters -/

/-- The character is none of those that trivia, strings apart, and tokens begin with. -/
def Unprinted (c : Char) : Prop := c.toNat < 33 ∨ 126 < c.toNat

namespace Unprinted

variable {c : Char} (h : Unprinted c)

include h

theorem ne {d : Char} (hd : 33 ≤ d.toNat ∧ d.toNat ≤ 126) : c ≠ d := by
  rintro rfl
  unfold Unprinted at h
  omega

theorem isNamePart_eq_false : isNamePart c = false := by
  have hrange (low high : Char) (hlow : 33 ≤ low.toNat) (hhigh : high.toNat ≤ 126) :
      ¬(low.val ≤ c.val ∧ c.val ≤ high.val) := fun hc =>
    h.ne ⟨Nat.le_trans hlow hc.1, Nat.le_trans hc.2 hhigh⟩ rfl
  have hupper : c.isUpper = false := decide_eq_false (hrange 'A' 'Z' (by decide) (by decide))
  have hlower : c.isLower = false :=
    (Bool.decide_and _ _).symm.trans (decide_eq_false (hrange 'a' 'z' (by decide) (by decide)))
  have hdigit : c.isDigit = false :=
    (Bool.decide_and _ _).symm.trans (decide_eq_false (hrange '0' '9' (by decide) (by decide)))
  show (((c.isUpper || c.isLower) || c == '_' || c == '$') || c.isDigit) = false
  simp [hupper, hlower, hdigit, h.ne (d := '_') (by decide), h.ne (d := '$') (by decide)]

theorem isQuote_eq_false : isQuote c = false := by
  simp [isQuote, h.ne (d := '"') (by decide), h.ne (d := '\'') (by decide)]

theorem ofSpelling?_eq_none (cs : List Char) : Symbol.ofSpelling? (c :: cs) = none := by
  have hspelling : ∀ sym : Symbol, ∀ d ∈ sym.spelling, 33 ≤ d.toNat ∧ d.toNat ≤ 126 := by
    intro sym
    cases sym <;> simp [Symbol.spelling]
  refine List.find?_eq_none.mpr fun sym _ hspells => ?_
  exact h.ne (hspelling sym c (by simp [eq_of_beq hspells])) rfl

variable (hspace : isSpace c = false)

include hspace

theorem startsTrivia_eq_false (cs : List Char) : startsTrivia c cs = false := by
  simp [startsTrivia, hspace, h.ne (d := '/') (by decide)]

/-- It is a slice by itself. -/
theorem reach_eq_zero (cs : List Char) : reach c cs = 0 := by
  have hpart := h.isNamePart_eq_false
  rw [isNamePart, Bool.or_eq_false_iff] at hpart
  have hsymbol : symbolReach c cs = 0 := by
    cases cs with
    | nil => rfl
    | cons d cs => simp [symbolReach, h.ofSpelling?_eq_none]
  simp [reach_of_not_trivia (h.startsTrivia_eq_false hspace cs), h.isQuote_eq_false, hpart, hsymbol]

theorem ofSlice_eq : Lexeme.ofSlice [c] = .strayCharacter c := by
  have hpart := h.isNamePart_eq_false
  rw [isNamePart, Bool.or_eq_false_iff] at hpart
  simp [ofSlice_of_not_trivia (h.startsTrivia_eq_false hspace []), h.isQuote_eq_false, hpart,
    h.ofSpelling?_eq_none, h.ne (d := '&') (by decide), h.ne (d := '|') (by decide)]

theorem words_cons (p : Position) (cs : List Char) :
    Piece.words p (c :: cs) = ⟨[c], p⟩ :: Piece.words (p.step c) cs := by
  have hlexeme : (⟨[c], p⟩ : Piece).lexeme = .strayCharacter c := h.ofSlice_eq hspace
  rw [Piece.words, slices, h.reach_eq_zero hspace, List.take_zero, List.drop_zero, Piece.place,
    List.filter_cons_of_pos (by simp [hlexeme])]
  rfl

end Unprinted

/-! ## Further down -/

/-- The same column, some lines further down. -/
def Position.down (n : Nat) (p : Position) : Position := ⟨p.line + n, p.column⟩

/-- The fault as it is told further down. A string without end is told by its place. -/
def Fault.down (n : Nat) : Fault → Fault
  | .unterminatedString start => .unterminatedString (start.down n)
  | f => f

def Diagnostic.down (n : Nat) (d : Diagnostic) : Diagnostic := ⟨d.fault.down n, d.position.down n⟩

/-- The error token that says the same. -/
def Diagnostic.token (d : Diagnostic) : Token := ⟨.error d.message, d.message, d.position⟩

/-- The token further down. One that reports a string without end names its line. -/
def Token.down (n : Nat) (t : Token) : Token :=
  let unterminated : Diagnostic := ⟨.unterminatedString t.position, t.position⟩
  if t = unterminated.token then (unterminated.down n).token
  else { t with position := t.position.down n }

def Piece.down (n : Nat) (p : Piece) : Piece := { p with position := p.position.down n }

/-- All of it further down, behind other reports. -/
def Lexed.below (r : Lexed) (front : List Diagnostic) (n : Nat) : Lexed where
  tokens := front.map Diagnostic.token ++ r.tokens.map (Token.down n)
  diagnostics := front ++ r.diagnostics.map (Diagnostic.down n)

namespace Position

theorem step_down (p : Position) (n : Nat) (c : Char) : (p.down n).step c = (p.step c).down n := by
  unfold step down
  split
  · simp only [Nat.add_right_comm]
  · rfl

theorem advance_down (p : Position) (n : Nat) (text : List Char) :
    (p.down n).advance text = (p.advance text).down n := by
  induction text generalizing p with
  | nil => rfl
  | cons c text ih => rw [advance_cons, step_down, ih, advance_cons]

end Position

namespace Fault

theorem message_unterminatedString (p : Position) : (unterminatedString p).message =
    "Unterminated string starting at " ++ (toString p.line ++ (":" ++ toString p.column)) := by
  rw [← String.append_assoc, ← String.append_assoc]
  rfl

variable {f : Fault} (hcode : f.code = .unexpectedCharacter)

include hcode

theorem exists_message_eq : ∃ more, f.message = "Unexpected character '" ++ more := by
  cases f with
  | strayCharacter c | undoubled c =>
    unfold message
    simp only [String.append_assoc]
    exact ⟨_, rfl⟩
  | _ => cases hcode

/-- The message about a character is none about a string without end: they differ in the third
letter. -/
theorem message_ne_unterminated (p : Position) : f.message ≠ (unterminatedString p).message := by
  have hthird {a : String} (ha : 2 < a.toList.length) (b : String) :
      (a ++ b).toList[2]? = a.toList[2]? := by
    rw [String.toList_append, List.getElem?_append_left ha]
  obtain ⟨more, hmore⟩ := exists_message_eq hcode
  rw [hmore, message_unterminatedString]
  intro h
  have hletter := hthird (a := "Unexpected character '") (by decide +kernel) more
  rw [h, hthird (by decide +kernel)] at hletter
  exact absurd hletter (by decide +kernel)

end Fault

theorem Token.down_of_ne {t : Token}
    (h : t.kind ≠ .error (Fault.unterminatedString t.position).message) (n : Nat) :
    t.down n = { t with position := t.position.down n } :=
  if_neg fun ht => h (congrArg Token.kind ht)

/-- A report about a character only moves. -/
theorem Token.down_report {f : Fault} (hcode : f.code = .unexpectedCharacter) (p : Position)
    (n : Nat) : (Diagnostic.token ⟨f, p⟩).down n = Diagnostic.token ⟨f, p.down n⟩ :=
  Token.down_of_ne (mt TokenKind.error.inj (Fault.message_ne_unterminated hcode p)) n

namespace Piece

theorem place_down (p : Position) (n : Nat) (texts : List (List Char)) :
    place (p.down n) texts = (place p texts).map (Piece.down n) := by
  induction texts generalizing p with
  | nil => rfl
  | cons text texts ih =>
    rw [place, place, List.map_cons, Position.advance_down, ih]
    rfl

theorem words_down (p : Position) (n : Nat) (cs : List Char) :
    words (p.down n) cs = (words p cs).map (Piece.down n) := by
  rw [words, place_down, List.filter_map]
  rfl

theorem diagnostic?_down (n : Nat) (p : Piece) :
    (p.down n).diagnostic? = p.diagnostic?.map (Diagnostic.down n) := by
  have hlexeme : (p.down n).lexeme = p.lexeme := rfl
  unfold diagnostic? fault?
  rw [hlexeme]
  cases p.lexeme <;> rfl

theorem token?_down (n : Nat) (p : Piece) :
    (p.down n).token? = p.token?.map (Token.down n) := by
  have hlexeme : (p.down n).lexeme = p.lexeme := rfl
  unfold token? fault?
  rw [hlexeme]
  cases hp : p.lexeme with
  | trivia => rfl
  | token kind =>
    refine congrArg some (Token.down_of_ne (t := ⟨kind, _, _⟩) (fun hkind => ?_) n).symm
    have hregular := (Lexeme.ofSlice_regular hp).2
    rw [show kind = _ from hkind] at hregular
    cases hregular
  | strayCharacter c | undoubled c => exact congrArg some (Token.down_report rfl p.position n).symm
  | unterminatedString => exact congrArg some (Eq.symm (if_pos rfl))

end Piece

end Quill
