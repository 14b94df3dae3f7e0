import Mathlib.Data.List.Induction
import Quill.Proofs.Token.Trivia
import Quill.Token.Lexer

/-!
# Nothing is lost

The tokens of a source and what stands between them are the source, cut into pieces and nothing
else: `tokenize_lossless`. Each token begins where the text before its piece ends, counted in lines
and in characters since the last newline, so that the places of tokens increase. What is wrong with
the text is told twice, as diagnostics and as error tokens, and both tell the same.
-/

set_option autoImplicit false

namespace Quill

/-! ## Places -/

namespace Position

/-- The place behind a text, by its newlines and the characters after the last of them. -/
def behind (text : List Char) : Position :=
  ⟨1 + text.count '\n', 1 + (text.reverse.takeWhile (· != '\n')).length⟩

/-- Walking through a text character by character leads behind it. -/
theorem start_advance (text : List Char) : start.advance text = behind text := by
  induction text using List.reverseRecOn with
  | nil => rfl
  | append_singleton text c ih =>
    rw [advance_append, ih, advance_cons, advance_nil]
    by_cases hc : c = '\n'
    · simp [step, behind, hc, Nat.add_assoc]
    · simp [step, behind, hc, Nat.add_assoc, Nat.add_comm 1]

/-- Lines count first, then columns. -/
instance : LT Position := ⟨fun p q => p.line < q.line ∨ p.line = q.line ∧ p.column < q.column⟩

theorem lt_iff {p q : Position} :
    p < q ↔ p.line < q.line ∨ p.line = q.line ∧ p.column < q.column := Iff.rfl

theorem lt_trans {p q r : Position} (hpq : p < q) (hqr : q < r) : p < r := by
  rw [lt_iff] at *
  omega

theorem lt_step (p : Position) (c : Char) : p < p.step c := by
  rw [lt_iff, step]
  split
  · exact .inl (Nat.lt_succ_self _)
  · exact .inr ⟨rfl, Nat.lt_succ_self _⟩

theorem lt_advance (p : Position) {text : List Char} (h : text ≠ []) : p < p.advance text := by
  induction text generalizing p with
  | nil => exact absurd rfl h
  | cons c text ih =>
    rw [advance_cons]
    cases text with
    | nil => exact lt_step p c
    | cons d text => exact lt_trans (lt_step p c) (ih _ (by simp))

end Position

/-! ## Slices in their order -/

namespace Slice

/-- Every slice is cut off by its reach, and the slices after it are those of the text after it. -/
theorem slices_eq_append_cons {cs : List Char} {before after : List (List Char)} {s : List Char}
    (h : slices cs = before ++ s :: after) :
    ∃ (c : Char) (rest : List Char),
      s = c :: rest.take (reach c rest) ∧ after = slices (rest.drop (reach c rest)) := by
  fun_induction slices cs generalizing before with
  | case1 => simp at h
  | case2 c cs ih =>
    cases before with
    | nil =>
      obtain ⟨rfl, rfl⟩ := List.cons.inj h
      exact ⟨c, cs, rfl, rfl⟩
    | cons _ before => exact ih (List.cons.inj h).2

theorem ne_nil_of_mem_slices {cs s : List Char} (h : s ∈ slices cs) : s ≠ [] := by
  obtain ⟨before, after, hsplit⟩ := List.append_of_mem h
  obtain ⟨c, rest, rfl, -⟩ := slices_eq_append_cons hsplit
  simp

/-- A string without its closing quote takes all that is left. -/
theorem stringReach_eq_length {quote : Char} {cs : List Char}
    (h : stringValue? quote (cs.take (stringReach quote cs)) = none) :
    stringReach quote cs = cs.length := by
  fun_induction stringReach quote cs with
  | case1 => rfl
  | case2 => rfl
  | case3 c d cs hquote =>
    rw [List.take_succ_cons, List.take_zero, stringValue?, if_pos hquote] at h
    cases h
  | case4 c d cs hquote hescape ih =>
    rw [Nat.add_comm, List.take_succ_cons, List.take_succ_cons, stringValue?, if_neg hquote,
      if_pos hescape, Option.map_eq_none_iff] at h
    rw [ih h, List.length_cons, List.length_cons]
    omega
  | case5 c d cs hquote hescape ih =>
    rw [Nat.add_comm, List.take_succ_cons] at h
    rw [ih ?_]
    · exact Nat.add_comm 1 _
    · cases hn : stringReach quote (d :: cs) with
      | zero => rfl
      | succ n =>
        rw [hn, List.take_succ_cons, stringValue?, if_neg hquote, if_neg hescape,
          Option.map_eq_none_iff] at h
        exact h

/-- Nothing follows a string without its closing quote. -/
theorem drop_reach_of_unterminated {c : Char} {cs : List Char}
    (h : Lexeme.ofSlice (c :: cs.take (reach c cs)) = .unterminatedString) :
    cs.drop (reach c cs) = [] := by
  have hstarts : startsTrivia c cs = false := by
    rw [← startsTrivia_take, ← Bool.not_eq_true, ← ofSlice_eq_trivia_iff, h]
    simp
  rw [ofSlice_of_not_trivia ((startsTrivia_take c cs).trans hstarts)] at h
  rw [reach_of_not_trivia hstarts] at h ⊢
  by_cases hquote : isQuote c = true
  · simp only [if_pos hquote] at h ⊢
    cases hvalue : stringValue? c (cs.take (stringReach c cs)) with
    | none => rw [stringReach_eq_length hvalue, List.drop_length]
    | some value => simp [hvalue] at h
  · simp only [if_neg hquote] at h
    repeat' split at h
    all_goals cases h

end Slice

/-! ## Pieces in their places -/

namespace Piece

theorem place_append (p : Position) (before after : List (List Char)) :
    place p (before ++ after) = place p before ++ place (p.advance before.flatten) after := by
  induction before generalizing p with
  | nil => rfl
  | cons text before ih =>
    rw [List.cons_append, place, place, ih, List.flatten_cons, Position.advance_append,
      List.cons_append]

theorem map_text_place (p : Position) (texts : List (List Char)) :
    (place p texts).map text = texts := by
  induction texts generalizing p with
  | nil => rfl
  | cons text texts ih => rw [place, List.map_cons, ih]

/-- Every piece stands where the pieces before it end. -/
theorem position_of_place {p : Position} {texts : List (List Char)} {before after : List Piece}
    {piece : Piece} (h : place p texts = before ++ piece :: after) :
    piece.position = p.advance (before.flatMap text) := by
  have htexts := map_text_place p texts
  rw [h, List.map_append, List.map_cons] at htexts
  rw [← htexts, place_append, place] at h
  have hlength : before.length = (place p (before.map text)).length := by
    have hmap := congrArg List.length (map_text_place p (before.map text))
    rw [List.length_map, List.length_map] at hmap
    exact hmap.symm
  obtain ⟨-, hpiece⟩ := List.append_inj h.symm hlength
  rw [(List.cons.inj hpiece).1, List.flatMap_def]

/-- A piece has a text in front of it and a text behind it, and stands between them. -/
theorem exists_of_mem_place {p : Position} {texts : List (List Char)} {piece : Piece}
    (h : piece ∈ place p texts) :
    piece.text ∈ texts ∧ ∃ front back : List Char,
      piece.position = p.advance front ∧ texts.flatten = front ++ (piece.text ++ back) := by
  obtain ⟨before, after, hsplit⟩ := List.append_of_mem h
  have htexts := map_text_place p texts
  refine ⟨htexts ▸ List.mem_map_of_mem h, before.flatMap text, after.flatMap text,
    position_of_place hsplit, ?_⟩
  rw [← htexts, hsplit, ← List.flatMap_def, List.flatMap_append, List.flatMap_cons]

/-- Pieces that have a text stand one behind the other. -/
theorem pairwise_place {p : Position} {texts : List (List Char)} (h : ∀ text ∈ texts, text ≠ []) :
    (place p texts).Pairwise (·.position < ·.position) := by
  induction texts generalizing p with
  | nil => exact .nil
  | cons text texts ih =>
    refine .cons (fun piece hpiece => ?_) (ih fun t ht => h t (List.mem_cons_of_mem _ ht))
    obtain ⟨-, front, back, hposition, -⟩ := exists_of_mem_place hpiece
    rw [hposition, ← Position.advance_append]
    exact Position.lt_advance p (by simp [h text])

/-- Pieces that have a text stand before the end. -/
theorem lt_end_of_mem_place {p : Position} {texts : List (List Char)} {piece : Piece}
    (h : ∀ text ∈ texts, text ≠ []) (hpiece : piece ∈ place p texts) :
    piece.position < p.advance texts.flatten := by
  obtain ⟨hmem, front, back, hposition, hflatten⟩ := exists_of_mem_place hpiece
  rw [hposition, hflatten, Position.advance_append]
  exact Position.lt_advance _ (by simp [h _ hmem])

end Piece

/-- Every piece of a source is a slice cut off by its reach, in its place. -/
theorem pieces_eq_append_cons {source : String} {before after : List Piece} {piece : Piece}
    (h : pieces source = before ++ piece :: after) :
    piece.position = .behind (before.flatMap Piece.text) ∧
      ∃ (c : Char) (rest : List Char), piece.text = c :: rest.take (Slice.reach c rest) ∧
        after.map Piece.text = Slice.slices (rest.drop (Slice.reach c rest)) := by
  refine ⟨(Piece.position_of_place h).trans (Position.start_advance _), ?_⟩
  have htexts := Piece.map_text_place .start (Slice.slices source.toList)
  rw [← pieces, h, List.map_append, List.map_cons] at htexts
  exact Slice.slices_eq_append_cons htexts.symm

/-! ## Tokens and faults of pieces -/

/-- What an error token says. -/
def TokenKind.message? : TokenKind → Option String
  | .error message => some message
  | _ => none

theorem TokenKind.ofWord_regular (word : String) :
    ofWord word ≠ .eof ∧ (ofWord word).message? = none := by
  unfold ofWord
  repeat' split
  all_goals exact ⟨nofun, rfl⟩

/-- A slice spells neither the end of input nor an error. -/
theorem Lexeme.ofSlice_regular {text : List Char} {kind : TokenKind}
    (h : Lexeme.ofSlice text = .token kind) : kind ≠ .eof ∧ kind.message? = none := by
  cases text with
  | nil => cases h
  | cons c cs =>
    have hstarts : Slice.startsTrivia c cs = false := by
      rw [← Bool.not_eq_true, ← Slice.ofSlice_eq_trivia_iff, h]
      simp
    rw [Slice.ofSlice_of_not_trivia hstarts] at h
    repeat' split at h
    all_goals cases h
    all_goals first
      | exact TokenKind.ofWord_regular _
      | exact ⟨nofun, rfl⟩

namespace Piece

/-- A token is what the slice spells, or it repeats the fault of the slice. -/
theorem token?_cases {p : Piece} {t : Token} (h : p.token? = some t) :
    (p.lexeme = .token t.kind ∧ t = ⟨t.kind, String.ofList p.text, p.position⟩) ∨
    ∃ fault, p.fault? = some fault ∧ t = ⟨.error fault.message, fault.message, p.position⟩ := by
  unfold token? at h
  split at h
  · next kind _ hlexeme =>
    cases h
    exact .inl ⟨hlexeme, rfl⟩
  · next fault hfault _ =>
    cases h
    exact .inr ⟨fault, hfault, rfl⟩
  · cases h

theorem position_of_token? {p : Piece} {t : Token} (h : p.token? = some t) :
    t.position = p.position := by
  rcases token?_cases h with ⟨-, ht⟩ | ⟨fault, -, ht⟩
  · rw [ht]
  · rw [ht]

theorem kind_ne_eof_of_token? {p : Piece} {t : Token} (h : p.token? = some t) :
    t.kind ≠ .eof := by
  rcases token?_cases h with ⟨hlexeme, -⟩ | ⟨fault, -, rfl⟩
  · exact (Lexeme.ofSlice_regular hlexeme).1
  · exact nofun

theorem text_of_token? {p : Piece} {t : Token} (h : p.token? = some t)
    (hkind : t.kind.message? = none) : t.text = String.ofList p.text := by
  rcases token?_cases h with ⟨-, ht⟩ | ⟨fault, -, rfl⟩
  · rw [ht]
  · cases hkind

theorem lexeme_of_token?_eq_none {p : Piece} (h : p.token? = none) : p.lexeme = .trivia := by
  unfold token? fault? at h
  cases hlexeme : p.lexeme <;> simp_all

/-- A piece says the same in its token and in its diagnostic. -/
theorem token?_report (p : Piece) :
    (p.token?.bind fun t => t.kind.message?.map (t.position, ·)) =
      p.diagnostic?.map fun d => (d.position, d.message) := by
  unfold token? diagnostic? fault?
  cases hlexeme : p.lexeme with
  | trivia => rfl
  | token kind => simp [(Lexeme.ofSlice_regular hlexeme).2]
  | strayCharacter c => rfl
  | undoubled c => rfl
  | unterminatedString => rfl

theorem lexeme_of_unterminated {p : Piece} {d : Diagnostic} (h : p.diagnostic? = some d)
    (hcode : d.code = .unterminatedString) : p.lexeme = .unterminatedString := by
  unfold diagnostic? fault? at h
  cases hlexeme : p.lexeme with
  | unterminatedString => rfl
  | trivia => simp [hlexeme] at h
  | token kind => simp [hlexeme] at h
  | strayCharacter c =>
    simp only [hlexeme, Option.map_some, Option.some.injEq] at h
    subst h
    cases hcode
  | undoubled c =>
    simp only [hlexeme, Option.map_some, Option.some.injEq] at h
    subst h
    cases hcode

end Piece

/-! ## The source in segments -/

/-- A stretch of a source, with the token that it stands for unless it is trivia. -/
structure Segment where
  text : List Char
  token? : Option Token

/-- The segments are the source, and tokens and diagnostics are told by them. -/
structure Lossless (source : String) (lexed : Lexed) (segments : List Segment) : Prop where
  /-- No character is lost, added or moved. -/
  text_eq : segments.flatMap Segment.text = source.toList
  /-- One token for each segment that is not trivia, and behind them the end of input. -/
  tokens_eq : lexed.tokens =
    segments.filterMap Segment.token? ++ [⟨.eof, "", .behind source.toList⟩]
  trivia : ∀ {before s after}, segments = before ++ s :: after → s.token? = none →
    Slice.Trivia s.text (after.flatMap Segment.text)
  position_eq : ∀ {before s after t}, segments = before ++ s :: after → s.token? = some t →
    t.position = .behind (before.flatMap Segment.text)
  /-- The text of a token is its segment, unless it is an error. -/
  text_of_token : ∀ {s t}, s ∈ segments → s.token? = some t →
    s.text ≠ [] ∧ (t.kind.message? = none → t.text = String.ofList s.text)
  kind_ne_eof : ∀ {s t}, s ∈ segments → s.token? = some t → t.kind ≠ .eof
  increasing : lexed.tokens.Pairwise (·.position < ·.position)
  /-- Error tokens and diagnostics are the same reports in the same order. -/
  reports_eq : (lexed.tokens.filterMap fun t => t.kind.message?.map (t.position, ·)) =
    lexed.diagnostics.map fun d => (d.position, d.message)
  /-- Nothing is reported after a string without its closing quote. -/
  unterminated : ∀ {before d after}, lexed.diagnostics = before ++ d :: after →
    d.code = .unterminatedString → after = []

/-- A piece as a segment. -/
def Piece.segment (p : Piece) : Segment := ⟨p.text, p.token?⟩

theorem flatMap_text_segments (ps : List Piece) :
    (ps.map Piece.segment).flatMap Segment.text = ps.flatMap Piece.text := by
  rw [List.flatMap_map]
  rfl

/-- A split of the segments is a split of the pieces. -/
theorem segments_eq_append_cons {ps : List Piece} {before after : List Segment} {s : Segment}
    (h : ps.map Piece.segment = before ++ s :: after) :
    ∃ front p back, ps = front ++ p :: back ∧ s = p.segment ∧
      before = front.map Piece.segment ∧ after = back.map Piece.segment := by
  obtain ⟨front, back', rfl, rfl, hback⟩ := List.map_eq_append_iff.mp h
  obtain ⟨p, back, rfl, rfl, rfl⟩ := List.map_eq_cons_iff.mp hback
  exact ⟨front, p, back, rfl, rfl, rfl, rfl⟩

theorem trivia_of_piece {source : String} {before after : List Piece} {p : Piece}
    (h : pieces source = before ++ p :: after) (hnone : p.token? = none) :
    Slice.Trivia p.text (after.flatMap Piece.text) := by
  obtain ⟨-, c, rest, htext, hafter⟩ := pieces_eq_append_cons h
  have hlexeme := Piece.lexeme_of_token?_eq_none hnone
  rw [Piece.lexeme, htext] at hlexeme
  rw [List.flatMap_def, hafter, Slice.flatten_slices, htext]
  exact Slice.trivia_of_ofSlice hlexeme

theorem ne_nil_of_mem_pieces {source : String} {p : Piece} (h : p ∈ pieces source) :
    p.text ≠ [] :=
  Slice.ne_nil_of_mem_slices (Piece.exists_of_mem_place h).1

theorem pairwise_tokens (source : String) :
    (tokenize source).tokens.Pairwise (·.position < ·.position) := by
  have hne : ∀ text ∈ Slice.slices source.toList, text ≠ [] := fun _ => Slice.ne_nil_of_mem_slices
  refine List.pairwise_append.mpr ⟨?_, List.pairwise_singleton _ _, ?_⟩
  · refine (Piece.pairwise_place hne).filterMap _ fun p q hpq t ht u hu => ?_
    rwa [Piece.position_of_token? ht, Piece.position_of_token? hu]
  · intro t ht eof heof
    obtain ⟨p, hp, ht⟩ := List.mem_filterMap.mp ht
    have hlt := Piece.lt_end_of_mem_place hne hp
    rw [Slice.flatten_slices] at hlt
    rw [List.mem_singleton.mp heof, Piece.position_of_token? ht]
    exact hlt

theorem tokens_report (source : String) :
    ((tokenize source).tokens.filterMap fun t => t.kind.message?.map (t.position, ·)) =
      (tokenize source).diagnostics.map fun d => (d.position, d.message) := by
  simp only [tokenize, List.filterMap_append, List.filterMap_filterMap, List.map_filterMap,
    Piece.token?_report]
  simp [endOfInput, TokenKind.message?]

theorem eq_nil_after_unterminated {source : String} {before after : List Diagnostic}
    {d : Diagnostic} (h : (tokenize source).diagnostics = before ++ d :: after)
    (hcode : d.code = .unterminatedString) : after = [] := by
  obtain ⟨front, back', hpieces, rfl, hback⟩ := List.filterMap_eq_append_iff.mp h
  obtain ⟨skipped, p, back, rfl, -, hp, rfl⟩ := List.filterMap_eq_cons_iff.mp hback
  have hlexeme := Piece.lexeme_of_unterminated hp hcode
  rw [← List.append_assoc] at hpieces
  obtain ⟨-, c, rest, htext, hback⟩ := pieces_eq_append_cons hpieces
  rw [Piece.lexeme, htext] at hlexeme
  rw [Slice.drop_reach_of_unterminated hlexeme, Slice.slices, List.map_eq_nil_iff] at hback
  rw [hback, List.filterMap_nil]

/-- A source is cut into trivia and the slices of its tokens, and nothing is lost. -/
theorem tokenize_lossless (source : String) :
    ∃ segments, Lossless source (tokenize source) segments := by
  refine ⟨(pieces source).map Piece.segment, ?_⟩
  constructor
  case text_eq =>
    rw [flatMap_text_segments, List.flatMap_def, pieces, Piece.map_text_place,
      Slice.flatten_slices]
  case tokens_eq =>
    rw [List.filterMap_map, ← Position.start_advance]
    rfl
  case trivia =>
    intro before s after h hnone
    obtain ⟨front, p, back, hpieces, rfl, -, rfl⟩ := segments_eq_append_cons h
    rw [flatMap_text_segments]
    exact trivia_of_piece hpieces hnone
  case position_eq =>
    intro before s after t h ht
    obtain ⟨front, p, back, hpieces, rfl, rfl, -⟩ := segments_eq_append_cons h
    rw [flatMap_text_segments, Piece.position_of_token? ht]
    exact (pieces_eq_append_cons hpieces).1
  case text_of_token =>
    intro s t hs ht
    obtain ⟨p, hp, rfl⟩ := List.mem_map.mp hs
    exact ⟨ne_nil_of_mem_pieces hp, Piece.text_of_token? ht⟩
  case kind_ne_eof =>
    intro s t hs ht
    obtain ⟨p, -, rfl⟩ := List.mem_map.mp hs
    exact Piece.kind_ne_eof_of_token? ht
  case increasing => exact pairwise_tokens source
  case reports_eq => exact tokens_report source
  case unterminated => exact fun h hcode => eq_nil_after_unterminated h hcode

end Quill
