import Quill.Proofs.Token.Words

/-!
# Tokens pulled apart

A token is read as far as it goes, which depends on the characters behind it: `?.` is two symbols in
front of a digit, and an exponent needs its digits. White space behind a token never changes how far
it goes, so tokens can be written apart, with white space and comments between them, and are read
again as they were: `tokenize_spaced`.

`Local f` says of a count `f` of characters that it looks no further than to what it counts and the
character behind: what lies beyond may be replaced by anything that begins with white space. Counts
that are made one behind the other keep this (`Local.seq`).
-/

set_option autoImplicit false

namespace Quill.Slice

/-! ## White space ends what it follows -/

/-- The text is empty or begins with white space. -/
def BreaksOff (cs : List Char) : Prop := ∀ c ∈ cs.head?, isSpace c = true

/-- What is found in front of a break without crossing it was there before. -/
theorem prefix_of_cut (xs : List Char) {cs gap : List Char} {k : Nat}
    (hxs : ∀ x ∈ xs, isSpace x = false) (hgap : BreaksOff gap) (h : xs <+: cs.take k ++ gap) :
    xs <+: cs := by
  induction xs generalizing cs k with
  | nil => exact List.nil_prefix
  | cons x xs ih =>
    have hx := hxs x (by simp)
    cases hcut : cs.take k with
    | nil =>
      rw [hcut, List.nil_append] at h
      obtain ⟨rest, rfl⟩ := h
      simp [hgap x (by simp)] at hx
    | cons c front =>
      obtain ⟨k, rfl⟩ : ∃ n, k = n + 1 :=
        Nat.exists_eq_succ_of_ne_zero (by rintro rfl; simp at hcut)
      cases cs with
      | nil => simp at hcut
      | cons c' cs =>
        rw [List.take_succ_cons, List.cons_append, List.cons_prefix_cons] at h
        exact List.cons_prefix_cons.mpr ⟨h.1, ih (fun y hy => hxs y (by simp [hy])) h.2⟩

/-- The count does not change when what is behind it is replaced by a break. -/
structure Local (f : List Char → Nat) : Prop where
  le_length : ∀ cs, f cs ≤ cs.length
  cut : ∀ cs k gap, BreaksOff gap → f (cs.take (f cs + k) ++ gap) = f cs

/-- One count, and another one from where it ends. -/
theorem Local.seq {f g : List Char → Nat} (hf : Local f) (hg : Local g) :
    Local fun cs => f cs + g (cs.drop (f cs)) where
  le_length cs := by
    have hle := hg.le_length (cs.drop (f cs))
    have := hf.le_length cs
    rw [List.length_drop] at hle
    omega
  cut cs k gap hgap := by
    have hle := hf.le_length cs
    have hfirst := hf.cut cs (g (cs.drop (f cs)) + k) gap hgap
    rw [← Nat.add_assoc] at hfirst
    have hrest : (cs.take (f cs + g (cs.drop (f cs)) + k) ++ gap).drop (f cs) =
        (cs.drop (f cs)).take (g (cs.drop (f cs)) + k) ++ gap := by
      rw [List.drop_append_of_le_length (by rw [List.length_take]; omega), List.drop_take]
      congr 2
      omega
    rw [hfirst, hrest, hg.cut _ k gap hgap]

theorem run_cons_of_pos {p : Char → Bool} {c : Char} (h : p c = true) (cs : List Char) :
    run p (c :: cs) = run p cs + 1 := by
  simp [run, h]

theorem run_cons_of_neg {p : Char → Bool} {c : Char} (h : ¬p c = true) (cs : List Char) :
    run p (c :: cs) = 0 := by
  simp [run, h]

theorem run_of_breaksOff {p : Char → Bool} (hp : ∀ c, isSpace c = true → p c = false)
    {gap : List Char} (h : BreaksOff gap) : run p gap = 0 := by
  cases gap with
  | nil => rfl
  | cons c gap => exact run_cons_of_neg (by simp [hp c (h c (by simp))]) gap

theorem local_run {p : Char → Bool} (hp : ∀ c, isSpace c = true → p c = false) : Local (run p) where
  le_length cs := (List.takeWhile_sublist _).length_le
  cut cs k gap hgap := by
    induction cs with
    | nil =>
      rw [List.take_nil, List.nil_append]
      exact run_of_breaksOff hp hgap
    | cons c cs ih =>
      by_cases hc : p c = true
      · rw [run_cons_of_pos hc, Nat.add_right_comm, List.take_succ_cons, List.cons_append,
          run_cons_of_pos hc, ih]
      · rw [run_cons_of_neg hc]
        cases k with
        | zero => exact run_of_breaksOff hp hgap
        | succ k => exact run_cons_of_neg hc _

/-! ## Numbers -/

theorem not_isDigit_of_space {c : Char} (h : isSpace c = true) : c.isDigit = false := by
  simp only [isSpace, Bool.or_eq_true, beq_iff_eq] at h
  rcases h with ((rfl | rfl) | rfl) | rfl <;> rfl

theorem not_space_of_isDigit {c : Char} (h : c.isDigit = true) : isSpace c = false := by
  by_contra hspace
  simp [not_isDigit_of_space (Bool.not_eq_false _ ▸ hspace)] at h

/-- A count is local that counts a run of digits behind a head, if one of the heads is there, and
nothing otherwise. -/
theorem local_of_head {f : List Char → Nat} (Head : List Char → Prop)
    (hspace : ∀ xs, Head xs → ∀ x ∈ xs, isSpace x = false)
    (hhead : ∀ xs cs, Head xs → f (xs ++ cs) = xs.length + run Char.isDigit cs)
    (hzero : ∀ cs, (∀ xs, Head xs → ¬xs <+: cs) → f cs = 0) : Local f where
  le_length cs := by
    by_cases hcs : ∃ xs, Head xs ∧ xs <+: cs
    · obtain ⟨xs, hxs, es, rfl⟩ := hcs
      have := (local_run fun _ => not_isDigit_of_space).le_length es
      rw [hhead xs es hxs, List.length_append]
      omega
    · rw [hzero cs fun xs hxs hprefix => hcs ⟨xs, hxs, hprefix⟩]
      exact Nat.zero_le _
  cut cs k gap hgap := by
    by_cases hcs : ∃ xs, Head xs ∧ xs <+: cs
    · obtain ⟨xs, hxs, es, rfl⟩ := hcs
      rw [hhead xs es hxs, Nat.add_assoc, List.take_length_add_append, List.append_assoc,
        hhead xs _ hxs, (local_run fun _ => not_isDigit_of_space).cut es k gap hgap]
    · -- A head that the break does not cross would have been there before.
      rw [hzero cs fun xs hxs hprefix => hcs ⟨xs, hxs, hprefix⟩]
      refine hzero _ fun xs hxs hprefix => hcs ⟨xs, hxs, ?_⟩
      exact prefix_of_cut xs (hspace xs hxs) hgap hprefix

/-- The point and the first digit of a fraction. -/
def FractionHead (xs : List Char) : Prop := ∃ d : Char, d.isDigit = true ∧ xs = ['.', d]

theorem local_fractionReach : Local fractionReach := by
  refine local_of_head FractionHead ?_ ?_ ?_
  · rintro _ ⟨d, hd, rfl⟩
    simpa using ⟨rfl, not_space_of_isDigit hd⟩
  · rintro _ cs ⟨d, hd, rfl⟩
    simp [fractionReach, hd]
  · intro cs hcs
    unfold fractionReach
    split
    · next d ds =>
      rw [if_neg fun hd => hcs _ ⟨d, hd, rfl⟩ ⟨ds, rfl⟩]
    · rfl

/-- The mark, the sign if there is one, and the first digit of an exponent. -/
def ExponentHead (xs : List Char) : Prop :=
  ∃ mark d : Char, (mark == 'e' || mark == 'E') = true ∧ d.isDigit = true ∧
    (xs = [mark, d] ∨ ∃ sign, (sign == '+' || sign == '-') = true ∧ xs = [mark, sign, d])

theorem local_exponentReach : Local exponentReach := by
  have hmark : ∀ mark : Char, (mark == 'e' || mark == 'E') = true → isSpace mark = false := by
    intro mark h
    rcases (Bool.or_eq_true _ _).mp h with h | h <;> rw [eq_of_beq h] <;> rfl
  have hsign : ∀ sign : Char, (sign == '+' || sign == '-') = true →
      isSpace sign = false ∧ sign.isDigit = false := by
    intro sign h
    rcases (Bool.or_eq_true _ _).mp h with h | h <;> rw [eq_of_beq h] <;> exact ⟨rfl, rfl⟩
  refine local_of_head ExponentHead ?_ ?_ ?_
  · rintro _ ⟨mark, d, hm, hd, rfl | ⟨sign, hs, rfl⟩⟩
    · simpa using ⟨hmark mark hm, not_space_of_isDigit hd⟩
    · simpa using ⟨hmark mark hm, (hsign sign hs).1, not_space_of_isDigit hd⟩
  · rintro _ cs ⟨mark, d, hm, hd, rfl | ⟨sign, hs, rfl⟩⟩
    · simp only [exponentReach, List.cons_append, List.nil_append, if_pos hm, if_pos hd]
      rfl
    · simp only [exponentReach, List.cons_append, List.nil_append, if_pos hm, if_pos hd, if_pos hs,
        (hsign sign hs).2, Bool.false_eq_true, if_false]
      rfl
  · intro cs hcs
    unfold exponentReach
    split
    · next mark d ds =>
      split
      · next hm =>
        rw [if_neg fun hd => hcs _ ⟨mark, d, hm, hd, .inl rfl⟩ ⟨ds, rfl⟩]
        split
        · next hs =>
          cases ds with
          | nil => rfl
          | cons e ds =>
            exact if_neg fun he => hcs _ ⟨mark, e, hm, he, .inr ⟨d, hs, rfl⟩⟩ ⟨ds, rfl⟩
        · rfl
      · rfl
    · rfl

theorem local_numberReach : Local numberReach :=
  ((local_run fun _ => not_isDigit_of_space).seq local_fractionReach).seq local_exponentReach

/-! ## Names, symbols and strings -/

theorem not_isNamePart_of_space {c : Char} (h : isSpace c = true) : isNamePart c = false := by
  simp only [isSpace, Bool.or_eq_true, beq_iff_eq] at h
  rcases h with ((rfl | rfl) | rfl) | rfl <;> rfl

theorem ofSpelling?_eq_none_of_space (c : Char) {d : Char} (h : isSpace d = true) :
    Symbol.ofSpelling? [c, d] = none := by
  have hspelling : ∀ sym : Symbol, ∀ x ∈ sym.spelling, isSpace x = false := by
    intro sym
    cases sym <;> simp [Symbol.spelling, isSpace]
  refine List.find?_eq_none.mpr fun sym _ hspells => ?_
  have hd := hspelling sym d (by simp [eq_of_beq hspells])
  simp [h] at hd

theorem symbolReach_of_breaksOff (c : Char) {gap : List Char} (h : BreaksOff gap) :
    symbolReach c gap = 0 := by
  cases gap with
  | nil => rfl
  | cons d gap => simp [symbolReach, ofSpelling?_eq_none_of_space c (h d (by simp))]

theorem symbolReach_le_length (c : Char) (cs : List Char) : symbolReach c cs ≤ cs.length := by
  cases cs with
  | nil => exact Nat.le_refl _
  | cons d cs =>
    rw [symbolReach]
    split <;> simp

/-- A break behind a symbol does not change it. The reach of a symbol is not local: in `?.5` it is
the digit that keeps the point away from the question mark. -/
theorem symbolReach_cut (c : Char) (cs : List Char) {gap : List Char} (hgap : BreaksOff gap) :
    symbolReach c (cs.take (symbolReach c cs) ++ gap) = symbolReach c cs := by
  cases cs with
  | nil => exact symbolReach_of_breaksOff c hgap
  | cons d cs =>
    by_cases h :
        ((Symbol.ofSpelling? [c, d]).isSome && !(c == '?' && cs.head?.any Char.isDigit)) = true
    · have hgap' : gap.head?.any Char.isDigit = false := by
        rw [← Bool.not_eq_true, Option.any_eq_true]
        rintro ⟨e, he, hdigit⟩
        simp [not_isDigit_of_space (hgap e he)] at hdigit
      rw [Bool.and_eq_true] at h
      simp [symbolReach, h.1, h.2, hgap']
    · have hzero : symbolReach c (d :: cs) = 0 := by rw [symbolReach, if_neg h]
      rw [hzero]
      exact symbolReach_of_breaksOff c hgap

theorem stringReach_le_length (quote : Char) (cs : List Char) :
    stringReach quote cs ≤ cs.length := by
  fun_induction stringReach quote cs with
  | case1 => exact Nat.le_refl _
  | case2 => exact Nat.le_refl _
  | case3 => simp
  | case4 c d cs hquote hescape ih =>
    simp only [List.length_cons]
    omega
  | case5 c d cs hquote hescape ih =>
    simp only [List.length_cons] at ih ⊢
    omega

/-- A string that is closed ends where it is closed, whatever follows. -/
theorem stringReach_cut {quote : Char} {cs : List Char} {value : List Char}
    (h : stringValue? quote (cs.take (stringReach quote cs)) = some value) (more : List Char) :
    stringReach quote (cs.take (stringReach quote cs) ++ more) = stringReach quote cs := by
  have hsingle : ∀ c, (c == quote) = true → stringReach quote (c :: more) = 1 := by
    intro c hc
    cases more with
    | nil => rfl
    | cons d more => simp [stringReach, hc]
  fun_induction stringReach quote cs generalizing value with
  | case1 => cases h
  | case2 c =>
    rw [List.take_succ_cons, List.take_nil, stringValue?] at h
    split at h
    · next hc => exact hsingle c hc
    · cases h
  | case3 c d cs hquote => exact hsingle c hquote
  | case4 c d cs hquote hescape ih =>
    rw [Nat.add_comm, List.take_succ_cons, List.take_succ_cons] at h ⊢
    rw [stringValue?, if_neg hquote, if_pos hescape, Option.map_eq_some_iff] at h
    obtain ⟨value, hvalue, -⟩ := h
    rw [List.cons_append, List.cons_append, stringReach, if_neg hquote, if_pos hescape, ih hvalue,
      Nat.add_comm]
  | case5 c d cs hquote hescape ih =>
    rw [Nat.add_comm, List.take_succ_cons] at h ⊢
    cases hn : stringReach quote (d :: cs) with
    | zero =>
      rw [hn, List.take_zero, stringValue?, if_neg hquote] at h
      cases h
    | succ n =>
      rw [hn, List.take_succ_cons, stringValue?, if_neg hquote, if_neg hescape,
        Option.map_eq_some_iff] at h
      obtain ⟨value, hvalue, -⟩ := h
      rw [hn, List.take_succ_cons, List.cons_append] at ih
      rw [List.take_succ_cons, List.cons_append, List.cons_append, stringReach, if_neg hquote,
        if_neg hescape, ih hvalue, Nat.add_comm]

/-! ## Tokens -/

/-- A break makes no comment out of what is none. -/
theorem startsTrivia_cut {c : Char} {cs gap : List Char} (k : Nat) (h : startsTrivia c cs = false)
    (hgap : BreaksOff gap) : startsTrivia c (cs.take k ++ gap) = false := by
  rw [← Bool.not_eq_true] at h ⊢
  intro htrivia
  rcases startsTrivia_cases htrivia with hspace | ⟨rfl, more, hcut⟩ | ⟨rfl, more, hcut⟩
  · exact h (by simp [startsTrivia, hspace])
  · obtain ⟨es, rfl⟩ := prefix_of_cut ['/'] (by simp [isSpace]) hgap ⟨more, hcut.symm⟩
    exact h (by simp [startsTrivia])
  · obtain ⟨es, rfl⟩ := prefix_of_cut ['*'] (by simp [isSpace]) hgap ⟨more, hcut.symm⟩
    exact h (by simp [startsTrivia])

/-- A break behind a token does not change how far the token reaches. -/
theorem reach_cut {c : Char} {cs gap : List Char} {kind : TokenKind}
    (hstarts : startsTrivia c cs = false)
    (hkind : Lexeme.ofSlice (c :: cs.take (reach c cs)) = .token kind) (hgap : BreaksOff gap) :
    reach c (cs.take (reach c cs) ++ gap) = (cs.take (reach c cs)).length := by
  rw [ofSlice_of_not_trivia ((startsTrivia_take c cs).trans hstarts)] at hkind
  rw [reach_of_not_trivia (startsTrivia_cut _ hstarts hgap), List.length_take]
  rw [reach_of_not_trivia hstarts] at hkind ⊢
  by_cases hquote : isQuote c = true
  · simp only [if_pos hquote] at hkind ⊢
    cases hvalue : stringValue? c (cs.take (stringReach c cs)) with
    | none => simp [hvalue] at hkind
    | some value =>
      rw [stringReach_cut hvalue, Nat.min_eq_left (stringReach_le_length c cs)]
  · simp only [if_neg hquote]
    split
    · rw [Nat.min_eq_left (local_numberReach.le_length cs)]
      exact local_numberReach.cut cs 0 gap hgap
    · split
      · have hname := local_run fun _ => not_isNamePart_of_space
        rw [Nat.min_eq_left (hname.le_length cs)]
        exact hname.cut cs 0 gap hgap
      · rw [symbolReach_cut c cs hgap, Nat.min_eq_left (symbolReach_le_length c cs)]

/-! ## Words

The slices of a text that are not trivia. Separators in front of a text add none. -/

/-- The slices that are not trivia. -/
def words (cs : List Char) : List (List Char) :=
  (slices cs).filter fun s => Lexeme.ofSlice s ≠ .trivia

@[simp]
theorem words_nil : words [] = [] := by
  rw [words, slices, List.filter_nil]

/-- They are the texts of the words in their places. -/
theorem map_text_words (p : Position) (cs : List Char) :
    (Piece.words p cs).map Piece.text = words cs := by
  rw [words, ← Piece.map_text_place p (slices cs), List.filter_map]
  rfl

theorem words_of_trivia {c : Char} {cs : List Char} (h : startsTrivia c cs = true) :
    words (c :: cs) = words (cs.drop (reach c cs)) := by
  rw [← map_text_words .start, Piece.words_trivia .start h, map_text_words]

theorem words_of_not_trivia {c : Char} {cs : List Char} (h : startsTrivia c cs = false) :
    words (c :: cs) = (c :: cs.take (reach c cs)) :: words (cs.drop (reach c cs)) := by
  have htoken : Lexeme.ofSlice (c :: cs.take (reach c cs)) ≠ .trivia := by
    rw [Ne, ofSlice_eq_trivia_iff, startsTrivia_take, h]
    exact Bool.false_ne_true
  rw [words, slices, List.filter_cons_of_pos (by simp [htoken])]
  rfl

theorem words_space {c : Char} (h : isSpace c = true) (cs : List Char) :
    words (c :: cs) = words cs := by
  rw [← map_text_words .start, Piece.words_space .start h, map_text_words]

theorem words_line {text : List Char} (h : '\n' ∉ text) (cs : List Char) :
    words ('/' :: '/' :: (text ++ '\n' :: cs)) = words cs := by
  rw [← map_text_words .start, Piece.words_comment .start h (by simp), map_text_words,
    words_space rfl]

theorem words_block {body : List Char} (h : CommentBody body) (cs : List Char) :
    words ('/' :: '*' :: (body ++ '*' :: '/' :: cs)) = words cs := by
  have hsplit : body ++ '*' :: '/' :: cs = (body ++ ['*', '/']) ++ cs := by simp
  have hreach : commentReach 1 (body ++ '*' :: '/' :: cs) = (body ++ ['*', '/']).length := by
    rw [h.commentReach_append 0 cs]
    simp [commentReach]
  rw [words_of_trivia rfl, reach_block, Nat.add_comm, List.drop_succ_cons, hreach, hsplit,
    List.drop_left]

/-- White space, line comments with the newline that ends them, and complete block comments. -/
inductive Separator : List Char → Prop
  | nil : Separator []
  | space {c : Char} {more : List Char} :
      isSpace c = true → Separator more → Separator (c :: more)
  | line {text more : List Char} :
      '\n' ∉ text → Separator more → Separator ('/' :: '/' :: (text ++ '\n' :: more))
  | block {body more : List Char} :
      CommentBody body → Separator more → Separator ('/' :: '*' :: (body ++ '*' :: '/' :: more))

theorem Separator.words_append {gap : List Char} (h : Separator gap) (cs : List Char) :
    words (gap ++ cs) = words cs := by
  induction h with
  | nil => rfl
  | space hspace _ ih => rw [List.cons_append, words_space hspace, ih]
  | line htext _ ih =>
    rw [List.cons_append, List.cons_append, List.append_assoc, List.cons_append, words_line htext,
      ih]
  | block hbody _ ih =>
    rw [List.cons_append, List.cons_append, List.append_assoc, List.cons_append, List.cons_append,
      words_block hbody, ih]

/-- A token in front of a break is a word. -/
theorem words_token {text gap source : List Char} {kind : TokenKind} (hmem : text ∈ words source)
    (hkind : Lexeme.ofSlice text = .token kind) (hgap : BreaksOff gap) :
    words (text ++ gap) = text :: words gap := by
  obtain ⟨before, after, hsplit⟩ := List.append_of_mem (List.mem_filter.mp hmem).1
  obtain ⟨c, cs, rfl, -⟩ := slices_eq_append_cons hsplit
  have hstarts : startsTrivia c cs = false := by
    rw [← startsTrivia_take, ← Bool.not_eq_true, ← ofSlice_eq_trivia_iff, hkind]
    simp
  rw [List.cons_append, words_of_not_trivia (startsTrivia_cut _ hstarts hgap),
    reach_cut hstarts hkind hgap, List.take_left, List.drop_left]

/-- Texts in order, each but the last with a separator behind it that begins with white space. The
separator behind the last may be empty. -/
inductive Spaced : List (List Char) → List Char → Prop
  | nil : Spaced [] []
  | last {text gap : List Char} : Separator gap → BreaksOff gap → Spaced [text] (text ++ gap)
  | cons {text gap next rest : List Char} {texts : List (List Char)} :
      Separator gap → gap ≠ [] → BreaksOff gap → Spaced (next :: texts) rest →
      Spaced (text :: next :: texts) (text ++ (gap ++ rest))

theorem BreaksOff.append {gap : List Char} (h : BreaksOff gap) (hne : gap ≠ []) (cs : List Char) :
    BreaksOff (gap ++ cs) := by
  cases gap with
  | nil => exact absurd rfl hne
  | cons c gap => exact h

/-- The words of a source, written apart, are the words of what is written. -/
theorem Spaced.words_eq {texts : List (List Char)} {body source : List Char}
    (h : Spaced texts body)
    (htexts : ∀ text ∈ texts, text ∈ words source ∧ ∃ kind, Lexeme.ofSlice text = .token kind) :
    words body = texts := by
  induction h with
  | nil => exact words_nil
  | @last text gap hgap hbreak =>
    obtain ⟨hmem, kind, hkind⟩ := htexts text (by simp)
    have hnone := hgap.words_append []
    rw [List.append_nil, words_nil] at hnone
    rw [words_token hmem hkind hbreak, hnone]
  | @cons text gap next rest texts hgap hne hbreak _ ih =>
    obtain ⟨hmem, kind, hkind⟩ := htexts text (by simp)
    rw [words_token hmem hkind (hbreak.append hne _), hgap.words_append,
      ih fun text ht => htexts text (List.mem_cons_of_mem _ ht)]

end Quill.Slice

namespace Quill

open Slice

/-! ## Tokens of words -/

/-- The kind of the token that is spelled, and the spelling. -/
def spelledToken? (text : List Char) : Option (TokenKind × String) :=
  match Lexeme.ofSlice text with
  | .token kind => some (kind, String.ofList text)
  | _ => none

theorem mem_words_iff {source : String} {text : List Char} :
    text ∈ words source.toList ↔
      ∃ p ∈ pieces source, p.text = text ∧ p.lexeme ≠ .trivia := by
  rw [words, ← Piece.map_text_place .start (slices source.toList), ← pieces]
  simp only [List.mem_filter, List.mem_map, decide_eq_true_eq]
  constructor
  · rintro ⟨⟨p, hp, rfl⟩, hlexeme⟩
    exact ⟨p, hp, rfl, hlexeme⟩
  · rintro ⟨p, hp, rfl, hlexeme⟩
    exact ⟨⟨p, hp, rfl⟩, hlexeme⟩

theorem Piece.diagnostic?_eq_none_iff {p : Piece} :
    p.diagnostic? = none ↔ (p.lexeme ≠ .trivia → ∃ kind, p.lexeme = .token kind) := by
  unfold Piece.diagnostic? Piece.fault?
  cases hlexeme : p.lexeme <;> simp

/-- A source is free of faults if all its words are tokens. -/
theorem diagnostics_eq_nil_iff {source : String} :
    (tokenize source).diagnostics = [] ↔
      ∀ text ∈ words source.toList, ∃ kind, Lexeme.ofSlice text = .token kind := by
  simp only [tokenize, List.filterMap_eq_nil_iff, Piece.diagnostic?_eq_none_iff, mem_words_iff]
  constructor
  · rintro h _ ⟨p, hp, rfl, hlexeme⟩
    exact h p hp hlexeme
  · intro h p hp hlexeme
    exact h p.text ⟨p, hp, rfl, hlexeme⟩

/-- Without faults, the tokens are the words. -/
theorem tokens_eq_words {source : String} (h : (tokenize source).diagnostics = []) :
    (tokenize source).tokens.map (fun t => (t.kind, t.text)) =
      (words source.toList).filterMap spelledToken? ++ [(.eof, "")] := by
  have hwords : (words source.toList).filterMap spelledToken? =
      (pieces source).filterMap fun p => spelledToken? p.text := by
    have hskip : ∀ ss : List (List Char),
        (ss.filter fun s => Lexeme.ofSlice s ≠ .trivia).filterMap spelledToken? =
          ss.filterMap spelledToken? := by
      intro ss
      rw [List.filterMap_filter]
      refine List.filterMap_congr fun s _ => ?_
      by_cases hs : Lexeme.ofSlice s = .trivia
      · simp [hs, spelledToken?]
      · simp [hs]
    rw [words, hskip, ← Piece.map_text_place .start (slices source.toList), ← pieces,
      List.filterMap_map]
    rfl
  rw [hwords, tokenize, List.map_append, List.map_filterMap]
  congr 1
  refine List.filterMap_congr fun p hp => ?_
  have hfault := List.filterMap_eq_nil_iff.mp h p hp
  unfold Piece.diagnostic? Piece.fault? at hfault
  unfold Piece.token? Piece.fault? spelledToken?
  rw [← Piece.lexeme]
  cases hlexeme : p.lexeme <;> simp_all

/-- The texts of the tokens are the words. -/
theorem map_text_dropLast {source : String} (h : (tokenize source).diagnostics = []) :
    (tokenize source).tokens.dropLast.map (fun t => t.text.toList) = words source.toList := by
  have htexts : (tokenize source).tokens.dropLast.map (fun t => t.text.toList) =
      ((tokenize source).tokens.map fun t => (t.kind, t.text)).dropLast.map (·.2.toList) := by
    rw [← List.map_dropLast, List.map_map]
    rfl
  rw [htexts, tokens_eq_words h, List.dropLast_concat, List.map_filterMap]
  have hsome : ∀ text ∈ words source.toList,
      (spelledToken? text).map (·.2.toList) = some text := by
    intro text htext
    obtain ⟨kind, hkind⟩ := diagnostics_eq_nil_iff.mp h text htext
    simp [spelledToken?, hkind]
  rw [List.filterMap_congr hsome, List.filterMap_some]

/-- Tokens written apart are read again as they were. -/
theorem tokenize_spaced {source : String} (hsource : (tokenize source).diagnostics = [])
    {first body : List Char} (hfirst : Separator first)
    (hbody : Spaced ((tokenize source).tokens.dropLast.map fun t => t.text.toList) body) :
    (tokenize (String.ofList (first ++ body))).diagnostics = [] ∧
      (tokenize (String.ofList (first ++ body))).tokens.map (fun t => (t.kind, t.text)) =
        (tokenize source).tokens.map fun t => (t.kind, t.text) := by
  have htokens := diagnostics_eq_nil_iff.mp hsource
  rw [map_text_dropLast hsource] at hbody
  have hwords : words (String.ofList (first ++ body)).toList = words source.toList := by
    rw [String.toList_ofList, hfirst.words_append]
    exact hbody.words_eq fun text htext => ⟨htext, htokens text htext⟩
  have hfree : (tokenize (String.ofList (first ++ body))).diagnostics = [] := by
    rw [diagnostics_eq_nil_iff, hwords]
    exact htokens
  refine ⟨hfree, ?_⟩
  rw [tokens_eq_words hfree, tokens_eq_words hsource, hwords]

/-- A comment that looks closed at its third character, with another one inside: `/*/ /**/ */`. -/
def commentInFront : List Char := ['/', '*', '/', ' ', '/', '*', '*', '/', ' ', '*', '/']

theorem commentInFront_separator : Separator commentInFront :=
  @Separator.block ['/', ' ', '/', '*', '*', '/', ' '] []
    (.char (.char (.nested .nil (.char .nil rfl)) rfl) rfl) .nil

/-- The tokens of `a?.5/1e`, written apart with white space and a line comment. -/
def writtenApart : List Char :=
  ['a'] ++ ([' '] ++ (['?'] ++ (['\t'] ++ (['.'] ++ (['\n'] ++ (['5'] ++ ([' '] ++ (['/'] ++
    ([' ', '/', '/', '*', '\n'] ++ (['1'] ++ (['\r'] ++ (['e'] ++ []))))))))))))

theorem writtenApart_spaced :
    Spaced ((tokenize "a?.5/1e").tokens.dropLast.map fun t => t.text.toList) writtenApart := by
  have htexts : ((tokenize "a?.5/1e").tokens.dropLast.map fun t => t.text.toList) =
      [['a'], ['?'], ['.'], ['5'], ['/'], ['1'], ['e']] := by decide +kernel
  have hspace : ∀ c, isSpace c = true → Separator [c] ∧ BreaksOff [c] := fun c hc =>
    ⟨.space hc .nil, by simpa [BreaksOff] using hc⟩
  have hcomment : Separator [' ', '/', '/', '*', '\n'] :=
    .space rfl (@Separator.line ['*'] [] (by decide) .nil)
  rw [htexts]
  refine .cons (hspace ' ' rfl).1 (by simp) (hspace ' ' rfl).2 ?_
  refine .cons (hspace '\t' rfl).1 (by simp) (hspace '\t' rfl).2 ?_
  refine .cons (hspace '\n' rfl).1 (by simp) (hspace '\n' rfl).2 ?_
  refine .cons (hspace ' ' rfl).1 (by simp) (hspace ' ' rfl).2 ?_
  refine .cons hcomment (by simp) (by simp [BreaksOff, isSpace]) ?_
  refine .cons (hspace '\r' rfl).1 (by simp) (hspace '\r' rfl).2 ?_
  exact .last .nil (by simp [BreaksOff])

theorem tokenize_writtenApart :
    (tokenize "a?.5/1e").diagnostics = [] ∧ Separator commentInFront ∧
    Spaced ((tokenize "a?.5/1e").tokens.dropLast.map fun t => t.text.toList) writtenApart ∧
    (tokenize (String.ofList (commentInFront ++ writtenApart))).diagnostics = [] ∧
    (tokenize (String.ofList (commentInFront ++ writtenApart))).tokens.map
      (fun t => (t.kind, t.text)) = (tokenize "a?.5/1e").tokens.map fun t => (t.kind, t.text) :=
  have hsource : (tokenize "a?.5/1e").diagnostics = [] := by decide +kernel
  ⟨hsource, commentInFront_separator, writtenApart_spaced,
    tokenize_spaced hsource commentInFront_separator writtenApart_spaced⟩

end Quill
