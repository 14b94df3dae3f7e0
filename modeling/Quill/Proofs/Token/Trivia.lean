import Mathlib.Data.List.TakeWhile
import Quill.Token.Slice

/-!
# Between the tokens

What may stand between tokens, said without the cutting: white space, line comments and block
comments. A block comment is a tree: between its marks stand characters and complete comments, and a
mark is read where it begins first, so `/*/` opens a comment and does not close it.

The cutting counts open comments instead. `commentReach_append` says that it finds the end of a
complete comment whatever follows, and `commentReach_eq_length` that it goes on to the end of the
text if there is no complete comment to be found.
-/

set_option autoImplicit false

namespace Quill.Slice

/-! ## Block comments -/

/-- The text begins with a mark that opens or closes a block comment. -/
def startsMark : List Char → Bool
  | '/' :: '*' :: _ => true
  | '*' :: '/' :: _ => true
  | _ => false

/-- What stands between the opening and the closing mark of a block comment. -/
inductive CommentBody : List Char → Prop
  | nil : CommentBody []
  /-- A character that begins no mark, the closing one of the comment included. -/
  | char {c : Char} {body : List Char} :
      CommentBody body → startsMark (c :: (body ++ ['*', '/'])) = false → CommentBody (c :: body)
  /-- A complete comment. -/
  | nested {inner body : List Char} :
      CommentBody inner → CommentBody body →
      CommentBody ('/' :: '*' :: (inner ++ '*' :: '/' :: body))

/-- The text closes as many comments as given, the last of them at its end. -/
inductive Closing : Nat → List Char → Prop
  | none : Closing 0 []
  | one {depth : Nat} {body more : List Char} :
      CommentBody body → Closing depth more → Closing (depth + 1) (body ++ '*' :: '/' :: more)

/-- Only the first two characters decide on a mark, so the closing mark is as good as all that
follows. -/
theorem startsMark_closed (c : Char) (body rest : List Char) :
    startsMark (c :: (body ++ '*' :: '/' :: rest)) = startsMark (c :: (body ++ ['*', '/'])) := by
  cases body with
  | nil =>
    unfold startsMark
    split <;> simp_all
  | cons d body =>
    unfold startsMark
    split <;> simp_all

theorem startsMark_eq_false {c : Char} {cs : List Char}
    (hopen : ∀ more, c = '/' → cs = '*' :: more → False)
    (hclose : ∀ more, c = '*' → cs = '/' :: more → False) : startsMark (c :: cs) = false := by
  unfold startsMark
  split
  · next heq =>
    obtain ⟨hc, hcs⟩ := List.cons.inj heq
    exact (hopen _ hc hcs).elim
  · next heq =>
    obtain ⟨hc, hcs⟩ := List.cons.inj heq
    exact (hclose _ hc hcs).elim
  · rfl

theorem commentReach_open (depth : Nat) (cs : List Char) :
    commentReach (depth + 1) ('/' :: '*' :: cs) = 2 + commentReach (depth + 2) cs := rfl

theorem commentReach_close (depth : Nat) (cs : List Char) :
    commentReach (depth + 1) ('*' :: '/' :: cs) = 2 + commentReach depth cs := rfl

theorem commentReach_char {c : Char} {cs : List Char} (h : startsMark (c :: cs) = false)
    (depth : Nat) : commentReach (depth + 1) (c :: cs) = 1 + commentReach (depth + 1) cs := by
  rw [commentReach]
  · rintro _ rfl rfl
    simp [startsMark] at h
  · rintro _ rfl rfl
    simp [startsMark] at h

/-- A body and the mark that closes it are passed, at whatever depth they stand. -/
theorem CommentBody.commentReach_append {body : List Char} (h : CommentBody body) (depth : Nat)
    (rest : List Char) :
    commentReach (depth + 1) (body ++ '*' :: '/' :: rest) =
      body.length + 2 + commentReach depth rest := by
  induction h generalizing depth rest with
  | nil =>
    rw [List.nil_append, commentReach_close, List.length_nil, Nat.zero_add]
  | @char c body hbody hmark ih =>
    have hfree := (startsMark_closed c body rest).trans hmark
    rw [List.cons_append, commentReach_char hfree, ih, List.length_cons]
    omega
  | @nested inner body hinner hbody ihinner ihbody =>
    have hassoc : '/' :: '*' :: (inner ++ '*' :: '/' :: body) ++ '*' :: '/' :: rest =
        '/' :: '*' :: (inner ++ '*' :: '/' :: (body ++ '*' :: '/' :: rest)) := by simp
    rw [hassoc, commentReach_open, ihinner, ihbody]
    simp only [List.length_cons, List.length_append]
    omega

/-- If nothing closes the open comments, they reach to the end of the text. -/
theorem commentReach_eq_length {depth : Nat} {cs : List Char}
    (h : ∀ front rest, Closing depth front → cs ≠ front ++ rest) :
    commentReach depth cs = cs.length := by
  fun_induction commentReach depth cs with
  | case1 cs => exact absurd rfl (h [] cs .none)
  | case2 depth => rfl
  | case3 depth cs ih =>
    rw [ih ?_, List.length_cons, List.length_cons]
    · omega
    · intro front rest hfront hcs
      -- What closes the inner comment and those around it closes those around it with it inside.
      obtain _ | ⟨hinner, hmore⟩ := hfront
      obtain _ | ⟨hbody, hmore⟩ := hmore
      exact h _ rest (.one (.nested hinner hbody) hmore) (by simp [hcs])
  | case4 depth cs ih =>
    rw [ih ?_, List.length_cons, List.length_cons]
    · omega
    · intro front rest hfront hcs
      exact h _ rest (.one .nil hfront) (by simp [hcs])
  | case5 depth c cs hopen hclose ih =>
    rw [ih ?_, List.length_cons]
    · omega
    · intro front rest hfront hcs
      obtain _ | @⟨_, body, more, hbody, hmore⟩ := hfront
      refine h (c :: body ++ '*' :: '/' :: more) rest (.one (.char hbody ?_) hmore) (by simp [hcs])
      rw [← startsMark_closed c body (more ++ rest)]
      have hcs' : body ++ '*' :: '/' :: (more ++ rest) = cs := by simp [hcs]
      rw [hcs']
      exact startsMark_eq_false hopen hclose

/-! ## Trivia -/

/-- The text is trivia in front of the rest. -/
inductive Trivia : List Char → List Char → Prop
  | blank {text rest : List Char} :
      text ≠ [] → (∀ c ∈ text, isSpace c = true) → Trivia text rest
  /-- A line comment goes up to a newline or to the end. -/
  | line {text rest : List Char} :
      '\n' ∉ text → (∀ c ∈ rest.head?, c = '\n') → Trivia ('/' :: '/' :: text) rest
  | block {body rest : List Char} :
      CommentBody body → Trivia ('/' :: '*' :: (body ++ ['*', '/'])) rest
  /-- A block comment that is never closed takes all that is left. -/
  | unclosed {text : List Char} :
      (∀ body rest, CommentBody body → text ≠ body ++ '*' :: '/' :: rest) →
      Trivia ('/' :: '*' :: text) []

/-- White space or a comment begins with these characters. -/
def startsTrivia (c : Char) (cs : List Char) : Bool :=
  isSpace c || c == '/' && (cs.head? == some '/' || cs.head? == some '*')

/-- Where trivia begins it is white space, or a comment of one of two kinds. -/
theorem startsTrivia_cases {c : Char} {cs : List Char} (h : startsTrivia c cs = true) :
    isSpace c = true ∨ (c = '/' ∧ ∃ more, cs = '/' :: more) ∨
      (c = '/' ∧ ∃ more, cs = '*' :: more) := by
  simp only [startsTrivia, Bool.or_eq_true, Bool.and_eq_true, beq_iff_eq,
    List.head?_eq_some_iff] at h
  rcases h with hspace | ⟨hc, hmore | hmore⟩
  · exact .inl hspace
  · exact .inr (.inl ⟨hc, hmore⟩)
  · exact .inr (.inr ⟨hc, hmore⟩)

/-- Only what begins as trivia means nothing. -/
theorem ofSlice_eq_trivia_iff (c : Char) (cs : List Char) :
    Lexeme.ofSlice (c :: cs) = .trivia ↔ startsTrivia c cs = true := by
  rw [Lexeme.ofSlice, startsTrivia]
  by_cases hspace : isSpace c = true
  · simp [hspace]
  by_cases hcomment : (c == '/' && (cs.head? == some '/' || cs.head? == some '*')) = true
  · simp [hspace, hcomment]
  · rw [if_neg hspace, if_neg hcomment]
    rw [Bool.not_eq_true] at hspace hcomment
    rw [hspace, hcomment]
    repeat' split
    all_goals simp

/-- What a slice means that does not begin as trivia. -/
theorem ofSlice_of_not_trivia {c : Char} {cs : List Char} (h : startsTrivia c cs = false) :
    Lexeme.ofSlice (c :: cs) =
      if isQuote c then
        match stringValue? c cs with
        | some value => .token (.string (String.ofList value))
        | none => .unterminatedString
      else if c.isDigit then .token (.number ((Number.read? (c :: cs)).getD Number.nan))
      else if isNameStart c then .token (.ofWord (String.ofList (c :: cs)))
      else
        match Symbol.ofSpelling? (c :: cs) with
        | some sym => .token (.symbol sym)
        | none => if c == '&' || c == '|' then .undoubled c else .strayCharacter c := by
  rw [startsTrivia, Bool.or_eq_false_iff] at h
  exact (if_neg (by simp [h.1])).trans (if_neg (by simp [h.2]))

/-- How far a slice reaches that does not begin as trivia. -/
theorem reach_of_not_trivia {c : Char} {cs : List Char} (h : startsTrivia c cs = false) :
    reach c cs =
      if isQuote c then stringReach c cs
      else if c.isDigit then numberReach cs
      else if isNameStart c then run isNamePart cs
      else symbolReach c cs := by
  rw [startsTrivia, Bool.or_eq_false_iff, Bool.and_or_distrib_left, Bool.or_eq_false_iff] at h
  simp only [reach, h.1, h.2.1, h.2.2, Bool.false_eq_true, if_false]

theorem reach_of_space {c : Char} (h : isSpace c = true) (cs : List Char) :
    reach c cs = run isSpace cs := by
  simp [reach, h]

theorem reach_line (cs : List Char) : reach '/' ('/' :: cs) = 1 + run (· != '\n') cs := by
  simp [reach, run, isSpace, Nat.add_comm]

theorem reach_block (cs : List Char) : reach '/' ('*' :: cs) = 1 + commentReach 1 cs := by
  simp [reach, isSpace]

theorem take_run (p : Char → Bool) (cs : List Char) : cs.take (run p cs) = cs.takeWhile p := by
  unfold run
  induction cs with
  | nil => rfl
  | cons c cs ih => by_cases hc : p c = true <;> simp [hc, ih]

theorem drop_run (p : Char → Bool) (cs : List Char) : cs.drop (run p cs) = cs.dropWhile p := by
  unfold run
  induction cs with
  | nil => rfl
  | cons c cs ih => by_cases hc : p c = true <;> simp [hc, ih]

/-- The cut keeps what decides whether the slice is trivia. -/
theorem startsTrivia_take (c : Char) (cs : List Char) :
    startsTrivia c (cs.take (reach c cs)) = startsTrivia c cs := by
  by_cases h : startsTrivia c cs = true
  · rw [h]
    rcases startsTrivia_cases h with hspace | ⟨rfl, more, rfl⟩ | ⟨rfl, more, rfl⟩
    · simp [startsTrivia, hspace]
    · simp [reach_line, Nat.add_comm 1, startsTrivia]
    · simp [reach_block, Nat.add_comm 1, startsTrivia]
  · rw [Bool.not_eq_true] at h
    rw [h]
    simp only [startsTrivia, Bool.or_eq_false_iff, Bool.and_eq_false_imp] at h ⊢
    cases cs with
    | nil => simpa using h
    | cons d cs =>
      cases reach c (d :: cs) with
      | zero => simpa using h.1
      | succ n => simpa using h

/-- A slice that means nothing is trivia in front of what follows it. -/
theorem trivia_of_ofSlice {c : Char} {cs : List Char}
    (h : Lexeme.ofSlice (c :: cs.take (reach c cs)) = .trivia) :
    Trivia (c :: cs.take (reach c cs)) (cs.drop (reach c cs)) := by
  rw [ofSlice_eq_trivia_iff, startsTrivia_take] at h
  rcases startsTrivia_cases h with hspace | ⟨rfl, more, rfl⟩ | ⟨rfl, more, rfl⟩
  · rw [reach_of_space hspace, take_run]
    refine .blank (by simp) fun d hd => ?_
    rcases List.mem_cons.mp hd with rfl | hd
    · exact hspace
    · exact List.mem_takeWhile_imp hd
  · rw [reach_line, Nat.add_comm, List.take_succ_cons, List.drop_succ_cons, take_run, drop_run]
    refine .line (fun hmem => by simpa using List.mem_takeWhile_imp hmem) fun d hd => ?_
    have hstop := List.head?_dropWhile_not (· != '\n') more
    rw [Option.mem_def.mp hd] at hstop
    simpa using hstop
  · rw [reach_block, Nat.add_comm, List.take_succ_cons, List.drop_succ_cons]
    by_cases hclosed : ∃ body rest, CommentBody body ∧ more = body ++ '*' :: '/' :: rest
    · obtain ⟨body, rest, hbody, rfl⟩ := hclosed
      have hreach : commentReach 1 (body ++ '*' :: '/' :: rest) = (body ++ ['*', '/']).length := by
        rw [hbody.commentReach_append 0 rest]
        simp [commentReach]
      have hsplit : body ++ '*' :: '/' :: rest = (body ++ ['*', '/']) ++ rest := by simp
      rw [hreach, hsplit, List.take_left]
      exact .block hbody
    · have hreach : commentReach 1 more = more.length := by
        refine commentReach_eq_length fun front rest hfront hmore => ?_
        obtain _ | ⟨hbody, hnone⟩ := hfront
        cases hnone
        exact hclosed ⟨_, rest, hbody, by simp [hmore]⟩
      rw [hreach, List.take_length, List.drop_length]
      exact .unclosed fun body rest hbody hmore => hclosed ⟨body, rest, hbody, hmore⟩

end Quill.Slice
