import Quill.Proofs.Syntax.Fault.Location
import Quill.Proofs.Syntax.Soundness.Stmt
import Quill.Proofs.Token.Placement

/-!
# Faults are told in the order of the text

After a fault parsing starts afresh behind the token at which it stopped, so every later fault is
behind that token too. Since a fault points at a token up to there and not beyond, the places of the
faults are some of the places of the tokens, in their order, each at most once
(`Attempts.places_sublist`). The same holds of the faults of the characters, which have a token
each.

What the parser attempts from a cursor on is told by `Attempts`, without a count of passes: one
entry for each statement, which was read or failed with one fault.
-/

set_option autoImplicit false

namespace Quill

namespace Syntax

variable {c c' : Cursor} {r : Rules} {attempts : List (Except Diagnostic Stmt)}

/-! ## Recovery -/

theorem reaches_skipStatement (c : Cursor) (ts : List Token) : c.Reaches (skipStatement c ts) := by
  induction ts generalizing c with
  | nil => exact .refl c
  | cons t ts ih =>
    rw [skipStatement]
    split
    · exact .refl c
    · split
      · exact .next c
      · exact (Cursor.Reaches.next c).trans (ih c.next)

/-- The token at fault is passed. -/
theorem reaches_recover (c : Cursor) : c.next.Reaches (recover c) := by
  rw [recover]
  split
  · exact .refl _
  · exact reaches_skipStatement _ _

/-! ## Places of what is left -/

/-- Where the tokens that are left begin, and where the input ends. -/
def Cursor.places (c : Cursor) : List Position := c.rest.map (·.position) ++ [c.finish]

theorem Cursor.Reaches.places_suffix (h : c.Reaches c') : c'.places <:+ c.places := by
  obtain ⟨before, hbefore⟩ := h.rest
  refine ⟨before.map (·.position), ?_⟩
  rw [Cursor.places, Cursor.places, h.finish, ← hbefore, List.map_append, List.append_assoc]

theorem Cursor.Reaches.length_le (h : c.Reaches c') : c'.rest.length ≤ c.rest.length :=
  h.rest.length_le

theorem Cursor.places_eq_cons (h : c.rest ≠ []) :
    c.places = c.current.position :: c.next.places := by
  obtain ⟨line, rest, finish⟩ := c
  cases rest with
  | nil => exact absurd rfl h
  | cons t ts => rfl

theorem Cursor.current_mem_places (c : Cursor) : c.current.position ∈ c.places := by
  obtain ⟨line, rest, finish⟩ := c
  cases rest <;> simp [Cursor.current, Cursor.places]

theorem Cursor.Shows.mem_places {p : Position} (h : c.Shows c' p) : p ∈ c.places := by
  obtain ⟨seen, hseen, -, rfl⟩ := h
  exact hseen.places_suffix.subset seen.current_mem_places

/-- What is behind a token that was seen is behind the place of that token. -/
theorem Cursor.Shows.cons_sublist {p : Position} (h : c.Shows c' p) (hne : c'.rest ≠ []) :
    (p :: c'.next.places).Sublist c.places := by
  obtain ⟨seen, hseen, hstop, rfl⟩ := h
  have hsome : seen.rest ≠ [] := by
    intro hnil
    have := hstop.rest
    rw [hnil, List.suffix_nil] at this
    exact hne this
  have hsuffix := hstop.places_suffix
  rw [places_eq_cons hne, places_eq_cons hsome, List.suffix_cons_iff] at hsuffix
  have hbehind : c'.next.places <:+ seen.next.places := by
    rcases hsuffix with heq | hsuffix
    · exact (List.cons.inj heq).2 ▸ List.suffix_rfl
    · exact (List.suffix_cons _ _).trans hsuffix
  apply List.Sublist.trans _ hseen.places_suffix.sublist
  rw [places_eq_cons hsome]
  exact hbehind.sublist.cons_cons _

/-! ## Attempts -/

/-- The fault of an attempt that failed. -/
def faultOf? : Except Diagnostic Stmt → Option Diagnostic
  | .ok _ => none
  | .error d => some d

/-- The statements that are attempted from a cursor on: the next one begins where a statement that
was read ends, and behind one that failed, where recovery ends. Semicolons between them are passed
over. -/
inductive Attempts (rule : Parse Stmt) : Cursor → List (Except Diagnostic Stmt) → Prop
  | done {c : Cursor} : c.atEnd = true → Attempts rule c []
  | semicolon {c : Cursor} {attempts : List (Except Diagnostic Stmt)} :
      c.current.kind = .symbol .semicolon → Attempts rule c.next attempts →
      Attempts rule c attempts
  | read {c c' : Cursor} {s : Stmt} {attempts : List (Except Diagnostic Stmt)} :
      c.atEnd = false → c.current.kind ≠ .symbol .semicolon → rule c = .ok s c' →
      Attempts rule c' attempts → Attempts rule c (.ok s :: attempts)
  | failed {c c' : Cursor} {d : Diagnostic} {attempts : List (Except Diagnostic Stmt)} :
      c.atEnd = false → c.current.kind ≠ .symbol .semicolon → rule c = .error d c' →
      Attempts rule (recover c') attempts → Attempts rule c (.error d :: attempts)

/-- At the end of input nothing is attempted. -/
theorem Attempts.eq_nil {rule : Parse Stmt} (h : Attempts rule c attempts) (hend : c.rest = []) :
    attempts = [] := by
  have hatEnd : c.atEnd = true := List.isEmpty_iff.mpr hend
  cases h with
  | done => rfl
  | semicolon hsemi => simp [Cursor.current, hend] at hsemi
  | read hopen => simp [hatEnd] at hopen
  | failed hopen => simp [hatEnd] at hopen

/-- The places of the faults are places of tokens, in their order. -/
theorem Attempts.places_sublist {rule : Parse Stmt} (hrule : Locates rule)
    (h : Attempts rule c attempts) :
    ((attempts.filterMap faultOf?).map (·.position)).Sublist c.places := by
  induction h with
  | done => exact List.nil_sublist _
  | semicolon _ _ ih => exact ih.trans (Cursor.Reaches.next _).places_suffix.sublist
  | @read c c' s attempts _ _ hread _ ih =>
    have hlocated := hrule c
    rw [hread] at hlocated
    cases hlocated with
    | ok hreaches => exact ih.trans hreaches.places_suffix.sublist
  | @failed c c' d attempts _ _ hfailed hmore ih =>
    have hlocated := hrule c
    rw [hfailed] at hlocated
    cases hlocated with
    | error hshows =>
      simp only [List.filterMap_cons, faultOf?, List.map_cons]
      have hreaches := reaches_recover c'
      by_cases hend : c'.rest = []
      · -- A fault at the end of input is the last one.
        have hnext : (recover c').rest = [] := by
          have := (Cursor.Reaches.next c').trans hreaches
          simpa [hend] using this.rest
        simp [hmore.eq_nil hnext, hshows.mem_places]
      · refine List.Sublist.trans ?_ (hshows.cons_sublist hend)
        exact (ih.trans hreaches.places_suffix.sublist).cons_cons _

theorem Attempts.not_lexical {rule : Parse Stmt} (hrule : Locates rule)
    (h : Attempts rule c attempts) :
    ∀ d ∈ attempts.filterMap faultOf?, d.code.isLexical = false := by
  induction h with
  | done => simp
  | semicolon _ _ ih => exact ih
  | read _ _ _ _ ih => simpa [faultOf?] using ih
  | @failed c c' d attempts _ _ hfailed _ ih =>
    have hlocated := hrule c
    rw [hfailed] at hlocated
    cases hlocated with
    | error _ hcode => simpa [faultOf?, hcode] using ih

/-- With a pass for every token the program is what the attempts come to: the statements are those
that were read, and there is one diagnostic for each that failed. -/
theorem exists_attempts (hsound : r.Sound) (hlocate : r.Locate) {passes : Nat}
    (hpasses : c.rest.length ≤ passes) :
    ∃ attempts, Attempts r.stmt c attempts ∧
      (statements r passes c).statements = attempts.filterMap Except.toOption ∧
      (statements r passes c).diagnostics = attempts.filterMap faultOf? := by
  induction passes generalizing c with
  | zero =>
    have hend : c.atEnd = true :=
      List.isEmpty_iff.mpr (List.length_eq_zero_iff.mp (Nat.le_zero.mp hpasses))
    exact ⟨[], .done hend, rfl, rfl⟩
  | succ passes ih =>
    rw [statements]
    by_cases hend : c.atEnd = true
    · rw [if_pos hend]
      exact ⟨[], .done hend, rfl, rfl⟩
    · have hlength : 0 < c.rest.length := by
        simpa [Cursor.atEnd, List.length_pos_iff] using hend
      have hopen : c.atEnd = false := by simpa using hend
      rw [if_neg hend]
      by_cases hsemi : c.current.kind = .symbol .semicolon
      · have hnext := next_length c
        obtain ⟨attempts, hattempts, hread, hfaults⟩ := @ih c.next (by omega)
        rw [if_pos hsemi]
        exact ⟨attempts, .semicolon hsemi hattempts, hread, hfaults⟩
      · rw [if_neg hsemi]
        cases hstmt : r.stmt c with
        | ok s c' =>
          have hlt := stmt_length_lt hsound hstmt
          obtain ⟨attempts, hattempts, hread, hfaults⟩ := @ih c' (by omega)
          refine ⟨.ok s :: attempts, .read hopen hsemi hstmt hattempts, ?_, hfaults⟩
          exact congrArg (s :: ·) hread
        | error d c' =>
          have hlocated := hlocate.stmt c
          rw [hstmt] at hlocated
          cases hlocated with
          | error hshows =>
            have hstop := hshows.reaches.length_le
            have hnext := next_length c'
            have hrecover := (reaches_recover c').length_le
            obtain ⟨attempts, hattempts, hread, hfaults⟩ := @ih (recover c') (by omega)
            refine ⟨.error d :: attempts, .failed hopen hsemi hstmt hattempts, hread, ?_⟩
            exact congrArg (d :: ·) hfaults

end Syntax

/-! ## Sources -/

/-- The cursor before the tokens of a source has the places of these. -/
theorem places_ofTokens (source : String) :
    (Syntax.Cursor.ofTokens (tokenize source).tokens).places =
      (tokenize source).tokens.map (·.position) := by
  have hinner : ∀ t ∈ (pieces source).filterMap Piece.token?, (t.kind != .eof) = true := by
    intro t ht
    obtain ⟨p, -, hp⟩ := List.mem_filterMap.mp ht
    simpa using Piece.kind_ne_eof_of_token? hp
  have hfind : ((pieces source).filterMap Piece.token?).find? (·.kind == .eof) = none := by
    rw [List.find?_eq_none]
    intro t ht
    simpa using hinner t ht
  rw [Syntax.Cursor.places, Syntax.Cursor.ofTokens, tokenize, List.find?_append, hfind,
    List.takeWhile_append_of_pos hinner]
  simp [endOfInput]

/-- The faults of the characters have a token each, in the same order. -/
theorem lexical_places_sublist (source : String) :
    ((tokenize source).diagnostics.map (·.position)).Sublist
      ((tokenize source).tokens.map (·.position)) := by
  have hreport := congrArg (List.map Prod.fst) (tokens_report source)
  rw [List.map_map, List.map_filterMap] at hreport
  have hfilter : ∀ ts : List Token,
      (ts.filterMap fun t => (t.kind.message?.map (t.position, ·)).map Prod.fst) =
        (ts.filter (·.kind.message?.isSome)).map (·.position) := by
    intro ts
    induction ts with
    | nil => rfl
    | cons t ts ih => cases hmessage : t.kind.message? <;> simpa [hmessage] using ih
  rw [hfilter] at hreport
  have hplaces : (tokenize source).diagnostics.map (·.position) =
      ((tokenize source).tokens.filter (·.kind.message?.isSome)).map (·.position) := hreport.symm
  rw [hplaces]
  exact List.filter_sublist.map _

theorem isLexical_of_mem {source : String} {d : Diagnostic}
    (h : d ∈ (tokenize source).diagnostics) : d.code.isLexical = true := by
  obtain ⟨p, -, hp⟩ := List.mem_filterMap.mp h
  unfold Piece.diagnostic? Piece.fault? at hp
  split at hp
  all_goals
    cases hp
    try rfl

/-- What is reported of a source that does not compile. -/
structure Reported (source : String) (ds : List Diagnostic) : Prop where
  ne_nil : ds ≠ []
  /-- Faults of the characters hide those of the grammar. -/
  oneStage :
    (ds = (tokenize source).diagnostics ∧ ∀ d ∈ ds, d.code.isLexical = true) ∨
      ((tokenize source).diagnostics = [] ∧ ∀ d ∈ ds, d.code.isLexical = false)
  increasing : ds.Pairwise (·.position < ·.position)
  atToken : ∀ d ∈ ds, ∃ t ∈ (tokenize source).tokens, t.position = d.position
  /-- Every statement that fails at the top level is reported once, and nothing else is. -/
  oneEach : (tokenize source).diagnostics = [] →
    let start := Syntax.Cursor.ofTokens (tokenize source).tokens
    ∃ attempts, Syntax.Attempts
        (Syntax.Rules.atDepth start.rest.length Syntax.maxNesting).stmt start attempts ∧
      ds = attempts.filterMap Syntax.faultOf?

/-- Diagnostics whose places are some of those of the tokens are in order and at tokens. -/
theorem ordered_of_sublist {source : String} {ds : List Diagnostic}
    (h : (ds.map (·.position)).Sublist ((tokenize source).tokens.map (·.position))) :
    ds.Pairwise (·.position < ·.position) ∧
      ∀ d ∈ ds, ∃ t ∈ (tokenize source).tokens, t.position = d.position := by
  constructor
  · have htokens := List.pairwise_map.mpr (pairwise_tokens source)
    exact List.pairwise_map.mp (htokens.sublist h)
  · intro d hd
    exact List.mem_map.mp (h.subset (List.mem_map_of_mem hd))

/-- A source that does not compile is reported in the order of its text: at least one fault, all of
one stage, each at a token of its own, the end of input included, and one for each statement that
failed. -/
theorem compile_reported {source : String} {ds : List Diagnostic}
    (h : compile source = .error ds) : Reported source ds := by
  unfold compile at h
  dsimp only at h
  by_cases hlexed : (tokenize source).diagnostics = []
  · obtain ⟨attempts, hattempts, -, hfaults⟩ := Syntax.exists_attempts
      (Syntax.Rules.sound_atDepth _ _) (Syntax.Rules.locate_atDepth _ Syntax.maxNesting)
      (Nat.le_refl (Syntax.Cursor.ofTokens (tokenize source).tokens).rest.length)
    have hstmt := (Syntax.Rules.locate_atDepth
      (Syntax.Cursor.ofTokens (tokenize source).tokens).rest.length Syntax.maxNesting).stmt
    rw [if_pos (by simp [hlexed])] at h
    split at h
    · cases h
    · next hsome =>
      have hparse : (Syntax.parse (tokenize source).tokens).diagnostics = ds := by
        simpa using h
      rw [Syntax.parse, hfaults] at hparse
      have hplaces := hattempts.places_sublist hstmt
      rw [hparse, places_ofTokens] at hplaces
      obtain ⟨hincreasing, htoken⟩ := ordered_of_sublist hplaces
      refine ⟨?_, .inr ⟨hlexed, ?_⟩, hincreasing, htoken, ?_⟩
      · rintro rfl
        rw [Syntax.parse, hfaults, hparse] at hsome
        exact hsome rfl
      · rw [← hparse]
        exact hattempts.not_lexical hstmt
      · exact fun _ => ⟨attempts, hattempts, hparse.symm⟩
  · rw [if_neg (by simpa using hlexed)] at h
    cases h
    obtain ⟨hincreasing, htoken⟩ := ordered_of_sublist (lexical_places_sublist source)
    exact
      { ne_nil := hlexed
        oneStage := .inl ⟨rfl, fun _ => isLexical_of_mem⟩
        increasing := hincreasing
        atToken := htoken
        oneEach := fun hnone => absurd hnone hlexed }

/-- A `try` without clauses is told at its word, though it is found out behind the block; the next
statement fails at the end of input. -/
def faultySource : String := "try { }\nlet a = 1;\nif (a"

def faultyDiagnostics : List Diagnostic :=
  [⟨.bareTry, ⟨1, 1⟩⟩, ⟨.missing "')' after condition" "end of input", ⟨3, 6⟩⟩]

theorem faultySource_reported :
    compile faultySource = .error faultyDiagnostics ∧ Reported faultySource faultyDiagnostics := by
  have hfound : (match compile faultySource with
      | .error ds => some ds
      | .ok _ => none) = some faultyDiagnostics := by
    decide +kernel
  cases hcompile : compile faultySource with
  | ok program =>
    rw [hcompile] at hfound
    cases hfound
  | error ds =>
    rw [hcompile] at hfound
    cases hfound
    exact ⟨rfl, compile_reported hcompile⟩

end Quill
