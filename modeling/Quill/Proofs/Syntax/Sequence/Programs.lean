import Quill.Proofs.Syntax.Fault.Order
import Quill.Proofs.Syntax.Indexed.Safety
import Quill.Proofs.Syntax.Sequence.Boundary

/-!
# Programs one after the other

A program without faults that ends with a semicolon can be put in front of any other: the statements
are those of the one and then those of the other, and the faults are those of the other. All of its
statements are read as if nothing followed them, and then the other program begins, behind another
token and with more passes than it needs, neither of which it notices.
-/

set_option autoImplicit false

namespace Quill.Syntax

variable {c c' : Cursor} {r : Rules} {A B : List Token}

/-! ## Where the second program begins -/

theorem recover_behind (h : c.current.kind ≠ .eof) (line : Option Nat) :
    recover (c.behind line) = recover c := by
  have hcurrent : (c.behind line).current = c.current := rfl
  rw [recover, recover, Cursor.next_behind h, hcurrent]

/-- The token in front of a program does not matter to it. -/
theorem statements_behind (hr : Steady r.stmt) (hc : c.rest ≠ [] → c.current.kind ≠ .eof)
    (passes : Nat) (line : Option Nat) :
    statements r passes (c.behind line) = statements r passes c := by
  cases passes with
  | zero => rfl
  | succ passes =>
    have hsame : (c.behind line).atEnd = c.atEnd := rfl
    have hcurrent : (c.behind line).current = c.current := rfl
    rw [statements, statements, hsame, hcurrent]
    split
    · rfl
    · next hend =>
      have hkind := hc fun hrest => hend (List.isEmpty_iff.mpr hrest)
      rw [Cursor.next_behind hkind]
      split
      · rfl
      · rcases hr hkind line with hsame | ⟨d, hread, hbehind⟩
        · rw [hsame]
        · simp only [hread, hbehind, recover_behind hkind]

/-- More passes than tokens do not change what a program is parsed to. -/
theorem statements_ofTokens {bound passes : Nat}
    (hbound : (Cursor.ofTokens B).rest.length ≤ bound)
    (hpasses : (Cursor.ofTokens B).rest.length ≤ passes) :
    statements (Rules.atDepth bound maxNesting) passes (Cursor.ofTokens B) = parse B := by
  have hs := Indexed.stands_ofTokens B.toArray
  rw [List.toList_toArray] at hs
  have hwithin : ∀ {bound passes}, (Cursor.ofTokens B).rest.length ≤ bound →
      (Cursor.ofTokens B).rest.length ≤ passes →
      ∃ s, Indexed.statementsWithin (Indexed.Rules.within (maxNesting + 1))
          ((Cursor.ofTokens B).rest.length + 1) (Indexed.Reader.ofTokens B.toArray) =
        .ok (statements (Rules.atDepth bound maxNesting) passes (Cursor.ofTokens B)) s :=
    fun hbound hpasses => Indexed.statementsWithin_eq_ok
      (Indexed.Rules.within_simulates hbound (Nat.zero_le _) (Nat.lt_succ_self _)) hs
      (Nat.lt_succ_self _) hpasses
  -- Whatever the numbers of passes are, the indexed reader comes to the same answer.
  obtain ⟨s, hgiven⟩ := hwithin hbound hpasses
  obtain ⟨s', hleast⟩ := hwithin (Nat.le_refl _) (Nat.le_refl _)
  exact (EStateM.Result.ok.inj (hgiven.symm.trans hleast)).1

/-! ## From the first program to the second -/

/-- The tokens of both, up to the end of input in the second, with its end. -/
theorem ofTokens_append (hA : ∀ t ∈ A, t.kind ≠ .eof) (hB : B ≠ []) :
    Cursor.ofTokens (A ++ B) =
      (Cursor.ofTokens A).followedBy (Cursor.ofTokens B).rest (Cursor.ofTokens B).finish := by
  have hnone : A.find? (·.kind == .eof) = none := by simpa using hA
  have hrest : (A ++ B).takeWhile (·.kind != .eof) =
      A.takeWhile (·.kind != .eof) ++ B.takeWhile (·.kind != .eof) := by
    have hall : ∀ t ∈ A, (t.kind != .eof) = true := by simpa using hA
    rw [List.takeWhile_append_of_pos hall, List.takeWhile_eq_self_iff.mpr hall]
  have hlast : (A ++ B).getLast? = B.getLast? := by
    obtain ⟨t, ht⟩ := Option.ne_none_iff_exists'.mp (mt List.getLast?_eq_none_iff.mp hB)
    rw [List.getLast?_append, ht, Option.some_or]
  simp only [Cursor.ofTokens, Cursor.followedBy, hrest, hlast, List.find?_append, hnone,
    Option.none_or]

/-- A program without faults that a semicolon ends is read as if nothing followed it, and then comes
what follows. -/
theorem statements_followedBy (hcloses : Closes r.stmt) (hsound : r.Sound) (hforward : r.Locate)
    {more : List Token} (hmore : NoElse more) (finish : Position) (left : Nat) {passes : Nat}
    (hc : c.Closed) (hpasses : c.rest.length ≤ passes)
    (hclean : (statements r passes c).diagnostics = []) :
    ∃ line passes', left ≤ passes' ∧ statements r (passes + left) (c.followedBy more finish) =
      let rest := statements r passes' ⟨line, more, finish⟩
      ⟨(statements r passes c).statements ++ rest.statements, rest.diagnostics⟩ := by
  induction passes generalizing c with
  | zero =>
    have hend : c.rest = [] := List.length_eq_zero_iff.mp (Nat.le_zero.mp hpasses)
    refine ⟨c.previousLine, left, Nat.le_refl _, ?_⟩
    rw [Cursor.followedBy, hend, Nat.zero_add]
    rfl
  | succ passes ih =>
    by_cases hend : c.rest = []
    · refine ⟨c.previousLine, passes + 1 + left, Nat.le_add_left _ _, ?_⟩
      rw [statements, Cursor.atEnd, Cursor.followedBy, hend]
      rfl
    · have hlength := next_length c
      have hpos := List.length_pos_iff.mpr hend
      have hfollowed : (c.followedBy more finish).rest ≠ [] :=
        List.append_ne_nil_of_left_ne_nil hend _
      rw [statements_succ hend] at hclean ⊢
      rw [Nat.add_right_comm, statements_succ hfollowed, Cursor.current_followedBy _ _ hend]
      by_cases hsemi : c.current.kind = .symbol .semicolon
      · rw [if_pos hsemi] at hclean
        simp only [if_pos hsemi, Cursor.next_followedBy _ _ hend]
        exact ih ((Cursor.Reaches.next c).closed hc) (by omega) hclean
      · rw [if_neg hsemi] at hclean
        simp only [if_neg hsemi]
        cases hstmt : r.stmt c with
        | error d c' =>
          rw [hstmt] at hclean
          cases hclean
        | ok stmt c' =>
          rw [hstmt] at hclean
          obtain ⟨-, hsame⟩ := hcloses hstmt hc
          have htaken := stmt_length_lt hsound hstmt
          obtain ⟨line, passes', hleft, hrest⟩ :=
            ih ((hforward.stmt.reaches hstmt).closed hc) (by omega) hclean
          refine ⟨line, passes', hleft, ?_⟩
          simp only [hsame more finish hmore, hrest, List.cons_append]

/-- No end of input is among the tokens of a cursor. -/
theorem current_ofTokens (h : (Cursor.ofTokens B).rest ≠ []) :
    (Cursor.ofTokens B).current.kind ≠ .eof := by
  obtain ⟨t, ts, hrest⟩ := List.exists_cons_of_ne_nil h
  have hinner : ∀ t ∈ (Cursor.ofTokens B).rest, (t.kind != .eof) = true :=
    List.all_eq_true.mp List.all_takeWhile
  rw [Cursor.current, hrest]
  simpa using hinner t (hrest ▸ List.mem_cons_self)

theorem NoElse.ofTokens (h : NoElse B) : NoElse (Cursor.ofTokens B).rest := by
  cases B with
  | nil => exact h
  | cons t ts =>
    simp only [Cursor.ofTokens, List.takeWhile_cons]
    split
    · exact h
    · simp [NoElse]

/-- A program without faults that ends with a semicolon, and then any other that does not begin with
`else`: the statements of the first and of the second, and the faults of the second. -/
theorem parse_append (hA : ∀ t ∈ A, t.kind ≠ .eof) (hclean : (parse A).diagnostics = [])
    (hlast : A.getLast?.map (·.kind) = some (.symbol .semicolon)) (hB : NoElse B) :
    parse (A ++ B) = ⟨(parse A).statements ++ (parse B).statements, (parse B).diagnostics⟩ := by
  by_cases hnone : B = []
  · subst hnone
    rw [List.append_nil, show parse [] = ⟨[], []⟩ from rfl, List.append_nil, ← hclean]
  · let a := Cursor.ofTokens A
    let b := Cursor.ofTokens B
    let r := Rules.atDepth (a.rest.length + b.rest.length) maxNesting
    have hboth : parse (A ++ B) =
        statements r (a.rest.length + b.rest.length) (a.followedBy b.rest b.finish) := by
      rw [parse, ofTokens_append hA hnone]
      simp only [Cursor.followedBy, List.length_append, a, b, r]
    have hfirst : statements r a.rest.length a = parse A :=
      statements_ofTokens (Nat.le_add_right _ _) (Nat.le_refl _)
    have hclosed : a.Closed := by
      have hrest : a.rest = A := List.takeWhile_eq_self_iff.mpr (by simpa using hA)
      intro t ht
      rw [hrest] at ht
      simpa [ht] using hlast
    obtain ⟨line, passes, hleft, hrest⟩ := statements_followedBy (Rules.stmt_closes_atDepth _ _)
      (Rules.sound_atDepth _ _) (Rules.locate_atDepth _ _) hB.ofTokens b.finish b.rest.length
      hclosed (Nat.le_refl _) (hfirst ▸ hclean)
    have hsecond : statements r passes ⟨line, b.rest, b.finish⟩ = parse B :=
      (statements_behind (Rules.stmt_steady_atDepth _ _) current_ofTokens passes line).trans
        (statements_ofTokens (Nat.le_add_left _ _) hleft)
    rw [hboth, hrest, hfirst, hsecond]

/-- The tokens of `if (a) f((b));`, on the first line. -/
def callTokens : List Token :=
  [.keyword .ifKw, .symbol .leftParen, .ident "a", .symbol .rightParen, .ident "f",
    .symbol .leftParen, .symbol .leftParen, .ident "b", .symbol .rightParen, .symbol .rightParen,
    .symbol .semicolon].map (⟨·, "", ⟨1, 1⟩⟩)

/-- The tokens of `++c; ) let`, on the second line, and the end of input. -/
def faultyTokens : List Token :=
  [⟨.symbol .plusPlus, "++", ⟨2, 1⟩⟩, ⟨.ident "c", "c", ⟨2, 3⟩⟩, ⟨.symbol .semicolon, ";", ⟨2, 4⟩⟩,
    ⟨.symbol .rightParen, ")", ⟨2, 6⟩⟩, ⟨.keyword .letKw, "let", ⟨2, 8⟩⟩, ⟨.eof, "", ⟨2, 11⟩⟩]

theorem parse_callTokens_faultyTokens :
    (parse callTokens).diagnostics = [] ∧ NoElse faultyTokens ∧
      parse (callTokens ++ faultyTokens) =
        ⟨[.ifElse (.ident "a" ⟨1, 1⟩)
            (.expr (.call (.ident "f" ⟨1, 1⟩) [.ident "b" ⟨1, 1⟩] ⟨1, 1⟩)) none ⟨1, 1⟩,
          .expr (.update .increment true (.ident "c" ⟨2, 3⟩) ⟨2, 1⟩)],
          [⟨.unexpected "expression" "`)`", ⟨2, 6⟩⟩,
            ⟨.unexpected "identifier" "end of input", ⟨2, 11⟩⟩]⟩ := by
  have hnoElse : NoElse faultyTokens := nofun
  exact ⟨rfl, hnoElse, parse_append (A := callTokens) (by decide) rfl rfl hnoElse⟩

end Quill.Syntax
