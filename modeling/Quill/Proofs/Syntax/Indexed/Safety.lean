import Quill.Proofs.Syntax.Indexed.Rules

/-!
# Parsing is safe

The counted rules simulate those of the grammar at every depth: a chain of them is as long as the
counter allows and one longer, so the fuel of the knot outlasts it. The statements of a program take
a token each, whether they are read or skipped. So the indexed reader comes to no breach, whatever
the tokens are, and to the answers of the grammar. Since these do not depend on how many passes the
grammar is given beyond the tokens, the passes of the grammar do not run out either.
-/

set_option autoImplicit false

namespace Quill.Syntax.Indexed

variable {α : Type} {n depth : Nat} {c : Cursor} {R : Rules} {r : Syntax.Rules}

/-! ## The knot -/

theorem Rules.within_simulates {passes fuel : Nat} (hpasses : n ≤ passes)
    (hdepth : depth ≤ maxNesting) (hfuel : maxNesting < fuel + depth) :
    (Rules.within fuel).Simulates n depth (Rules.atDepth passes (maxNesting - depth)) := by
  induction fuel generalizing depth with
  | zero => omega
  | succ fuel ih =>
    have hsound := Rules.sound_atDepth passes (maxNesting - depth)
    rcases Nat.lt_or_eq_of_le hdepth with hlt | heq
    · have deeper := ih hlt (by omega)
      have hlevel : maxNesting - depth = maxNesting - (depth + 1) + 1 := by omega
      rw [hlevel] at hsound ⊢
      exact
        { passes := hpasses
          sound := hsound
          stmt := nested_simulates hlt (stmtRule_simulates deeper)
          assignment := nested_simulates hlt (assignmentRule_simulates deeper)
          ternary := nested_simulates hlt (ternaryRule_simulates deeper)
          unary := nested_simulates hlt (unaryRule_simulates deeper) }
    · have hlevel : maxNesting - depth = 0 := by omega
      rw [hlevel] at hsound ⊢
      exact
        { passes := hpasses
          sound := hsound
          stmt := nested_tooDeep heq
          assignment := nested_tooDeep heq
          ternary := nested_tooDeep heq
          unary := nested_tooDeep heq }

/-! ## Recovery -/

theorem skipWithin_follows {fuel : Nat} (hfuel : c.rest.length < fuel) :
    Follows n depth c (skipWithin fuel) (.ok () (skipStatement c c.rest)) := by
  induction fuel generalizing c with
  | zero => exact absurd hfuel (Nat.not_lt_zero _)
  | succ fuel ih =>
    refine .look observes_atEnd ?_
    cases hrest : c.rest with
    | nil =>
      rw [Cursor.atEnd, hrest]
      exact .pure
    | cons t ts =>
      have hcurrent : c.current = t := by rw [Cursor.current, hrest]; rfl
      have hnext : c.next.rest = ts := by rw [Cursor.next, hrest]
      refine .of_inner fun hinner => ?_
      have hpass : Passable t.kind :=
        passable_iff.mpr (hinner t (hrest ▸ List.mem_cons_self))
      rw [Cursor.atEnd, hrest, List.isEmpty_cons, if_neg Bool.false_ne_true, skipStatement]
      refine .look observes_kind ?_
      rw [hcurrent]
      split
      · exact .pure
      · refine .step (advance_follows (congrArg Token.kind hcurrent) hpass) ?_
        rw [hcurrent]
        split
        · exact .pure
        · rw [hrest, List.length_cons, ← hnext] at hfuel
          exact hnext ▸ ih (by omega)

theorem recover_follows : Follows n depth c recover (.ok () (Syntax.recover c)) := by
  refine .look observes_atEnd ?_
  split
  · next hend =>
    have hrest : c.rest = [] := List.isEmpty_iff.mp hend
    have hstay : Syntax.recover c = c := by
      simp [Syntax.recover, Cursor.current, Cursor.next, hrest, skipStatement]
    rw [hstay]
    exact .pure
  · next hend =>
    refine .of_inner fun hinner => ?_
    have hpass : Passable c.current.kind :=
      passable_current hinner fun hrest => hend (List.isEmpty_iff.mpr hrest)
    refine .step (advance_follows rfl hpass) ?_
    rw [Syntax.recover]
    split
    · exact .pure
    · refine .get fun s hs => skipWithin_follows ?_
      have := hs.lt_size
      omega

theorem skipStatement_length_le (c : Cursor) (ts : List Token) :
    (skipStatement c ts).rest.length ≤ c.rest.length := by
  induction ts generalizing c with
  | nil => exact Nat.le_refl _
  | cons t ts ih =>
    have hnext := next_length c
    rw [skipStatement]
    split
    · exact Nat.le_refl _
    · split
      · omega
      · exact Nat.le_trans (ih c.next) (by omega)

/-- Where a token is left, recovery takes one. -/
theorem recover_length_le (c : Cursor) : (Syntax.recover c).rest.length ≤ c.rest.length - 1 := by
  rw [← next_length, Syntax.recover]
  split
  · exact Nat.le_refl _
  · exact skipStatement_length_le _ _

theorem observes_moveOnFrom {before : Nat} (hmoved : before + c.rest.length < n) :
    Observes n depth c (moveOnFrom before) () := by
  intro s h
  have := h.index
  rw [moveOnFrom, get_bind, if_neg (by omega)]
  rfl

/-! ## Programs -/

theorem attempt_follows_ok {q : Read α} {a : α} {c' : Cursor}
    (hq : Follows n depth c q (.ok a c')) : Follows n depth c (attempt q) (.ok (.ok a) c') := by
  intro s h
  obtain ⟨s', hs', h'⟩ := hq s h
  refine ⟨s', ?_, h'⟩
  rw [attempt, hs']
  rfl

theorem attempt_follows_error {q : Read α} {d : Diagnostic} {c' : Cursor}
    (hq : Follows n depth c q (.error d c')) :
    Follows n depth c (attempt q) (.ok (.error d) c') := by
  intro s h
  obtain ⟨s', hs', h'⟩ := hq s h
  refine ⟨s', ?_, h'⟩
  rw [attempt, hs']
  rfl

theorem statementsWithin_eq_ok (h : R.Simulates n 0 r) {s : Reader} (hs : Stands n 0 s c)
    {fuel passes : Nat} (hfuel : c.rest.length < fuel) (hpasses : c.rest.length ≤ passes) :
    ∃ s', statementsWithin R fuel s = .ok (statements r passes c) s' := by
  induction fuel generalizing passes s c with
  | zero => exact absurd hfuel (Nat.not_lt_zero _)
  | succ fuel ih =>
    rw [statementsWithin, bind_of_eq_ok (observes_atEnd s hs)]
    by_cases hend : c.atEnd
    · have hdone : statements r passes c = ⟨[], []⟩ := by
        cases passes <;> simp [statements, hend]
      rw [if_pos hend, hdone]
      exact ⟨s, rfl⟩
    · have hpos : 0 < c.rest.length := by
        simpa [Cursor.atEnd, List.length_pos_iff] using hend
      obtain ⟨passes, rfl⟩ : ∃ more, passes = more + 1 := ⟨passes - 1, by omega⟩
      rw [if_neg hend, statements, if_neg hend]
      by_cases hsemi : c.current.kind = .symbol .semicolon
      · have hnext := next_length c
        obtain ⟨s₁, hrun, hs₁, -⟩ := accept_follows hsemi trivial s hs
        obtain ⟨s', hmore⟩ := @ih c.next s₁ hs₁ passes (by omega) (by omega)
        exact ⟨s', by rw [if_pos hsemi, bind_of_eq_ok hrun, if_pos rfl, hmore]⟩
      · rw [if_neg hsemi, bind_of_eq_ok (observes_accept hsemi s hs), if_neg Bool.false_ne_true,
          get_bind, if_neg (not_not_intro hs.depth)]
        have hindex := hs.index
        cases hstmt : r.stmt c with
        | ok stmt c₁ =>
          have hlt := stmt_length_lt h.sound hstmt
          obtain ⟨s₁, hrun, hs₁, -⟩ := attempt_follows_ok (hstmt ▸ h.stmt c) s hs
          have hmoved := @observes_moveOnFrom n 0 c₁ s.index (by omega) s₁ hs₁
          obtain ⟨s', hmore⟩ := @ih c₁ s₁ hs₁ passes (by omega) (by omega)
          exact ⟨s', (bind_of_eq_ok hrun _).trans <|
            (bind_of_eq_ok hmoved _).trans (bind_of_eq_ok hmore _)⟩
        | error d c₁ =>
          obtain ⟨s₁, hrun, hs₁, hle⟩ := attempt_follows_error (hstmt ▸ h.stmt c) s hs
          obtain ⟨s₂, hskip, hs₂, -⟩ := recover_follows s₁ hs₁
          have hlt := recover_length_le c₁
          simp only [cursorAfter] at hle
          have hmoved := @observes_moveOnFrom n 0 (Syntax.recover c₁) s.index (by omega) s₂ hs₂
          obtain ⟨s', hmore⟩ := @ih (Syntax.recover c₁) s₂ hs₂ passes (by omega) (by omega)
          exact ⟨s', (bind_of_eq_ok hrun _).trans <| (bind_of_eq_ok hskip _).trans <|
            (bind_of_eq_ok hmoved _).trans (bind_of_eq_ok hmore _)⟩

/-! ## Any tokens -/

/-- An end of input is found in the array, and the cursor ends there. -/
theorem ofTokens_split (tokens : Array Token) :
    ∃ eof beyond, (Reader.ofTokens tokens).tokens.toList =
        (Cursor.ofTokens tokens.toList).rest ++ eof :: beyond ∧
      eof.kind = .eof ∧ eof.position = (Cursor.ofTokens tokens.toList).finish := by
  simp only [Reader.ofTokens, Cursor.ofTokens]
  cases hfind : tokens.toList.find? (·.kind == .eof) with
  | some eof =>
    obtain ⟨hkind, before, beyond, hsplit, hbefore⟩ := List.find?_eq_some_iff_append.mp hfind
    have htake : tokens.toList.takeWhile (·.kind != .eof) = before := by
      rw [hsplit, List.takeWhile_append_of_pos (by simpa using hbefore),
        List.takeWhile_cons_of_neg (by simpa using hkind), List.append_nil]
    rw [htake]
    split
    · exact ⟨eof, beyond, hsplit, by simpa using hkind, rfl⟩
    · exact ⟨eof, beyond ++ [endOf tokens], by simp [hsplit], by simpa using hkind, rfl⟩
  | none =>
    have hnone : ∀ t ∈ tokens.toList, (t.kind != .eof) = true := by
      simpa using hfind
    have htake : tokens.toList.takeWhile (·.kind != .eof) = tokens.toList := by
      simpa using @List.takeWhile_append_of_pos _ _ tokens.toList [] hnone
    have hlast : tokens.back?.any (·.kind == .eof) = false := by
      rw [← Array.getLast?_toList]
      cases hback : tokens.toList.getLast? with
      | none => rfl
      | some t => simpa using hnone t (List.mem_of_getLast? hback)
    rw [htake, hlast, if_neg Bool.false_ne_true]
    exact ⟨endOf tokens, [], Array.toList_push .., rfl, by rw [Array.getLast?_toList, endOf]⟩

theorem stands_ofTokens (tokens : Array Token) :
    Stands (Cursor.ofTokens tokens.toList).rest.length 0 (Reader.ofTokens tokens)
      (Cursor.ofTokens tokens.toList) where
  split := by
    obtain ⟨eof, beyond, htokens, hkind, hposition⟩ := ofTokens_split tokens
    exact ⟨[], eof, beyond, htokens, rfl, rfl, hkind, hposition⟩
  inner t ht := by
    have hall := List.all_takeWhile (l := tokens.toList) (p := fun t => t.kind != .eof)
    simpa using List.all_eq_true.mp hall t ht
  index := Nat.zero_add _
  depth := rfl

/-- Reading any tokens by index, empty or without an end of input or with several, comes to no
breach: no token is read outside the array, no counter falls below zero, no end of input is passed,
no counted rule is open between statements, and a number of passes that the number of tokens gives
is never used up. The program and its diagnostics are those of the grammar, which more passes than
tokens do not change. -/
theorem parse_safe (tokens : Array Token) :
    Indexed.parse tokens = .ok (Syntax.parse tokens.toList) ∧
      ∀ passes, tokens.size ≤ passes →
        statements (Rules.atDepth passes maxNesting) passes (Cursor.ofTokens tokens.toList) =
          Syntax.parse tokens.toList := by
  have hs := stands_ofTokens tokens
  have hfuel : (Cursor.ofTokens tokens.toList).rest.length < (Reader.ofTokens tokens).tokens.size :=
    Nat.lt_of_le_of_lt (Nat.le_add_left _ _) hs.lt_size
  have hrun : ∀ passes, (Cursor.ofTokens tokens.toList).rest.length ≤ passes →
      Indexed.parse tokens =
        .ok (statements (Rules.atDepth passes maxNesting) passes
          (Cursor.ofTokens tokens.toList)) := by
    intro passes hpasses
    have hrules := @Rules.within_simulates _ 0 passes (maxNesting + 1) hpasses
      (Nat.zero_le _) (Nat.lt_succ_self _)
    obtain ⟨s', hrun⟩ := statementsWithin_eq_ok hrules hs hfuel hpasses
    simp only [Indexed.parse, hrun]
    rfl
  refine ⟨hrun _ (Nat.le_refl _), fun passes hpasses => ?_⟩
  have htake : (Cursor.ofTokens tokens.toList).rest.length ≤ passes :=
    Nat.le_trans (List.takeWhile_sublist _).length_le (by simpa using hpasses)
  exact Except.ok.inj ((hrun passes htake).symm.trans (hrun _ (Nat.le_refl _)))

end Quill.Syntax.Indexed
