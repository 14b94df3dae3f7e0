import Quill.Syntax.Program

/-!
# Running a rule

What the small rules do to the cursor, as equations. A rule is a chain of small ones, so rewriting
with these equations runs it: each one replaces a step and what comes after it by what comes after
it at the next cursor.

`Cursor.Passes c ts c'` says that between two cursors lie the tokens `ts`: they are what is gone
from the rest, in order, and the line that the cursor remembers is the line of the last of them.
-/

set_option autoImplicit false

namespace Quill.Syntax

variable {α β : Type}

/-! ## Equations -/

@[simp]
theorem peek_bind (f : Token → Parse β) (c : Cursor) : (peek >>= f) c = f c.current c := rfl

@[simp]
theorem advance_bind (f : Token → Parse β) (c : Cursor) :
    (advance >>= f) c = f c.current c.next := rfl

@[simp]
theorem check_bind (kind : TokenKind) (f : Bool → Parse β) (c : Cursor) :
    (check kind >>= f) c = f (c.current.kind == kind) c := rfl

@[simp]
theorem atEnd_bind (f : Bool → Parse β) (c : Cursor) : (atEnd >>= f) c = f c.atEnd c := rfl

@[simp]
theorem get_bind (f : Cursor → Parse β) (c : Cursor) : (get >>= f) c = f c c := rfl

@[simp]
theorem pure_bind_apply (a : α) (f : α → Parse β) (c : Cursor) : (pure a >>= f) c = f a c := rfl

theorem accept_bind (kind : TokenKind) (f : Bool → Parse β) (c : Cursor) :
    (accept kind >>= f) c = if c.current.kind = kind then f true c.next else f false c := by
  by_cases h : c.current.kind = kind <;> simp [Bind.bind, EStateM.bind, accept, h]

theorem expect_bind (kind : TokenKind) (wanted : String) (f : Unit → Parse β) (c : Cursor) :
    (expect kind wanted >>= f) c =
      if c.current.kind = kind then f () c.next
      else .error ⟨.missing wanted c.current.display, c.current.position⟩ c := by
  by_cases h : c.current.kind = kind <;> simp [Bind.bind, EStateM.bind, expect, h]

/-- A chain succeeds only by success of its first part and then of the rest. -/
theorem of_bind_eq_ok {x : Parse α} {f : α → Parse β} {c c'' : Cursor} {b : β}
    (h : (x >>= f) c = .ok b c'') : ∃ a c', x c = .ok a c' ∧ f a c' = .ok b c'' := by
  simp only [Bind.bind, EStateM.bind] at h
  cases hx : x c with
  | ok a c' =>
    rw [hx] at h
    exact ⟨a, c', rfl, h⟩
  | error e c' =>
    rw [hx] at h
    cases h

theorem of_expect_bind {kind : TokenKind} {wanted : String} {f : Unit → Parse β} {c c' : Cursor}
    {b : β} (h : (expect kind wanted >>= f) c = .ok b c') :
    c.current.kind = kind ∧ f () c.next = .ok b c' := by
  rw [expect_bind] at h
  split at h
  · next hkind => exact ⟨hkind, h⟩
  · cases h

theorem of_accept_bind {kind : TokenKind} {f : Bool → Parse β} {c c' : Cursor} {b : β}
    (h : (accept kind >>= f) c = .ok b c') :
    (c.current.kind = kind ∧ f true c.next = .ok b c') ∨
      (c.current.kind ≠ kind ∧ f false c = .ok b c') := by
  rw [accept_bind] at h
  split at h
  · next hkind => exact .inl ⟨hkind, h⟩
  · next hkind => exact .inr ⟨hkind, h⟩

/-- A name is the token at the cursor. -/
theorem of_identifier_eq_ok {c c' : Cursor} {name : String} (h : identifier c = .ok name c') :
    c.current.kind = .ident name ∧ c' = c.next := by
  simp only [identifier, peek_bind] at h
  generalize c.current.kind = kind at h ⊢
  split at h
  · cases h
    exact ⟨rfl, rfl⟩
  · cases h

theorem of_identifier_bind {f : String → Parse β} {c c' : Cursor} {b : β}
    (h : (identifier >>= f) c = .ok b c') :
    ∃ name, c.current.kind = .ident name ∧ f name c.next = .ok b c' := by
  obtain ⟨name, c₁, hname, h⟩ := of_bind_eq_ok h
  obtain ⟨hkind, rfl⟩ := of_identifier_eq_ok hname
  exact ⟨name, hkind, h⟩

theorem bind_of_eq_ok {x : Parse α} {c c' : Cursor} {a : α} (hx : x c = .ok a c')
    (f : α → Parse β) : (x >>= f) c = f a c' := by
  simp only [Bind.bind, EStateM.bind, hx]

/-- An operator is found under its symbol. -/
theorem mem_of_infixOp? {row : List (Symbol × InfixOp)} {kind : TokenKind} {op : InfixOp}
    (h : infixOp? row kind = some op) : ∃ sym, kind = .symbol sym ∧ (sym, op) ∈ row := by
  unfold infixOp? at h
  split at h
  · next sym =>
    obtain ⟨before, after, hrow, -⟩ := List.lookup_eq_some_iff.mp h
    exact ⟨sym, rfl, by simp [hrow]⟩
  · cases h

/-! ## Looking ahead -/

@[simp]
theorem Cursor.kindAt_zero (c : Cursor) : c.kindAt 0 = c.current.kind := by
  obtain ⟨line, rest, finish⟩ := c
  cases rest <;> rfl

theorem Cursor.kindAt_succ (c : Cursor) (n : Nat) : c.kindAt (n + 1) = c.next.kindAt n := by
  obtain ⟨line, rest, finish⟩ := c
  cases rest <;> rfl

theorem next_length (c : Cursor) : c.next.rest.length = c.rest.length - 1 := by
  obtain ⟨line, rest, finish⟩ := c
  cases rest <;> rfl

theorem Cursor.rest_ne_nil_of_kind {c : Cursor} (h : c.current.kind ≠ .eof) : c.rest ≠ [] := by
  intro hend
  rw [Cursor.current, hend] at h
  exact h rfl

/-! ## Tokens between cursors -/

/-- The tokens passed between two cursors. -/
structure Cursor.Passes (c : Cursor) (ts : List Token) (c' : Cursor) : Prop where
  rest : c.rest = ts ++ c'.rest
  previousLine : c'.previousLine = (ts.getLast?.map Token.line).or c.previousLine
  finish : c'.finish = c.finish

namespace Cursor.Passes

theorem refl (c : Cursor) : c.Passes [] c := ⟨rfl, rfl, rfl⟩

theorem trans {c₁ c₂ c₃ : Cursor} {ts us : List Token} (h₁ : c₁.Passes ts c₂)
    (h₂ : c₂.Passes us c₃) : c₁.Passes (ts ++ us) c₃ := by
  refine ⟨?_, ?_, h₂.finish.trans h₁.finish⟩
  · rw [h₁.rest, h₂.rest, List.append_assoc]
  · rw [h₂.previousLine, h₁.previousLine, List.getLast?_append]
    cases us.getLast? <;> rfl

/-- The token at the cursor is passed unless the input is at its end. -/
theorem next {c : Cursor} {kind : TokenKind} (h : c.current.kind = kind) (hkind : kind ≠ .eof) :
    c.Passes [c.current] c.next := by
  subst h
  obtain ⟨line, rest, finish⟩ := c
  cases rest with
  | nil => exact absurd rfl hkind
  | cons t ts => exact ⟨rfl, rfl, rfl⟩

/-- One token and then others. -/
theorem cons {c c' : Cursor} {ts : List Token} {kind : TokenKind} (h : c.current.kind = kind)
    (hkind : kind ≠ .eof) (hrest : c.next.Passes ts c') : c.Passes (c.current :: ts) c' :=
  (next h hkind).trans hrest

theorem length_le {c c' : Cursor} {ts : List Token} (h : c.Passes ts c') :
    ts.length + c'.rest.length = c.rest.length := by
  rw [h.rest, List.length_append]

/-- The first token passed is the one at the cursor. -/
theorem current_eq {c c' : Cursor} {t : Token} {ts : List Token} (h : c.Passes (t :: ts) c') :
    c.current = t := by
  rw [Cursor.current, h.rest]
  rfl

/-- The cursor remembers the line of the last token passed. -/
theorem line_eq {c c' : Cursor} {ts : List Token} (h : c.Passes ts c') (hne : ts ≠ []) :
    c'.previousLine = ts.getLast?.map Token.line := by
  rw [h.previousLine]
  cases hlast : ts.getLast? with
  | none => exact absurd (List.getLast?_eq_none_iff.mp hlast) hne
  | some t => rfl

end Cursor.Passes

theorem next_length_lt {c : Cursor} (h : c.current.kind ≠ .eof) :
    c.next.rest.length < c.rest.length := by
  have hpassed := (Cursor.Passes.next rfl h).length_le
  rw [List.length_singleton] at hpassed
  omega

/-! ## One pass over the statements -/

/-- What is done where a token is left. -/
theorem statements_succ {r : Rules} {c : Cursor} (h : c.rest ≠ []) (passes : Nat) :
    statements r (passes + 1) c =
      if c.current.kind = .symbol .semicolon then statements r passes c.next
      else
        match r.stmt c with
        | .ok stmt c' =>
          let more := statements r passes c'
          ⟨stmt :: more.statements, more.diagnostics⟩
        | .error d c' =>
          let more := statements r passes (recover c')
          ⟨more.statements, d :: more.diagnostics⟩ := by
  have hgo : c.atEnd = false := List.isEmpty_eq_false_iff.mpr h
  rw [statements, hgo]
  exact if_neg Bool.false_ne_true

end Quill.Syntax
