import Quill.Proofs.Syntax.Indexed.Grammar
import Quill.Proofs.Syntax.Soundness.Stmt

/-!
# The indexed reader follows the cursor

`Stands n depth s c` says that a reader stands where a cursor does, with `n` tokens before the first
end of input and `depth` counted rules open. `Follows n depth c q out` says that the indexed rule
`q`, from wherever the cursor `c` stands, comes to the outcome `out` of a rule of the grammar, which
is no breach, and stands where that outcome leaves the cursor, with as many rules open as before.
The cursor of the outcome is no further back, so the tokens left bound every repetition.

There is one lemma for each primitive and each way to build rules. A lemma about a chain gives the
outcome of its first part to the rest, since what a rule saw is what makes its next step safe.
-/

set_option autoImplicit false

namespace Quill.Syntax.Indexed

variable {α β : Type} {n depth : Nat} {c c' : Cursor} {s s' : Reader}

@[simp]
theorem get_bind (f : Reader → Read β) (s : Reader) : (get >>= f) s = f s s := rfl

theorem bind_of_eq_ok {q : Read α} {a : α} (h : q s = .ok a s') (f : α → Read β) :
    (q >>= f) s = f a s' := by
  simp only [Bind.bind, EStateM.bind, h]

/-! ## Where a reader stands -/

/-- The tokens that the reader has passed are those before the index; then come those that the
cursor has left, an end of input where the cursor has it, and whatever follows. -/
structure Stands (n depth : Nat) (s : Reader) (c : Cursor) : Prop where
  split : ∃ passed eof beyond, s.tokens.toList = passed ++ (c.rest ++ eof :: beyond) ∧
    passed.length = s.index ∧ c.previousLine = passed.getLast?.map Token.line ∧
    eof.kind = .eof ∧ eof.position = c.finish
  inner : ∀ t ∈ c.rest, t.kind ≠ .eof
  index : s.index + c.rest.length = n
  depth : s.depth = depth

namespace Stands

/-- The token `i` places after the index, up to the end of input. -/
theorem getElem? (h : Stands n depth s c) {i : Nat} (hi : i ≤ c.rest.length) :
    ∃ t, s.tokens[s.index + i]? = some t ∧ t.kind = c.kindAt i ∧
      t.position = (c.rest[i]?.map (·.position)).getD c.finish ∧
      ∀ u, c.rest[i]? = some u → t = u := by
  obtain ⟨passed, eof, beyond, htokens, hpassed, -, hkind, hposition⟩ := h.split
  have hread : s.tokens[s.index + i]? = (c.rest ++ eof :: beyond)[i]? := by
    rw [← Array.getElem?_toList, htokens, ← hpassed, List.getElem?_append_right (by omega)]
    congr 1
    omega
  rcases Nat.lt_or_eq_of_le hi with hlt | heq
  · refine ⟨c.rest[i], ?_, ?_⟩
    · rw [hread, List.getElem?_append_left hlt, List.getElem?_eq_getElem hlt]
    · simp [Cursor.kindAt, hlt]
  · refine ⟨eof, ?_, ?_⟩
    · rw [hread, List.getElem?_append_right (by omega)]
      simp [heq]
    · simp [Cursor.kindAt, heq, hkind, hposition]

/-- The token at the index is the one at the cursor, but for the text of an end of input. -/
theorem current (h : Stands n depth s c) :
    ∃ t, s.tokens[s.index]? = some t ∧ t.kind = c.current.kind ∧
      t.position = c.current.position ∧ (c.current.kind ≠ .eof → t = c.current) := by
  obtain ⟨t, ht, hkind, hposition, heq⟩ := h.getElem? (Nat.zero_le _)
  refine ⟨t, ht, by rw [hkind, Cursor.kindAt_zero], ?_, ?_⟩
  · rw [hposition, Cursor.current]
    cases c.rest <;> rfl
  · rw [Cursor.current] at *
    cases hrest : c.rest with
    | nil => exact fun hne => absurd rfl hne
    | cons u us => exact fun _ => heq u (by simp [hrest])

/-- There is an end of input behind the tokens that are left. -/
theorem lt_size (h : Stands n depth s c) : s.index + c.rest.length < s.tokens.size := by
  obtain ⟨t, ht, -⟩ := h.getElem? (Nat.le_refl _)
  exact (Array.getElem?_eq_some_iff.mp ht).1

/-- One step of both. -/
theorem next (h : Stands n depth s c) (hne : c.current.kind ≠ .eof) :
    Stands n depth { s with index := s.index + 1 } c.next := by
  obtain ⟨passed, eof, beyond, htokens, hpassed, -, hkind, hposition⟩ := h.split
  have hindex := h.index
  have hinner := h.inner
  obtain ⟨line, rest, finish⟩ := c
  cases rest with
  | nil => exact absurd rfl hne
  | cons t ts =>
    refine ⟨⟨passed ++ [t], eof, beyond, ?_, ?_, ?_, hkind, hposition⟩, ?_, ?_, h.depth⟩
    · simpa [Cursor.next] using htokens
    · simpa using hpassed
    · simp [Cursor.next]
    · exact fun u hu => hinner u (List.mem_cons_of_mem _ hu)
    · simp only [Cursor.next, List.length_cons] at hindex ⊢
      omega

/-- With another count of open rules. -/
theorem withDepth (h : Stands n depth s c) (depth' : Nat) :
    Stands n depth' { s with depth := depth' } c :=
  ⟨h.split, h.inner, h.index, rfl⟩

end Stands

theorem kind_eq_eof_iff (hinner : ∀ t ∈ c.rest, t.kind ≠ .eof) :
    c.current.kind = .eof ↔ c.rest = [] := by
  cases hrest : c.rest with
  | nil => simp [Cursor.current, hrest]
  | cons t ts => simpa [Cursor.current, hrest] using hinner t (by simp [hrest])

/-! ## Following an outcome -/

/-- Where the outcome of a rule leaves the cursor. -/
def cursorAfter : EStateM.Result Diagnostic Cursor α → Cursor
  | .ok _ c | .error _ c => c

/-- The same outcome of an indexed rule, at a reader. -/
def answerAt (s : Reader) : EStateM.Result Diagnostic Cursor α → EStateM.Result Stop Reader α
  | .ok a _ => .ok a s
  | .error d _ => .error (.fault d) s

/-- From where the cursor stands, an indexed rule comes to an outcome of the grammar. -/
def Follows (n depth : Nat) (c : Cursor) (q : Read α) (out : EStateM.Result Diagnostic Cursor α) :
    Prop :=
  ∀ s, Stands n depth s c → ∃ s', q s = answerAt s' out ∧ Stands n depth s' (cursorAfter out) ∧
    (cursorAfter out).rest.length ≤ c.rest.length

/-- An indexed rule follows a rule of the grammar from every cursor. -/
def Simulates (n depth : Nat) (q : Read α) (p : Parse α) : Prop :=
  ∀ c, Follows n depth c q (p c)

/-- An indexed rule that only looks, and what it sees from where the cursor stands. -/
def Observes (n depth : Nat) (c : Cursor) (q : Read α) (a : α) : Prop :=
  ∀ s, Stands n depth s c → q s = .ok a s

namespace Follows

variable {q : Read α} {f : α → Read β} {out : EStateM.Result Diagnostic Cursor β}

theorem pure {a : α} : Follows n depth c (Pure.pure a) (.ok a c) :=
  fun s h => ⟨s, rfl, h, Nat.le_refl _⟩

/-- A first part that succeeds, and the rest after it. -/
theorem step {a : α} (hq : Follows n depth c q (.ok a c')) (hf : Follows n depth c' (f a) out) :
    Follows n depth c (q >>= f) out := by
  intro s h
  obtain ⟨s₁, hs₁, h₁, hle₁⟩ := hq s h
  obtain ⟨s₂, hs₂, h₂, hle₂⟩ := hf s₁ h₁
  exact ⟨s₂, (bind_of_eq_ok hs₁ f).trans hs₂, h₂, Nat.le_trans hle₂ hle₁⟩

/-- A chain follows a chain part by part. -/
theorem bind {p : Parse α} {g : α → Parse β} (hq : Follows n depth c q (p c))
    (hf : ∀ a c', p c = .ok a c' → c'.rest.length ≤ c.rest.length →
      Follows n depth c' (f a) (g a c')) :
    Follows n depth c (q >>= f) ((p >>= g) c) := by
  intro s h
  obtain ⟨s', hs', h', hle⟩ := hq s h
  cases hp : p c with
  | ok a c' =>
    rw [hp] at hq hle
    rw [Syntax.bind_of_eq_ok hp]
    exact step hq (hf a c' hp hle) s h
  | error d c' =>
    rw [hp] at hs' h' hle
    have hout : (p >>= g) c = .error d c' := by simp only [Bind.bind, EStateM.bind, hp]
    rw [hout]
    refine ⟨s', ?_, h', hle⟩
    simp only [Bind.bind, EStateM.bind, hs', answerAt]

/-- What an indexed rule looks at is known to what comes after it. -/
theorem look {a : α} (hq : Observes n depth c q a) (hf : Follows n depth c (f a) out) :
    Follows n depth c (q >>= f) out := by
  intro s h
  obtain ⟨s', hs', h'⟩ := hf s h
  exact ⟨s', (bind_of_eq_ok (hq s h) f).trans hs', h'⟩

/-- The reader itself is known to be one that stands where the cursor does. -/
theorem get {f : Reader → Read β}
    (hf : ∀ s, Stands n depth s c → Follows n depth c (f s) out) :
    Follows n depth c (MonadState.get >>= f) out :=
  fun s h => hf s h s h

/-- Where a reader stands at all, the tokens that are left are no end of input. -/
theorem of_inner {out : EStateM.Result Diagnostic Cursor α}
    (h : (∀ t ∈ c.rest, t.kind ≠ .eof) → Follows n depth c q out) : Follows n depth c q out :=
  fun s hs => h hs.inner s hs

theorem failAt {p : Position} {fault : Fault} :
    Follows n depth c (Indexed.failAt p fault : Read α) (Syntax.failAt p fault c) :=
  fun s h => ⟨s, rfl, h, Nat.le_refl _⟩

end Follows

/-! ## Looking -/

theorem Observes.bind {q : Read α} {f : α → Read β} {a : α} {b : β}
    (hq : Observes n depth c q a) (hf : Observes n depth c (f a) b) :
    Observes n depth c (q >>= f) b :=
  fun s h => (bind_of_eq_ok (hq s h) f).trans (hf s h)

theorem Observes.pure (a : α) : Observes n depth c (Pure.pure a) a := fun _ _ => rfl

theorem tokenAt_eq_ok {i : Nat} {t : Token} (h : s.tokens[i]? = some t) :
    tokenAt i s = .ok t s := by
  simp only [tokenAt, get_bind, h]
  rfl

/-- What is seen of the token at the index, its kind and its place, is the cursor's. -/
theorem observes_peek {f : Token → Read β} {b : β}
    (hf : ∀ t : Token, t.kind = c.current.kind → t.position = c.current.position →
      Observes n depth c (f t) b) : Observes n depth c (peek >>= f) b := by
  intro s h
  obtain ⟨t, ht, hkind, hposition, -⟩ := h.current
  have hpeek : peek s = .ok t s := tokenAt_eq_ok ht
  exact (bind_of_eq_ok hpeek f).trans (hf t hkind hposition s h)

theorem observes_kind : Observes n depth c kind c.current.kind :=
  observes_peek fun _ hkind _ => hkind ▸ .pure _

theorem observes_position : Observes n depth c position c.current.position :=
  observes_peek fun _ _ hposition => hposition ▸ .pure _

theorem observes_check (k : TokenKind) : Observes n depth c (check k) (c.current.kind == k) :=
  .bind observes_kind (.pure _)

theorem observes_atEnd : Observes n depth c atEnd c.atEnd := by
  intro s h
  have hend : (c.current.kind == .eof) = c.atEnd := by
    rw [Cursor.atEnd, Bool.eq_iff_iff, beq_iff_eq, kind_eq_eof_iff h.inner, List.isEmpty_iff]
  exact hend ▸ observes_check .eof s h

/-- Up to the end of input, looking ahead sees what the cursor sees. -/
theorem observes_kindAt {i : Nat} (hi : i ≤ c.rest.length) :
    Observes n depth c (kindAt i) (c.kindAt i) := by
  intro s h
  obtain ⟨t, ht, hkind, -⟩ := h.getElem? hi
  have hsize := h.lt_size
  have hmin : min (s.index + i) (s.tokens.size - 1) = s.index + i := by omega
  have hne : s.tokens.size ≠ 0 := by omega
  rw [kindAt, get_bind, if_neg hne, hmin, bind_of_eq_ok (tokenAt_eq_ok ht), hkind]
  rfl

theorem observes_onPreviousLine : Observes n depth c onPreviousLine c.onPreviousLine := by
  intro s h
  obtain ⟨passed, eof, beyond, htokens, hpassed, hline, -⟩ := h.split
  obtain ⟨t, ht, -, hposition, -⟩ := h.current
  rw [onPreviousLine, get_bind]
  rcases Nat.eq_zero_or_pos s.index with hindex | hindex
  · have hnone : c.previousLine = none := by
      rw [hline, List.length_eq_zero_iff.mp (hpassed.trans hindex)]
      rfl
    rw [if_pos hindex, Cursor.onPreviousLine, hnone]
    rfl
  · have hlt : s.index - 1 < passed.length := by omega
    have hbefore : s.tokens[s.index - 1]? = some passed[s.index - 1] := by
      rw [← Array.getElem?_toList, htokens, List.getElem?_append_left hlt,
        List.getElem?_eq_getElem hlt]
    have hlast : passed.getLast? = some passed[s.index - 1] := by
      rw [List.getLast?_eq_getElem?, hpassed, List.getElem?_eq_getElem hlt]
    have hpeek : peek s = .ok t s := tokenAt_eq_ok ht
    rw [if_neg (by omega), bind_of_eq_ok (tokenAt_eq_ok hbefore), bind_of_eq_ok hpeek,
      Cursor.onPreviousLine, hline, hlast, Token.line, Token.line, Token.line, hposition]
    rfl

/-- Under at least one open parenthesis none is closed that was not opened. -/
theorem scanArrow_eq_ok {opened : Nat} {ts beyond : List Token} {eof : Token}
    (hopened : 0 < opened) (hinner : ∀ t ∈ ts, t.kind ≠ .eof) (hkind : eof.kind = .eof) :
    scanArrow opened (ts ++ eof :: beyond) s = .ok (arrowAhead opened ts) s := by
  induction ts generalizing opened with
  | nil =>
    simp only [List.nil_append, scanArrow, hkind, arrowAhead]
    rfl
  | cons t ts ih =>
    have hrest := fun {opened} h => @ih opened h fun u hu => hinner u (List.mem_cons_of_mem _ hu)
    have ht := hinner t List.mem_cons_self
    simp only [List.cons_append, scanArrow, arrowAhead]
    generalize t.kind = k at ht
    split
    · exact hrest (Nat.succ_pos _)
    · match opened with
      | 1 =>
        have hnext : (ts ++ eof :: beyond).head?.map (·.kind) == some (.symbol .arrow) ↔
            ts.head?.map (·.kind) == some (.symbol .arrow) := by
          cases ts <;> simp [hkind]
        exact congrArg (EStateM.Result.ok · s) (Bool.eq_iff_iff.mpr hnext)
      | opened + 2 => exact hrest (Nat.succ_pos _)
    · exact absurd rfl ht
    · next hleft hright _ =>
      split
      · exact absurd rfl hleft
      · exact absurd rfl hright
      · exact hrest hopened

/-- At an opening parenthesis, looking for its arrow sees what the cursor sees. -/
theorem observes_arrowStart (hopen : c.current.kind = .symbol .leftParen) :
    Observes n depth c arrowStart (arrowAhead 0 c.rest) := by
  intro s h
  obtain ⟨passed, eof, beyond, htokens, hpassed, -, hkind, -⟩ := h.split
  have hinner := h.inner
  rw [arrowStart, get_bind, htokens, ← hpassed, List.drop_left]
  cases hrest : c.rest with
  | nil => simp [Cursor.current, hrest] at hopen
  | cons t ts =>
    have ht : t.kind = .symbol .leftParen := by simpa [Cursor.current, hrest] using hopen
    simp only [List.cons_append, scanArrow, arrowAhead, ht]
    exact scanArrow_eq_ok (Nat.succ_pos _)
      (fun u hu => hinner u (hrest ▸ List.mem_cons_of_mem _ hu)) hkind

theorem lt_length_of_kindAt_ne {i : Nat} (h : c.kindAt i ≠ .eof) : i < c.rest.length := by
  refine Nat.lt_of_not_le fun hle => h ?_
  rw [Cursor.kindAt, List.getElem?_eq_none hle]
  rfl

/-- The words of a `for` over a container are looked at one behind the other, so never past the end
of input. -/
theorem observes_traversalAhead : Observes n depth c traversalAhead (traversalAhead? c) := by
  refine .bind observes_kind ?_
  rw [traversalAhead?, Cursor.kindAt_zero]
  split
  · next hfirst =>
    have hone : 0 < c.rest.length :=
      lt_length_of_kindAt_ne (by rcases hfirst with h | h <;> simp [h])
    refine .bind (observes_kindAt hone) ?_
    cases hname : c.kindAt 1 with
    | ident name =>
      have htwo : 1 < c.rest.length := lt_length_of_kindAt_ne (by simp [hname])
      refine .bind (observes_kindAt htwo) ?_
      generalize c.kindAt 2 = third
      rcases hfirst with h | h
      all_goals
        rw [h]
        cases third with
        | keyword word => cases word <;> exact .pure _
        | _ => exact .pure _
    | _ => rcases hfirst with h | h <;> exact h ▸ .pure _
  · next hfirst =>
    rw [not_or] at hfirst
    split
    · next hlet _ _ => exact absurd hlet hfirst.1
    · next hconst _ _ => exact absurd hconst hfirst.2
    · next hlet _ _ => exact absurd hlet hfirst.1
    · next hconst _ _ => exact absurd hconst hfirst.2
    · exact .pure _

/-! ## Passing tokens -/

/-- A token of this kind can be passed: it is no end of input. -/
def Passable : TokenKind → Prop
  | .eof => False
  | _ => True

theorem passable_iff {k : TokenKind} : Passable k ↔ k ≠ .eof := by
  cases k <;> simp [Passable]

theorem passable_current (hinner : ∀ t ∈ c.rest, t.kind ≠ .eof) (hrest : c.rest ≠ []) :
    Passable c.current.kind :=
  passable_iff.mpr (mt (kind_eq_eof_iff hinner).mp hrest)

theorem length_lt_of_passable {k : TokenKind} (hkind : c.current.kind = k) (hk : Passable k) :
    c.next.rest.length < c.rest.length :=
  next_length_lt (hkind ▸ passable_iff.mp hk)

theorem advance_follows {k : TokenKind} (hkind : c.current.kind = k) (hk : Passable k) :
    Follows n depth c advance (.ok c.current c.next) := by
  intro s h
  have hne : c.current.kind ≠ .eof := hkind ▸ passable_iff.mp hk
  obtain ⟨t, ht, -, -, heq⟩ := h.current
  have hpeek : peek s = .ok c.current s := heq hne ▸ tokenAt_eq_ok ht
  have hlt := length_lt_of_passable hkind hk
  have hsize := h.lt_size
  refine ⟨{ s with index := s.index + 1 }, ?_, h.next hne, Nat.le_of_lt hlt⟩
  rw [advance, bind_of_eq_ok hpeek, get_bind, if_pos (by omega), if_neg hne]
  rfl

theorem accept_follows {k : TokenKind} (h : c.current.kind = k) (hk : Passable k) :
    Follows n depth c (accept k) (.ok true c.next) := by
  refine .look (observes_check k) ?_
  rw [if_pos (beq_iff_eq.mpr h)]
  exact .step (advance_follows h hk) .pure

theorem observes_accept {k : TokenKind} (h : c.current.kind ≠ k) :
    Observes n depth c (accept k) false := by
  refine .bind (observes_check k) ?_
  rw [if_neg (by simpa using h)]
  exact .pure _

/-- A chain that begins with a token that may be there, with the token and without it. -/
theorem Follows.accept {k : TokenKind} {f : Bool → Read β} {g : Bool → Parse β} (hk : Passable k)
    (hthere : c.current.kind = k → Follows n depth c.next (f true) (g true c.next))
    (hnot : c.current.kind ≠ k → Follows n depth c (f false) (g false c)) :
    Follows n depth c (accept k >>= f) ((Syntax.accept k >>= g) c) := by
  rw [accept_bind]
  split
  · next h => exact .step (accept_follows h hk) (hthere h)
  · next h => exact .look (observes_accept h) (hnot h)

/-- A token at fault is displayed as the cursor displays it: the text of an end of input does not
show. -/
theorem fault_follows (message : String → Fault) :
    Follows n depth c (do let token ← peek; failAt token.position (message token.display) : Read α)
      (.error ⟨message c.current.display, c.current.position⟩ c) := by
  intro s h
  obtain ⟨t, ht, hkind, hposition, heq⟩ := h.current
  have hpeek : peek s = .ok t s := tokenAt_eq_ok ht
  have hdisplay : t.display = c.current.display := by
    by_cases hne : c.current.kind = .eof
    · rw [Token.display, Token.display, hkind, hne]
    · rw [heq hne]
  refine ⟨s, ?_, h, Nat.le_refl _⟩
  rw [bind_of_eq_ok hpeek, hdisplay, hposition]
  rfl

theorem expect_follows {k : TokenKind} {wanted : String} (hk : Passable k) :
    Follows n depth c (expect k wanted) (Syntax.expect k wanted c) := by
  refine .look (observes_check k) ?_
  rw [Syntax.expect]
  by_cases h : c.current.kind = k
  · rw [if_pos h, if_pos (by simpa using h)]
    exact .step (advance_follows h hk) .pure
  · rw [if_neg h, if_neg (by simpa using h)]
    exact fault_follows _

theorem unexpected_follows {wanted : String} :
    Follows n depth c (unexpected wanted : Read α) (Syntax.unexpected wanted c) :=
  fault_follows _

theorem identifier_simulates : Simulates n depth identifier Syntax.identifier := by
  intro c
  refine .look observes_kind ?_
  rw [Syntax.identifier, Syntax.peek_bind]
  cases hkind : c.current.kind with
  | ident name => exact .step (advance_follows hkind trivial) .pure
  | _ => exact unexpected_follows

theorem propertyName_simulates : Simulates n depth propertyName Syntax.propertyName := by
  intro c
  refine .look observes_kind ?_
  rw [Syntax.propertyName, Syntax.peek_bind]
  cases hkind : c.current.kind with
  | ident name => exact .step (advance_follows hkind trivial) .pure
  | keyword word => exact .step (advance_follows hkind trivial) .pure
  | bool value => exact .step (advance_follows hkind trivial) .pure
  | null => exact .step (advance_follows hkind trivial) .pure
  | _ => exact unexpected_follows

/-! ## Repetition

A pass of a repetition takes a token, so the passes of the reader, of which there are as many as
tokens, are not used up before the tokens are. -/

/-- A pass of a repetition follows an outcome that ends the repetition at the end of input, and that
has taken a token where it goes on. -/
structure Pass (n depth : Nat) (c : Cursor) (q : Read (Option α))
    (out : EStateM.Result Diagnostic Cursor (Option α)) : Prop where
  follows : Follows n depth c q out
  ends : c.rest = [] → out = .ok none c
  takes : ∀ {s y c'}, Stands n depth s c → out = .ok (some y) c' → c'.rest.length < c.rest.length

namespace Pass

theorem stop : Pass n depth c (pure none : Read (Option α)) (.ok none c) where
  follows := .pure
  ends _ := rfl
  takes _ h := by cases h

theorem look {q : Read β} {b : β} {f : β → Read (Option α)}
    {out : EStateM.Result Diagnostic Cursor (Option α)} (hq : Observes n depth c q b)
    (hf : Pass n depth c (f b) out) : Pass n depth c (q >>= f) out :=
  ⟨.look hq hf.follows, hf.ends, hf.takes⟩

/-- A pass that begins by passing a token. -/
theorem go {k : TokenKind} {f : Token → Read (Option α)}
    {out : EStateM.Result Diagnostic Cursor (Option α)} (hkind : c.current.kind = k)
    (hk : Passable k) (hf : Follows n depth c.next (f c.current) out) :
    Pass n depth c (advance >>= f) out where
  follows := .step (advance_follows hkind hk) hf
  ends hend := by
    rw [Cursor.current, hend] at hkind
    exact absurd hkind.symm (passable_iff.mp hk)
  takes hs hout := by
    obtain ⟨s', -, -, hle⟩ := hf _ (hs.next (hkind ▸ passable_iff.mp hk))
    rw [hout] at hle
    exact Nat.lt_of_le_of_lt hle (length_lt_of_passable hkind hk)

end Pass

theorem extendWithin_follows {more : α → Read (Option α)} {more' : α → Parse (Option α)}
    (hmore : ∀ x c, Pass n depth c (more x) (more' x c)) {fuel passes : Nat}
    (hfuel : c.rest.length < fuel) (hpasses : c.rest.length ≤ passes) (x : α) :
    Follows n depth c (extendWithin more fuel x) (Syntax.extend more' passes x c) := by
  induction fuel generalizing passes x c with
  | zero => exact absurd hfuel (Nat.not_lt_zero _)
  | succ fuel ih =>
    have hpass := hmore x c
    cases passes with
    | zero =>
      have hnone := hpass.ends (List.length_eq_zero_iff.mp (Nat.le_zero.mp hpasses))
      exact .step (hnone ▸ hpass.follows) .pure
    | succ passes =>
      intro s h
      refine Follows.bind hpass.follows (fun y c' hy _ => ?_) s h
      cases y with
      | none => exact .pure
      | some y =>
        have := hpass.takes h hy
        exact ih (by omega) (by omega) y

theorem extend_follows {more : α → Read (Option α)} {more' : α → Parse (Option α)}
    (hmore : ∀ x c, Pass n depth c (more x) (more' x c)) {passes : Nat} (hpasses : n ≤ passes)
    (x : α) : Follows n depth c (extend more x) (Syntax.extend more' passes x c) := by
  intro s h
  have hindex := h.index
  have hsize := h.lt_size
  exact extendWithin_follows hmore (by omega) (by omega) x s h

theorem commaListWithin_follows {close : Symbol} {item : Read α} {item' : Parse α}
    (hitem : ∀ c, Passable c.current.kind → Follows n depth c item (item' c)) {fuel passes : Nat}
    (hfuel : c.rest.length < fuel) (hpasses : c.rest.length ≤ passes) (done : List α) :
    Follows n depth c (commaListWithin close item fuel done)
      (Syntax.commaList close item' passes done c) := by
  induction fuel generalizing passes done c with
  | zero => exact absurd hfuel (Nat.not_lt_zero _)
  | succ fuel ih =>
    refine .look (observes_check _) (.look observes_atEnd ?_)
    cases passes with
    | zero =>
      have hend : c.atEnd = true :=
        List.isEmpty_iff.mpr (List.length_eq_zero_iff.mp (Nat.le_zero.mp hpasses))
      rw [hend, Bool.or_true, if_pos rfl]
      exact .pure
    | succ passes =>
      rw [Syntax.commaList, Syntax.check_bind, Syntax.atEnd_bind]
      split
      · exact .pure
      · next hgoes =>
        have hend : c.rest ≠ [] := by
          simp only [Bool.or_eq_true, not_or, Cursor.atEnd, List.isEmpty_iff] at hgoes
          exact hgoes.2
        refine .of_inner fun hinner => ?_
        refine .bind (hitem c (passable_current hinner hend)) fun x c₁ _ hle => ?_
        refine .accept trivial (fun hcomma => ?_) fun _ => .pure
        have := length_lt_of_passable hcomma trivial
        exact ih (by omega) (by omega) (x :: done)

theorem commaList_follows {close : Symbol} {item : Read α} {item' : Parse α}
    (hitem : ∀ c, Passable c.current.kind → Follows n depth c item (item' c)) {passes : Nat}
    (hpasses : n ≤ passes) :
    Follows n depth c (commaList close item) (Syntax.commaList close item' passes [] c) := by
  intro s h
  have hindex := h.index
  have hsize := h.lt_size
  exact commaListWithin_follows hitem (by omega) (by omega) [] s h

/-! ## Counted rules -/

/-- A counted rule that may be opened does what it does one level deeper. -/
theorem nested_simulates {what : Nesting} {q : Read α} {p : Parse α} (hdepth : depth < maxNesting)
    (hq : Simulates n (depth + 1) q p) : Simulates n depth (nested what q) p := by
  intro c s h
  have hopen : ¬ maxNesting ≤ s.depth := by
    have := h.depth
    omega
  obtain ⟨s', hs', h', hle⟩ := hq c { s with depth := s.depth + 1 } (h.depth ▸ h.withDepth _)
  refine ⟨{ s' with depth }, ?_, h'.withDepth depth, hle⟩
  rw [nested, if_neg hopen, hs']
  cases p c with
  | ok a c' => simp only [answerAt, leave, h'.depth]
  | error d c' => simp only [answerAt, leave, h'.depth]

/-- A counted rule beyond the last level is a fault. -/
theorem nested_tooDeep {what : Nesting} {q : Read α} (hdepth : depth = maxNesting) :
    Simulates n depth (nested what q) (Syntax.tooDeep what) := by
  intro c s h
  have hfull : maxNesting ≤ s.depth := by
    have := h.depth
    omega
  refine ⟨s, ?_, h, Nat.le_refl _⟩
  rw [nested, if_pos hfull]
  exact bind_of_eq_ok (observes_position s h) _

end Quill.Syntax.Indexed
