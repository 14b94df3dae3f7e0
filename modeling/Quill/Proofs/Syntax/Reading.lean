import Quill.Proofs.Syntax.Rendering
import Quill.Proofs.Syntax.Steps

/-!
# Reading given tokens

`Reads p ks R rest` says that a rule reads the kinds `ks` in front of the kinds `rest`: it succeeds,
stops exactly between the two, and returns something that `R` accepts. The kinds behind are part of
it because a rule decides from the next token where to stop. There is one lemma for each way to put
rules together, so that what a rule reads is assembled from what its parts read.

The cursors are those of a text on one line in which no arrow is ahead (`Cursor.Plain`), and they
have no more tokens left than there are passes for a repetition.

A repetition that builds to the left has not finished when it has read its first operands. `Grows`
is the same statement with the repetition still running: the rule has come to the same point as the
repetition started with what has been read so far, and there are passes enough left.
-/

set_option autoImplicit false

namespace Quill.Syntax

variable {α β : Type} {passes line : Nat}

/-! ## Plain cursors -/

/-- The kinds of the tokens that are left. -/
def Cursor.kinds (c : Cursor) : List TokenKind := c.rest.map (·.kind)

/-- All that is left, and what was passed last, is on one line; reserved words have their own
spelling; there is no arrow; and there is a pass for every token. -/
structure Cursor.Plain (passes line : Nat) (c : Cursor) : Prop where
  previousLine : c.previousLine = some line
  oneLine : ∀ t ∈ c.rest, t.line = line
  spelled : ∀ t ∈ c.rest, t.Spelled
  noArrow : ∀ t ∈ c.rest, t.kind ≠ .symbol .arrow
  length_le : c.rest.length ≤ passes

theorem Cursor.current_kind (c : Cursor) : c.current.kind = c.kinds.headD .eof := by
  obtain ⟨line, rest, finish⟩ := c
  cases rest <;> rfl

theorem Cursor.kinds_next (c : Cursor) : c.next.kinds = c.kinds.tail := by
  obtain ⟨line, rest, finish⟩ := c
  cases rest <;> rfl

namespace Cursor.Plain

variable {c : Cursor}

theorem next (h : c.Plain passes line) : c.next.Plain passes line := by
  obtain ⟨previous, rest, finish⟩ := c
  cases rest with
  | nil => exact h
  | cons t ts =>
    have hrest : ∀ u ∈ ts, u ∈ t :: ts := fun u hu => List.mem_cons_of_mem t hu
    exact
      { previousLine := congrArg some (h.oneLine t List.mem_cons_self)
        oneLine := fun u hu => h.oneLine u (hrest u hu)
        spelled := fun u hu => h.spelled u (hrest u hu)
        noArrow := fun u hu => h.noArrow u (hrest u hu)
        length_le := Nat.le_of_succ_le h.length_le }

/-- A reserved word at the cursor has its own spelling. -/
theorem current_spelled (h : c.Plain passes line) (hword : c.current.kind.isKeyword = true) :
    TokenKind.ofWord c.current.text = c.current.kind := by
  obtain ⟨previous, rest, finish⟩ := c
  cases rest with
  | nil => cases hword
  | cons t ts => exact h.spelled t List.mem_cons_self hword

theorem current_ne_arrow (h : c.Plain passes line) : c.current.kind ≠ .symbol .arrow := by
  obtain ⟨previous, rest, finish⟩ := c
  cases rest with
  | nil => nofun
  | cons t ts => exact h.noArrow t List.mem_cons_self

theorem onPreviousLine (h : c.Plain passes line) (hne : c.kinds ≠ []) :
    c.onPreviousLine = true := by
  obtain ⟨previous, rest, finish⟩ := c
  cases rest with
  | nil => exact absurd rfl hne
  | cons t ts =>
    have hline : t.line = line := h.oneLine t List.mem_cons_self
    have hprevious : previous = some line := h.previousLine
    simp [Cursor.onPreviousLine, Cursor.current, hprevious, hline]

theorem arrowAhead_eq_false {ts : List Token} (h : ∀ t ∈ ts, t.kind ≠ .symbol .arrow)
    (depth : Nat) : arrowAhead depth ts = false := by
  induction ts generalizing depth with
  | nil => rfl
  | cons t ts ih =>
    have hts : ∀ u ∈ ts, u.kind ≠ .symbol .arrow := fun u hu => h u (List.mem_cons_of_mem t hu)
    unfold arrowAhead
    split
    · exact ih hts _
    · split
      · cases ts with
        | nil => rfl
        | cons u us => simpa using hts u List.mem_cons_self
      · exact ih hts _
    · exact ih hts _

end Cursor.Plain

/-! ## Reading -/

/-- The rule reads these kinds in front of the others. -/
def Reads (passes line : Nat) (p : Parse α) (ks : List TokenKind) (R : α → Prop)
    (rest : List TokenKind) : Prop :=
  ∀ c : Cursor, c.Plain passes line → c.kinds = ks ++ rest →
    ∃ a c', p c = .ok a c' ∧ R a ∧ c'.Plain passes line ∧ c'.kinds = rest

namespace Reads

variable {ks ks' rest : List TokenKind} {k : TokenKind} {R : α → Prop} {S : β → Prop}

theorem mono {p : Parse α} {R' : α → Prop} (h : Reads passes line p ks R rest)
    (himp : ∀ a, R a → R' a) : Reads passes line p ks R' rest := by
  intro c hplain hkinds
  obtain ⟨a, c', hok, ha, hplain', hkinds'⟩ := h c hplain hkinds
  exact ⟨a, c', hok, himp a ha, hplain', hkinds'⟩

theorem pure {a : α} (h : R a) : Reads passes line (Pure.pure a) [] R rest :=
  fun c hplain hkinds => ⟨a, c, rfl, h, hplain, hkinds⟩

theorem bind {p : Parse α} {f : α → Parse β} (hp : Reads passes line p ks R (ks' ++ rest))
    (hf : ∀ a, R a → Reads passes line (f a) ks' S rest) :
    Reads passes line (p >>= f) (ks ++ ks') S rest := by
  intro c hplain hkinds
  rw [List.append_assoc] at hkinds
  obtain ⟨a, c₁, hok, ha, hplain₁, hkinds₁⟩ := hp c hplain hkinds
  rw [bind_of_eq_ok hok]
  exact hf a ha c₁ hplain₁ hkinds₁

/-- A rule and then one that reads nothing. -/
theorem bind_nil {p : Parse α} {f : α → Parse β} (hp : Reads passes line p ks R rest)
    (hf : ∀ a, R a → Reads passes line (f a) [] S rest) :
    Reads passes line (p >>= f) ks S rest := by
  intro c hplain hkinds
  obtain ⟨a, c₁, hok, ha, hplain₁, hkinds₁⟩ := hp c hplain hkinds
  rw [bind_of_eq_ok hok]
  exact hf a ha c₁ hplain₁ hkinds₁

theorem peek {f : Token → Parse β}
    (hf : ∀ t, t.kind = (ks ++ rest).headD .eof → Reads passes line (f t) ks S rest) :
    Reads passes line (peek >>= f) ks S rest := by
  intro c hplain hkinds
  rw [peek_bind]
  exact hf c.current (by rw [c.current_kind, hkinds]) c hplain hkinds

theorem advance {f : Token → Parse β}
    (hf : ∀ t, t.kind = k → Reads passes line (f t) ks S rest) :
    Reads passes line (advance >>= f) (k :: ks) S rest := by
  intro c hplain hkinds
  have hkind : c.current.kind = k := by rw [c.current_kind, hkinds]; rfl
  rw [advance_bind]
  exact hf c.current hkind c.next hplain.next (by rw [c.kinds_next, hkinds]; rfl)

theorem check {f : Bool → Parse β}
    (hf : Reads passes line (f ((ks ++ rest).headD .eof == k)) ks S rest) :
    Reads passes line (check k >>= f) ks S rest := by
  intro c hplain hkinds
  rw [check_bind, c.current_kind, hkinds]
  exact hf c hplain hkinds

theorem atEnd {f : Bool → Parse β} (hf : Reads passes line (f (ks ++ rest).isEmpty) ks S rest) :
    Reads passes line (atEnd >>= f) ks S rest := by
  intro c hplain hkinds
  have hend : c.atEnd = (ks ++ rest).isEmpty := by
    rw [← hkinds, Cursor.kinds, List.isEmpty_map]
    rfl
  rw [atEnd_bind, hend]
  exact hf c hplain hkinds

theorem get {f : Cursor → Parse β}
    (hf : ∀ c : Cursor, c.Plain passes line → c.kinds = ks ++ rest →
      Reads passes line (f c) ks S rest) :
    Reads passes line (MonadState.get >>= f) ks S rest := by
  intro c hplain hkinds
  exact hf c hplain hkinds c hplain hkinds

theorem expect {wanted : String} {f : Unit → Parse β}
    (hf : Reads passes line (f ()) ks S rest) :
    Reads passes line (expect k wanted >>= f) (k :: ks) S rest := by
  intro c hplain hkinds
  have hkind : c.current.kind = k := by rw [c.current_kind, hkinds]; rfl
  rw [expect_bind, if_pos hkind]
  exact hf c.next hplain.next (by rw [c.kinds_next, hkinds]; rfl)

theorem accept {f : Bool → Parse β} (hf : Reads passes line (f true) ks S rest) :
    Reads passes line (accept k >>= f) (k :: ks) S rest := by
  intro c hplain hkinds
  have hkind : c.current.kind = k := by rw [c.current_kind, hkinds]; rfl
  rw [accept_bind, if_pos hkind]
  exact hf c.next hplain.next (by rw [c.kinds_next, hkinds]; rfl)

/-- Nothing is passed in front of a token of another kind. -/
theorem accept_not {f : Bool → Parse β} (hk : (ks ++ rest).headD .eof ≠ k)
    (hf : Reads passes line (f false) ks S rest) :
    Reads passes line (Syntax.accept k >>= f) ks S rest := by
  intro c hplain hkinds
  have hkind : c.current.kind ≠ k := by rwa [c.current_kind, hkinds]
  rw [accept_bind, if_neg hkind]
  exact hf c hplain hkinds

/-- No arrow comes next. -/
theorem of_no_arrow {p : Parse α}
    (h : (ks ++ rest).headD .eof ≠ .symbol .arrow → Reads passes line p ks R rest) :
    Reads passes line p ks R rest := by
  intro c hplain hkinds
  refine h ?_ c hplain hkinds
  rw [← hkinds, ← c.current_kind]
  exact hplain.current_ne_arrow

end Reads

/-! ## Repetitions -/

/-- The rule has come behind these kinds with the repetition still running. -/
def Grows (passes line : Nat) (p : Parse α) (more : α → Parse (Option α)) (ks : List TokenKind)
    (R : α → Prop) (rest : List TokenKind) : Prop :=
  ∀ c : Cursor, c.Plain passes line → c.kinds = ks ++ rest →
    ∃ a c' left, p c = extend more left a c' ∧ rest.length ≤ left ∧ R a ∧ c'.Plain passes line ∧
      c'.kinds = rest

namespace Grows

variable {ks ks' rest : List TokenKind} {R S : α → Prop} {p : Parse α}
  {more : α → Parse (Option α)}

/-- Before the first pass. -/
theorem start (h : Reads passes line p ks R rest) :
    Grows passes line (p >>= extend more passes) more ks R rest := by
  intro c hplain hkinds
  obtain ⟨a, c', hok, ha, hplain', hkinds'⟩ := h c hplain hkinds
  have hlength : rest.length ≤ passes := by
    rw [← hkinds', Cursor.kinds, List.length_map]
    exact hplain'.length_le
  exact ⟨a, c', passes, bind_of_eq_ok hok _, hlength, ha, hplain', hkinds'⟩

/-- One pass that goes on. -/
theorem pass (h : Grows passes line p more ks R (ks' ++ rest)) (hne : ks' ≠ [])
    (hmore : ∀ a, R a → Reads passes line (more a) ks' (fun b => ∃ a', b = some a' ∧ S a') rest) :
    Grows passes line p more (ks ++ ks') S rest := by
  intro c hplain hkinds
  rw [List.append_assoc] at hkinds
  obtain ⟨a, c₁, left, hrun, hleft, ha, hplain₁, hkinds₁⟩ := h c hplain hkinds
  obtain ⟨_, c₂, hok, ⟨a', rfl, ha'⟩, hplain₂, hkinds₂⟩ := hmore a ha c₁ hplain₁ hkinds₁
  -- There are as many passes left as tokens ahead, and this pass has one of them to read.
  have hpos := List.length_pos_iff.mpr hne
  rw [List.length_append] at hleft
  obtain ⟨left, rfl⟩ : ∃ n, left = n + 1 := ⟨left - 1, by omega⟩
  refine ⟨a', c₂, left, ?_, by omega, ha', hplain₂, hkinds₂⟩
  rw [hrun, extend, bind_of_eq_ok hok]

/-- The repetition ends where a pass finds nothing more. -/
theorem reads (h : Grows passes line p more ks R rest)
    (hstop : ∀ a, Reads passes line (more a) [] (· = none) rest) :
    Reads passes line p ks R rest := by
  intro c hplain hkinds
  obtain ⟨a, c₁, left, hrun, -, ha, hplain₁, hkinds₁⟩ := h c hplain hkinds
  cases left with
  | zero => exact ⟨a, c₁, hrun, ha, hplain₁, hkinds₁⟩
  | succ left =>
    obtain ⟨_, c₂, hok, rfl, hplain₂, hkinds₂⟩ := hstop a c₁ hplain₁ hkinds₁
    refine ⟨a, c₂, ?_, ha, hplain₂, hkinds₂⟩
    rw [hrun, extend, bind_of_eq_ok hok]
    rfl

/-- A rule that is not a repetition, as one that never goes on. -/
theorem of_reads (h : Reads passes line p ks R rest) (hmore : ∀ a, more a = pure none) :
    Grows passes line p more ks R rest := by
  intro c hplain hkinds
  obtain ⟨a, c', hok, ha, hplain', hkinds'⟩ := h c hplain hkinds
  refine ⟨a, c', rest.length, ?_, Nat.le_refl _, ha, hplain', hkinds'⟩
  cases rest with
  | nil => exact hok
  | cons k ks => rw [hok, List.length_cons, extend, hmore, pure_bind_apply]; rfl

end Grows

section CommaList

variable {close : Symbol} {item : Parse α} {items : List β} {piece : β → List TokenKind}
  {R : β → α → Prop} {rest : List TokenKind}

/-- A list that goes on reads the next item, whose first token does not close the list. -/
theorem commaList_succ_reads {left : Nat} {done : List α} {ks : List TokenKind}
    {S : List α → Prop} {k : TokenKind} (hk : k ≠ .symbol close)
    (h : Reads passes line
      (item >>= fun x => accept (.symbol .comma) >>= fun more =>
        if more then commaList close item left (x :: done) else pure (x :: done).reverse)
      (k :: ks) S rest) :
    Reads passes line (commaList close item (left + 1) done) (k :: ks) S rest := by
  rw [commaList]
  refine .check (.atEnd ?_)
  have hopen : ((k :: ks ++ rest).headD .eof == .symbol close ||
      (k :: ks ++ rest).isEmpty) = false := by
    simpa using hk
  rw [hopen]
  exact h

/-- The items of a list are read one after the other, up to the symbol that closes it. -/
theorem commaList_after_reads (hclose : close ≠ .comma)
    (hstart : ∀ b ∈ items, ∃ k ks, piece b = k :: ks ∧ k ≠ .symbol close)
    (hitem : ∀ b ∈ items, ∀ sym ks, sym = .comma ∨ sym = close →
      Reads passes line item (piece b) (R b) (.symbol sym :: ks))
    {left : Nat} (hleft : items.length ≤ left) (done : List α) :
    Reads passes line (commaList close item left done) (commaSeparated (items.map piece))
      (fun xs => ∃ ys, xs = done.reverse ++ ys ∧ List.Forall₂ R items ys)
      (.symbol close :: rest) := by
  induction items generalizing left done with
  | nil =>
    have hdone : ∃ ys, done.reverse = done.reverse ++ ys ∧ List.Forall₂ R [] ys :=
      ⟨[], (List.append_nil _).symm, .nil⟩
    cases left with
    | zero => exact .pure hdone
    | succ left =>
      rw [commaList]
      refine .check (.atEnd ?_)
      simp only [commaSeparated, List.map_nil, List.nil_append, List.headD_cons, beq_self_eq_true,
        Bool.true_or, if_true]
      exact .pure hdone
  | cons b bs ih =>
    obtain ⟨left, rfl⟩ : ∃ n, left = n + 1 := ⟨left - 1, by simp at hleft; omega⟩
    obtain ⟨k, ks, hpiece, hk⟩ := hstart b List.mem_cons_self
    have hb := hitem b List.mem_cons_self
    cases bs with
    | nil =>
      simp only [List.map_cons, List.map_nil, commaSeparated]
      rw [hpiece] at hb ⊢
      refine commaList_succ_reads hk ((hb close rest (.inr rfl)).bind_nil fun x hx => ?_)
      refine .accept_not (by simpa using hclose) (.pure ⟨[x], ?_, .cons hx .nil⟩)
      simp
    | cons b' bs =>
      have hbs := ih (fun a ha => hstart a (List.mem_cons_of_mem b ha))
        (fun a ha => hitem a (List.mem_cons_of_mem b ha)) (Nat.le_of_succ_le_succ hleft)
      simp only [List.map_cons, commaSeparated] at hbs ⊢
      rw [hpiece] at hb ⊢
      refine commaList_succ_reads hk ((hb .comma _ (.inl rfl)).bind fun x hx => .accept ?_)
      refine (hbs (x :: done)).mono ?_
      rintro xs ⟨ys, rfl, hys⟩
      exact ⟨x :: ys, by simp, .cons hx hys⟩

theorem length_le_commaSeparated (h : ∀ b ∈ items, piece b ≠ []) :
    items.length ≤ (commaSeparated (items.map piece)).length := by
  induction items with
  | nil => exact Nat.zero_le _
  | cons b bs ih =>
    have hb := List.length_pos_iff.mpr (h b List.mem_cons_self)
    have hbs := ih fun a ha => h a (List.mem_cons_of_mem b ha)
    cases bs with
    | nil => exact hb
    | cons b' bs =>
      simp only [List.map_cons, commaSeparated, List.length_append, List.length_cons] at hbs ⊢
      omega

theorem commaList_reads (hclose : close ≠ .comma)
    (hstart : ∀ b ∈ items, ∃ k ks, piece b = k :: ks ∧ k ≠ .symbol close)
    (hitem : ∀ b ∈ items, ∀ sym ks, sym = .comma ∨ sym = close →
      Reads passes line item (piece b) (R b) (.symbol sym :: ks)) :
    Reads passes line (commaList close item passes []) (commaSeparated (items.map piece))
      (List.Forall₂ R items) (.symbol close :: rest) := by
  intro c hplain hkinds
  have hlength : items.length ≤ passes := by
    have hpieces : ∀ b ∈ items, piece b ≠ [] := by
      intro b hb
      obtain ⟨k, ks, hpiece, -⟩ := hstart b hb
      simp [hpiece]
    have hle := length_le_commaSeparated hpieces
    have hplain := hplain.length_le
    have hrest : c.kinds.length = c.rest.length := List.length_map ..
    rw [hkinds, List.length_append] at hrest
    omega
  obtain ⟨xs, c', hok, ⟨ys, hxs, hys⟩, hplain', hkinds'⟩ :=
    commaList_after_reads hclose hstart hitem hlength [] c hplain hkinds
  have hitems : List.Forall₂ R items xs := by
    rw [hxs]
    exact hys
  exact ⟨xs, c', hok, hitems, hplain', hkinds'⟩

end CommaList

end Quill.Syntax
