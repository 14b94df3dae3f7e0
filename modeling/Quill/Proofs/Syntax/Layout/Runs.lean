import Quill.Proofs.Syntax.Soundness.Stmt

/-!
# Two runs on tokens that look alike

Where tokens stand matters to a rule in two ways: their positions are copied into what it returns,
and it is asked of `++` and `--` whether they stand on the line of the token before. So two lists of
tokens with the same kinds and texts and the same answers to that question take the same steps.

`RunAlike n f p p'` says so of two rules, or of one rule with different bounds on its repetitions:
from cursors that look alike, with at most `n` tokens left, both fail with the same fault, or they
return values with the same image under `f` (which forgets positions), and the cursors look alike
again. There is one lemma for each primitive and each way to build rules.
-/

set_option autoImplicit false

namespace Quill

/-- What a token shows wherever it stands. -/
def Token.look (t : Token) : TokenKind × String := (t.kind, t.text)

theorem Token.kind_eq {t t' : Token} (h : t.look = t'.look) : t.kind = t'.kind :=
  congrArg Prod.fst h

theorem Token.text_eq {t t' : Token} (h : t.look = t'.look) : t.text = t'.text :=
  congrArg Prod.snd h

theorem Token.display_eq {t t' : Token} (h : t.look = t'.look) : t.display = t'.display := by
  rw [display, display, Token.kind_eq h, Token.text_eq h]

namespace Syntax

variable {α β γ δ : Type} {n : Nat} {c c' : Cursor}

/-! ## Tokens that look alike -/

/-- The tokens of both lists look alike, and each `++` and `--` is in both lists on the line of the
token before it or in both not. The lines are those of the tokens before the lists. -/
inductive AlikeAfter : Option Nat → Option Nat → List Token → List Token → Prop
  | nil {line line' : Option Nat} : AlikeAfter line line' [] []
  | cons {line line' : Option Nat} {t t' : Token} {ts ts' : List Token} : t.look = t'.look →
      ((updateOp? t.kind).isSome = true → (line == some t.line) = (line' == some t'.line)) →
      AlikeAfter (some t.line) (some t'.line) ts ts' → AlikeAfter line line' (t :: ts) (t' :: ts')

/-- The lists have the same layout as far as it matters. No token stands before the first one. -/
def SameLayout (ts ts' : List Token) : Prop := AlikeAfter none none ts ts'

theorem AlikeAfter.length_eq {line line' : Option Nat} {ts ts' : List Token}
    (h : AlikeAfter line line' ts ts') : ts.length = ts'.length := by
  induction h with
  | nil => rfl
  | cons _ _ _ ih => rw [List.length_cons, List.length_cons, ih]

theorem AlikeAfter.kind_eq {line line' : Option Nat} {ts ts' : List Token}
    (h : AlikeAfter line line' ts ts') (i : Nat) :
    ts[i]?.map (·.kind) = ts'[i]?.map (·.kind) := by
  induction h generalizing i with
  | nil => rfl
  | cons hlook _ _ ih =>
    cases i with
    | zero => simp [Token.kind_eq hlook]
    | succ i => simpa using ih i

theorem AlikeAfter.arrowAhead_eq {line line' : Option Nat} {ts ts' : List Token}
    (h : AlikeAfter line line' ts ts') (depth : Nat) :
    arrowAhead depth ts = arrowAhead depth ts' := by
  induction h generalizing depth with
  | nil => rfl
  | cons hlook _ hrest ih =>
    have hhead := hrest.kind_eq 0
    simp only [← List.head?_eq_getElem?] at hhead
    simp only [arrowAhead, Token.kind_eq hlook, ih, hhead]

/-- The tokens left look alike. -/
def Cursor.Alike (c c' : Cursor) : Prop := AlikeAfter c.previousLine c'.previousLine c.rest c'.rest

namespace Cursor.Alike

theorem length_eq (h : c.Alike c') : c.rest.length = c'.rest.length := AlikeAfter.length_eq h

theorem look_eq (h : c.Alike c') : c.current.look = c'.current.look := by
  obtain ⟨line, rest, finish⟩ := c
  obtain ⟨line', rest', finish'⟩ := c'
  cases h with
  | nil => rfl
  | cons hlook _ _ => exact hlook

theorem kind_eq (h : c.Alike c') : c.current.kind = c'.current.kind := Token.kind_eq h.look_eq

theorem atEnd_eq (h : c.Alike c') : c.atEnd = c'.atEnd := by
  have hlength := h.length_eq
  rw [Cursor.atEnd, Cursor.atEnd, Bool.eq_iff_iff, List.isEmpty_iff_length_eq_zero,
    List.isEmpty_iff_length_eq_zero, hlength]

theorem next (h : c.Alike c') : c.next.Alike c'.next := by
  obtain ⟨line, rest, finish⟩ := c
  obtain ⟨line', rest', finish'⟩ := c'
  cases h with
  | nil => exact .nil
  | cons _ _ hrest => exact hrest

theorem kindAt_eq (h : c.Alike c') (i : Nat) : c.kindAt i = c'.kindAt i := by
  rw [Cursor.kindAt, Cursor.kindAt, AlikeAfter.kind_eq h]

theorem traversalAhead?_eq (h : c.Alike c') : traversalAhead? c = traversalAhead? c' := by
  simp only [traversalAhead?, h.kindAt_eq]

theorem onPreviousLine_eq (h : c.Alike c') (hop : (updateOp? c.current.kind).isSome = true) :
    c.onPreviousLine = c'.onPreviousLine := by
  obtain ⟨line, rest, finish⟩ := c
  obtain ⟨line', rest', finish'⟩ := c'
  cases h with
  | nil => cases hop
  | cons _ hline _ => exact hline hop

end Cursor.Alike

theorem next_length_le (c : Cursor) : c.next.rest.length ≤ c.rest.length := by
  rw [next_length]
  exact Nat.sub_le _ _

/-! ## Outcomes and rules -/

/-- Two outcomes with the same fault or with values of the same image. At most `n` tokens are
left. -/
inductive EndAlike (n : Nat) (f : α → γ) :
    EStateM.Result Diagnostic Cursor α → EStateM.Result Diagnostic Cursor α → Prop
  | ok {a a' : α} {c c' : Cursor} :
      f a = f a' → c.Alike c' → c.rest.length ≤ n → EndAlike n f (.ok a c) (.ok a' c')
  | error {d d' : Diagnostic} {c c' : Cursor} :
      d.fault = d'.fault → c.Alike c' → c.rest.length ≤ n → EndAlike n f (.error d c) (.error d' c')

/-- From cursors that look alike the rules have outcomes that are alike. -/
def RunAlike (n : Nat) (f : α → γ) (p p' : Parse α) : Prop :=
  ∀ c c' : Cursor, c.Alike c' → c.rest.length ≤ n → EndAlike c.rest.length f (p c) (p' c')

theorem EndAlike.mono {m : Nat} {f : α → γ} {out out' : EStateM.Result Diagnostic Cursor α}
    (h : EndAlike m f out out') (hmn : m ≤ n) : EndAlike n f out out' := by
  cases h with
  | ok ha hc hlength => exact .ok ha hc (Nat.le_trans hlength hmn)
  | error hd hc hlength => exact .error hd hc (Nat.le_trans hlength hmn)

/-- A chain of two rules, given the outcomes of the first ones. -/
theorem EndAlike.bind {f : α → γ} {g : β → δ} {p p' : Parse α} {k k' : α → Parse β}
    (hp : EndAlike n f (p c) (p' c'))
    (hk : ∀ a a' c₁ c₁', p c = .ok a c₁ → f a = f a' → c₁.Alike c₁' → c₁.rest.length ≤ n →
      EndAlike n g (k a c₁) (k' a' c₁')) :
    EndAlike n g ((p >>= k) c) ((p' >>= k') c') := by
  simp only [Bind.bind, EStateM.bind]
  cases hout : p c with
  | ok a c₁ =>
    rw [hout] at hp
    generalize p' c' = out' at hp
    cases hp with
    | ok ha hc hlength => exact hk _ _ _ _ hout ha hc hlength
  | error d c₁ =>
    rw [hout] at hp
    generalize p' c' = out' at hp
    cases hp with
    | error hd hc hlength => exact .error hd hc hlength

namespace RunAlike

variable {f : α → γ} {g : β → δ} {p p' : Parse α}

theorem bind {k k' : α → Parse β} (hp : RunAlike n f p p')
    (hk : ∀ a a', f a = f a' → RunAlike n g (k a) (k' a')) :
    RunAlike n g (p >>= k) (p' >>= k') := by
  intro c c' hc hn
  apply (hp c c' hc hn).bind
  intro a a' c₁ c₁' _ ha hc₁ hlength
  exact (hk a a' ha c₁ c₁' hc₁ (Nat.le_trans hlength hn)).mono hlength

/-- A rule whose values have no positions. -/
theorem bind_same {k k' : α → Parse β} (hp : RunAlike n id p p')
    (hk : ∀ a, RunAlike n g (k a) (k' a)) : RunAlike n g (p >>= k) (p' >>= k') := by
  refine hp.bind fun a a' ha => ?_
  obtain rfl : a = a' := ha
  exact hk a

theorem pure {a a' : α} (h : f a = f a') : RunAlike n f (Pure.pure a) (Pure.pure a') :=
  fun _ _ hc _ => .ok h hc (Nat.le_refl _)

theorem peek : RunAlike n Token.look peek peek :=
  fun _ _ hc _ => .ok hc.look_eq hc (Nat.le_refl _)

theorem advance : RunAlike n Token.look advance advance :=
  fun c _ hc _ => .ok hc.look_eq hc.next (next_length_le c)

theorem check (kind : TokenKind) : RunAlike n id (check kind) (check kind) := by
  intro c c' hc _
  refine .ok ?_ hc (Nat.le_refl _)
  rw [hc.kind_eq]

theorem atEnd : RunAlike n id atEnd atEnd :=
  fun _ _ hc _ => .ok hc.atEnd_eq hc (Nat.le_refl _)

/-- Looking at the cursor, if what is made of it does not depend on positions. -/
theorem get {view : Cursor → γ} (h : ∀ c c', c.Alike c' → view c = view c') :
    RunAlike n view (MonadState.get : Parse Cursor) MonadState.get :=
  fun c c' hc _ => .ok (h c c' hc) hc (Nat.le_refl _)

theorem accept (kind : TokenKind) : RunAlike n id (accept kind) (accept kind) := by
  intro c c' hc _
  rw [Syntax.accept, Syntax.accept, hc.kind_eq]
  split
  · exact .ok rfl hc.next (next_length_le c)
  · exact .ok rfl hc (Nat.le_refl _)

theorem expect (kind : TokenKind) (wanted : String) :
    RunAlike n id (expect kind wanted) (expect kind wanted) := by
  intro c c' hc _
  rw [Syntax.expect, Syntax.expect, hc.kind_eq]
  split
  · exact .ok rfl hc.next (next_length_le c)
  · refine .error ?_ hc (Nat.le_refl _)
    simp only [Token.display_eq hc.look_eq]

theorem failAt (position position' : Position) (fault : Fault) :
    RunAlike n f (failAt position fault) (failAt position' fault) :=
  fun _ _ hc _ => .error rfl hc (Nat.le_refl _)

theorem unexpected (wanted : String) : RunAlike n f (unexpected wanted) (unexpected wanted) := by
  intro c c' hc _
  refine .error ?_ hc (Nat.le_refl _)
  simp only [Token.display_eq hc.look_eq]

theorem tooDeep (what : Nesting) : RunAlike n f (tooDeep what) (tooDeep what) :=
  fun _ _ hc _ => .error rfl hc (Nat.le_refl _)

theorem identifier : RunAlike n id identifier identifier := by
  refine peek.bind fun t t' ht => ?_
  rw [Token.kind_eq ht]
  cases t'.kind with
  | ident name => exact advance.bind fun _ _ _ => .pure rfl
  | _ => exact unexpected _

theorem propertyName : RunAlike n id propertyName propertyName := by
  refine peek.bind fun t t' ht => ?_
  rw [Token.kind_eq ht, Token.text_eq ht]
  split
  · exact advance.bind fun _ _ _ => .pure rfl
  · split
    · exact advance.bind fun _ _ _ => .pure rfl
    · exact unexpected _

end RunAlike

/-! ## Repetition -/

/-- Two passes of a repetition are alike, end the repetition at the end of input, and have taken a
token where they go on. -/
structure PassAlike (f : α → γ) (c c' : Cursor)
    (out out' : EStateM.Result Diagnostic Cursor (Option α)) : Prop where
  alike : EndAlike c.rest.length (Option.map f) out out'
  ends : c.rest = [] → out = .ok none c ∧ out' = .ok none c'
  takes : ∀ {y c₁}, out = .ok (some y) c₁ → c₁.rest.length < c.rest.length

namespace PassAlike

variable {f : α → γ}

theorem stop (hc : c.Alike c') : PassAlike f c c' (.ok none c) (.ok none c') where
  alike := .ok rfl hc (Nat.le_refl _)
  ends _ := ⟨rfl, rfl⟩
  takes h := by cases h

/-- A pass that begins with a token. -/
theorem go {k k' : Token → Parse (Option α)} (hc : c.Alike c') (hn : c.rest.length ≤ n)
    (hkind : c.current.kind ≠ .eof)
    (hk : ∀ t t', t.look = t'.look → RunAlike n (Option.map f) (k t) (k' t')) :
    PassAlike f c c' ((advance >>= k) c) ((advance >>= k') c') := by
  have hle := next_length_le c
  have hrest := hk _ _ hc.look_eq c.next c'.next hc.next (Nat.le_trans hle hn)
  refine ⟨hrest.mono hle, fun hend => absurd (by rw [Cursor.current, hend]; rfl) hkind, ?_⟩
  intro y c₁ h
  have htaken := next_length_lt hkind
  rw [advance_bind] at h
  rw [h] at hrest
  generalize k' c'.current c'.next = out' at hrest
  cases hrest with
  | ok _ _ hlength => exact Nat.lt_of_le_of_lt hlength htaken

end PassAlike

theorem extend_of_stop {more : α → Parse (Option α)} {x : α} (h : more x c = .ok none c)
    (passes : Nat) : extend more passes x c = .ok x c := by
  cases passes with
  | zero => rfl
  | succ passes =>
    rw [extend, bind_of_eq_ok h]
    rfl

/-- The bounds on a repetition do not matter if there are passes for all tokens. -/
theorem extend_alike {f : α → γ} {more more' : α → Parse (Option α)}
    (hmore : ∀ x x' c c', f x = f x' → c.Alike c' → c.rest.length ≤ n →
      PassAlike f c c' (more x c) (more' x' c')) {passes passes' : Nat} (hpasses : n ≤ passes)
    (hpasses' : n ≤ passes') {x x' : α} (hx : f x = f x') :
    RunAlike n f (extend more passes x) (extend more' passes' x') := by
  intro c c' hc hn
  have hfirst := Nat.le_trans hn hpasses
  have hsecond := Nat.le_trans hn hpasses'
  clear hpasses hpasses'
  induction passes generalizing passes' x x' c c' with
  | zero =>
    have hempty := List.length_eq_zero_iff.mp (Nat.le_zero.mp hfirst)
    have hend := (hmore x x' c c' hx hc hn).ends hempty
    rw [extend_of_stop hend.1, extend_of_stop hend.2]
    exact .ok hx hc (Nat.le_refl _)
  | succ passes ih =>
    have hpass := hmore x x' c c' hx hc hn
    cases passes' with
    | zero =>
      have hend := hpass.ends (List.length_eq_zero_iff.mp (Nat.le_zero.mp hsecond))
      rw [extend_of_stop hend.1, extend_of_stop hend.2]
      exact .ok hx hc (Nat.le_refl _)
    | succ passes' =>
      apply hpass.alike.bind
      intro y y' c₁ c₁' hy hyy' hc₁ hlength
      cases y with
      | none =>
        obtain rfl : y' = none := by simpa using hyy'.symm
        exact .ok hx hc₁ hlength
      | some y =>
        obtain ⟨y', rfl, hsome⟩ : ∃ z, y' = some z ∧ f z = f y := by simpa using hyy'.symm
        have htakes := hpass.takes hy
        exact (ih hsome.symm c₁ c₁' hc₁ (by omega) (by omega) (by omega)).mono hlength

theorem commaList_of_end {close : Symbol} {item : Parse α} (h : c.rest = []) (passes : Nat)
    (done : List α) : commaList close item passes done c = .ok done.reverse c := by
  cases passes with
  | zero => rfl
  | succ passes =>
    rw [commaList, check_bind, atEnd_bind, Cursor.atEnd, h, List.isEmpty_nil, Bool.or_true,
      if_pos rfl]
    rfl

theorem map_reverse_eq {f : α → γ} {xs ys : List α} (h : xs.map f = ys.map f) :
    xs.reverse.map f = ys.reverse.map f := by
  rw [List.map_reverse, List.map_reverse, h]

theorem commaList_alike {f : α → γ} {item item' : Parse α} (hitem : RunAlike n f item item')
    (close : Symbol) {passes passes' : Nat} (hpasses : n ≤ passes) (hpasses' : n ≤ passes')
    {done done' : List α} (hdone : done.map f = done'.map f) :
    RunAlike n (List.map f) (commaList close item passes done)
      (commaList close item' passes' done') := by
  intro c c' hc hn
  have hlength := hc.length_eq
  have hfirst := Nat.le_trans hn hpasses
  have hsecond := Nat.le_trans hn hpasses'
  clear hpasses hpasses'
  induction passes generalizing passes' done done' c c' with
  | zero =>
    rw [commaList_of_end (List.length_eq_zero_iff.mp (by omega)),
      commaList_of_end (List.length_eq_zero_iff.mp (by omega))]
    exact .ok (map_reverse_eq hdone) hc (Nat.le_refl _)
  | succ passes ih =>
    cases passes' with
    | zero =>
      rw [commaList_of_end (List.length_eq_zero_iff.mp (by omega)),
        commaList_of_end (List.length_eq_zero_iff.mp (by omega))]
      exact .ok (map_reverse_eq hdone) hc (Nat.le_refl _)
    | succ passes' =>
      rw [commaList, commaList, check_bind, atEnd_bind, check_bind, atEnd_bind, hc.kind_eq,
        hc.atEnd_eq]
      split
      · exact .ok (map_reverse_eq hdone) hc (Nat.le_refl _)
      · apply (hitem c c' hc hn).bind
        intro x x' c₁ c₁' _ hx hc₁ hle
        have hmore : (x :: done).map f = (x' :: done').map f := by
          rw [List.map_cons, List.map_cons, hx, hdone]
        rw [accept_bind, accept_bind, hc₁.kind_eq]
        split
        · next hcomma =>
          -- The comma is the token that this pass has taken.
          have hkind : c₁.current.kind ≠ .eof := by simp [hc₁.kind_eq.trans hcomma]
          have htaken := next_length_lt hkind
          exact (ih hmore c₁.next c₁'.next hc₁.next (by omega) hc₁.next.length_eq (by omega)
            (by omega)).mono (by omega)
        · exact .ok (map_reverse_eq hmore) hc₁ hle

end Syntax

end Quill
