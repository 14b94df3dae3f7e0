import Quill.Proofs.Syntax.Fault.Order
import Quill.Proofs.Syntax.Layout.Rules

/-!
# Programs and their layout

Tokens that look alike are parsed alike as programs, whether or not they are well formed. A
statement that fails does so with the same fault on both sides, and recovery, which looks at kinds
only, goes on from cursors that look alike again. So the trees are the same but for their positions,
and the faults are the same, in the same order.
-/

set_option autoImplicit false

namespace Quill.Syntax

variable {n : Nat} {c c' : Cursor} {r r' : Rules} {ts ts' : List Token}

/-! ## Recovery -/

theorem Cursor.Alike.skipStatement (h : c.Alike c') :
    (skipStatement c c.rest).Alike (skipStatement c' c'.rest) := by
  obtain ⟨line, rest, finish⟩ := c
  obtain ⟨line', rest', finish'⟩ := c'
  have hrest : AlikeAfter line line' rest rest' := h
  clear h
  induction hrest with
  | nil => exact .nil
  | cons hlook hline hrest ih =>
    simp only [Syntax.skipStatement, Token.kind_eq hlook]
    split
    · exact .cons hlook hline hrest
    · split
      · exact hrest
      · exact ih

theorem Cursor.Alike.recover (h : c.Alike c') : (recover c).Alike (recover c') := by
  rw [Syntax.recover, Syntax.recover, h.kind_eq]
  split
  · exact h.next
  · exact h.next.skipStatement

/-! ## Programs -/

/-- The same trees but for their positions, and the same faults in the same order. Code and wording
of a diagnostic follow from its fault. -/
structure Parsed.Alike (p p' : Parsed) : Prop where
  statements : p.statements.map Stmt.erase = p'.statements.map Stmt.erase
  faults : p.diagnostics.map (·.fault) = p'.diagnostics.map (·.fault)

theorem statements_alike (h : r.Alike n r') (passes : Nat) (hc : c.Alike c')
    (hn : c.rest.length ≤ n) : (statements r passes c).Alike (statements r' passes c') := by
  induction passes generalizing c c' with
  | zero => exact ⟨rfl, rfl⟩
  | succ passes ih =>
    rw [statements, statements, hc.atEnd_eq, hc.kind_eq]
    split
    · exact ⟨rfl, rfl⟩
    · split
      · exact ih hc.next (Nat.le_trans (next_length_le c) hn)
      · have hstmt := h.stmt c c' hc hn
        generalize r.stmt c = out, r'.stmt c' = out' at hstmt
        cases hstmt with
        | ok hs hc₁ hle =>
          have hmore := ih hc₁ (Nat.le_trans hle hn)
          exact ⟨by simp [hs, hmore.statements], hmore.faults⟩
        | @error d d' c₁ c₁' hd hc₁ hle =>
          have hskip : (recover c₁).rest.length ≤ n := by
            have := (reaches_recover c₁).length_le
            have := next_length_le c₁
            omega
          have hmore := ih hc₁.recover hskip
          exact ⟨hmore.statements, by simp [hd, hmore.faults]⟩

/-- Up to the first end of input the lists are as long as each other and look alike. -/
theorem AlikeAfter.takeWhile {line line' : Option Nat} (h : AlikeAfter line line' ts ts') :
    AlikeAfter line line' (ts.takeWhile (·.kind != .eof)) (ts'.takeWhile (·.kind != .eof)) := by
  induction h with
  | nil => exact .nil
  | cons hlook hline _ ih =>
    simp only [List.takeWhile_cons, Token.kind_eq hlook]
    split
    · exact .cons hlook (fun hop => hline (Token.kind_eq hlook ▸ hop)) ih
    · exact .nil

/-- Tokens with the same kinds and texts, and with the same answers where it is asked whether `++`
or `--` stands on the line of the token before it, are parsed to the same trees but for positions,
and with the same faults in the same order. -/
theorem parse_ignores_layout (h : SameLayout ts ts') : (parse ts).Alike (parse ts') := by
  have hc : (Cursor.ofTokens ts).Alike (Cursor.ofTokens ts') := AlikeAfter.takeWhile h
  have hbound := Nat.le_refl (Cursor.ofTokens ts).rest.length
  rw [parse, parse, ← hc.length_eq]
  exact statements_alike (Rules.alike_atDepth hbound hbound maxNesting) _ hc hbound

/-- The tokens of `a ++ b; ); let c`, each where `p` says. -/
def updateAndFault (p : Nat → Position) : List Token :=
  [⟨.ident "a", "a", p 0⟩, ⟨.symbol .plusPlus, "++", p 1⟩, ⟨.ident "b", "b", p 2⟩,
    ⟨.symbol .semicolon, ";", p 3⟩, ⟨.symbol .rightParen, ")", p 4⟩,
    ⟨.symbol .semicolon, ";", p 5⟩, ⟨.keyword .letKw, "let", p 6⟩, ⟨.ident "c", "c", p 7⟩,
    ⟨.eof, "", p 8⟩]

/-- On two lines with the `++` on the second one, and with every token on a line of its own. -/
theorem updateAndFault_alike :
    let p : Nat → Position := fun i => ⟨if i = 0 then 1 else 2, i⟩
    let q : Nat → Position := fun i => ⟨3 * i + 1, 1⟩
    SameLayout (updateAndFault p) (updateAndFault q) ∧
    (parse (updateAndFault p)).statements =
      [.expr (.ident "a" (p 0)), .expr (.update .increment true (.ident "b" (p 2)) (p 1)),
        .declare "c" false none (p 6)] ∧
    (parse (updateAndFault p)).diagnostics = [⟨.unexpected "expression" "`)`", p 4⟩] ∧
    (parse (updateAndFault p)).Alike (parse (updateAndFault q)) := by
  intro p q
  have hlayout : SameLayout (updateAndFault p) (updateAndFault q) := by
    refine .cons rfl nofun (.cons rfl (fun _ => rfl) ?_)
    exact .cons rfl nofun (.cons rfl nofun (.cons rfl nofun (.cons rfl nofun (.cons rfl nofun
      (.cons rfl nofun (.cons rfl nofun .nil))))))
  exact ⟨hlayout, rfl, rfl, parse_ignores_layout hlayout⟩

end Quill.Syntax
