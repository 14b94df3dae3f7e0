import Mathlib.Data.List.Forall2
import Quill.Proofs.Syntax.Precedence

/-!
# Writing expressions

The tokens of an expression, with parentheses around an operand exactly where it holds together less
tightly than its place asks for. The table of levels says both: the level of an expression is that
of its outermost form, and a form gives each of its operands a level. The rendering covers the
expressions without function literals.

Two more notions belong to it. `Expr.nesting` counts the counted rules that are open at the deepest
point while the rendering is read, and `Expr.Alike` compares trees without their positions, which a
rendering does not keep.
-/

set_option autoImplicit false

namespace Quill

open Syntax

namespace Syntax.Level

/-- The tokens of an operand in a place: in parentheses if its own level is too low. -/
def wrap (place own : Level) (kinds : List TokenKind) : List TokenKind :=
  if place ≤ own then kinds else .symbol .leftParen :: (kinds ++ [.symbol .rightParen])

/-- The counted rules of an operand in a place. Parentheses open one more. -/
def nestingAt (place own : Level) (nesting : Nat) : Nat :=
  if place ≤ own then nesting else nesting + 1

end Syntax.Level

namespace Expr

/-- The level of the outermost form. -/
def level : Expr → Level
  | assign .. | compound .. => .assignment
  | ternary .. => .ternary
  | binary op .. => (InfixOp.binary op).level
  | logical op .. => (InfixOp.logical op).level
  | unary .. | update _ true .. => .unary
  | call .. | member .. | index .. | update _ false .. => .suffixed
  | number .. | string .. | bool .. | null .. | ident .. | array .. | object .. | function .. =>
    .primary

end Expr

/-- An operator with its operands, which associates to the left. -/
def Syntax.InfixOp.render (op : InfixOp) (left right : Level × List TokenKind) : List TokenKind :=
  op.level.wrap left.1 left.2 ++ .symbol op.symbol :: op.level.tighter.wrap right.1 right.2

/-- Pieces with commas between them. -/
def commaSeparated : List (List TokenKind) → List TokenKind
  | [] => []
  | [piece] => piece
  | piece :: pieces => piece ++ .symbol .comma :: commaSeparated pieces

/-- The point in front of a member. -/
def memberPoint (optional : Bool) : Symbol := if optional then .questionDot else .dot

mutual

/-- The tokens of an expression. -/
def Expr.render : Expr → List TokenKind
  | .number value _ => [.number value]
  | .string value _ => [.string value]
  | .bool value _ => [.bool value]
  | .null _ => [.null]
  | .ident name _ => [.ident name]
  | .array items _ =>
    .symbol .leftBracket :: (commaSeparated (renderAll items) ++ [.symbol .rightBracket])
  | .object entries _ =>
    .symbol .leftBrace :: (commaSeparated (renderEntries entries) ++ [.symbol .rightBrace])
  | .binary op left right _ =>
    (InfixOp.binary op).render (left.level, left.render) (right.level, right.render)
  | .logical op left right _ =>
    (InfixOp.logical op).render (left.level, left.render) (right.level, right.render)
  | .unary op operand _ => .symbol op.symbol :: Level.unary.wrap operand.level operand.render
  | .call callee args _ =>
    Level.suffixed.wrap callee.level callee.render ++
      .symbol .leftParen :: (commaSeparated (renderAll args) ++ [.symbol .rightParen])
  | .member object name optional _ =>
    -- Behind a point reserved words are names, so every name is written as the word it is.
    Level.suffixed.wrap object.level object.render ++
      [.symbol (memberPoint optional), TokenKind.ofWord name]
  | .index object index _ =>
    Level.suffixed.wrap object.level object.render ++
      .symbol .leftBracket :: (index.render ++ [.symbol .rightBracket])
  | .ternary condition whenTrue whenFalse _ =>
    Level.or.wrap condition.level condition.render ++
      .symbol .question :: (whenTrue.render ++
        .symbol .colon :: Level.ternary.wrap whenFalse.level whenFalse.render)
  | .update op true target _ => .symbol op.symbol :: Level.unary.wrap target.level target.render
  | .update op false target _ =>
    Level.suffixed.wrap target.level target.render ++ [.symbol op.symbol]
  | .assign target value _ =>
    Level.ternary.wrap target.level target.render ++ .symbol .assign :: value.render
  | .compound op target value _ =>
    Level.ternary.wrap target.level target.render ++
      (op.assignSymbol?.map TokenKind.symbol).toList ++ value.render
  -- Function literals are left out.
  | .function _ => []

/-- The tokens of each expression of a list. -/
def renderAll : List Expr → List (List TokenKind)
  | [] => []
  | e :: es => e.render :: renderAll es

/-- The tokens of each entry of an object literal. Keys are written as strings. -/
def renderEntries : List (String × Expr) → List (List TokenKind)
  | [] => []
  | (key, value) :: entries =>
    (.string key :: .symbol .colon :: value.render) :: renderEntries entries

end

mutual

/-- The counted rules that are open at the deepest point inside an expression: one for each
assignment, operator in front and alternative of a conditional around that point. The expression
itself is not counted. -/
def Expr.nesting : Expr → Nat
  | .array items _ => nestingAll items
  | .object entries _ => nestingEntries entries
  | .binary op left right _ =>
    max ((InfixOp.binary op).level.nestingAt left.level left.nesting)
      ((InfixOp.binary op).level.tighter.nestingAt right.level right.nesting)
  | .logical op left right _ =>
    max ((InfixOp.logical op).level.nestingAt left.level left.nesting)
      ((InfixOp.logical op).level.tighter.nestingAt right.level right.nesting)
  | .unary _ operand _ => Level.unary.nestingAt operand.level operand.nesting + 1
  | .call callee args _ =>
    max (Level.suffixed.nestingAt callee.level callee.nesting) (nestingAll args)
  | .member object _ _ _ => Level.suffixed.nestingAt object.level object.nesting
  | .index object index _ =>
    max (Level.suffixed.nestingAt object.level object.nesting) (index.nesting + 1)
  | .ternary condition whenTrue whenFalse _ =>
    max (Level.or.nestingAt condition.level condition.nesting)
      (max (whenTrue.nesting + 1) (Level.ternary.nestingAt whenFalse.level whenFalse.nesting + 1))
  | .update _ true target _ => Level.unary.nestingAt target.level target.nesting + 1
  | .update _ false target _ => Level.suffixed.nestingAt target.level target.nesting
  | .assign target value _ | .compound _ target value _ =>
    max (Level.ternary.nestingAt target.level target.nesting) (value.nesting + 1)
  | .number .. | .string .. | .bool .. | .null .. | .ident .. | .function _ => 0

/-- The counted rules inside the items of a list, each of which is an assignment. -/
def nestingAll : List Expr → Nat
  | [] => 0
  | e :: es => max (e.nesting + 1) (nestingAll es)

/-- The counted rules inside the values of an object literal. -/
def nestingEntries : List (String × Expr) → Nat
  | [] => 0
  | (_, value) :: entries => max (value.nesting + 1) (nestingEntries entries)

end

namespace Expr

/-- The expressions that are rendered: no function literals, assignments to what can be assigned to,
and with an operator only where it has a spelling. -/
inductive Renderable : Expr → Prop
  | number {value : Number} {p : Position} : Renderable (.number value p)
  | string {value : String} {p : Position} : Renderable (.string value p)
  | bool {value : Bool} {p : Position} : Renderable (.bool value p)
  | null {p : Position} : Renderable (.null p)
  | ident {name : String} {p : Position} : Renderable (.ident name p)
  | array {items : List Expr} {p : Position} :
      (∀ e ∈ items, Renderable e) → Renderable (.array items p)
  | object {entries : List (String × Expr)} {p : Position} :
      (∀ entry ∈ entries, Renderable entry.2) → Renderable (.object entries p)
  | binary {op : BinaryOp} {left right : Expr} {p : Position} :
      Renderable left → Renderable right → Renderable (.binary op left right p)
  | logical {op : LogicalOp} {left right : Expr} {p : Position} :
      Renderable left → Renderable right → Renderable (.logical op left right p)
  | unary {op : UnaryOp} {operand : Expr} {p : Position} :
      Renderable operand → Renderable (.unary op operand p)
  | call {callee : Expr} {args : List Expr} {p : Position} :
      Renderable callee → (∀ e ∈ args, Renderable e) → Renderable (.call callee args p)
  | member {object : Expr} {name : String} {optional : Bool} {p : Position} :
      Renderable object → Renderable (.member object name optional p)
  | index {object index : Expr} {p : Position} :
      Renderable object → Renderable index → Renderable (.index object index p)
  | ternary {condition whenTrue whenFalse : Expr} {p : Position} :
      Renderable condition → Renderable whenTrue → Renderable whenFalse →
      Renderable (.ternary condition whenTrue whenFalse p)
  | update {op : UpdateOp} {before : Bool} {target : Expr} {p : Position} :
      Renderable target → Renderable (.update op before target p)
  | assign {target value : Expr} {p : Position} :
      target.isAssignable = true → Renderable target → Renderable value →
      Renderable (.assign target value p)
  | compound {op : BinaryOp} {sym : Symbol} {target value : Expr} {p : Position} :
      op.assignSymbol? = some sym → target.isAssignable = true → Renderable target →
      Renderable value → Renderable (.compound op target value p)

/-- The same expression but for positions, on the expressions that are rendered. -/
inductive Alike : Expr → Expr → Prop
  | number {value : Number} {p q : Position} : Alike (.number value p) (.number value q)
  | string {value : String} {p q : Position} : Alike (.string value p) (.string value q)
  | bool {value : Bool} {p q : Position} : Alike (.bool value p) (.bool value q)
  | null {p q : Position} : Alike (.null p) (.null q)
  | ident {name : String} {p q : Position} : Alike (.ident name p) (.ident name q)
  | array {items items' : List Expr} {p q : Position} :
      List.Forall₂ Alike items items' → Alike (.array items p) (.array items' q)
  | object {entries entries' : List (String × Expr)} {p q : Position} :
      entries.map Prod.fst = entries'.map Prod.fst →
      List.Forall₂ Alike (entries.map Prod.snd) (entries'.map Prod.snd) →
      Alike (.object entries p) (.object entries' q)
  | binary {op : BinaryOp} {left left' right right' : Expr} {p q : Position} :
      Alike left left' → Alike right right' →
      Alike (.binary op left right p) (.binary op left' right' q)
  | logical {op : LogicalOp} {left left' right right' : Expr} {p q : Position} :
      Alike left left' → Alike right right' →
      Alike (.logical op left right p) (.logical op left' right' q)
  | unary {op : UnaryOp} {operand operand' : Expr} {p q : Position} :
      Alike operand operand' → Alike (.unary op operand p) (.unary op operand' q)
  | call {callee callee' : Expr} {args args' : List Expr} {p q : Position} :
      Alike callee callee' → List.Forall₂ Alike args args' →
      Alike (.call callee args p) (.call callee' args' q)
  | member {object object' : Expr} {name : String} {optional : Bool} {p q : Position} :
      Alike object object' →
      Alike (.member object name optional p) (.member object' name optional q)
  | index {object object' index index' : Expr} {p q : Position} :
      Alike object object' → Alike index index' →
      Alike (.index object index p) (.index object' index' q)
  | ternary {condition condition' whenTrue whenTrue' whenFalse whenFalse' : Expr} {p q : Position} :
      Alike condition condition' → Alike whenTrue whenTrue' → Alike whenFalse whenFalse' →
      Alike (.ternary condition whenTrue whenFalse p) (.ternary condition' whenTrue' whenFalse' q)
  | update {op : UpdateOp} {before : Bool} {target target' : Expr} {p q : Position} :
      Alike target target' → Alike (.update op before target p) (.update op before target' q)
  | assign {target target' value value' : Expr} {p q : Position} :
      Alike target target' → Alike value value' →
      Alike (.assign target value p) (.assign target' value' q)
  | compound {op : BinaryOp} {target target' value value' : Expr} {p q : Position} :
      Alike target target' → Alike value value' →
      Alike (.compound op target value p) (.compound op target' value' q)

/-- The same key with the same expression but for positions. -/
def AlikeEntry (a b : String × Expr) : Prop := a.1 = b.1 ∧ Alike a.2 b.2

theorem Alike.object_of_entries {entries entries' : List (String × Expr)} {p q : Position}
    (h : List.Forall₂ AlikeEntry entries entries') :
    Alike (.object entries p) (.object entries' q) := by
  suffices hparts : entries.map Prod.fst = entries'.map Prod.fst ∧
      List.Forall₂ Alike (entries.map Prod.snd) (entries'.map Prod.snd) from
    .object hparts.1 hparts.2
  induction h with
  | nil => exact ⟨rfl, .nil⟩
  | cons hentry _ ih => exact ⟨by simp [hentry.1, ih.1], .cons hentry.2 ih.2⟩

/-- What can be assigned to does not depend on positions. -/
theorem Alike.isAssignable_eq {e e' : Expr} (h : Alike e e') :
    e.isAssignable = e'.isAssignable := by
  cases h with
  | @member _ _ _ optional _ _ _ => cases optional <;> rfl
  | _ => rfl

end Expr

theorem renderAll_eq_map (items : List Expr) : renderAll items = items.map Expr.render := by
  induction items with
  | nil => rfl
  | cons e es ih => rw [renderAll, ih, List.map_cons]

theorem renderEntries_eq_map (entries : List (String × Expr)) :
    renderEntries entries =
      entries.map fun entry => .string entry.1 :: .symbol .colon :: entry.2.render := by
  induction entries with
  | nil => rfl
  | cons entry entries ih => rw [renderEntries, ih, List.map_cons]

theorem nesting_lt_nestingAll {items : List Expr} {e : Expr} (h : e ∈ items) :
    e.nesting + 1 ≤ nestingAll items := by
  induction items with
  | nil => cases h
  | cons first others ih =>
    rw [nestingAll]
    rcases List.mem_cons.mp h with rfl | hmem
    · exact Nat.le_max_left ..
    · exact Nat.le_trans (ih hmem) (Nat.le_max_right ..)

theorem nesting_lt_nestingEntries {entries : List (String × Expr)} {entry : String × Expr}
    (h : entry ∈ entries) : entry.2.nesting + 1 ≤ nestingEntries entries := by
  induction entries with
  | nil => cases h
  | cons first others ih =>
    rw [nestingEntries]
    rcases List.mem_cons.mp h with rfl | hmem
    · exact Nat.le_max_left ..
    · exact Nat.le_trans (ih hmem) (Nat.le_max_right ..)

/-! ## The first token -/

/-- Tokens of which the first closes nothing. -/
def Begins (kinds : List TokenKind) : Prop :=
  ∃ k ks, kinds = k :: ks ∧ k ≠ .symbol .rightParen ∧ k ≠ .symbol .rightBracket

namespace Begins

theorem append {kinds : List TokenKind} (h : Begins kinds) (more : List TokenKind) :
    Begins (kinds ++ more) := by
  obtain ⟨k, ks, rfl, hk⟩ := h
  exact ⟨k, ks ++ more, rfl, hk⟩

theorem wrap {kinds : List TokenKind} (h : Begins kinds) (place own : Level) :
    Begins (place.wrap own kinds) := by
  unfold Level.wrap
  split
  · exact h
  · exact ⟨_, _, rfl, nofun, nofun⟩

end Begins

/-- An expression does not begin with a token that closes a list. -/
theorem Expr.Renderable.begins {e : Expr} (h : e.Renderable) : Begins e.render := by
  induction h with
  | binary _ _ ihl _ => exact (ihl.wrap _ _).append _
  | logical _ _ ihl _ => exact (ihl.wrap _ _).append _
  | call _ _ ih _ => exact (ih.wrap _ _).append _
  | member _ ih => exact (ih.wrap _ _).append _
  | index _ _ ih _ => exact (ih.wrap _ _).append _
  | ternary _ _ _ ih _ _ => exact (ih.wrap _ _).append _
  | assign _ _ _ ih _ => exact (ih.wrap _ _).append _
  | compound _ _ _ _ ih _ => exact ((ih.wrap _ _).append _).append _
  | @unary op _ _ _ _ => cases op <;> exact ⟨_, _, rfl, nofun, nofun⟩
  | @update op before _ _ _ ih =>
    cases before with
    | true => cases op <;> exact ⟨_, _, rfl, nofun, nofun⟩
    | false => exact (ih.wrap _ _).append _
  | _ => exact ⟨_, _, rfl, nofun, nofun⟩

/-! ## No arrows -/

theorem mem_commaSeparated {k : TokenKind} {pieces : List (List TokenKind)}
    (h : k ∈ commaSeparated pieces) : k = .symbol .comma ∨ ∃ piece ∈ pieces, k ∈ piece := by
  induction pieces with
  | nil => cases h
  | cons piece pieces ih =>
    cases pieces with
    | nil => exact .inr ⟨piece, List.mem_cons_self, h⟩
    | cons next pieces =>
      rw [commaSeparated, List.mem_append, List.mem_cons] at h
      · rcases h with hpiece | rfl | hmore
        · exact .inr ⟨piece, List.mem_cons_self, hpiece⟩
        · exact .inl rfl
        · rcases ih hmore with hcomma | ⟨other, hother, hk⟩
          · exact .inl hcomma
          · exact .inr ⟨other, List.mem_cons_of_mem _ hother, hk⟩
      · nofun

/-- Tokens without an arrow among them. -/
def NoArrow (kinds : List TokenKind) : Prop := .symbol .arrow ∉ kinds

namespace NoArrow

theorem nil : NoArrow [] := nofun

theorem cons {k : TokenKind} {ks : List TokenKind} (hk : k ≠ .symbol .arrow) (h : NoArrow ks) :
    NoArrow (k :: ks) := by
  intro hmem
  rcases List.mem_cons.mp hmem with heq | hks
  · exact hk heq.symm
  · exact h hks

theorem append {ks ks' : List TokenKind} (h : NoArrow ks) (h' : NoArrow ks') :
    NoArrow (ks ++ ks') := by
  intro hmem
  rcases List.mem_append.mp hmem with hks | hks'
  · exact h hks
  · exact h' hks'

theorem wrap {ks : List TokenKind} (h : NoArrow ks) (place own : Level) :
    NoArrow (place.wrap own ks) := by
  unfold Level.wrap
  split
  · exact h
  · exact cons nofun (h.append (cons nofun nil))

theorem commaSeparated {pieces : List (List TokenKind)} (h : ∀ piece ∈ pieces, NoArrow piece) :
    NoArrow (commaSeparated pieces) := by
  intro hmem
  rcases mem_commaSeparated hmem with hcomma | ⟨piece, hpiece, hk⟩
  · cases hcomma
  · exact h piece hpiece hk

end NoArrow

/-- The word that a token spells. -/
def TokenKind.word? : TokenKind → Option String
  | .keyword word => some word.spelling
  | .bool value => some (if value then "true" else "false")
  | .null => some "null"
  | .ident name => some name
  | _ => none

theorem TokenKind.word?_ofWord (word : String) : (ofWord word).word? = some word := by
  unfold ofWord
  split
  · next reserved hfind =>
    have hspelling := List.find?_some hfind
    exact congrArg some (eq_of_beq hspelling)
  · split
    · next h => exact congrArg some h.symm
    · split
      · next h => exact congrArg some h.symm
      · split
        · next h => exact congrArg some h.symm
        · rfl

theorem TokenKind.ofWord_injective {a b : String} (h : ofWord a = ofWord b) : a = b := by
  have hword := word?_ofWord a
  rw [h, word?_ofWord] at hword
  exact (Option.some.inj hword).symm

theorem TokenKind.ofWord_eq_ident_or_isKeyword (word : String) :
    ofWord word = .ident word ∨ (ofWord word).isKeyword = true := by
  unfold ofWord
  split
  · exact .inr rfl
  · split
    · exact .inr rfl
    · split
      · exact .inr rfl
      · split
        · exact .inr rfl
        · exact .inl rfl

theorem TokenKind.ofWord_ne_symbol (word : String) (sym : Symbol) : ofWord word ≠ .symbol sym := by
  intro h
  have hword := word?_ofWord word
  rw [h] at hword
  cases hword

/-- A token that is a reserved word has the text of that word. -/
def Token.Spelled (t : Token) : Prop := t.kind.isKeyword = true → TokenKind.ofWord t.text = t.kind

instance (t : Token) : Decidable t.Spelled :=
  inferInstanceAs (Decidable (t.kind.isKeyword = true → TokenKind.ofWord t.text = t.kind))

theorem Expr.Renderable.noArrow {e : Expr} (h : e.Renderable) : NoArrow e.render := by
  induction h with
  | array _ ih =>
    refine .cons nofun ((NoArrow.commaSeparated ?_).append (.cons nofun .nil))
    rw [renderAll_eq_map]
    simpa using ih
  | object _ ih =>
    refine .cons nofun ((NoArrow.commaSeparated ?_).append (.cons nofun .nil))
    rw [renderEntries_eq_map]
    intro piece hpiece
    obtain ⟨entry, hentry, rfl⟩ := List.mem_map.mp hpiece
    exact .cons nofun (.cons nofun (ih entry hentry))
  | @binary op _ _ _ _ _ ihl ihr =>
    refine (ihl.wrap _ _).append (.cons ?_ (ihr.wrap _ _))
    cases op <;> nofun
  | @logical op _ _ _ _ _ ihl ihr =>
    refine (ihl.wrap _ _).append (.cons ?_ (ihr.wrap _ _))
    cases op <;> nofun
  | @unary op _ _ _ ih =>
    refine .cons ?_ (ih.wrap _ _)
    cases op <;> nofun
  | call _ _ ih ihs =>
    refine (ih.wrap _ _).append (.cons nofun (.append (.commaSeparated ?_) (.cons nofun .nil)))
    rw [renderAll_eq_map]
    simpa using ihs
  | @member _ name optional _ _ ih =>
    refine (ih.wrap _ _).append (.cons ?_ (.cons (TokenKind.ofWord_ne_symbol name _) .nil))
    cases optional <;> nofun
  | index _ _ ih ihi =>
    exact (ih.wrap _ _).append (.cons nofun (ihi.append (.cons nofun .nil)))
  | ternary _ _ _ ihc iht ihf =>
    exact (ihc.wrap _ _).append (.cons nofun (iht.append (.cons nofun (ihf.wrap _ _))))
  | @update op before _ _ _ ih =>
    cases before with
    | true =>
      refine .cons ?_ (ih.wrap _ _)
      cases op <;> nofun
    | false =>
      refine (ih.wrap _ _).append (.cons ?_ .nil)
      cases op <;> nofun
  | assign _ _ _ iht ihv => exact (iht.wrap _ _).append (.cons nofun ihv)
  | @compound op sym _ _ _ hsym _ _ _ iht ihv =>
    rw [Expr.render, hsym]
    refine ((iht.wrap _ _).append (.cons ?_ .nil)).append ihv
    cases op <;> cases hsym <;> nofun
  | _ => exact .cons nofun .nil

end Quill
