import Quill.Syntax.Grammar
import Quill.Token.Lexer

/-!
# Programs

A program is a list of statements. A statement that cannot be parsed is reported once and skipped:
parsing starts afresh after a semicolon or in front of a word that begins a statement, so that one
pass reports every independent fault.
-/

set_option autoImplicit false

namespace Quill

namespace Syntax

/-- Skips to after a semicolon, or to a word that begins a statement. -/
def skipStatement (c : Cursor) : List Token → Cursor
  | [] => c
  | t :: ts =>
    if t.kind.startsStatement then c
    else if t.kind = .symbol .semicolon then c.next
    else skipStatement c.next ts

/-- Where to go on after a fault. The token at fault is always passed, whatever it is. -/
def recover (c : Cursor) : Cursor :=
  if c.current.kind = .symbol .semicolon then c.next else skipStatement c.next c.next.rest

/-- Statements and diagnostics. -/
structure Parsed where
  statements : List Stmt
  diagnostics : List Diagnostic

/-- The statements from a cursor on. Every pass takes a token, so as many passes as tokens do. -/
def statements (r : Rules) : Nat → Cursor → Parsed
  | 0, _ => ⟨[], []⟩
  | passes + 1, c =>
    if c.atEnd then ⟨[], []⟩
    else if c.current.kind = .symbol .semicolon then statements r passes c.next
    else
      match r.stmt c with
      | .ok stmt c' =>
        let more := statements r passes c'
        ⟨stmt :: more.statements, more.diagnostics⟩
      | .error d c' =>
        let more := statements r passes (recover c')
        ⟨more.statements, d :: more.diagnostics⟩

/-- The program that a list of tokens spells, and all that is wrong with it. -/
def parse (tokens : List Token) : Parsed :=
  let c := Cursor.ofTokens tokens
  statements (Rules.atDepth c.rest.length maxNesting) c.rest.length c

end Syntax

/-- The statements of a source, or what is wrong with it. Faults of the grammar are looked for only
in a source without faulty characters. -/
def compile (source : String) : Except (List Diagnostic) (List Stmt) :=
  let lexed := tokenize source
  if lexed.diagnostics.isEmpty then
    let parsed := Syntax.parse lexed.tokens
    if parsed.diagnostics.isEmpty then .ok parsed.statements else .error parsed.diagnostics
  else .error lexed.diagnostics

/-- A source that compiles has no faults, and its program is what the parser returns. -/
theorem of_compile_eq_ok {source : String} {program : List Stmt}
    (h : compile source = .ok program) :
    (Syntax.parse (tokenize source).tokens).diagnostics = [] ∧
      (Syntax.parse (tokenize source).tokens).statements = program := by
  unfold compile at h
  dsimp only at h
  split at h
  · split at h
    · next hnone =>
      cases h
      exact ⟨List.isEmpty_iff.mp hnone, rfl⟩
    · cases h
  · cases h

end Quill
