import Quill.Proofs.Syntax.Precedence

/-!
# The grammar as derivations

Which tokens spell which trees, said without a parser. `Derives level ts e` holds if the tokens `ts`
spell the expression `e` at a level of the table: an expression is one of its level's own forms, or
an expression of the next tighter level. Both operands of an operator are spelled out with their
levels, so associativity is in the rules: an operator between operands takes its own level on the
left and the next tighter one on the right, while assignment and the alternative of a conditional
repeat their own level on the right.

`Statement ts s` and `Statements ts ss` do the same for statements. A semicolon after a statement is
optional where the rule says so, and semicolons may stand alone between statements.

A derivation uses every token once and in order: the tokens of a form are those of its parts with
its own between them. Positions are part of the tree and are derived along with it. The grammar is
ambiguous, as such grammars are: it does not say to which `if` an `else` belongs, nor where an arrow
function's body ends.
-/

set_option autoImplicit false

namespace Quill.Syntax

/-- Items with commas between them. A comma may follow the last one. -/
inductive CommaList {α : Type} (item : List Token → α → Prop) : List Token → List α → Prop
  | nil : CommaList item [] []
  | last {ts : List Token} {a : α} : item ts a → CommaList item ts [a]
  | more {ts us : List Token} {comma : Token} {a : α} {as : List α} :
      item ts a → comma.kind = .symbol .comma → CommaList item us as →
      CommaList item (ts ++ comma :: us) (a :: as)

/-- A single token that spells a name. -/
def Name (ts : List Token) (name : String) : Prop := ∃ t, t.kind = .ident name ∧ ts = [t]

/-- A token that may follow a point, with the name that it gives. Reserved words are names there. -/
inductive PropertyName : Token → String → Prop
  | ident {t : Token} {name : String} : t.kind = .ident name → PropertyName t name
  | reserved {t : Token} : t.kind.isKeyword = true → PropertyName t t.text

/-- A token that may stand before the colon in an object literal, with the key that it gives. -/
inductive PropertyKey : Token → String → Prop
  | name {t : Token} {key : String} : PropertyName t key → PropertyKey t key
  | string {t : Token} {value : String} : t.kind = .string value → PropertyKey t value
  | number {t : Token} {value : Number} : t.kind = .number value → PropertyKey t value.keyText

/-- No token, or a semicolon. -/
def OptionalSemicolon (ts : List Token) : Prop :=
  ts = [] ∨ ∃ t, t.kind = .symbol .semicolon ∧ ts = [t]

/-- The word that begins a declaration: `const` or `let`. -/
def DeclarationWord (t : Token) (constant : Bool) : Prop :=
  t.kind = .keyword (if constant then .constKw else .letKw)

/-- The word between the variable and the container of a loop. -/
def TraversalWord (t : Token) : Traversal → Prop
  | .elements => t.kind = .keyword .ofKw
  | .indices => t.kind = .keyword .inKw

mutual

/-- Tokens that spell an expression at a level. -/
inductive Derives : Level → List Token → Expr → Prop
  /-- What holds together more tightly will do. -/
  | tighter {level : Level} {ts : List Token} {e : Expr} :
      Derives level.tighter ts e → Derives level ts e
  | assign {ts vs : List Token} {op : Token} {target value : Expr} :
      Derives .ternary ts target → target.isAssignable = true → op.kind = .symbol .assign →
      Derives .assignment vs value →
      Derives .assignment (ts ++ op :: vs) (.assign target value target.position)
  | compound {ts vs : List Token} {op : Token} {sym : Symbol} {which : BinaryOp}
      {target value : Expr} :
      Derives .ternary ts target → target.isAssignable = true → op.kind = .symbol sym →
      which.assignSymbol? = some sym → Derives .assignment vs value →
      Derives .assignment (ts ++ op :: vs) (.compound which target value target.position)
  | ternary {cs ts fs : List Token} {question colon : Token} {condition whenTrue whenFalse : Expr} :
      Derives .or cs condition → question.kind = .symbol .question →
      Derives .assignment ts whenTrue → colon.kind = .symbol .colon →
      Derives .ternary fs whenFalse →
      Derives .ternary (cs ++ question :: (ts ++ colon :: fs))
        (.ternary condition whenTrue whenFalse condition.position)
  /-- An operator between operands associates to the left. -/
  | infixed {op : InfixOp} {ls rs : List Token} {t : Token} {left right : Expr} :
      Derives op.level ls left → t.kind = .symbol op.symbol → Derives op.level.tighter rs right →
      Derives op.level (ls ++ t :: rs) (op.apply left right)
  | unary {op : UnaryOp} {t : Token} {ts : List Token} {operand : Expr} :
      t.kind = .symbol op.symbol → Derives .unary ts operand →
      Derives .unary (t :: ts) (.unary op operand t.position)
  | updateBefore {op : UpdateOp} {t : Token} {ts : List Token} {target : Expr} :
      t.kind = .symbol op.symbol → Derives .unary ts target →
      Derives .unary (t :: ts) (.update op true target t.position)
  | call {ts as : List Token} {opening closing : Token} {callee : Expr} {args : List Expr} :
      Derives .suffixed ts callee → opening.kind = .symbol .leftParen →
      CommaList (Derives .assignment) as args → closing.kind = .symbol .rightParen →
      Derives .suffixed (ts ++ opening :: (as ++ [closing])) (.call callee args callee.position)
  | member {ts : List Token} {dot t : Token} {object : Expr} {name : String} :
      Derives .suffixed ts object → dot.kind = .symbol .dot → PropertyName t name →
      Derives .suffixed (ts ++ [dot, t]) (.member object name false object.position)
  | optionalMember {ts : List Token} {dot t : Token} {object : Expr} {name : String} :
      Derives .suffixed ts object → dot.kind = .symbol .questionDot → PropertyName t name →
      Derives .suffixed (ts ++ [dot, t]) (.member object name true object.position)
  | index {ts us : List Token} {opening closing : Token} {object position : Expr} :
      Derives .suffixed ts object → opening.kind = .symbol .leftBracket →
      Derives .assignment us position → closing.kind = .symbol .rightBracket →
      Derives .suffixed (ts ++ opening :: (us ++ [closing]))
        (.index object position object.position)
  /-- An update behind its operand stands on the line where the operand ends. -/
  | updateAfter {op : UpdateOp} {ts : List Token} {t : Token} {target : Expr} :
      Derives .suffixed ts target → t.kind = .symbol op.symbol →
      ts.getLast?.map Token.line = some t.line →
      Derives .suffixed (ts ++ [t]) (.update op false target target.position)
  | number {t : Token} {value : Number} :
      t.kind = .number value → Derives .primary [t] (.number value t.position)
  | string {t : Token} {value : String} :
      t.kind = .string value → Derives .primary [t] (.string value t.position)
  | bool {t : Token} {value : Bool} :
      t.kind = .bool value → Derives .primary [t] (.bool value t.position)
  | null {t : Token} : t.kind = .null → Derives .primary [t] (.null t.position)
  | ident {t : Token} {name : String} :
      t.kind = .ident name → Derives .primary [t] (.ident name t.position)
  | group {ts : List Token} {opening closing : Token} {e : Expr} :
      opening.kind = .symbol .leftParen → Derives .assignment ts e →
      closing.kind = .symbol .rightParen → Derives .primary (opening :: (ts ++ [closing])) e
  | array {ts : List Token} {opening closing : Token} {items : List Expr} :
      opening.kind = .symbol .leftBracket → CommaList (Derives .assignment) ts items →
      closing.kind = .symbol .rightBracket →
      Derives .primary (opening :: (ts ++ [closing])) (.array items opening.position)
  | object {ts : List Token} {opening closing : Token} {entries : List (String × Expr)} :
      opening.kind = .symbol .leftBrace → CommaList Entry ts entries →
      closing.kind = .symbol .rightBrace →
      Derives .primary (opening :: (ts ++ [closing])) (.object entries opening.position)
  /-- `x => body` -/
  | arrowOf {t arrow : Token} {bs : List Token} {name : String} {body : FunctionBody} :
      t.kind = .ident name → arrow.kind = .symbol .arrow → ArrowBody bs body →
      Derives .primary (t :: arrow :: bs)
        (.function { name := none, params := [name], body, position := t.position })
  /-- `(a, b) => body` -/
  | arrow {opening closing arrow : Token} {ps bs : List Token} {params : List String}
      {body : FunctionBody} :
      opening.kind = .symbol .leftParen → CommaList Name ps params →
      closing.kind = .symbol .rightParen → arrow.kind = .symbol .arrow → ArrowBody bs body →
      Derives .primary (opening :: (ps ++ closing :: arrow :: bs))
        (.function { name := none, params, body, position := opening.position })
  /-- `function (a, b) { … }`, or with a name. -/
  | function {word : Token} {ns fs : List Token} {name : Option String} {definition : FunctionDef} :
      word.kind = .keyword .functionKw →
      (name = none ∧ ns = [] ∨ ∃ given, name = some given ∧ Name ns given) →
      FunctionRest name word.position fs definition →
      Derives .primary (word :: (ns ++ fs)) (.function definition)

/-- An entry of an object literal. -/
inductive Entry : List Token → String × Expr → Prop
  /-- A name alone stands for the variable. -/
  | shorthand {t : Token} {name : String} :
      t.kind = .ident name → Entry [t] (name, .ident name t.position)
  | keyed {t colon : Token} {ts : List Token} {key : String} {value : Expr} :
      PropertyKey t key → colon.kind = .symbol .colon → Derives .assignment ts value →
      Entry (t :: colon :: ts) (key, value)

/-- The body of an arrow function. -/
inductive ArrowBody : List Token → FunctionBody → Prop
  | block {ts : List Token} {stmts : List Stmt} : Block ts stmts → ArrowBody ts (.block stmts)
  | expr {ts : List Token} {e : Expr} : Derives .assignment ts e → ArrowBody ts (.expr e)

/-- Parameters and body of a `function`. -/
inductive FunctionRest : Option String → Position → List Token → FunctionDef → Prop
  | mk {name : Option String} {position : Position} {opening closing : Token} {ps bs : List Token}
      {params : List String} {stmts : List Stmt} :
      opening.kind = .symbol .leftParen → CommaList Name ps params →
      closing.kind = .symbol .rightParen → Block bs stmts →
      FunctionRest name position (opening :: (ps ++ closing :: bs))
        { name, params, body := .block stmts, position }

/-- Statements between braces. -/
inductive Block : List Token → List Stmt → Prop
  | mk {opening closing : Token} {ts : List Token} {stmts : List Stmt} :
      opening.kind = .symbol .leftBrace → Statements ts stmts →
      closing.kind = .symbol .rightBrace → Block (opening :: (ts ++ [closing])) stmts

/-- Statements, with semicolons that may stand alone between them. -/
inductive Statements : List Token → List Stmt → Prop
  | nil : Statements [] []
  | semicolon {t : Token} {ts : List Token} {stmts : List Stmt} :
      t.kind = .symbol .semicolon → Statements ts stmts → Statements (t :: ts) stmts
  | cons {ts us : List Token} {stmt : Stmt} {stmts : List Stmt} :
      Statement ts stmt → Statements us stmts → Statements (ts ++ us) (stmt :: stmts)

/-- `let` or `const`, without a semicolon. -/
inductive Declaration : List Token → Stmt → Prop
  | bare {word t : Token} {name : String} :
      DeclarationWord word false → t.kind = .ident name →
      Declaration [word, t] (.declare name false none word.position)
  | initialized {word t eq : Token} {ts : List Token} {constant : Bool} {name : String}
      {init : Expr} :
      DeclarationWord word constant → t.kind = .ident name → eq.kind = .symbol .assign →
      Derives .assignment ts init →
      Declaration (word :: t :: eq :: ts) (.declare name constant (some init) word.position)

/-- A condition in parentheses. -/
inductive Condition : List Token → Expr → Prop
  | mk {opening closing : Token} {ts : List Token} {test : Expr} :
      opening.kind = .symbol .leftParen → Derives .assignment ts test →
      closing.kind = .symbol .rightParen → Condition (opening :: (ts ++ [closing])) test

/-- An expression that may be left out. -/
inductive OptionalExpr : List Token → Option Expr → Prop
  | none : OptionalExpr [] none
  | some {ts : List Token} {e : Expr} : Derives .assignment ts e → OptionalExpr ts (some e)

/-- The first part of a counting loop. -/
inductive LoopInit : List Token → Option Stmt → Prop
  | none : LoopInit [] none
  | declaration {ts : List Token} {stmt : Stmt} : Declaration ts stmt → LoopInit ts (some stmt)
  | expr {ts : List Token} {e : Expr} : Derives .assignment ts e → LoopInit ts (some (.expr e))

/-- A `catch`, if there is one. -/
inductive CatchClause : List Token → Option Handler → Prop
  | none : CatchClause [] none
  | some {word opening t closing : Token} {bs : List Token} {param : String} {body : List Stmt} :
      word.kind = .keyword .catchKw → opening.kind = .symbol .leftParen → t.kind = .ident param →
      closing.kind = .symbol .rightParen → Block bs body →
      CatchClause (word :: opening :: t :: closing :: bs)
        (some { param, body, position := word.position })

/-- A `finally`, if there is one. -/
inductive FinallyClause : List Token → Option (List Stmt) → Prop
  | none : FinallyClause [] none
  | some {word : Token} {bs : List Token} {body : List Stmt} :
      word.kind = .keyword .finallyKw → Block bs body → FinallyClause (word :: bs) (some body)

/-- Tokens that spell a statement, with the semicolon that may end it. -/
inductive Statement : List Token → Stmt → Prop
  | declaration {ts semi : List Token} {stmt : Stmt} :
      Declaration ts stmt → OptionalSemicolon semi → Statement (ts ++ semi) stmt
  | expr {ts semi : List Token} {e : Expr} :
      Derives .assignment ts e → OptionalSemicolon semi → Statement (ts ++ semi) (.expr e)
  | ifOnly {word : Token} {cs ts : List Token} {test : Expr} {whenTrue : Stmt} :
      word.kind = .keyword .ifKw → Condition cs test → Statement ts whenTrue →
      Statement (word :: (cs ++ ts)) (.ifElse test whenTrue none word.position)
  | ifElse {word other : Token} {cs ts fs : List Token} {test : Expr} {whenTrue whenFalse : Stmt} :
      word.kind = .keyword .ifKw → Condition cs test → Statement ts whenTrue →
      other.kind = .keyword .elseKw → Statement fs whenFalse →
      Statement (word :: (cs ++ (ts ++ other :: fs)))
        (.ifElse test whenTrue (some whenFalse) word.position)
  | whileLoop {word : Token} {cs ts : List Token} {test : Expr} {body : Stmt} :
      word.kind = .keyword .whileKw → Condition cs test → Statement ts body →
      Statement (word :: (cs ++ ts)) (.whileLoop test body word.position)
  | doWhile {word again : Token} {ts cs semi : List Token} {test : Expr} {body : Stmt} :
      word.kind = .keyword .doKw → Statement ts body → again.kind = .keyword .whileKw →
      Condition cs test → OptionalSemicolon semi →
      Statement (word :: (ts ++ again :: cs) ++ semi) (.doWhile body test word.position)
  /-- `for (init; test; update) body`, every part optional. -/
  | forLoop {word opening semi₁ semi₂ closing : Token} {is cs us bs : List Token}
      {init : Option Stmt} {test update : Option Expr} {body : Stmt} :
      word.kind = .keyword .forKw → opening.kind = .symbol .leftParen → LoopInit is init →
      semi₁.kind = .symbol .semicolon → OptionalExpr cs test → semi₂.kind = .symbol .semicolon →
      OptionalExpr us update → closing.kind = .symbol .rightParen → Statement bs body →
      Statement (word :: opening :: (is ++ semi₁ :: (cs ++ semi₂ :: (us ++ closing :: bs))))
        (.forLoop init test update body word.position)
  /-- `for (let x of subject) body` and its relatives. -/
  | forEach {word opening declare t middle closing : Token} {ss bs : List Token} {name : String}
      {constant : Bool} {traversal : Traversal} {subject : Expr} {body : Stmt} :
      word.kind = .keyword .forKw → opening.kind = .symbol .leftParen →
      DeclarationWord declare constant → t.kind = .ident name → TraversalWord middle traversal →
      Derives .assignment ss subject → closing.kind = .symbol .rightParen → Statement bs body →
      Statement (word :: opening :: declare :: t :: middle :: (ss ++ closing :: bs))
        (.forEach name constant traversal subject body word.position)
  /-- A `try` has a `catch` or a `finally` or both. -/
  | tryCatch {word : Token} {bs hs fs : List Token} {body : List Stmt} {handler : Option Handler}
      {cleanup : Option (List Stmt)} :
      word.kind = .keyword .tryKw → Block bs body → CatchClause hs handler →
      FinallyClause fs cleanup → handler.isSome ∨ cleanup.isSome →
      Statement (word :: (bs ++ (hs ++ fs))) (.tryCatch body handler cleanup word.position)
  | ret {word : Token} {ts semi : List Token} {value : Option Expr} :
      word.kind = .keyword .returnKw → OptionalExpr ts value → OptionalSemicolon semi →
      Statement (word :: ts ++ semi) (.ret value word.position)
  | throw {word : Token} {ts semi : List Token} {value : Expr} :
      word.kind = .keyword .throwKw → Derives .assignment ts value → OptionalSemicolon semi →
      Statement (word :: ts ++ semi) (.throw value word.position)
  | breakLoop {word : Token} {semi : List Token} :
      word.kind = .keyword .breakKw → OptionalSemicolon semi →
      Statement (word :: semi) (.breakLoop word.position)
  | continueLoop {word : Token} {semi : List Token} :
      word.kind = .keyword .continueKw → OptionalSemicolon semi →
      Statement (word :: semi) (.continueLoop word.position)
  | block {opening : Token} {ts : List Token} {stmts : List Stmt} :
      Block (opening :: ts) stmts → Statement (opening :: ts) (.block stmts opening.position)
  | function {word t : Token} {fs : List Token} {name : String} {definition : FunctionDef} :
      word.kind = .keyword .functionKw → t.kind = .ident name →
      FunctionRest (some name) word.position fs definition →
      Statement (word :: t :: fs) (.function definition)

end

/-- No expression is spelled by no tokens. -/
theorem Derives.ne_nil {level : Level} {ts : List Token} {e : Expr} : Derives level ts e → ts ≠ []
  | .tighter h => h.ne_nil
  | .assign .. | .compound .. | .ternary .. | .infixed .. | .call .. | .member ..
  | .optionalMember .. | .index .. | .updateAfter .. => by simp
  | .unary .. | .updateBefore .. | .number .. | .string .. | .bool .. | .null .. | .ident ..
  | .group .. | .array .. | .object .. | .arrowOf .. | .arrow .. | .function .. => by simp

/-- No statement is spelled by no tokens. -/
theorem Statement.ne_nil {ts : List Token} {s : Stmt} (h : Statement ts s) : ts ≠ [] := by
  cases h with
  | declaration hdecl => cases hdecl <;> simp
  | expr he => simp [he.ne_nil]
  | _ => simp

end Quill.Syntax
