import Quill.Proofs.Erasure.Basic
import Quill.Proofs.Syntax.Layout.Runs

/-!
# Layout, rule by rule

On tokens that look alike every rule of the grammar returns the same tree but for its positions, or
fails with the same fault, given that the four counted rules do so one level deeper. There is one
lemma for each rule, in the order of the grammar. The line of a token is asked for in one place, for
an update behind its operand, and there the answers are the same by assumption.
-/

set_option autoImplicit false

namespace Quill

namespace Syntax

variable {α : Type} {n : Nat} {c c' : Cursor} {r r' : Rules}

/-- The counted rules are alike, and either has passes for all tokens. -/
structure Rules.Alike (n : Nat) (r r' : Rules) : Prop where
  passes : n ≤ r.passes
  passes' : n ≤ r'.passes
  sound : r.Sound
  stmt : RunAlike n Stmt.erase r.stmt r'.stmt
  assignment : RunAlike n Expr.erase r.assignment r'.assignment
  ternary : RunAlike n Expr.erase r.ternary r'.ternary
  unary : RunAlike n Expr.erase r.unary r'.unary

/-! ## Blocks and functions -/

theorem blockItem_alike (h : r.Alike n r') {done done' : List Stmt}
    (hdone : eraseStmts done = eraseStmts done') (hc : c.Alike c') (hn : c.rest.length ≤ n) :
    PassAlike eraseStmts c c' (blockItem r done c) (blockItem r' done' c') where
  alike := by
    have hitem : RunAlike n (Option.map eraseStmts) (blockItem r done) (blockItem r' done') := by
      refine (RunAlike.check _).bind_same fun _ => RunAlike.atEnd.bind_same fun _ => ?_
      split
      · exact .pure rfl
      · refine (RunAlike.accept _).bind_same fun _ => ?_
        split
        · exact .pure (congrArg some hdone)
        · refine h.stmt.bind fun s s' hs => .pure ?_
          simp [eraseStmts, hs, hdone]
    exact hitem c c' hc hn
  ends hend := by
    have hend' : c'.rest = [] := by
      rw [← List.length_eq_zero_iff, ← hc.length_eq, hend, List.length_nil]
    rw [blockItem, blockItem, check_bind, check_bind, atEnd_bind, atEnd_bind, Cursor.atEnd,
      Cursor.atEnd, hend, hend']
    simp only [List.isEmpty_nil, Bool.or_true, if_true]
    exact ⟨rfl, rfl⟩
  takes hout := by
    rw [blockItem, check_bind, atEnd_bind] at hout
    split at hout
    · cases hout
    · rcases of_accept_bind hout with ⟨hsemicolon, hout⟩ | ⟨-, hout⟩
      · cases hout
        exact next_length_lt (by simp [hsemicolon])
      · obtain ⟨stmt, c₁, hstmt, hout⟩ := of_bind_eq_ok hout
        cases hout
        exact stmt_length_lt h.sound hstmt

theorem block_alike (h : r.Alike n r') : RunAlike n eraseStmts (block r) (block r') := by
  refine (RunAlike.expect _ _).bind_same fun _ => ?_
  refine (extend_alike (fun _ _ _ _ => blockItem_alike h) h.passes h.passes' rfl).bind
    fun done done' hdone => ?_
  refine (RunAlike.expect _ _).bind_same fun _ => .pure ?_
  rw [eraseStmts_eq_map, eraseStmts_eq_map] at hdone ⊢
  exact map_reverse_eq hdone

theorem params_alike (h : r.Alike n r') : RunAlike n id (params r) (params r') := by
  rw [← List.map_id_fun]
  exact commaList_alike RunAlike.identifier _ h.passes h.passes' rfl

theorem functionRest_alike (h : r.Alike n r') (name : Option String)
    (position position' : Position) : RunAlike n FunctionDef.erase (functionRest r name position)
      (functionRest r' name position') := by
  refine (RunAlike.expect _ _).bind_same fun _ => ?_
  refine (params_alike h).bind_same fun _ => ?_
  refine (RunAlike.expect _ _).bind_same fun _ => ?_
  refine (block_alike h).bind fun body body' hbody => .pure ?_
  simp [hbody]

theorem arrowBody_alike (h : r.Alike n r') :
    RunAlike n FunctionBody.erase (arrowBody r) (arrowBody r') := by
  refine (RunAlike.check _).bind_same fun brace => ?_
  split
  · refine (block_alike h).bind fun body body' hbody => .pure ?_
    simp [hbody]
  · refine h.assignment.bind fun e e' he => .pure ?_
    simp [he]

theorem arrowFunction_alike (h : r.Alike n r') :
    RunAlike n Expr.erase (arrowFunction r) (arrowFunction r') := by
  refine RunAlike.peek.bind fun _ _ _ => (RunAlike.expect _ _).bind_same fun _ => ?_
  refine (params_alike h).bind_same fun _ => (RunAlike.expect _ _).bind_same fun _ => ?_
  refine (RunAlike.expect _ _).bind_same fun _ => ?_
  refine (arrowBody_alike h).bind fun body body' hbody => .pure ?_
  simp [hbody]

/-! ## Operands -/

theorem propertyKey?_eq {t t' : Token} (h : t.look = t'.look) :
    propertyKey? t = propertyKey? t' := by
  rw [propertyKey?, propertyKey?, Token.kind_eq h, Token.text_eq h]

theorem property_alike (h : r.Alike n r') : RunAlike n eraseEntry (property r) (property r') := by
  refine RunAlike.advance.bind fun t t' ht => ?_
  rw [propertyKey?_eq ht, Token.kind_eq ht]
  cases propertyKey? t' with
  | none => exact .failAt _ _ _
  | some key =>
    refine (RunAlike.check _).bind_same fun comma => ?_
    refine (RunAlike.check _).bind_same fun brace => ?_
    split
    · exact .pure rfl
    · refine (RunAlike.expect _ _).bind_same fun _ => h.assignment.bind fun e e' he => .pure ?_
      simp [eraseEntry, he]

theorem objectLiteral_alike (h : r.Alike n r') :
    RunAlike n Expr.erase (objectLiteral r) (objectLiteral r') := by
  refine RunAlike.peek.bind fun _ _ _ => (RunAlike.expect _ _).bind_same fun _ => ?_
  refine (commaList_alike (property_alike h) _ h.passes h.passes' rfl).bind
    fun entries entries' hentries => ?_
  refine (RunAlike.expect _ _).bind_same fun _ => .pure ?_
  simp [eraseEntries_eq_map, hentries]

theorem arrayLiteral_alike (h : r.Alike n r') :
    RunAlike n Expr.erase (arrayLiteral r) (arrayLiteral r') := by
  refine RunAlike.advance.bind fun _ _ _ => ?_
  refine (commaList_alike h.assignment _ h.passes h.passes' rfl).bind fun items items' hitems => ?_
  refine (RunAlike.expect _ _).bind_same fun _ => .pure ?_
  simp [eraseExprs_eq_map, hitems]

theorem parenthesized_alike (h : r.Alike n r') :
    RunAlike n Expr.erase (parenthesized r) (parenthesized r') := by
  have hview : ∀ c c' : Cursor, c.Alike c' → arrowAhead 0 c.rest = arrowAhead 0 c'.rest :=
    fun _ _ hc => AlikeAfter.arrowAhead_eq hc 0
  refine (RunAlike.get hview).bind fun c c' hahead => ?_
  rw [hahead]
  split
  · exact arrowFunction_alike h
  · refine RunAlike.advance.bind fun _ _ _ => h.assignment.bind fun _ _ he => ?_
    exact (RunAlike.expect _ _).bind_same fun _ => .pure he

theorem nameOrArrow_alike (h : r.Alike n r') (name : String) :
    RunAlike n Expr.erase (nameOrArrow r name) (nameOrArrow r' name) := by
  refine RunAlike.advance.bind fun _ _ _ => (RunAlike.accept _).bind_same fun arrow => ?_
  split
  · refine (arrowBody_alike h).bind fun body body' hbody => .pure ?_
    simp [hbody]
  · exact .pure rfl

theorem functionExpr_alike (h : r.Alike n r') :
    RunAlike n Expr.erase (functionExpr r) (functionExpr r') := by
  refine RunAlike.advance.bind fun _ _ _ => RunAlike.peek.bind fun t t' ht => ?_
  rw [Token.kind_eq ht]
  cases t'.kind with
  | ident name =>
    refine RunAlike.advance.bind fun _ _ _ => (functionRest_alike h _ _ _).bind fun d d' hd => ?_
    exact .pure (congrArg Expr.function hd)
  | _ =>
    refine (functionRest_alike h _ _ _).bind fun d d' hd => ?_
    exact .pure (congrArg Expr.function hd)

theorem primary_alike (h : r.Alike n r') : RunAlike n Expr.erase (primary r) (primary r') := by
  refine RunAlike.peek.bind fun t t' ht => ?_
  rw [Token.kind_eq ht]
  cases t'.kind with
  | number value => exact RunAlike.advance.bind fun _ _ _ => .pure rfl
  | string value => exact RunAlike.advance.bind fun _ _ _ => .pure rfl
  | bool value => exact RunAlike.advance.bind fun _ _ _ => .pure rfl
  | null => exact RunAlike.advance.bind fun _ _ _ => .pure rfl
  | ident name => exact nameOrArrow_alike h name
  | symbol sym =>
    cases sym with
    | leftParen => exact parenthesized_alike h
    | leftBracket => exact arrayLiteral_alike h
    | leftBrace => exact objectLiteral_alike h
    | _ => exact .unexpected _
  | keyword word =>
    cases word with
    | functionKw => exact functionExpr_alike h
    | _ => exact .unexpected _
  | _ => exact .unexpected _

/-! ## What follows an operand -/

theorem args_alike (h : r.Alike n r') :
    RunAlike n (List.map Expr.erase) (commaList .rightParen r.assignment r.passes [])
      (commaList .rightParen r'.assignment r'.passes []) :=
  commaList_alike h.assignment _ h.passes h.passes' rfl

theorem suffix_alike (h : r.Alike n r') {operand operand' : Expr}
    (hoperand : operand.erase = operand'.erase) (hc : c.Alike c') (hn : c.rest.length ≤ n) :
    PassAlike Expr.erase c c' (suffix r operand c) (suffix r' operand' c') := by
  have hline := hc.onPreviousLine_eq
  rw [suffix, suffix, peek_bind, peek_bind, ← hc.kind_eq]
  cases hkind : c.current.kind with
  | symbol sym =>
    rw [hkind] at hline
    cases sym with
    | leftParen =>
      refine .go hc hn (by simp [hkind]) fun _ _ _ => (args_alike h).bind fun args args' hargs => ?_
      refine (RunAlike.expect _ _).bind_same fun _ => .pure ?_
      simp [eraseExprs_eq_map, hoperand, hargs]
    | dot | questionDot =>
      refine .go hc hn (by simp [hkind]) fun _ _ _ => ?_
      refine RunAlike.propertyName.bind_same fun name => .pure ?_
      simp [hoperand]
    | leftBracket =>
      refine .go hc hn (by simp [hkind]) fun _ _ _ => h.assignment.bind fun e e' he => ?_
      refine (RunAlike.expect _ _).bind_same fun _ => .pure ?_
      simp [hoperand, he]
    | plusPlus | minusMinus =>
      simp only [updateOp?, get_bind, hline rfl]
      split
      · refine .go hc hn (by simp [hkind]) fun _ _ _ => .pure ?_
        simp [hoperand]
      · exact .stop hc
    | _ => exact .stop hc
  | _ => exact .stop hc

theorem suffixed_alike (h : r.Alike n r') : RunAlike n Expr.erase (suffixed r) (suffixed r') := by
  refine (primary_alike h).bind fun operand operand' hoperand => ?_
  exact extend_alike (fun _ _ _ _ => suffix_alike h) h.passes h.passes' hoperand

/-! ## Operators -/

theorem unaryRule_alike (h : r.Alike n r') :
    RunAlike n Expr.erase (unaryRule r) (unaryRule r') := by
  refine RunAlike.peek.bind fun t t' ht => ?_
  rw [Token.kind_eq ht]
  cases t'.kind with
  | symbol sym =>
    cases sym with
    | minus | bang | plusPlus | minusMinus =>
      refine RunAlike.advance.bind fun _ _ _ => h.unary.bind fun e e' he => .pure ?_
      simp [he]
    | _ => exact suffixed_alike h
  | _ => exact suffixed_alike h

theorem InfixOp.erase_apply (op : InfixOp) {left left' right right' : Expr}
    (hleft : left.erase = left'.erase) (hright : right.erase = right'.erase) :
    (op.apply left right).erase = (op.apply left' right').erase := by
  cases op <;> simp [InfixOp.apply, hleft, hright]

theorem infixStep_alike (row : List (Symbol × InfixOp)) {operand operand' : Parse Expr}
    (hoperand : RunAlike n Expr.erase operand operand') {left left' : Expr}
    (hleft : left.erase = left'.erase) (hc : c.Alike c') (hn : c.rest.length ≤ n) :
    PassAlike Expr.erase c c' (infixStep row operand left c) (infixStep row operand' left' c') := by
  rw [infixStep, infixStep, peek_bind, peek_bind, ← hc.kind_eq]
  cases hop : infixOp? row c.current.kind with
  | none => exact .stop hc
  | some op =>
    obtain ⟨sym, hkind, -⟩ := mem_of_infixOp? hop
    refine .go hc hn (by simp [hkind]) fun _ _ _ => hoperand.bind fun right right' hright => ?_
    exact .pure (congrArg some (op.erase_apply hleft hright))

theorem infixRule_alike (h : r.Alike n r') (rows : List (List (Symbol × InfixOp))) :
    RunAlike n Expr.erase (infixRule r rows) (infixRule r' rows) := by
  induction rows with
  | nil => exact unaryRule_alike h
  | cons row tighter ih =>
    refine ih.bind fun first first' hfirst => ?_
    exact extend_alike (fun _ _ _ _ => infixStep_alike row ih) h.passes h.passes' hfirst

theorem ternaryRule_alike (h : r.Alike n r') :
    RunAlike n Expr.erase (ternaryRule r) (ternaryRule r') := by
  refine (infixRule_alike h _).bind fun condition condition' hcondition => ?_
  refine (RunAlike.accept _).bind_same fun question => ?_
  split
  · refine h.assignment.bind fun whenTrue whenTrue' htrue => ?_
    refine (RunAlike.expect _ _).bind_same fun _ => ?_
    refine h.ternary.bind fun whenFalse whenFalse' hfalse => .pure ?_
    simp [hcondition, htrue, hfalse]
  · exact .pure hcondition

theorem isAssignable_eq {e e' : Expr} (h : e.erase = e'.erase) :
    e.isAssignable = e'.isAssignable := by
  rw [← e.isAssignable_erase, h, e'.isAssignable_erase]

theorem assignmentRest_alike (h : r.Alike n r') {target target' : Expr} {build build' : Expr → Expr}
    (htarget : target.erase = target'.erase)
    (hbuild : ∀ e e', e.erase = e'.erase → (build e).erase = (build' e').erase) :
    RunAlike n Expr.erase (assignmentRest r target build) (assignmentRest r' target' build') := by
  refine RunAlike.advance.bind fun _ _ _ => ?_
  rw [isAssignable_eq htarget]
  split
  · exact h.assignment.bind fun e e' he => .pure (hbuild e e' he)
  · exact .failAt _ _ _

theorem assignmentRule_alike (h : r.Alike n r') :
    RunAlike n Expr.erase (assignmentRule r) (assignmentRule r') := by
  refine (ternaryRule_alike h).bind fun target target' htarget => ?_
  refine RunAlike.peek.bind fun t t' ht => ?_
  dsimp only
  rw [Token.kind_eq ht]
  split
  · refine assignmentRest_alike h htarget fun e e' he => ?_
    simp [htarget, he]
  · cases compoundOp? t'.kind with
    | none => exact .pure htarget
    | some op =>
      refine assignmentRest_alike h htarget fun e e' he => ?_
      simp [htarget, he]

/-! ## Statements -/

theorem declaration_alike (h : r.Alike n r') :
    RunAlike n Stmt.erase (declaration r) (declaration r') := by
  refine RunAlike.advance.bind fun t t' ht => RunAlike.identifier.bind_same fun name => ?_
  rw [Token.kind_eq ht]
  split
  · refine (RunAlike.expect _ _).bind_same fun _ => h.assignment.bind fun e e' he => .pure ?_
    simp [eraseExpr?, he]
  · refine (RunAlike.accept _).bind_same fun assign => ?_
    split
    · refine h.assignment.bind fun e e' he => .pure ?_
      simp [eraseExpr?, he]
    · exact .pure rfl

theorem condition_alike (h : r.Alike n r') (word : Keyword) :
    RunAlike n Expr.erase (condition r word) (condition r' word) := by
  refine (RunAlike.expect _ _).bind_same fun _ => h.assignment.bind fun e e' he => ?_
  exact (RunAlike.expect _ _).bind_same fun _ => .pure he

theorem ifRule_alike (h : r.Alike n r') : RunAlike n Stmt.erase (ifRule r) (ifRule r') := by
  refine RunAlike.advance.bind fun _ _ _ => (condition_alike h _).bind fun test test' htest => ?_
  refine h.stmt.bind fun whenTrue whenTrue' htrue => ?_
  refine (RunAlike.accept _).bind_same fun word => ?_
  split
  · refine h.stmt.bind fun whenFalse whenFalse' hfalse => .pure ?_
    simp [eraseStmt?, htest, htrue, hfalse]
  · refine .pure ?_
    simp [eraseStmt?, htest, htrue]

theorem whileRule_alike (h : r.Alike n r') :
    RunAlike n Stmt.erase (whileRule r) (whileRule r') := by
  refine RunAlike.advance.bind fun _ _ _ => (condition_alike h _).bind fun test test' htest => ?_
  refine h.stmt.bind fun body body' hbody => .pure ?_
  simp [htest, hbody]

theorem doRule_alike (h : r.Alike n r') : RunAlike n Stmt.erase (doRule r) (doRule r') := by
  refine RunAlike.advance.bind fun _ _ _ => h.stmt.bind fun body body' hbody => ?_
  refine (RunAlike.expect _ _).bind_same fun _ => ?_
  refine (condition_alike h _).bind fun test test' htest => .pure ?_
  simp [htest, hbody]

theorem forEachRest_alike (h : r.Alike n r') (traversal : Traversal)
    (position position' : Position) :
    RunAlike n Stmt.erase (forEachRest r traversal position)
      (forEachRest r' traversal position') := by
  refine RunAlike.advance.bind fun t t' ht => RunAlike.identifier.bind_same fun name => ?_
  refine RunAlike.advance.bind fun _ _ _ => h.assignment.bind fun subject subject' hsubject => ?_
  refine (RunAlike.expect _ _).bind_same fun _ => h.stmt.bind fun body body' hbody => .pure ?_
  simp [Token.kind_eq ht, hsubject, hbody]

theorem loopInit_alike (h : r.Alike n r') :
    RunAlike n (Option.map Stmt.erase) (loopInit r) (loopInit r') := by
  have hdeclaration : RunAlike n (Option.map Stmt.erase) (return some (← declaration r))
      (return some (← declaration r')) :=
    (declaration_alike h).bind fun s s' hs => .pure (congrArg some hs)
  have hexpr : RunAlike n (Option.map Stmt.erase) (return some (.expr (← r.assignment)))
      (return some (.expr (← r'.assignment))) := by
    refine h.assignment.bind fun e e' he => .pure ?_
    simp [he]
  refine RunAlike.peek.bind fun t t' ht => ?_
  rw [Token.kind_eq ht]
  cases t'.kind with
  | symbol sym =>
    cases sym with
    | semicolon => exact .pure rfl
    | _ => exact hexpr
  | keyword word =>
    cases word with
    | letKw | constKw => exact hdeclaration
    | _ => exact hexpr
  | _ => exact hexpr

theorem unlessAt_alike (sym : Symbol) {rule rule' : Parse Expr}
    (h : RunAlike n Expr.erase rule rule') :
    RunAlike n (Option.map Expr.erase) (unlessAt sym rule) (unlessAt sym rule') := by
  refine (RunAlike.check _).bind_same fun found => ?_
  split
  · exact .pure rfl
  · exact h.bind fun e e' he => .pure (congrArg some he)

theorem forRest_alike (h : r.Alike n r') (position position' : Position) :
    RunAlike n Stmt.erase (forRest r position) (forRest r' position') := by
  refine (loopInit_alike h).bind fun init init' hinit => (RunAlike.expect _ _).bind_same fun _ => ?_
  refine (unlessAt_alike _ h.assignment).bind fun test test' htest => ?_
  refine (RunAlike.expect _ _).bind_same fun _ => ?_
  refine (unlessAt_alike _ h.assignment).bind fun update update' hupdate => ?_
  refine (RunAlike.expect _ _).bind_same fun _ => h.stmt.bind fun body body' hbody => .pure ?_
  simp [eraseStmt?_eq_map, eraseExpr?_eq_map, hinit, htest, hupdate, hbody]

theorem forRule_alike (h : r.Alike n r') : RunAlike n Stmt.erase (forRule r) (forRule r') := by
  refine RunAlike.advance.bind fun _ _ _ => (RunAlike.expect _ _).bind_same fun _ => ?_
  refine (RunAlike.get fun _ _ hc => hc.traversalAhead?_eq).bind fun c c' hahead => ?_
  rw [hahead]
  cases traversalAhead? c' with
  | none => exact forRest_alike h _ _
  | some traversal => exact forEachRest_alike h traversal _ _

theorem handler_alike (h : r.Alike n r') :
    RunAlike n (Option.map Handler.erase) (handler r) (handler r') := by
  refine RunAlike.peek.bind fun _ _ _ => (RunAlike.accept _).bind_same fun word => ?_
  split
  · refine (RunAlike.expect _ _).bind_same fun _ => RunAlike.identifier.bind_same fun param => ?_
    refine (RunAlike.expect _ _).bind_same fun _ => (block_alike h).bind fun body body' hbody => ?_
    refine .pure ?_
    simp [hbody]
  · exact .pure rfl

theorem cleanup_alike (h : r.Alike n r') :
    RunAlike n (Option.map eraseStmts) (cleanup r) (cleanup r') := by
  refine (RunAlike.accept _).bind_same fun word => ?_
  split
  · exact (block_alike h).bind fun body body' hbody => .pure (congrArg some hbody)
  · exact .pure rfl

theorem tryRule_alike (h : r.Alike n r') : RunAlike n Stmt.erase (tryRule r) (tryRule r') := by
  refine RunAlike.advance.bind fun _ _ _ => (block_alike h).bind fun body body' hbody => ?_
  refine (handler_alike h).bind fun onError onError' honError => ?_
  refine (cleanup_alike h).bind fun always always' halways => ?_
  have hbare : (onError.isNone && always.isNone) = (onError'.isNone && always'.isNone) := by
    rw [← Option.isNone_map (f := Handler.erase), honError, Option.isNone_map,
      ← Option.isNone_map (f := eraseStmts), halways, Option.isNone_map]
  rw [hbare]
  split
  · exact .failAt _ _ _
  · refine .pure ?_
    simp [eraseHandler?_eq_map, eraseStmts?_eq_map, hbody, honError, halways]

theorem returnRule_alike (h : r.Alike n r') :
    RunAlike n Stmt.erase (returnRule r) (returnRule r') := by
  refine RunAlike.advance.bind fun _ _ _ => RunAlike.peek.bind fun t t' ht => ?_
  dsimp only
  rw [Token.kind_eq ht]
  split
  · exact .pure rfl
  · refine h.assignment.bind fun e e' he => .pure ?_
    simp [eraseExpr?, he]

theorem throwRule_alike (h : r.Alike n r') :
    RunAlike n Stmt.erase (throwRule r) (throwRule r') := by
  refine RunAlike.advance.bind fun _ _ _ => h.assignment.bind fun e e' he => .pure ?_
  simp [he]

theorem functionStmt_alike (h : r.Alike n r') :
    RunAlike n Stmt.erase (functionStmt r) (functionStmt r') := by
  refine RunAlike.advance.bind fun _ _ _ => RunAlike.identifier.bind_same fun name => ?_
  exact (functionRest_alike h _ _ _).bind fun d d' hd => .pure (congrArg Stmt.function hd)

theorem ended_alike {rule rule' : Parse Stmt} (h : RunAlike n Stmt.erase rule rule') :
    RunAlike n Stmt.erase (ended rule) (ended rule') :=
  h.bind fun _ _ hs => (RunAlike.accept _).bind_same fun _ => .pure hs

theorem exprStmt_alike (h : r.Alike n r') :
    RunAlike n Stmt.erase (exprStmt r) (exprStmt r') :=
  h.assignment.bind fun _ _ he => .pure (congrArg Stmt.expr he)

theorem stmtRule_alike (h : r.Alike n r') : RunAlike n Stmt.erase (stmtRule r) (stmtRule r') := by
  refine RunAlike.peek.bind fun t t' ht => ?_
  rw [Token.kind_eq ht]
  cases t'.kind with
  | symbol sym =>
    cases sym with
    | leftBrace =>
      refine (block_alike h).bind fun body body' hbody => .pure ?_
      simp [hbody]
    | _ => exact ended_alike (exprStmt_alike h)
  | keyword word =>
    cases word with
    | letKw | constKw => exact ended_alike (declaration_alike h)
    | ifKw => exact ifRule_alike h
    | whileKw => exact whileRule_alike h
    | doKw => exact ended_alike (doRule_alike h)
    | forKw => exact forRule_alike h
    | tryKw => exact tryRule_alike h
    | returnKw => exact ended_alike (returnRule_alike h)
    | throwKw => exact ended_alike (throwRule_alike h)
    | breakKw => exact ended_alike (RunAlike.advance.bind fun _ _ _ => .pure rfl)
    | continueKw => exact ended_alike (RunAlike.advance.bind fun _ _ _ => .pure rfl)
    | functionKw =>
      refine (RunAlike.get fun _ _ hc => hc.kindAt_eq 1).bind fun c c' hkind => ?_
      rw [hkind]
      cases c'.kindAt 1 with
      | ident name => exact functionStmt_alike h
      | _ => exact ended_alike (exprStmt_alike h)
    | _ => exact ended_alike (exprStmt_alike h)
  | _ => exact ended_alike (exprStmt_alike h)

/-- The rules of every depth are alike, whatever bounds their repetitions have. -/
theorem Rules.alike_atDepth {passes passes' : Nat} (hpasses : n ≤ passes) (hpasses' : n ≤ passes')
    (depth : Nat) : (Rules.atDepth passes depth).Alike n (Rules.atDepth passes' depth) := by
  have hsound := fun depth => Rules.sound_atDepth passes depth
  induction depth with
  | zero => exact ⟨hpasses, hpasses', hsound 0, .tooDeep _, .tooDeep _, .tooDeep _, .tooDeep _⟩
  | succ depth ih =>
    exact ⟨hpasses, hpasses', hsound (depth + 1), stmtRule_alike ih, assignmentRule_alike ih,
      ternaryRule_alike ih, unaryRule_alike ih⟩

end Syntax

end Quill
