import Quill.Proofs.Syntax.Derivation

/-!
# The shape of derived tokens

Two things about tokens can be told from the grammar alone, whatever the tree is. Parentheses are
balanced in all that is derived, so a search for the parenthesis that closes another one ends inside
of the expression that both belong to (`arrowAhead_group`). And what is no statement with a
semicolon of its own does not end with one (`EndsBare`).
-/

set_option autoImplicit false

namespace Quill.Syntax

variable {ts us : List Token}

/-! ## Balanced parentheses -/

/-- One of the two tokens that are counted to find the end of a parenthesis. -/
def isParen : TokenKind → Bool
  | .symbol .leftParen | .symbol .rightParen => true
  | _ => false

/-- Every parenthesis is closed, and none closes what is not open. -/
inductive Balanced : List Token → Prop
  | nil : Balanced []
  | plain {t : Token} {kind : TokenKind} {ts : List Token} :
      t.kind = kind → isParen kind = false → Balanced ts → Balanced (t :: ts)
  | group {opening closing : Token} {ts us : List Token} :
      opening.kind = .symbol .leftParen → Balanced ts → closing.kind = .symbol .rightParen →
      Balanced us → Balanced (opening :: (ts ++ closing :: us))

theorem Balanced.append (h : Balanced ts) (hus : Balanced us) : Balanced (ts ++ us) := by
  induction h with
  | nil => exact hus
  | plain hkind hparen _ ih => exact .plain hkind hparen ih
  | group hopen hts hclose _ _ ih =>
    rw [List.cons_append, List.append_assoc, List.cons_append]
    exact .group hopen hts hclose ih

theorem Balanced.single {t : Token} {kind : TokenKind} (h : t.kind = kind)
    (hparen : isParen kind = false) : Balanced [t] :=
  .plain h hparen .nil

/-- Balanced tokens are passed over in the search, which has one parenthesis open at least. -/
theorem Balanced.arrowAhead_append (h : Balanced ts) (depth : Nat) (more : List Token) :
    arrowAhead (depth + 1) (ts ++ more) = arrowAhead (depth + 1) more := by
  induction h generalizing depth more with
  | nil => rfl
  | @plain t kind ts hkind hparen _ ih =>
    rw [List.cons_append, arrowAhead, hkind]
    split
    · cases hparen
    · cases hparen
    · exact ih depth more
  | group hopen _ hclose _ ihts ihus =>
    simp only [List.cons_append, List.append_assoc, arrowAhead, hopen, hclose, ihts]
    rw [if_neg (by omega), Nat.add_sub_cancel]
    exact ihus depth more

/-- Where the first parenthesis closes is seen without what comes after the next token. -/
theorem arrowAhead_group {opening closing : Token} (hopen : opening.kind = .symbol .leftParen)
    (h : Balanced ts) (hclose : closing.kind = .symbol .rightParen) (more : List Token) :
    arrowAhead 0 (opening :: (ts ++ closing :: more)) =
      (more.head?.map (·.kind) == some (.symbol .arrow)) := by
  simp only [arrowAhead, hopen, hclose, h.arrowAhead_append, Nat.zero_add, Nat.le_refl, if_true]

/-! ## Derived tokens are balanced -/

theorem InfixOp.isParen_symbol (op : InfixOp) : isParen (.symbol op.symbol) = false := by
  cases op with
  | binary op => cases op <;> rfl
  | logical op => cases op <;> rfl

theorem isParen_unarySymbol (op : UnaryOp) : isParen (.symbol op.symbol) = false := by
  cases op <;> rfl

theorem isParen_updateSymbol (op : UpdateOp) : isParen (.symbol op.symbol) = false := by
  cases op <;> rfl

theorem isParen_assignSymbol {op : BinaryOp} {sym : Symbol} (h : op.assignSymbol? = some sym) :
    isParen (.symbol sym) = false := by
  cases op <;> cases h <;> rfl

theorem isParen_of_isKeyword {kind : TokenKind} (h : kind.isKeyword = true) :
    isParen kind = false := by
  cases kind <;> first | rfl | cases h

theorem PropertyName.balanced {t : Token} {name : String} : PropertyName t name → Balanced [t]
  | .ident h => .single h rfl
  | .reserved h => .single rfl (isParen_of_isKeyword h)

theorem PropertyKey.balanced {t : Token} {key : String} : PropertyKey t key → Balanced [t]
  | .name h => h.balanced
  | .string h => .single h rfl
  | .number h => .single h rfl

theorem Name.balanced {name : String} (h : Name ts name) : Balanced ts := by
  obtain ⟨t, ht, rfl⟩ := h
  exact .single ht rfl

theorem CommaList.balanced_names {names : List String} (h : CommaList Name ts names) :
    Balanced ts := by
  induction h with
  | nil => exact .nil
  | last hname => exact hname.balanced
  | more hname hcomma _ ih => exact hname.balanced.append (.plain hcomma rfl ih)

theorem OptionalSemicolon.balanced (h : OptionalSemicolon ts) : Balanced ts := by
  rcases h with rfl | ⟨t, ht, rfl⟩
  · exact .nil
  · exact .single ht rfl

theorem TraversalWord.balanced {t : Token} {traversal : Traversal} (h : TraversalWord t traversal)
    (hts : Balanced ts) : Balanced (t :: ts) := by
  cases traversal with
  | elements => exact .plain h rfl hts
  | indices => exact .plain h rfl hts

theorem DeclarationWord.balanced {t : Token} {constant : Bool} (h : DeclarationWord t constant)
    (hts : Balanced ts) : Balanced (t :: ts) :=
  .plain h (by cases constant <;> rfl) hts

mutual

theorem Derives.balanced : ∀ {level : Level} {ts : List Token} {e : Expr},
    Derives level ts e → Balanced ts
  | _, _, _, .tighter h => h.balanced
  | _, _, _, .assign htarget _ hop hvalue =>
    htarget.balanced.append (.plain hop rfl hvalue.balanced)
  | _, _, _, .compound htarget _ hop hsym hvalue =>
    htarget.balanced.append (.plain hop (isParen_assignSymbol hsym) hvalue.balanced)
  | _, _, _, .ternary htest hquestion htrue hcolon hfalse =>
    htest.balanced.append (.plain hquestion rfl
      (htrue.balanced.append (.plain hcolon rfl hfalse.balanced)))
  | _, _, _, .infixed hleft hop hright =>
    hleft.balanced.append (.plain hop (InfixOp.isParen_symbol _) hright.balanced)
  | _, _, _, .unary hop h => .plain hop (isParen_unarySymbol _) h.balanced
  | _, _, _, .updateBefore hop h => .plain hop (isParen_updateSymbol _) h.balanced
  | _, _, _, .call h hopen hargs hclose =>
    h.balanced.append (.group hopen (CommaList.balanced_exprs hargs) hclose .nil)
  | _, _, _, .member h hdot hname => h.balanced.append (.plain hdot rfl hname.balanced)
  | _, _, _, .optionalMember h hdot hname => h.balanced.append (.plain hdot rfl hname.balanced)
  | _, _, _, .index h hopen hindex hclose =>
    h.balanced.append (.plain hopen rfl (hindex.balanced.append (.single hclose rfl)))
  | _, _, _, .updateAfter h hop _ =>
    h.balanced.append (.single hop (isParen_updateSymbol _))
  | _, _, _, .number h => .single h rfl
  | _, _, _, .string h => .single h rfl
  | _, _, _, .bool h => .single h rfl
  | _, _, _, .null h => .single h rfl
  | _, _, _, .ident h => .single h rfl
  | _, _, _, .group hopen h hclose => .group hopen h.balanced hclose .nil
  | _, _, _, .array hopen hitems hclose =>
    .plain hopen rfl ((CommaList.balanced_exprs hitems).append (.single hclose rfl))
  | _, _, _, .object hopen hentries hclose =>
    .plain hopen rfl ((CommaList.balanced_entries hentries).append (.single hclose rfl))
  | _, _, _, .arrowOf hname harrow hbody =>
    .plain hname rfl (.plain harrow rfl hbody.balanced)
  | _, _, _, .arrow hopen hparams hclose harrow hbody =>
    .group hopen hparams.balanced_names hclose (.plain harrow rfl hbody.balanced)
  | _, _, _, .function hword hname hrest => by
    refine .plain hword rfl ?_
    rcases hname with ⟨-, rfl⟩ | ⟨given, -, hname⟩
    · exact hrest.balanced
    · exact hname.balanced.append hrest.balanced

theorem CommaList.balanced_exprs : ∀ {ts : List Token} {es : List Expr},
    CommaList (Derives .assignment) ts es → Balanced ts
  | _, _, .nil => .nil
  | _, _, .last h => h.balanced
  | _, _, .more h hcomma hrest =>
    h.balanced.append (.plain hcomma rfl (CommaList.balanced_exprs hrest))

theorem CommaList.balanced_entries : ∀ {ts : List Token} {entries : List (String × Expr)},
    CommaList Entry ts entries → Balanced ts
  | _, _, .nil => .nil
  | _, _, .last h => h.balanced
  | _, _, .more h hcomma hrest =>
    h.balanced.append (.plain hcomma rfl (CommaList.balanced_entries hrest))

theorem Entry.balanced : ∀ {ts : List Token} {entry : String × Expr},
    Entry ts entry → Balanced ts
  | _, _, .shorthand h => .single h rfl
  | _, _, .keyed hkey hcolon h => hkey.balanced.append (.plain hcolon rfl h.balanced)

theorem ArrowBody.balanced : ∀ {ts : List Token} {body : FunctionBody},
    ArrowBody ts body → Balanced ts
  | _, _, .block h => h.balanced
  | _, _, .expr h => h.balanced

theorem FunctionRest.balanced : ∀ {name : Option String} {position : Position} {ts : List Token}
    {d : FunctionDef}, FunctionRest name position ts d → Balanced ts
  | _, _, _, _, .mk hopen hparams hclose hbody =>
    .group hopen hparams.balanced_names hclose hbody.balanced

theorem Block.balanced : ∀ {ts : List Token} {stmts : List Stmt}, Block ts stmts → Balanced ts
  | _, _, .mk hopen h hclose => .plain hopen rfl (h.balanced.append (.single hclose rfl))

theorem Statements.balanced : ∀ {ts : List Token} {stmts : List Stmt},
    Statements ts stmts → Balanced ts
  | _, _, .nil => .nil
  | _, _, .semicolon hsemi h => .plain hsemi rfl h.balanced
  | _, _, .cons h hrest => h.balanced.append hrest.balanced

theorem Declaration.balanced : ∀ {ts : List Token} {stmt : Stmt},
    Declaration ts stmt → Balanced ts
  | _, _, .bare hword hname => hword.balanced (.single hname rfl)
  | _, _, .initialized hword hname heq h =>
    hword.balanced (.plain hname rfl (.plain heq rfl h.balanced))

theorem Condition.balanced : ∀ {ts : List Token} {e : Expr}, Condition ts e → Balanced ts
  | _, _, .mk hopen h hclose => .group hopen h.balanced hclose .nil

theorem OptionalExpr.balanced : ∀ {ts : List Token} {e : Option Expr},
    OptionalExpr ts e → Balanced ts
  | _, _, .none => .nil
  | _, _, .some h => h.balanced

theorem LoopInit.balanced : ∀ {ts : List Token} {init : Option Stmt},
    LoopInit ts init → Balanced ts
  | _, _, .none => .nil
  | _, _, .declaration h => h.balanced
  | _, _, .expr h => h.balanced

theorem CatchClause.balanced : ∀ {ts : List Token} {handler : Option Handler},
    CatchClause ts handler → Balanced ts
  | _, _, .none => .nil
  | _, _, .some hword hopen hname hclose h =>
    .plain hword rfl (.group hopen (.single hname rfl) hclose h.balanced)

theorem FinallyClause.balanced : ∀ {ts : List Token} {cleanup : Option (List Stmt)},
    FinallyClause ts cleanup → Balanced ts
  | _, _, .none => .nil
  | _, _, .some hword h => .plain hword rfl h.balanced

theorem Statement.balanced : ∀ {ts : List Token} {stmt : Stmt}, Statement ts stmt → Balanced ts
  | _, _, .declaration h hsemi => h.balanced.append hsemi.balanced
  | _, _, .expr h hsemi => h.balanced.append hsemi.balanced
  | _, _, .ifOnly hword htest htrue =>
    .plain hword rfl (htest.balanced.append htrue.balanced)
  | _, _, .ifElse hword htest htrue helse hfalse =>
    .plain hword rfl (htest.balanced.append
      (htrue.balanced.append (.plain helse rfl hfalse.balanced)))
  | _, _, .whileLoop hword htest hbody => .plain hword rfl (htest.balanced.append hbody.balanced)
  | _, _, .doWhile hword hbody hagain htest hsemi =>
    (Balanced.plain hword rfl (hbody.balanced.append (.plain hagain rfl htest.balanced))).append
      hsemi.balanced
  | _, _, @Statement.forLoop _ _ _ _ _ is cs us bs _ _ _ _ hword hopen hinit hsemi₁ htest hsemi₂
      hupdate hclose hbody => by
    have hclauses := hinit.balanced.append
      (.plain hsemi₁ rfl (htest.balanced.append (.plain hsemi₂ rfl hupdate.balanced)))
    simpa using Balanced.plain hword rfl (.group hopen hclauses hclose hbody.balanced)
  | _, _, .forEach hword hopen hdeclare hname hover hsubject hclose hbody => by
    have hhead := hdeclare.balanced (.plain hname rfl (hover.balanced hsubject.balanced))
    simpa using Balanced.plain hword rfl (.group hopen hhead hclose hbody.balanced)
  | _, _, .tryCatch hword hbody hhandler hcleanup _ =>
    .plain hword rfl (hbody.balanced.append (hhandler.balanced.append hcleanup.balanced))
  | _, _, .ret hword hvalue hsemi =>
    (Balanced.plain hword rfl hvalue.balanced).append hsemi.balanced
  | _, _, .throw hword hvalue hsemi =>
    (Balanced.plain hword rfl hvalue.balanced).append hsemi.balanced
  | _, _, .breakLoop hword hsemi => .plain hword rfl hsemi.balanced
  | _, _, .continueLoop hword hsemi => .plain hword rfl hsemi.balanced
  | _, _, .block h => h.balanced
  | _, _, .function hword hname hrest => .plain hword rfl (.plain hname rfl hrest.balanced)

end

/-! ## Tokens that no semicolon ends -/

/-- There is a last token, and it is no semicolon. -/
def EndsBare (ts : List Token) : Prop :=
  ∃ t, ts.getLast? = some t ∧ t.kind ≠ .symbol .semicolon

namespace EndsBare

theorem single {t : Token} {kind : TokenKind} (h : t.kind = kind)
    (hkind : kind ≠ .symbol .semicolon) : EndsBare [t] :=
  ⟨t, rfl, h ▸ hkind⟩

theorem append (h : EndsBare us) : EndsBare (ts ++ us) := by
  obtain ⟨t, hlast, hkind⟩ := h
  exact ⟨t, by rw [List.getLast?_append, hlast]; rfl, hkind⟩

theorem cons {t : Token} (h : EndsBare ts) : EndsBare (t :: ts) := @append [t] ts h

/-- The last token closes what the others are in. -/
theorem closed {closing : Token} {kind : TokenKind} (h : closing.kind = kind)
    (hkind : kind ≠ .symbol .semicolon) : EndsBare (ts ++ [closing]) :=
  append (single h hkind)

end EndsBare

theorem PropertyName.endsBare {t : Token} {name : String} : PropertyName t name → EndsBare [t]
  | .ident h => .single h nofun
  | .reserved h => .single rfl fun hsemi => by simp [hsemi, TokenKind.isKeyword] at h

theorem Block.endsBare {stmts : List Stmt} : Block ts stmts → EndsBare ts
  | .mk _ _ hclose => .cons (.closed hclose nofun)

theorem FunctionRest.endsBare {name : Option String} {position : Position} {d : FunctionDef} :
    FunctionRest name position ts d → EndsBare ts
  | .mk _ _ _ hbody => .cons (.append (.cons hbody.endsBare))

mutual

theorem Derives.endsBare : ∀ {level : Level} {ts : List Token} {e : Expr},
    Derives level ts e → EndsBare ts
  | _, _, _, .tighter h => h.endsBare
  | _, _, _, .assign _ _ _ hvalue => .append (.cons hvalue.endsBare)
  | _, _, _, .compound _ _ _ _ hvalue => .append (.cons hvalue.endsBare)
  | _, _, _, .ternary _ _ _ _ hfalse => .append (.cons (.append (.cons hfalse.endsBare)))
  | _, _, _, .infixed _ _ hright => .append (.cons hright.endsBare)
  | _, _, _, .unary _ h => .cons h.endsBare
  | _, _, _, .updateBefore _ h => .cons h.endsBare
  | _, _, _, .call _ _ _ hclose => .append (.cons (.closed hclose nofun))
  | _, _, _, .member _ _ hname => .append (.cons hname.endsBare)
  | _, _, _, .optionalMember _ _ hname => .append (.cons hname.endsBare)
  | _, _, _, .index _ _ _ hclose => .append (.cons (.closed hclose nofun))
  | _, _, _, @Derives.updateAfter op _ _ _ _ hop _ => .closed hop (by cases op <;> nofun)
  | _, _, _, .number h => .single h nofun
  | _, _, _, .string h => .single h nofun
  | _, _, _, .bool h => .single h nofun
  | _, _, _, .null h => .single h nofun
  | _, _, _, .ident h => .single h nofun
  | _, _, _, .group _ _ hclose => .cons (.closed hclose nofun)
  | _, _, _, .array _ _ hclose => .cons (.closed hclose nofun)
  | _, _, _, .object _ _ hclose => .cons (.closed hclose nofun)
  | _, _, _, .arrowOf _ _ hbody => .cons (.cons hbody.endsBare)
  | _, _, _, .arrow _ _ _ _ hbody => .cons (.append (.cons (.cons hbody.endsBare)))
  | _, _, _, .function _ _ hrest => .cons (.append hrest.endsBare)

theorem ArrowBody.endsBare : ∀ {ts : List Token} {body : FunctionBody},
    ArrowBody ts body → EndsBare ts
  | _, _, .block h => h.endsBare
  | _, _, .expr h => h.endsBare

end

theorem Declaration.endsBare {stmt : Stmt} : Declaration ts stmt → EndsBare ts
  | .bare _ hname => .cons (.single hname nofun)
  | .initialized _ _ _ h => .cons (.cons (.cons h.endsBare))

theorem Condition.endsBare {e : Expr} : Condition ts e → EndsBare ts
  | .mk _ _ hclose => .cons (.closed hclose nofun)

end Quill.Syntax
