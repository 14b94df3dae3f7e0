import Quill.Proofs.Syntax.Derivation
import Quill.Proofs.Syntax.Nodes

/-!
# Where nodes come from

Every node of a derived tree is spelled by some of the tokens: the tree itself is, and a derivation
splits the tokens of a form among what the form is made of. So whatever is to be known of all nodes
of a derived tree needs to be looked up at a single form only. Where nodes begin is an example: each
begins where one of its tokens does, since the parser copies positions and makes none up.
-/

set_option autoImplicit false

namespace Quill.Syntax

open Node

variable {p : Token → Prop} {n c : Node} {ts : List Token}

/-- The node is spelled by tokens that are all such. The word before a function is one of them. -/
inductive Spelled (p : Token → Prop) : Node → Prop
  | expr {level : Level} {ts : List Token} {e : Expr} :
      Derives level ts e → (∀ t ∈ ts, p t) → Spelled p (.expr e)
  | stmt {ts : List Token} {s : Stmt} : Statement ts s → (∀ t ∈ ts, p t) → Spelled p (.stmt s)
  | loopInit {ts : List Token} {s : Stmt} :
      LoopInit ts (some s) → (∀ t ∈ ts, p t) → Spelled p (.stmt s)
  | arrow {t : Token} {ts : List Token} {params : List String} {body : FunctionBody} :
      p t → ArrowBody ts body → (∀ t ∈ ts, p t) →
      Spelled p (.function { name := none, params, body, position := t.position })
  | function {word : Token} {ts : List Token} {name : Option String} {d : FunctionDef} :
      p word → FunctionRest name word.position ts d → (∀ t ∈ ts, p t) → Spelled p (.function d)

/-! ## Nodes below -/

theorem InfixOp.children_apply (op : InfixOp) (left right : Expr) :
    (op.apply left right).children = [Node.expr left, Node.expr right] := by
  cases op <;> rfl

theorem CommaList.exists_of_mem {α : Type} {item : List Token → α → Prop} {as : List α}
    (h : CommaList item ts as) (hp : ∀ t ∈ ts, p t) :
    ∀ a ∈ as, ∃ us, item us a ∧ ∀ t ∈ us, p t := by
  induction h with
  | nil => simp
  | last hitem => simpa using ⟨_, hitem, hp⟩
  | more hitem _ _ ih =>
    simp only [List.forall_mem_append, List.forall_mem_cons] at hp
    exact List.forall_mem_cons.mpr ⟨⟨_, hitem, hp.1⟩, ih hp.2.2⟩

theorem spelled_of_commaList {es : List Expr} (h : CommaList (Derives .assignment) ts es)
    (hp : ∀ t ∈ ts, p t) : ∀ e ∈ es, Spelled p (.expr e) := by
  intro e he
  obtain ⟨us, hspells, hus⟩ := h.exists_of_mem hp e he
  exact .expr hspells hus

theorem spelled_of_entries {entries : List (String × Expr)} (h : CommaList Entry ts entries)
    (hp : ∀ t ∈ ts, p t) : ∀ entry ∈ entries, Spelled p (.expr entry.2) := by
  intro entry hentry
  obtain ⟨us, hspells, hus⟩ := h.exists_of_mem hp entry hentry
  cases hspells with
  | shorthand hname => exact .expr (.ident hname) hus
  | keyed _ _ hvalue =>
    simp only [List.forall_mem_cons] at hus
    exact .expr hvalue hus.2.2

theorem Statements.spelled {ts : List Token} {stmts : List Stmt} :
    Statements ts stmts → (∀ t ∈ ts, p t) → ∀ s ∈ stmts, Spelled p (.stmt s)
  | .nil, _ => by simp
  | .semicolon _ h, hp => h.spelled (List.forall_mem_cons.mp hp).2
  | .cons h hmore, hp => by
    rw [List.forall_mem_append] at hp
    exact List.forall_mem_cons.mpr ⟨.stmt h hp.1, hmore.spelled hp.2⟩

theorem Block.spelled {stmts : List Stmt} (h : Block ts stmts) (hp : ∀ t ∈ ts, p t) :
    ∀ s ∈ stmts, Spelled p (.stmt s) := by
  cases h with
  | mk _ hstmts _ =>
    simp only [List.forall_mem_append, List.forall_mem_cons] at hp
    exact hstmts.spelled hp.2.1

theorem Condition.spelled {test : Expr} (h : Condition ts test) (hp : ∀ t ∈ ts, p t) :
    Spelled p (.expr test) := by
  cases h with
  | mk _ htest _ =>
    simp only [List.forall_mem_append, List.forall_mem_cons] at hp
    exact .expr htest hp.2.1

theorem OptionalExpr.spelled {e : Option Expr} (h : OptionalExpr ts e) (hp : ∀ t ∈ ts, p t) :
    ∀ e' ∈ e, Spelled p (.expr e') := by
  cases h with
  | none => simp
  | some he => simpa using Spelled.expr he hp

theorem ArrowBody.spelled {body : FunctionBody} (h : ArrowBody ts body) (hp : ∀ t ∈ ts, p t) :
    ∀ c ∈ body.children, Spelled p c := by
  cases h with
  | block hblock => simpa using hblock.spelled hp
  | expr he => simpa using Spelled.expr he hp

theorem FunctionRest.spelled {name : Option String} {position : Position} {d : FunctionDef}
    (h : FunctionRest name position ts d) (hp : ∀ t ∈ ts, p t) :
    ∀ c ∈ d.body.children, Spelled p c := by
  cases h with
  | mk _ _ _ hbody =>
    simp only [List.forall_mem_append, List.forall_mem_cons] at hp
    simpa using hbody.spelled hp.2.2.2

theorem Declaration.spelled {s : Stmt} (h : Declaration ts s) (hp : ∀ t ∈ ts, p t) :
    ∀ c ∈ s.children, Spelled p c := by
  cases h with
  | bare => simp
  | initialized _ _ _ hinit =>
    simp only [List.forall_mem_cons] at hp
    simpa using Spelled.expr hinit hp.2.2.2

theorem CatchClause.spelled {handler : Option Handler} (h : CatchClause ts handler)
    (hp : ∀ t ∈ ts, p t) : ∀ clause ∈ handler, ∀ s ∈ clause.body, Spelled p (.stmt s) := by
  cases h with
  | none => simp
  | some _ _ _ _ hbody =>
    simp only [List.forall_mem_cons] at hp
    simpa using hbody.spelled hp.2.2.2.2

theorem FinallyClause.spelled {cleanup : Option (List Stmt)} (h : FinallyClause ts cleanup)
    (hp : ∀ t ∈ ts, p t) : ∀ stmts ∈ cleanup, ∀ s ∈ stmts, Spelled p (.stmt s) := by
  cases h with
  | none => simp
  | some _ hbody => simpa using hbody.spelled (List.forall_mem_cons.mp hp).2

/-- What an expression is made of is spelled by its tokens. -/
theorem Derives.spelled {level : Level} {ts : List Token} {e : Expr} :
    Derives level ts e → (∀ t ∈ ts, p t) → ∀ c ∈ e.children, Spelled p c
  | .tighter h, hp => h.spelled hp
  | .assign htarget _ _ hvalue, hp | .compound htarget _ _ _ hvalue, hp => by
    simp only [List.forall_mem_append, List.forall_mem_cons] at hp
    simpa using ⟨Spelled.expr htarget hp.1, Spelled.expr hvalue hp.2.2⟩
  | .ternary hcondition _ htrue _ hfalse, hp => by
    simp only [List.forall_mem_append, List.forall_mem_cons] at hp
    obtain ⟨hcs, -, hts, -, hfs⟩ := hp
    simpa using ⟨Spelled.expr hcondition hcs, Spelled.expr htrue hts, Spelled.expr hfalse hfs⟩
  | .infixed hleft _ hright, hp => by
    simp only [List.forall_mem_append, List.forall_mem_cons] at hp
    rw [InfixOp.children_apply]
    simpa using ⟨Spelled.expr hleft hp.1, Spelled.expr hright hp.2.2⟩
  | .unary _ hoperand, hp | .updateBefore _ hoperand, hp => by
    simpa using Spelled.expr hoperand (List.forall_mem_cons.mp hp).2
  | .call hcallee _ hargs _, hp => by
    simp only [List.forall_mem_append, List.forall_mem_cons] at hp
    simpa using ⟨Spelled.expr hcallee hp.1, spelled_of_commaList hargs hp.2.2.1⟩
  | .member hobject _ _, hp | .optionalMember hobject _ _, hp | .updateAfter hobject _ _, hp => by
    simpa using Spelled.expr hobject (List.forall_mem_append.mp hp).1
  | .index hobject _ hindex _, hp => by
    simp only [List.forall_mem_append, List.forall_mem_cons] at hp
    simpa using ⟨Spelled.expr hobject hp.1, Spelled.expr hindex hp.2.2.1⟩
  | .number _, _ | .string _, _ | .bool _, _ | .null _, _ | .ident _, _ => by simp
  | .group _ h _, hp => by
    simp only [List.forall_mem_append, List.forall_mem_cons] at hp
    exact h.spelled hp.2.1
  | .array _ hitems _, hp => by
    simp only [List.forall_mem_append, List.forall_mem_cons] at hp
    simpa using spelled_of_commaList hitems hp.2.1
  | .object _ hentries _, hp => by
    simp only [List.forall_mem_append, List.forall_mem_cons] at hp
    have hvalues := spelled_of_entries hentries hp.2.1
    intro c hc
    obtain ⟨e, he, rfl⟩ := List.mem_map.mp hc
    obtain ⟨entry, hentry, rfl⟩ := List.mem_map.mp he
    exact hvalues entry hentry
  | .arrowOf _ _ hbody, hp => by
    simp only [List.forall_mem_cons] at hp
    simpa using Spelled.arrow hp.1 hbody hp.2.2
  | .arrow _ _ _ _ hbody, hp => by
    simp only [List.forall_mem_append, List.forall_mem_cons] at hp
    simpa using Spelled.arrow hp.1 hbody hp.2.2.2.2
  | .function _ _ hrest, hp => by
    simp only [List.forall_mem_append, List.forall_mem_cons] at hp
    simpa using Spelled.function hp.1 hrest hp.2.2

/-- What a statement is made of is spelled by its tokens. -/
theorem Statement.spelled {s : Stmt} (h : Statement ts s) (hp : ∀ t ∈ ts, p t) :
    ∀ c ∈ s.children, Spelled p c := by
  cases h with
  | declaration hdeclaration => exact hdeclaration.spelled (List.forall_mem_append.mp hp).1
  | expr he => simpa using Spelled.expr he (List.forall_mem_append.mp hp).1
  | ifOnly _ htest htrue =>
    simp only [List.forall_mem_append, List.forall_mem_cons] at hp
    simpa using ⟨htest.spelled hp.2.1, Spelled.stmt htrue hp.2.2⟩
  | ifElse _ htest htrue _ hfalse =>
    simp only [List.forall_mem_append, List.forall_mem_cons] at hp
    obtain ⟨-, hcs, hts, -, hfs⟩ := hp
    simpa using ⟨htest.spelled hcs, Spelled.stmt htrue hts, Spelled.stmt hfalse hfs⟩
  | whileLoop _ htest hbody =>
    simp only [List.forall_mem_append, List.forall_mem_cons] at hp
    simpa using ⟨htest.spelled hp.2.1, Spelled.stmt hbody hp.2.2⟩
  | doWhile _ hbody _ htest =>
    simp only [List.forall_mem_append, List.forall_mem_cons] at hp
    obtain ⟨⟨-, hts, -, hcs⟩, -⟩ := hp
    simpa using ⟨htest.spelled hcs, Spelled.stmt hbody hts⟩
  | forLoop _ _ hinit _ htest _ hupdate _ hbody =>
    simp only [List.forall_mem_append, List.forall_mem_cons] at hp
    obtain ⟨-, -, his, -, hcs, -, hus, -, hbs⟩ := hp
    intro c hc
    simp only [Stmt.children, List.cons_append, List.mem_cons, List.mem_append] at hc
    simp only [ofStmts, ofExprs, List.mem_map, Option.mem_toList] at hc
    rcases hc with rfl | (⟨s, rfl, rfl⟩ | ⟨e, he, rfl⟩) | ⟨e, he, rfl⟩
    · exact .stmt hbody hbs
    · exact .loopInit hinit his
    · exact htest.spelled hcs e he
    · exact hupdate.spelled hus e he
  | forEach _ _ _ _ _ hsubject _ hbody =>
    simp only [List.forall_mem_append, List.forall_mem_cons] at hp
    obtain ⟨-, -, -, -, -, hss, -, hbs⟩ := hp
    simpa using ⟨Spelled.expr hsubject hss, Spelled.stmt hbody hbs⟩
  | tryCatch _ hbody hhandler hcleanup =>
    simp only [List.forall_mem_append, List.forall_mem_cons] at hp
    obtain ⟨-, hbs, hhs, hfs⟩ := hp
    intro c hc
    simp only [Stmt.children, Handler.children, List.mem_append, List.mem_flatMap] at hc
    simp only [ofStmts, List.mem_map, Option.mem_toList] at hc
    rcases hc with (⟨s, hs, rfl⟩ | ⟨clause, hclause, s, hs, rfl⟩) | ⟨stmts, hstmts, s, hs, rfl⟩
    · exact hbody.spelled hbs s hs
    · exact hhandler.spelled hhs clause hclause s hs
    · exact hcleanup.spelled hfs stmts hstmts s hs
  | ret _ hvalue =>
    simp only [List.forall_mem_append, List.forall_mem_cons] at hp
    simpa using hvalue.spelled hp.1.2
  | throw _ hvalue =>
    simp only [List.forall_mem_append, List.forall_mem_cons] at hp
    simpa using Spelled.expr hvalue hp.1.2
  | breakLoop | continueLoop => simp
  | block hblock => simpa using hblock.spelled hp
  | function _ _ hrest =>
    simp only [List.forall_mem_cons] at hp
    simpa using Spelled.function hp.1 hrest hp.2.2

theorem Spelled.child (h : Spelled p n) : ∀ c ∈ n.children, Spelled p c := by
  cases h with
  | expr he hp => exact he.spelled hp
  | stmt hs hp => exact hs.spelled hp
  | loopInit hinit hp =>
    cases hinit with
    | declaration hdeclaration => exact hdeclaration.spelled hp
    | expr he => simpa using Spelled.expr he hp
  | arrow _ hbody hp => exact hbody.spelled hp
  | function _ hrest hp => exact hrest.spelled hp

/-- Every node of a derived tree is spelled by some of the tokens. -/
theorem Spelled.everywhere (h : Spelled p n) : n.Everywhere (Spelled p) := by
  refine ⟨h, fun c hc => ?_⟩
  -- By the way down to the node: each step stays among spelled nodes.
  induction hc with
  | child hmem => exact h.child _ hmem
  | deeper _ hmem ih => exact ih (h.child _ hmem)

/-! ## Where nodes begin -/

theorem InfixOp.position_apply (op : InfixOp) (left right : Expr) :
    (op.apply left right).position = left.position := by
  cases op <;> rfl

/-- A function begins with its word. -/
theorem FunctionRest.position_eq {name : Option String} {position : Position} {d : FunctionDef}
    (h : FunctionRest name position ts d) : d.position = position := by
  cases h
  rfl

theorem Derives.position_mem {level : Level} {ts : List Token} {e : Expr} :
    Derives level ts e → ∃ t ∈ ts, e.position = t.position
  | .tighter h => h.position_mem
  | .assign h _ _ _ | .compound h _ _ _ _ | .ternary h _ _ _ _ | .call h _ _ _ | .member h _ _
  | .optionalMember h _ _ | .index h _ _ _ | .updateAfter h _ _ => by
    obtain ⟨t, ht, hposition⟩ := h.position_mem
    exact ⟨t, List.mem_append_left _ ht, hposition⟩
  | .infixed h _ _ => by
    obtain ⟨t, ht, hposition⟩ := h.position_mem
    rw [InfixOp.position_apply]
    exact ⟨t, List.mem_append_left _ ht, hposition⟩
  | .group _ h _ => by
    obtain ⟨t, ht, hposition⟩ := h.position_mem
    exact ⟨t, by simp [ht], hposition⟩
  | .function _ _ hrest => ⟨_, List.mem_cons_self, hrest.position_eq⟩
  | .unary .. | .updateBefore .. | .number _ | .string _ | .bool _ | .null _ | .ident _
  | .array .. | .object .. | .arrowOf .. | .arrow .. => ⟨_, List.mem_cons_self, rfl⟩

theorem Declaration.position_mem {s : Stmt} (h : Declaration ts s) :
    ∃ t ∈ ts, s.position = t.position := by
  cases h <;> exact ⟨_, List.mem_cons_self, rfl⟩

theorem Statement.position_mem {s : Stmt} (h : Statement ts s) :
    ∃ t ∈ ts, s.position = t.position := by
  cases h with
  | declaration hdeclaration =>
    obtain ⟨t, ht, hposition⟩ := hdeclaration.position_mem
    exact ⟨t, List.mem_append_left _ ht, hposition⟩
  | expr he =>
    obtain ⟨t, ht, hposition⟩ := he.position_mem
    exact ⟨t, List.mem_append_left _ ht, hposition⟩
  | function _ _ hrest => exact ⟨_, List.mem_cons_self, hrest.position_eq⟩
  | _ => exact ⟨_, by simp, rfl⟩

/-- A node begins where one of its tokens does. -/
theorem Spelled.exists_position (h : Spelled p n) : ∃ t, p t ∧ n.position = t.position := by
  have hmem {ts : List Token} (hp : ∀ t ∈ ts, p t) {position : Position} :
      (∃ t ∈ ts, position = t.position) → ∃ t, p t ∧ position = t.position :=
    fun ⟨t, ht, hposition⟩ => ⟨t, hp t ht, hposition⟩
  cases h with
  | expr he hp => exact hmem hp he.position_mem
  | stmt hs hp => exact hmem hp hs.position_mem
  | loopInit hinit hp =>
    cases hinit with
    | declaration hdeclaration => exact hmem hp hdeclaration.position_mem
    | expr he => exact hmem hp he.position_mem
  | arrow ht => exact ⟨_, ht, rfl⟩
  | function hword hrest => exact ⟨_, hword, hrest.position_eq⟩

end Quill.Syntax
