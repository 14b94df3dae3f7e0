import Quill.Proofs.Discipline.Expressions

/-!
# Evaluation keeps disciplines

The walk through all forms of statement and through calls, and the knot: two evaluators that refuse
alike where it matters do the same on machines in order, and leave them in order, however they end.
-/

set_option autoImplicit false

namespace Quill

open Run Run.Keeps Discipline

variable {α : Type} {D : Discipline} {w : D.Stage} (law : D.Lawful)

include law

/-! ## Statements -/

/-- How a loop ends, if a pass told it. -/
def Discipline.ended (D : Discipline) (w : D.Stage) (o : Option Completion) : Prop :=
  ∀ c, o = some c → D.completion w c

theorem lasts_ended : D.Lasts D.ended := fun _ _ _ hw h c hc => lasts_completion law hw (h c hc)

theorem ended_loopEnd : D.ended w (some loopEnd) := by
  intro c hc
  cases hc
  exact value_null law

theorem ended_leavesLoop? {c : Completion} (hc : D.completion w c) : D.ended w c.leavesLoop? := by
  cases c with
  | normal v | continued => exact fun c' hc' => nomatch hc'
  | broke => exact ended_loopEnd law
  | returned v =>
    intro c' hc'
    cases hc'
    exact hc

theorem keeps_loopControl (line : Nat) {outside : FailureKind} (houtside : D.failure outside)
    {c : Completion} (hc : D.completion w c) :
    (Run.loopControl line outside c).Keeps D w D.completion (Run.loopControl line outside c) := by
  intro w₁ hw m hm
  refine ⟨rfl, ?_⟩
  unfold Run.loopControl
  split
  · exact ⟨w₁, .refl law hm, houtside⟩
  · exact ⟨w₁, .refl law hm, lasts_completion law hw hc⟩

/-- A loop, by the passes left. -/
theorem keeps_iterate {pass pass' : Run (Option Completion)}
    (h : pass.Keeps D w D.ended pass') (fuel : Nat) :
    (iterate pass fuel).Keeps D w D.completion (iterate pass' fuel) := by
  induction fuel with
  | zero => exact outOfFuel law
  | succ fuel ih =>
    refine bind law h fun w₁ o hw ho => ?_
    cases o with
    | some c => exact deliver law (lasts_completion law) (ho c rfl)
    | none => exact mono law hw ih

variable {r r' : Eval} (hr : r.Keeps D r')

include hr

theorem keeps_runStmts {stmts : List Stmt} (h : ∀ s ∈ stmts, D.node (.stmt s)) :
    ∀ (w : D.Stage) (last : Value), D.value w last →
      (runStmts r last stmts).Keeps D w D.completion (runStmts r' last stmts) := by
  induction stmts with
  | nil => exact fun w last hlast => deliver law (lasts_completion law) hlast
  | cons s rest ih =>
    intro w last _
    rw [List.forall_mem_cons] at h
    refine bind law (hr.stmt h.1 w) fun w₁ c _ hc => ?_
    cases c with
    | normal v => exact ih h.2 w₁ v hc
    | returned v => exact deliver law (lasts_completion law) hc
    | broke | continued => exact deliver law (lasts_completion law) trivial

theorem keeps_runBlock {stmts : List Stmt} (h : ∀ s ∈ stmts, D.node (.stmt s)) (w : D.Stage) :
    (runBlock r stmts).Keeps D w D.completion (runBlock r' stmts) :=
  inChild law (keeps_runStmts law hr h w .null (value_null law))

theorem keeps_evalOption {e : Option Expr} (h : ∀ e' ∈ e, D.node (.expr e')) (w : D.Stage) :
    (evalOption r e).Keeps D w D.value (evalOption r' e) := by
  cases e with
  | some e => exact hr.expr (h e rfl) w
  | none => exact value law (value_null law)

theorem keeps_whilePass {condition : Expr} {body : Stmt} (hcondition : D.node (.expr condition))
    (hbody : D.node (.stmt body)) :
    (whilePass r condition body).Keeps D w D.ended (whilePass r' condition body) := by
  refine bind law (hr.expr hcondition w) fun w₁ v _ _ => ?_
  split
  · exact bind law (hr.stmt hbody w₁) fun w₂ c _ hc =>
      deliver law (lasts_ended law) (ended_leavesLoop? law hc)
  · exact deliver law (lasts_ended law) (ended_loopEnd law)

theorem keeps_doWhilePass {condition : Expr} {body : Stmt} (hcondition : D.node (.expr condition))
    (hbody : D.node (.stmt body)) :
    (doWhilePass r body condition).Keeps D w D.ended (doWhilePass r' body condition) := by
  refine bind law (hr.stmt hbody w) fun w₁ c _ hc => ?_
  have hended := ended_leavesLoop? law hc
  cases hleaves : c.leavesLoop? with
  | some done =>
    rw [hleaves] at hended
    exact deliver law (lasts_ended law) hended
  | none =>
    refine bind law (hr.expr hcondition w₁) fun w₂ v _ _ => ?_
    split
    · exact deliver law (lasts_ended law) fun c hc => nomatch hc
    · exact deliver law (lasts_ended law) (ended_loopEnd law)

theorem keeps_loopTest {condition : Option Expr} (h : ∀ e ∈ condition, D.node (.expr e)) :
    (loopTest r condition).Keeps D w (fun _ _ => True) (loopTest r' condition) := by
  cases condition with
  | some e => exact bind law (hr.expr (h e rfl) w) fun _ _ _ _ => deliver law lasts_true trivial
  | none => exact deliver law lasts_true trivial

theorem keeps_forPass {condition update : Option Expr} {body : Stmt}
    (hcondition : ∀ e ∈ condition, D.node (.expr e)) (hupdate : ∀ e ∈ update, D.node (.expr e))
    (hbody : D.node (.stmt body)) :
    (forPass r condition update body).Keeps D w D.ended (forPass r' condition update body) := by
  refine bind law (keeps_loopTest law hr hcondition) fun w₁ go _ _ => ?_
  split
  · refine bind law (hr.stmt hbody w₁) fun w₂ c _ hc => ?_
    have hended := ended_leavesLoop? law hc
    cases hleaves : c.leavesLoop? with
    | some done =>
      rw [hleaves] at hended
      exact deliver law (lasts_ended law) hended
    | none =>
      exact bind law (keeps_evalOption law hr hupdate w₂) fun _ _ _ _ =>
        deliver law (lasts_ended law) fun c hc => nomatch hc
  · exact deliver law (lasts_ended law) (ended_loopEnd law)

theorem keeps_loopStart {init : Option Stmt} (h : ∀ s ∈ init, D.node (.stmt s)) :
    (loopStart r init).Keeps D w (fun _ _ => True) (loopStart r' init) := by
  cases init with
  | some s => exact bind law (hr.stmt (h s rfl) w) fun _ _ _ _ => deliver law lasts_true trivial
  | none => exact deliver law lasts_true trivial

theorem keeps_eachPass {body : Stmt} (hbody : D.node (.stmt body)) (name : String) (mutable : Bool)
    (values : List Value) : ∀ w : D.Stage, (∀ v ∈ values, D.value w v) →
      (eachPass r name mutable body values).Keeps D w D.completion
        (eachPass r' name mutable body values) := by
  induction values with
  | nil => exact fun w _ => deliver law (lasts_completion law) (value_null law)
  | cons v rest ih =>
    intro w hvalues
    rw [List.forall_mem_cons] at hvalues
    have hpass := inChildWith law hvalues.1 name mutable (hr.stmt hbody w)
    refine bind law hpass fun w₁ c hw hc => ?_
    have hended := ended_leavesLoop? law hc
    cases hleaves : c.leavesLoop? with
    | some done => exact deliver law (lasts_completion law) (hended done hleaves)
    | none => exact ih w₁ (lasts_args law hw hvalues.2)

theorem keeps_runGuarded {body : List Stmt} {handler : Option Handler}
    (hbody : ∀ s ∈ body, D.node (.stmt s))
    (hhandler : ∀ clause ∈ handler, ∀ s ∈ clause.body, D.node (.stmt s)) :
    (runGuarded r body handler).Keeps D w D.completion (runGuarded r' body handler) := by
  refine bind law (attempt (keeps_runBlock law hr hbody w)) fun w₁ outcome _ houtcome => ?_
  have hresume := resume law fun w₂ hw => lasts_outcome (lasts_completion law) hw houtcome
  cases outcome with
  | ok c => exact hresume
  | error f =>
    cases handler with
    | none => exact hresume
    | some clause =>
      have hstmts := keeps_runStmts law hr (hhandler clause rfl) w₁ .null (value_null law)
      exact inChildWith law (value_string law f.message) clause.param true hstmts

theorem keeps_runTry {body : List Stmt} {handler : Option Handler} {cleanup : Option (List Stmt)}
    (hbody : ∀ s ∈ body, D.node (.stmt s))
    (hhandler : ∀ clause ∈ handler, ∀ s ∈ clause.body, D.node (.stmt s))
    (hcleanup : ∀ stmts ∈ cleanup, ∀ s ∈ stmts, D.node (.stmt s)) :
    (runTry r body handler cleanup).Keeps D w D.completion (runTry r' body handler cleanup) := by
  have hguarded := keeps_runGuarded (w := w) law hr hbody hhandler
  cases cleanup with
  | none => exact hguarded
  | some cleanup =>
    refine bind law (attempt hguarded) fun w₁ outcome _ houtcome => ?_
    refine bind law (keeps_runBlock law hr (hcleanup cleanup rfl) w₁) fun w₂ c hw hc => ?_
    cases c with
    | normal v =>
      exact resume law fun w₃ hw₁ =>
        lasts_outcome (lasts_completion law) (law.trans hw hw₁) houtcome
    | returned v => exact deliver law (lasts_completion law) hc
    | broke | continued => exact deliver law (lasts_completion law) trivial

omit hr in
/-- What a `for` goes through may be passed around. -/
theorem value_traverse {h : Heap} (hh : D.heap w h) (traversal : Traversal) (subject : Value) :
    ∀ v ∈ h.traverse traversal subject, D.value w v := by
  have hindices (n : Nat) : ∀ v ∈ Heap.indexValues n, D.value w v := by
    intro v hv
    obtain ⟨i, -, rfl⟩ := List.mem_map.mp hv
    exact value_number law _
  unfold Heap.traverse
  split
  · next a => exact fun v hv => law.element hh a v (Array.mem_toList_iff.mp hv)
  · exact hindices _
  · next o =>
    intro v hv
    obtain ⟨⟨key, v⟩, hentry, rfl⟩ := List.mem_map.mp hv
    exact law.entry hh o key v (Dict.get?_eq_some_iff.mpr hentry)
  · intro v hv
    obtain ⟨key, -, rfl⟩ := List.mem_map.mp hv
    exact value_string law _
  · intro v hv
    obtain ⟨c, -, rfl⟩ := List.mem_map.mp hv
    exact value_string law _
  · exact hindices _
  · exact fun v hv => nomatch hv

/-- Every form of statement, given what is below it. -/
theorem keeps_execStmt {s : Stmt} (hn : D.node (.stmt s)) :
    (execStmt r s).Keeps D w D.completion (execStmt r' s) := by
  unfold execStmt
  cases s with
  | expr e =>
    exact bind law (hr.expr (law.below hn (by simp)) w) fun _ _ _ hv =>
      deliver law (lasts_completion law) hv
  | declare name constant init position =>
    have hinit := keeps_evalOption law hr (e := init) (fun e he => law.below hn (by simpa using he)) w
    refine bind law hinit fun w₁ v _ hv => ?_
    exact bind law (declare law hv name _) fun w₂ _ hw _ =>
      deliver law (lasts_completion law) (law.value_mono hw hv)
  | ifElse condition whenTrue whenFalse position =>
    refine bind law (hr.expr (law.below hn (by simp)) w) fun w₁ v _ _ => ?_
    split
    · exact hr.stmt (law.below hn (by simp)) w₁
    · cases whenFalse with
      | some s => exact hr.stmt (law.below hn (by simp)) w₁
      | none => exact deliver law (lasts_completion law) (value_null law)
  | ret value position =>
    have hvalue := keeps_evalOption law hr (e := value)
      (fun e he => law.below hn (by simpa using he)) w
    exact bind law hvalue fun _ _ _ hv => deliver law (lasts_completion law) hv
  | block stmts position =>
    exact keeps_runBlock law hr (fun s hs => law.below hn (by simpa using hs)) w
  | whileLoop condition body position =>
    have hpass := keeps_whilePass (w := w) law hr (law.below hn (c := .expr condition) (by simp))
      (law.below hn (c := .stmt body) (by simp))
    dsimp only
    rw [hr.fuel]
    exact inLoop law (keeps_iterate law hpass _)
  | doWhile body condition position =>
    have hpass := keeps_doWhilePass (w := w) law hr (law.below hn (c := .expr condition) (by simp))
      (law.below hn (c := .stmt body) (by simp))
    dsimp only
    rw [hr.fuel]
    exact inLoop law (keeps_iterate law hpass _)
  | forLoop init condition update body position =>
    dsimp only
    rw [hr.fuel]
    refine inChild law (bind law (keeps_loopStart law hr ?_) fun w₁ _ _ _ => ?_)
    · rintro s rfl
      exact law.below hn (by simp)
    · refine inLoop law (keeps_iterate law (keeps_forPass law hr ?_ ?_ ?_) _)
      · rintro e rfl
        exact law.below hn (by simp)
      · rintro e rfl
        exact law.below hn (by simp)
      · exact law.below hn (by simp)
  | forEach name constant traversal subject body position =>
    refine bind law (hr.expr (law.below hn (by simp)) w) fun w₁ container _ _ => ?_
    refine bind law (read (p := fun w₂ (l : List Value) => ∀ v ∈ l, D.value w₂ v) law
      fun _ _ _ hh => value_traverse law hh traversal container) fun w₂ values _ hvalues => ?_
    exact inLoop law (keeps_eachPass law hr (law.below hn (by simp)) name _ values w₂ hvalues)
  | breakLoop position => exact keeps_loopControl law _ (law.failure _ (by simp)) trivial
  | continueLoop position => exact keeps_loopControl law _ (law.failure _ (by simp)) trivial
  | tryCatch body handler cleanup position =>
    refine keeps_runTry law hr ?_ ?_ ?_
    · exact fun s hs => law.below hn (by simp [hs])
    · rintro clause rfl s hs
      exact law.below hn (by simp [hs])
    · rintro stmts rfl s hs
      exact law.below hn (by simp [hs])
  | throw value position =>
    exact bind law (hr.expr (law.below hn (by simp)) w) fun _ _ _ _ =>
      fail law _ (law.failure _ (by simp))
  | function d =>
    refine bind law (keeps_closure law (law.below hn (by simp))) fun w₁ f _ hf => ?_
    have hnormal (w₂ : D.Stage) : (Pure.pure (.normal .null) : Run Completion).Keeps D w₂
        D.completion (Pure.pure (.normal .null)) :=
      deliver law (lasts_completion law) (value_null law)
    cases d.name with
    | some name => exact bind law (declare law hf name true) fun w₂ _ _ _ => hnormal w₂
    | none => exact hnormal w₁

/-! ## Calls -/

omit hr in
theorem keeps_builtinCall (which : Builtin) (args : List Value) :
    (which.call args).Keeps D w D.value (which.call args) := by
  cases which with
  | log | warn | error =>
    exact bind law (record law _ _) fun _ _ _ _ => value law (value_null law)
  | typeof | fromCharCode => exact value law (value_string law _)
  | parseInt | parseFloat => exact value law (value_number law _)

omit hr in
theorem heap_bindParams (s : Scope) (params : List String) :
    ∀ (h : Heap) (args : List Value), D.heap w h → (∀ v ∈ args, D.value w v) →
      D.heap w (bindParams h s params args) := by
  induction params with
  | nil => exact fun h args hh _ => hh
  | cons param params ih =>
    intro h args hh hargs
    refine ih _ _ (law.setBinding _ _ hh ?_) fun v hv => hargs v (List.mem_of_mem_tail hv)
    cases args with
    | nil => exact value_null law
    | cons v rest => exact hargs v List.mem_cons_self

theorem keeps_runBody {d : FunctionDef} (hd : D.node (.function d)) (w : D.Stage) :
    (runBody r d.body).Keeps D w D.value (runBody r' d.body) := by
  obtain ⟨name, params, body, position⟩ := d
  cases body with
  | block stmts =>
    have hbelow : ∀ s ∈ stmts, D.node (.stmt s) := fun s hs => law.below hd (by simpa using hs)
    have hstmts := keeps_runStmts law hr hbelow w .null (value_null law)
    refine bind law hstmts fun w₁ c _ hc => ?_
    cases c with
    | normal v | returned v => exact value law hc
    | broke | continued => exact value law (value_null law)
  | expr e => exact hr.expr (law.below hd (by simp)) w

theorem keeps_callUser {d : FunctionDef} {s : Scope} (hf : D.function w (.user d s))
    {args : List Value} (hargs : ∀ v ∈ args, D.value w v) :
    (callUser r d s args).Keeps D w D.value (callUser r' d s args) := by
  obtain ⟨hd, hs⟩ := hf
  have hexhausted {w₁ : D.Stage} :
      callsExhausted.Keeps D w₁ (fun _ _ => True) callsExhausted :=
    fun w₂ _ _ hm => ⟨rfl, w₂, .refl law hm, trivial⟩
  refine bind law (report law _ _) fun w₁ _ hw _ => bind law hexhausted fun w₂ exhausted hw₁ _ => ?_
  have hw := law.trans hw hw₁
  split
  · exact fail law 0 (law.failure _ (by simp))
  · have hframe : (Run.update (callFrame · s d.params args)).Keeps D w₂ D.scope
        (Run.update (callFrame · s d.params args)) := by
      refine update law fun w₃ h hw₂ hh => ?_
      have hw := law.trans hw hw₂
      obtain ⟨w₄, hw₃, hchild, hscope⟩ := law.child hh (law.scope_mono hw hs)
      exact ⟨w₄, hw₃, heap_bindParams law _ _ _ _ hchild (lasts_args law (law.trans hw hw₃) hargs),
        hscope⟩
    exact bind law hframe fun w₃ child _ hchild => inCall law hchild (keeps_runBody law hr hd w₃)

theorem keeps_callValue (host : Host) {callee : Value} (hcallee : D.value w callee)
    {args : List Value} (hargs : ∀ v ∈ args, D.value w v) :
    (callValue host r callee args).Keeps D w D.value (callValue host r' callee args) := by
  unfold callValue
  split
  · next f =>
    have hfetch : (Run.read (·.function? f)).Keeps D w
        (fun w₁ o => ∀ g, o = some g → D.function w₁ g) (Run.read (·.function? f)) :=
      read law fun _ _ _ hh g hg => law.fetch hh hg
    refine bind law hfetch fun w₁ o hw ho => ?_
    have hargs := lasts_args law hw hargs
    cases o with
    | none => exact fail law 0 (law.failure _ (by simp))
    | some g =>
      have hg := ho g rfl
      cases g with
      | user d s => exact keeps_callUser law hr hg hargs
      | builtin which => exact keeps_builtinCall law which args
      | bound method receiver => exact keeps_methodCall law hr method hg hargs
      | host name service => exact hg.elim
  · exact fail law 0 (law.failure _ (by simp))

omit hr

/-! ## The knot -/

/-- Evaluators that refuse alike where it matters do the same, and keep the discipline. -/
theorem evaluatorBy_keeps (host : Host) {refuse refuse' : Refuse} (href : D.Refuses refuse refuse')
    (fuel : Nat) : (evaluatorBy refuse host fuel).Keeps D (evaluatorBy refuse' host fuel) := by
  induction fuel with
  | zero =>
    exact ⟨rfl, fun _ _ => outOfFuel law, fun _ _ => outOfFuel law, fun _ _ => outOfFuel law⟩
  | succ fuel ih =>
    simp only [evaluatorBy]
    exact ⟨rfl, fun hn _ => keeps_evalExprBy law ih href hn, fun hn _ => keeps_execStmt law ih hn,
      fun hcallee hargs => keeps_callValue law ih host hcallee hargs⟩

theorem keeps_execute {r r' : Eval} (hr : r.Keeps D r') {program : List Stmt}
    (hprogram : ∀ s ∈ program, D.node (.stmt s)) (w : D.Stage) :
    (execute r program).Keeps D w D.value (execute r' program) := by
  refine bind law (report law _ _) fun w₁ _ _ _ => bind law (getMachine law) fun w₂ m _ hscope => ?_
  have hstmts := keeps_runStmts law hr hprogram w₂ .null (value_null law)
  refine bind law (attempt hstmts) fun w₃ outcome hw houtcome => ?_
  cases outcome with
  | ok c =>
    refine bind law (report law _ _) fun w₄ _ hw₁ _ => ?_
    have hc := lasts_completion law hw₁ houtcome
    cases c with
    | normal v | returned v => exact value law hc
    | broke | continued => exact value law (value_null law)
  | error f =>
    refine bind law (setRegisters law (law.scope_mono hw hscope)) fun w₄ _ _ _ => ?_
    exact bind law (report law _ _) fun _ _ _ _ => throw law houtcome

end Quill
