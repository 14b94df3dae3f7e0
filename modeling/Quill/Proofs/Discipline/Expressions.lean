import Quill.Proofs.Discipline.Methods
import Quill.Proofs.Heap.Elements

/-!
# Expressions keep disciplines

The walk through all forms of expression, done once for every discipline. It is done for two
evaluators at once that differ in what their assignments refuse, and only in what the discipline does
not let come up.
-/

set_option autoImplicit false

namespace Quill

open Run Run.Keeps Discipline

variable {D : Discipline}

/-- Where it matters, the two refuse in the same way, which the discipline allows: a value that is
indexed and has no parts, and the target of an assignment that may be evaluated. -/
structure Discipline.Refuses (D : Discipline) (refuse refuse' : Refuse) : Prop where
  container : ∀ {v}, v.isContainer = false → ∀ line,
    refuse' (.container v) line = refuse (.container v) line ∧ D.stop (refuse (.container v) line)
  assign : ∀ {e value position}, e.isAssignable = false →
    D.node (.expr (.assign e value position)) → ∀ line,
    refuse' (.target e) line = refuse (.target e) line ∧ D.stop (refuse (.target e) line)
  compound : ∀ {op e value position}, e.isAssignable = false →
    D.node (.expr (.compound op e value position)) → ∀ line,
    refuse' (.target e) line = refuse (.target e) line ∧ D.stop (refuse (.target e) line)

/-- A place with its parts evaluated. What is indexed has parts to be written. -/
def Discipline.place (D : Discipline) (w : D.Stage) : Place → Prop
  | .var _ => True
  | .member object _ => D.value w object
  | .index container _ => container.isContainer = true ∧ D.value w container

variable {w : D.Stage} (law : D.Lawful)

include law

theorem lasts_place : D.Lasts D.place := by
  intro w w' place hw h
  cases place with
  | var name => trivial
  | member object name => exact law.value_mono hw h
  | index container key => exact ⟨h.1, law.value_mono hw h.2⟩

/-! ## Variables and members -/

theorem keeps_readVariable (line : Nat) (name : String) :
    (Run.readVariable line name).Keeps D w D.value (Run.readVariable line name) := by
  intro w₁ hw m hm
  refine ⟨rfl, ?_⟩
  unfold Run.readVariable Heap.lookup?
  cases hfind : m.heap.findBinding? name m.scope.chain with
  | none => exact ⟨w₁, .refl law hm, law.failure _ (by simp)⟩
  | some found =>
    exact ⟨w₁, .refl law hm, law.binding hm.heap (Heap.get?_of_findBinding? hfind)⟩

theorem keeps_assignVariable (line : Nat) (name : String) {value : Value}
    (hvalue : D.value w value) :
    (Run.assignVariable line name value).Keeps D w (fun _ _ => True)
      (Run.assignVariable line name value) := by
  refine bind law (scope law) fun w₁ s hw _ => store law line ?_ ?_
  · intro w₂ h slot hw₁ hh hslot
    unfold Heap.variableSlot at hslot
    split at hslot
    · cases hslot
    · split at hslot
      · cases hslot
        exact law.setBinding _ _ hh (law.value_mono (law.trans hw hw₁) hvalue)
      · cases hslot
  · intro h kind hkind
    unfold Heap.variableSlot at hkind
    split at hkind
    · cases hkind
      exact law.failure _ (by simp)
    · split at hkind
      · cases hkind
      · cases hkind
        exact law.failure _ (by simp)

theorem values_setGrowing {items : Array Value} (h : D.values w items) {value : Value}
    (hvalue : D.value w value) (i : Nat) : D.values w (Heap.setGrowing items i value) := by
  intro v hv
  obtain ⟨j, hj⟩ := Array.mem_iff_getElem?.mp hv
  rw [Heap.getElem?_setGrowing] at hj
  split at hj
  · cases hj
    exact hvalue
  · split at hj
    · exact h v (Array.mem_of_getElem? hj)
    · split at hj
      · cases hj
        exact value_null law
      · cases hj

/-- A store into what has parts. -/
theorem keeps_storeIndex (line : Nat) {container : Value} (hcontainer : container.isContainer = true)
    (key : Value) {value : Value} (hvalue : D.value w value) :
    (Run.store line (·.indexSlot container key) value).Keeps D w (fun _ _ => True)
      (Run.store line (·.indexSlot container key) value) := by
  refine store law line (fun w₁ h slot hw hh hslot => ?_) fun h kind hkind => ?_
  · have hvalue := law.value_mono hw hvalue
    cases container with
    | array a =>
      rw [Heap.indexSlot_array] at hslot
      split at hslot
      · cases hslot
        exact law.modifyArray a hh (values_setGrowing law (law.element hh a) hvalue _)
      · cases hslot
    | object o =>
      cases hslot
      exact law.modifyObject o hh (entries_set (law.entry hh o) hvalue _)
    | null | bool _ | number _ | string _ | function _ | native _ => cases hcontainer
  · cases container with
    | array a =>
      rw [Heap.indexSlot_array] at hkind
      split at hkind
      · cases hkind
      · cases hkind
        exact law.failure _ (by simp)
    | object o => cases hkind
    | null | bool _ | number _ | string _ | function _ | native _ => cases hcontainer

theorem keeps_writeMember (container : Value) (name : String) {value : Value}
    (hvalue : D.value w value) :
    (Run.write (·.writeMember container name value)).Keeps D w (fun _ _ => True)
      (Run.write (·.writeMember container name value)) := by
  refine write law fun w₁ h hw hh => ?_
  cases container with
  | object o =>
    exact law.modifyObject o hh (entries_set (law.entry hh o) (law.value_mono hw hvalue) _)
  | null | bool _ | number _ | string _ | function _ | array _ | native _ => exact hh

theorem keeps_closure {d : FunctionDef} (hd : D.node (.function d)) :
    (Run.closure d).Keeps D w D.value (Run.closure d) :=
  bind law (scope law) fun _ _ _ hs => allocFunction law ⟨hd, hs⟩

theorem keeps_member {receiver : Value} (hreceiver : D.value w receiver) (name : String) :
    (Run.member receiver name).Keeps D w D.value (Run.member receiver name) := by
  unfold Run.member
  split
  · next o =>
    have hentry : (Run.read fun h => (h.object o).get? name).Keeps D w
        (fun w₁ e => ∀ v, e = some v → D.value w₁ v) (Run.read fun h => (h.object o).get? name) :=
      read law fun w₁ h _ hh v hv => law.entry hh o name v hv
    exact bind law hentry fun w₁ e _ he => value law (value_getD law he)
  · have hfield : (Run.read (·.field? receiver name)).Keeps D w
        (fun w₁ e => ∀ v, e = some v → D.value w₁ v) (Run.read (·.field? receiver name)) := by
      refine read law fun w₁ h _ hh v hv => ?_
      unfold Heap.field? at hv
      split at hv
      · split at hv
        · cases hv
          exact value_number law _
        · cases hv
          exact value_number law _
        · cases hv
      · cases hv
    refine bind law hfield fun w₁ field hw hfield => ?_
    cases field with
    | some v => exact value law (hfield v rfl)
    | none =>
      dsimp only
      split
      · exact allocFunction law (law.value_mono hw hreceiver)
      · exact value law (value_null law)

/-- What is read under a key. -/
theorem value_readIndex {h : Heap} (hh : D.heap w h) (container key : Value) :
    D.value w (h.readIndex container key) := by
  unfold Heap.readIndex
  split
  · next a =>
    refine value_getD law fun v hv => ?_
    obtain ⟨i, -, hi⟩ := Option.bind_eq_some_iff.mp hv
    exact law.element hh a v (Array.mem_of_getElem? hi)
  · split
    · exact value_string law _
    · exact value_null law
  · next o => exact value_getD law fun v hv => law.entry hh o _ v hv
  · exact value_null law

/-- What an operator computes is a number, a text or a truth value. -/
theorem value_binary (h : Heap) (op : BinaryOp) (a b : Value) : D.value w (h.binary op a b) := by
  cases op with
  | add =>
    show D.value w (a.add b)
    unfold Value.add
    split
    · exact value_string law _
    · exact value_string law _
    · exact value_number law _
  | sub | mul | div | mod => exact value_number law _
  | eq | notEq | lt | ltEq | gt | gtEq => exact value_bool law _

/-! ## Parts -/

variable {r r' : Eval} (hr : r.Keeps D r')

include hr

theorem keeps_evalAll {es : List Expr} (hes : ∀ e ∈ es, D.node (.expr e)) :
    ∀ (w : D.Stage) (done : Array Value), D.values w done →
      (evalAll r done es).Keeps D w D.values (evalAll r' done es) := by
  induction es with
  | nil => exact fun w done hdone => deliver law (lasts_values law) hdone
  | cons e rest ih =>
    intro w done hdone
    rw [List.forall_mem_cons] at hes
    exact bind law (hr.expr hes.1 w) fun w₁ v hw hv =>
      ih hes.2 w₁ _ (values_push (lasts_values law hw hdone) hv)

theorem keeps_evalEntries {entries : List (String × Expr)}
    (hes : ∀ e ∈ entries.map Prod.snd, D.node (.expr e)) :
    ∀ (w : D.Stage) (done : Dict Value), D.entries w done →
      (evalEntries r done entries).Keeps D w D.entries (evalEntries r' done entries) := by
  induction entries with
  | nil => exact fun w done hdone => deliver law (lasts_entries law) hdone
  | cons entry rest ih =>
    intro w done hdone
    rw [List.map_cons, List.forall_mem_cons] at hes
    exact bind law (hr.expr hes.1 w) fun w₁ v hw hv =>
      ih hes.2 w₁ _ (entries_set (lasts_entries law hw hdone) hv _)

theorem keeps_evalCall {callee : Expr} {args : List Expr} {position : Position}
    (hn : D.node (.expr (.call callee args position))) :
    (evalCall r callee args position.line).Keeps D w D.value
      (evalCall r' callee args position.line) := by
  have hcallee : D.node (.expr callee) := law.below hn List.mem_cons_self
  have hargs (w₁ : D.Stage) : (evalAll r #[] args).Keeps D w₁ D.values (evalAll r' #[] args) :=
    keeps_evalAll law hr (fun e he => law.below hn (by simp [he])) w₁ #[] fun v hv => nomatch hv
  have hplain : (do
        let f ← r.expr callee
        let args := (← evalAll r #[] args).toList
        Run.atLine position.line (r.call f args)).Keeps D w D.value (do
        let f ← r'.expr callee
        let args := (← evalAll r' #[] args).toList
        Run.atLine position.line (r'.call f args)) := by
    refine bind law (hr.expr hcallee w) fun w₁ f hw hf => ?_
    refine bind law (hargs w₁) fun w₂ values hw₁ hvalues => ?_
    exact atLine _ (hr.call (law.value_mono hw₁ hf)
      fun v hv => hvalues v (Array.mem_toList_iff.mp hv))
  cases callee with
  | member object name optional place =>
    have hobject : D.node (.expr object) := law.below hcallee (by simp)
    refine bind law (hr.expr hobject w) fun w₁ receiver hw hreceiver => ?_
    split
    · exact value law (value_null law)
    · refine bind law (hargs w₁) fun w₂ values hw₁ hvalues => ?_
      have hreceiver := law.value_mono hw₁ hreceiver
      have hlist : ∀ v ∈ values.toList, D.value w₂ v :=
        fun v hv => hvalues v (Array.mem_toList_iff.mp hv)
      dsimp only
      split
      · next method hlookup => exact atLine _ (keeps_methodCall law hr method hreceiver hlist)
      · refine bind law (keeps_member law hreceiver name) fun w₃ f hw₂ hf => ?_
        exact atLine _ (hr.call hf (lasts_args law hw₂ hlist))
  | _ => exact hplain

/-! ## Assignment -/

theorem keeps_resolvePlace {target : Expr} (htarget : D.node (.expr target)) {invalid : FailureKind}
    (hinvalid : D.failure invalid) (line : Nat) :
    (resolvePlace r invalid line target).Keeps D w D.place
      (resolvePlace r' invalid line target) := by
  cases target with
  | ident name position => exact deliver law (lasts_place law) trivial
  | member object name optional position =>
    have hobject : D.node (.expr object) := law.below htarget (by simp)
    cases optional with
    | false =>
      exact bind law (hr.expr hobject w) fun w₁ v _ hv => deliver law (lasts_place law) hv
    | true => exact fail law line hinvalid
  | index object index position =>
    have hobject : D.node (.expr object) := law.below htarget (by simp)
    have hindex : D.node (.expr index) := law.below htarget (by simp)
    refine bind law (hr.expr hobject w) fun w₁ container hw hcontainer => ?_
    refine bind law (hr.expr hindex w₁) fun w₂ key hw₁ _ => ?_
    have hcontainer := law.value_mono hw₁ hcontainer
    cases container with
    | array _ | object _ => exact deliver law (lasts_place law) ⟨rfl, hcontainer⟩
    | null | bool _ | number _ | string _ | function _ | native _ => exact fail law line hinvalid
  | _ => exact fail law line hinvalid

omit hr in
theorem keeps_loadPlace (line : Nat) {place : Place} (hplace : D.place w place) :
    (loadPlace line place).Keeps D w D.value (loadPlace line place) := by
  unfold loadPlace
  split
  · exact keeps_readVariable law line _
  · exact keeps_member law hplace _
  · next a key =>
    refine bind law (read (p := D.values) law fun _ _ _ hh => law.element hh a)
      fun w₁ items _ hitems => ?_
    split
    · next v hv =>
      obtain ⟨i, -, hi⟩ := Option.bind_eq_some_iff.mp hv
      exact value law (hitems v (Array.mem_of_getElem? hi))
    · exact fail law line (law.failure _ (by simp))
  · exact read law fun _ _ _ hh => value_readIndex law hh _ _

omit hr in
theorem keeps_storePlace (line : Nat) {v : Value} (hv : D.value w v) {place : Place}
    (hplace : D.place w place) :
    (storePlace line v place).Keeps D w (fun _ _ => True) (storePlace line v place) := by
  cases place with
  | var name => exact keeps_assignVariable law line name hv
  | member object name => exact keeps_writeMember law object name hv
  | index container key => exact keeps_storeIndex law line hplace.1 key hv

theorem keeps_evalUpdate {target : Expr} (htarget : D.node (.expr target)) (op : UpdateOp)
    (before : Bool) (line : Nat) :
    (evalUpdate r op before target line).Keeps D w D.value
      (evalUpdate r' op before target line) := by
  have hinvalid : D.failure (.invalidUpdateOperand op) := law.failure _ (by simp)
  refine bind law (keeps_resolvePlace law hr htarget hinvalid line) fun w₁ place hw hplace => ?_
  refine bind law (keeps_loadPlace law line hplace) fun w₂ old hw₁ _ => ?_
  have hstored (n : Number) :=
    keeps_storePlace law line (value_number law n) (lasts_place law hw₁ hplace)
  exact bind law (hstored _) fun w₃ _ _ _ => value law (value_number law _)

variable {refuse refuse' : Refuse} (href : D.Refuses refuse refuse')

include href

theorem keeps_assignToBy {target value : Expr} {position : Position}
    (hn : D.node (.expr (.assign target value position))) {v : Value} (hv : D.value w v)
    (line : Nat) :
    (assignToBy refuse r line v target).Keeps D w (fun _ _ => True)
      (assignToBy refuse' r' line v target) := by
  have htarget : D.node (.expr target) := law.below hn (by simp)
  have hrefused (hform : target.isAssignable = false) :
      (throw (refuse (.target target) line) : Run Unit).Keeps D w (fun _ _ => True)
        (throw (refuse' (.target target) line)) := by
    obtain ⟨hsame, hstop⟩ := href.assign hform hn line
    rw [hsame]
    exact Run.Keeps.throw law hstop
  cases target with
  | ident name position => exact keeps_assignVariable law line name hv
  | member object name optional position =>
    have hobject : D.node (.expr object) := law.below htarget (by simp)
    exact bind law (hr.expr hobject w) fun w₁ container hw _ =>
      keeps_writeMember law container name (law.value_mono hw hv)
  | index object index position =>
    have hobject : D.node (.expr object) := law.below htarget (by simp)
    have hindex : D.node (.expr index) := law.below htarget (by simp)
    refine bind law (hr.expr hobject w) fun w₁ container hw _ => ?_
    refine bind law (hr.expr hindex w₁) fun w₂ key hw₁ _ => ?_
    unfold storePartBy
    split
    · next hcontainer =>
      exact keeps_storeIndex law line hcontainer key (law.value_mono (law.trans hw hw₁) hv)
    · next hcontainer =>
      obtain ⟨hsame, hstop⟩ := href.container (Bool.eq_false_iff.mpr hcontainer) line
      rw [hsame]
      exact Run.Keeps.throw law hstop
  | _ => exact hrefused rfl

theorem keeps_resolvePlaceBy {op : BinaryOp} {target value : Expr} {position : Position}
    (hn : D.node (.expr (.compound op target value position))) (line : Nat) :
    (resolvePlaceBy refuse r line target).Keeps D w D.place
      (resolvePlaceBy refuse' r' line target) := by
  have htarget : D.node (.expr target) := law.below hn (by simp)
  have hrefused (hform : target.isAssignable = false) :
      (throw (refuse (.target target) line) : Run Place).Keeps D w D.place
        (throw (refuse' (.target target) line)) := by
    obtain ⟨hsame, hstop⟩ := href.compound hform hn line
    rw [hsame]
    exact Run.Keeps.throw law hstop
  cases target with
  | ident name position => exact deliver law (lasts_place law) trivial
  | member object name optional position =>
    have hobject : D.node (.expr object) := law.below htarget (by simp)
    cases optional with
    | false =>
      exact bind law (hr.expr hobject w) fun w₁ v _ hv => deliver law (lasts_place law) hv
    | true => exact hrefused rfl
  | index object index position =>
    have hobject : D.node (.expr object) := law.below htarget (by simp)
    have hindex : D.node (.expr index) := law.below htarget (by simp)
    refine bind law (hr.expr hobject w) fun w₁ container hw hcontainer => ?_
    refine bind law (hr.expr hindex w₁) fun w₂ key hw₁ _ => ?_
    split
    · next hform => exact deliver law (lasts_place law) ⟨hform, law.value_mono hw₁ hcontainer⟩
    · next hform =>
      obtain ⟨hsame, hstop⟩ := href.container (Bool.eq_false_iff.mpr hform) line
      rw [hsame]
      exact Run.Keeps.throw law hstop
  | _ => exact hrefused rfl

theorem keeps_evalCompoundBy {op : BinaryOp} {target value : Expr} {position : Position}
    (hn : D.node (.expr (.compound op target value position))) (line : Nat) :
    (evalCompoundBy refuse r op target value line).Keeps D w D.value
      (evalCompoundBy refuse' r' op target value line) := by
  have hvalue : D.node (.expr value) := law.below hn (by simp)
  refine bind law (keeps_resolvePlaceBy law hr href hn line) fun w₁ place hw hplace => ?_
  refine bind law (keeps_loadPlace law line hplace) fun w₂ current hw₁ _ => ?_
  refine bind law (hr.expr hvalue w₂) fun w₃ operand hw₂ _ => ?_
  refine bind law (read (p := D.value) law fun _ h _ _ => value_binary law h op current operand)
    fun w₄ result hw₃ hresult => ?_
  have hplace := lasts_place law (law.trans hw₁ (law.trans hw₂ hw₃)) hplace
  exact bind law (keeps_storePlace law line hresult hplace) fun w₅ _ hw₄ _ =>
    Run.Keeps.value law (law.value_mono hw₄ hresult)

/-! ## All forms -/

/-- Every form of expression, given what is below it. -/
theorem keeps_evalExprBy {e : Expr} (hn : D.node (.expr e)) :
    (evalExprBy refuse r e).Keeps D w D.value (evalExprBy refuse' r' e) := by
  cases e with
  | number n position => exact value law (value_number law n)
  | string s position => exact value law (value_string law s)
  | bool b position => exact value law (value_bool law b)
  | null position => exact value law (value_null law)
  | ident name position => exact keeps_readVariable law _ name
  | array items position =>
    have hbelow : ∀ e ∈ items, D.node (.expr e) := fun e he => law.below hn (by simp [he])
    have hitems := keeps_evalAll law hr hbelow w #[] fun v hv => nomatch hv
    exact bind law hitems fun _ _ _ h => allocArray law h
  | object entries position =>
    have hbelow : ∀ e ∈ entries.map Prod.snd, D.node (.expr e) :=
      fun e he => law.below hn (List.mem_map_of_mem he)
    have hentries := keeps_evalEntries law hr hbelow w .empty fun key v hv => nomatch hv
    exact bind law hentries fun _ _ _ h => allocObject law h
  | binary op left right position =>
    have hleft : D.node (.expr left) := law.below hn (by simp)
    have hright : D.node (.expr right) := law.below hn (by simp)
    refine bind law (hr.expr hleft w) fun w₁ a _ _ => ?_
    exact bind law (hr.expr hright w₁) fun w₂ b _ _ =>
      read law fun _ h _ _ => value_binary law h op a b
  | logical op left right position =>
    have hleft : D.node (.expr left) := law.below hn (by simp)
    have hright : D.node (.expr right) := law.below hn (by simp)
    cases op with
    | and =>
      refine bind law (hr.expr hleft w) fun w₁ a _ _ => ?_
      split
      · exact bind law (hr.expr hright w₁) fun _ _ _ _ => value law (value_bool law _)
      · exact value law (value_bool law _)
    | or =>
      refine bind law (hr.expr hleft w) fun w₁ a _ ha => ?_
      split
      · exact value law ha
      · exact hr.expr hright w₁
  | unary op operand position =>
    have hoperand : D.node (.expr operand) := law.below hn (by simp)
    cases op with
    | neg => exact bind law (hr.expr hoperand w) fun _ _ _ _ => value law (value_number law _)
    | not => exact bind law (hr.expr hoperand w) fun _ _ _ _ => value law (value_bool law _)
  | call callee args position => exact keeps_evalCall law hr hn
  | member object name optional position =>
    have hobject : D.node (.expr object) := law.below hn (by simp)
    refine bind law (hr.expr hobject w) fun w₁ receiver _ hreceiver => ?_
    split
    · exact value law (value_null law)
    · exact keeps_member law hreceiver name
  | index object index position =>
    have hobject : D.node (.expr object) := law.below hn (by simp)
    have hindex : D.node (.expr index) := law.below hn (by simp)
    refine bind law (hr.expr hobject w) fun w₁ container _ _ => ?_
    exact bind law (hr.expr hindex w₁) fun w₂ key _ _ =>
      read law fun _ _ _ hh => value_readIndex law hh container key
  | ternary condition whenTrue whenFalse position =>
    have hcondition : D.node (.expr condition) := law.below hn (by simp)
    refine bind law (hr.expr hcondition w) fun w₁ test _ _ => ?_
    split
    · exact hr.expr (law.below hn (by simp)) w₁
    · exact hr.expr (law.below hn (by simp)) w₁
  | update op before target position =>
    exact keeps_evalUpdate law hr (law.below hn (by simp)) op before _
  | assign target v position =>
    have hvalue : D.node (.expr v) := law.below hn (by simp)
    refine bind law (hr.expr hvalue w) fun w₁ v _ hv => ?_
    exact bind law (keeps_assignToBy law hr href hn hv _) fun w₂ _ hw₁ _ =>
      value law (law.value_mono hw₁ hv)
  | compound op target v position => exact keeps_evalCompoundBy law hr href hn _
  | function d => exact keeps_closure law (law.below hn (by simp))

end Quill
