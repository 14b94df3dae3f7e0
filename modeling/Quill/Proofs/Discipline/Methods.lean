import Quill.Proofs.Discipline.Values

/-!
# Methods keep disciplines

A method takes its values from the receiver, from the arguments and from what it calls, and makes
only texts, numbers and truth values of its own. So what it delivers and what it puts into arrays may
be passed around if these may.
-/

set_option autoImplicit false

namespace Quill

open Run Run.Keeps Discipline

variable {σ τ : Type} {D : Discipline} {w : D.Stage}

/-! ## Evaluators -/

/-- The evaluators do the same with what the discipline admits, and keep it. -/
structure Eval.Keeps (D : Discipline) (r r' : Eval) : Prop where
  fuel : r'.fuel = r.fuel
  expr : ∀ {e}, D.node (.expr e) → ∀ w, (r.expr e).Keeps D w D.value (r'.expr e)
  stmt : ∀ {s}, D.node (.stmt s) → ∀ w, (r.stmt s).Keeps D w D.completion (r'.stmt s)
  call : ∀ {w callee args}, D.value w callee → (∀ v ∈ args, D.value w v) →
    (r.call callee args).Keeps D w D.value (r'.call callee args)

/-- What a method goes on with or ends with. -/
def Discipline.visited (D : Discipline) (s : D.Stage → σ → Prop) (t : D.Stage → τ → Prop)
    (w : D.Stage) : Visit σ τ → Prop
  | .next state => s w state
  | .finish result => t w result

theorem lasts_visited {s : D.Stage → σ → Prop} {t : D.Stage → τ → Prop} (hs : D.Lasts s)
    (ht : D.Lasts t) : D.Lasts (D.visited s t) := by
  intro w w' visit hw h
  cases visit with
  | next state => exact hs hw h
  | finish result => exact ht hw h

section Methods

variable (law : D.Lawful)

include law

theorem keeps_stringCall (method : StringMethod) (s : String) (args : List Value) :
    (method.call s args).Keeps D w D.value (method.call s args) := by
  cases method with
  | split =>
    refine allocArray law fun v hv => ?_
    obtain ⟨piece, -, rfl⟩ := List.mem_map.mp (List.mem_toArray.mp hv)
    exact value_string law _
  | toLowerCase | toUpperCase | trim | substring | replace => exact value law (value_string law _)
  | startsWith | endsWith | includes | contains => exact value law (value_bool law _)
  | indexOf => exact value law (value_positionValue law _)

theorem keeps_callback (method : ArrayMethod) {args : List Value}
    (hargs : ∀ v ∈ args, D.value w v) :
    (callback method args).Keeps D w D.value (callback method args) := by
  have hfirst := value_argument law hargs 0
  unfold callback
  split
  · next f hf =>
    rw [hf] at hfirst
    exact value law hfirst
  · exact fail law 0 (law.failure _ (by simp))

theorem keeps_changeArray (a : ArrayRef) {answer : Array Value → Value}
    {change : Array Value → Array Value}
    (hanswer : ∀ w₁ items, D.grows w w₁ → D.values w₁ items → D.value w₁ (answer items))
    (hchange : ∀ w₁ items, D.grows w w₁ → D.values w₁ items → D.values w₁ (change items)) :
    (changeArray a answer change).Keeps D w D.value (changeArray a answer change) := by
  have hread : (Run.read fun h => answer (h.array a)).Keeps D w D.value
      (Run.read fun h => answer (h.array a)) :=
    read law fun w₁ h hw hh => hanswer w₁ _ hw (law.element hh a)
  refine bind law hread fun w₁ v hw hv => ?_
  refine bind law (write law fun w₂ h hw₁ hh => ?_) fun w₂ _ hw₁ _ => ?_
  · exact law.modifyArray a hh (hchange w₂ _ (law.trans hw hw₁) (law.element hh a))
  · exact value law (law.value_mono hw₁ hv)

/-! ## Calls for every element -/

theorem keeps_readElement (a : ArrayRef) (i : Nat) :
    (Run.read fun h => (h.array a)[i]?).Keeps D w (fun w₁ o => ∀ v, o = some v → D.value w₁ v)
      (Run.read fun h => (h.array a)[i]?) :=
  read law fun _ _ _ hh v hv => law.element hh a v (Array.mem_of_getElem? hv)

variable {r r' : Eval} (hr : r.Keeps D r')

include hr

/-- The walk over an array, by the positions left. What goes along with it lasts. -/
theorem keeps_visitFrom {a : ArrayRef} {f : Value} {s : D.Stage → σ → Prop}
    {t : D.Stage → τ → Prop} (hs : D.Lasts s) (ht : D.Lasts t)
    {visit : σ → Value → Nat → Value → Run (Visit σ τ)}
    (hvisit : ∀ w₁ state item i answer, s w₁ state → D.value w₁ item → D.value w₁ answer →
      (visit state item i answer).Keeps D w₁ (D.visited s t) (visit state item i answer))
    (fuel : Nat) : ∀ (w : D.Stage) (i : Nat) (state : σ),
      D.value w (.array a) → D.value w f → s w state →
      (visitFrom r a f visit fuel i state).Keeps D w (D.visited s t)
        (visitFrom r' a f visit fuel i state) := by
  induction fuel with
  | zero => exact fun w i state _ _ _ => outOfFuel law
  | succ fuel ih =>
    intro w i state ha hf hstate
    refine bind law (keeps_readElement law a i) fun w₁ o hw ho => ?_
    have ha := law.value_mono hw ha
    have hf := law.value_mono hw hf
    have hstate := hs hw hstate
    cases o with
    | none => exact deliver law (lasts_visited hs ht) hstate
    | some item =>
      have hitem := ho item rfl
      have hargs : ∀ v ∈ [item, .ofNat i, .array a], D.value w₁ v := by
        simp only [List.forall_mem_cons]
        exact ⟨hitem, value_number law _, ha, fun v hv => nomatch hv⟩
      refine bind law (hr.call hf hargs) fun w₂ answer hw₁ hanswer => ?_
      have hvisited := hvisit w₂ state item i answer (hs hw₁ hstate) (law.value_mono hw₁ hitem)
        hanswer
      refine bind law hvisited fun w₃ next hw₂ hnext => ?_
      have hw := law.trans hw₁ hw₂
      cases next with
      | next state' =>
        exact ih w₃ (i + 1) state' (law.value_mono hw ha) (law.value_mono hw hf) hnext
      | finish result => exact deliver law (lasts_visited hs ht) hnext

section Elements

variable {a : ArrayRef} {f : Value} (ha : D.value w (.array a)) (hf : D.value w f)

include ha hf

theorem keeps_visitAll : (visitAll r a f).Keeps D w D.value (visitAll r' a f) := by
  unfold visitAll
  rw [hr.fuel]
  refine bind law (keeps_visitFrom law hr (s := fun _ _ => True) (t := fun _ _ => True) lasts_true
    lasts_true (fun w₁ state item i answer _ _ _ => ?_) _ w 0 () ha hf trivial)
    fun w₁ _ hw _ => value law (value_null law)
  exact pure law fun _ _ => trivial

theorem keeps_collect {visit : Value → Value → Heap → Array Value}
    (hvisit : ∀ w₁ h item answer, D.heap w₁ h → D.value w₁ item → D.value w₁ answer →
      D.values w₁ (visit item answer h)) :
    (collect r a f visit).Keeps D w D.value (collect r' a f visit) := by
  unfold collect
  rw [hr.fuel]
  refine bind law (keeps_visitFrom law hr (s := D.values) (t := fun _ _ => True) (lasts_values law)
    lasts_true (fun w₁ out item i answer hout hitem hanswer => ?_) _ w 0 #[] ha hf
    fun v hv => nomatch hv) fun w₁ next hw hnext => ?_
  · have hmore : (Run.read (visit item answer)).Keeps D w₁ D.values (Run.read (visit item answer)) :=
      read law fun w₂ h hw₁ hh =>
        hvisit w₂ h item answer hh (law.value_mono hw₁ hitem) (law.value_mono hw₁ hanswer)
    refine bind law hmore fun w₂ more hw₁ hmore => ?_
    exact deliver law (lasts_visited (lasts_values law) lasts_true)
      (values_append (lasts_values law hw₁ hout) hmore)
  · cases next with
    | next out => exact allocArray law hnext
    | finish result => exact result.elim

/-- What a search found may be passed around. -/
theorem keeps_search (wanted : Bool) :
    (search r a f wanted).Keeps D w (fun w₁ hit => ∀ p, hit = some p → D.value w₁ p.1)
      (search r' a f wanted) := by
  have hlasts : D.Lasts fun w₁ (p : Value × Nat) => D.value w₁ p.1 :=
    fun _ _ _ hw h => law.value_mono hw h
  unfold search
  rw [hr.fuel]
  refine bind law (keeps_visitFrom law hr (s := fun _ _ => True)
    (t := fun w₁ (p : Value × Nat) => D.value w₁ p.1) lasts_true hlasts
    (fun w₁ state item i answer _ hitem _ => ?_) _ w 0 () ha hf trivial) fun w₁ next hw hnext => ?_
  · refine deliver law (lasts_visited lasts_true hlasts) ?_
    split
    · exact hitem
    · trivial
  · cases next with
    | next state => exact pure law fun _ _ p hp => nomatch hp
    | finish hit =>
      refine pure law fun w₂ hw₁ p hp => ?_
      cases hp
      exact law.value_mono hw₁ hnext

omit ha hf in
theorem keeps_foldFrom (fuel : Nat) : ∀ (w : D.Stage) (i : Nat) (acc : Value),
    D.value w (.array a) → D.value w f → D.value w acc →
    (foldFrom r a f fuel i acc).Keeps D w D.value (foldFrom r' a f fuel i acc) := by
  induction fuel with
  | zero => exact fun w i acc _ _ _ => outOfFuel law
  | succ fuel ih =>
    intro w i acc ha hf hacc
    refine bind law (keeps_readElement law a i) fun w₁ o hw ho => ?_
    have ha := law.value_mono hw ha
    have hf := law.value_mono hw hf
    have hacc := law.value_mono hw hacc
    cases o with
    | none => exact value law hacc
    | some item =>
      have hargs : ∀ v ∈ [acc, item, .ofNat i, .array a], D.value w₁ v := by
        simp only [List.forall_mem_cons]
        exact ⟨hacc, ho item rfl, value_number law _, ha, fun v hv => nomatch hv⟩
      refine bind law (hr.call hf hargs) fun w₂ acc' hw₁ hacc' => ?_
      exact ih w₂ (i + 1) acc' (law.value_mono hw₁ ha) (law.value_mono hw₁ hf) hacc'

theorem keeps_foldElements {initial : Value} (hinitial : D.value w initial) :
    (foldElements r a f initial).Keeps D w D.value (foldElements r' a f initial) := by
  unfold foldElements
  rw [hr.fuel]
  split
  · refine bind law (keeps_readElement law a 0) fun w₁ o hw ho => ?_
    cases o with
    | none => exact fail law 0 (law.failure _ (by simp))
    | some first =>
      exact keeps_foldFrom law hr _ w₁ 1 first (law.value_mono hw ha) (law.value_mono hw hf)
        (ho first rfl)
  · exact keeps_foldFrom law hr _ w 0 initial ha hf hinitial

end Elements

/-- Every method of arrays, given that calls keep the discipline. -/
theorem keeps_arrayCall (method : ArrayMethod) {a : ArrayRef} (ha : D.value w (.array a))
    {args : List Value} (hargs : ∀ v ∈ args, D.value w v) :
    (method.call r a args).Keeps D w D.value (method.call r' a args) := by
  have hback := keeps_callback law method hargs
  have hargs' {w₁ : D.Stage} (hw : D.grows w w₁) : ∀ v ∈ args, D.value w₁ v :=
    lasts_args law hw hargs
  unfold ArrayMethod.call
  cases method with
  | push =>
    refine keeps_changeArray law a (fun _ _ _ _ => value_number law _) fun w₁ items hw h => ?_
    exact values_append_list h (hargs' hw)
  | pop =>
    refine keeps_changeArray law a (fun w₁ items hw h => ?_) fun w₁ items hw h => ?_
    · exact value_getD law fun v hv => h v (Array.mem_of_back? hv)
    · exact values_pop h
  | shift =>
    refine keeps_changeArray law a (fun w₁ items hw h => value_element law h 0) fun w₁ items hw h => ?_
    exact values_extract h _ _
  | unshift =>
    refine keeps_changeArray law a (fun _ _ _ _ => value_number law _) fun w₁ items hw h => ?_
    exact values_append (fun v hv => hargs' hw v (List.mem_toArray.mp hv)) h
  | reverse =>
    refine keeps_changeArray law a (fun w₁ items hw h => law.value_mono hw ha) fun w₁ items hw h => ?_
    exact values_of_subset h fun v hv => Array.mem_reverse.mp hv
  | indexOf =>
    exact bind law (read (p := fun _ _ => True) law fun _ _ _ _ => trivial) fun _ _ _ _ =>
      value law (value_positionValue law _)
  | includes =>
    exact bind law (read (p := fun _ _ => True) law fun _ _ _ _ => trivial) fun _ _ _ _ =>
      value law (value_bool law _)
  | join =>
    exact bind law (read (p := fun _ _ => True) law fun _ _ _ _ => trivial) fun _ _ _ _ =>
      value law (value_string law _)
  | slice =>
    refine bind law (read (p := D.values) law fun _ _ _ hh => law.element hh a)
      fun w₁ items hw h => ?_
    exact allocArray law (values_extract h _ _)
  | concat =>
    refine bind law (read (p := D.values) law fun w₁ h hw hh => ?_) fun w₁ items hw h =>
      allocArray law h
    exact values_foldl_spread law hh args _ (law.element hh a) (hargs' hw)
  | flat =>
    refine bind law (read (p := fun w₁ (l : List Value) => ∀ v ∈ l, D.value w₁ v) law
      fun w₁ h hw hh => ?_) fun w₁ items hw h => allocArray law fun v hv =>
        h v (List.mem_toArray.mp hv)
    exact value_flatten law hh _ _ fun v hv => law.element hh a v (Array.mem_toList_iff.mp hv)
  | flatMap =>
    refine bind law hback fun w₁ f hw hf => ?_
    exact keeps_collect law hr (law.value_mono hw ha) hf fun w₂ h item answer hh _ hanswer =>
      values_spread law hh hanswer
  | map =>
    refine bind law hback fun w₁ f hw hf => ?_
    refine keeps_collect law hr (law.value_mono hw ha) hf fun w₂ h item answer _ _ hanswer => ?_
    exact values_singleton hanswer
  | filter =>
    refine bind law hback fun w₁ f hw hf => ?_
    refine keeps_collect law hr (law.value_mono hw ha) hf fun w₂ h item answer _ hitem _ => ?_
    split
    · exact values_singleton hitem
    · exact fun v hv => nomatch hv
  | forEach =>
    exact bind law hback fun w₁ f hw hf => keeps_visitAll law hr (law.value_mono hw ha) hf
  | find =>
    refine bind law hback fun w₁ f hw hf => ?_
    refine bind law (keeps_search law hr (law.value_mono hw ha) hf true) fun w₂ hit hw₁ hhit => ?_
    refine value law (value_getD law fun v hv => ?_)
    obtain ⟨p, hp, rfl⟩ := Option.map_eq_some_iff.mp hv
    exact hhit p hp
  | findIndex =>
    refine bind law hback fun w₁ f hw hf => ?_
    exact bind law (keeps_search law hr (law.value_mono hw ha) hf true) fun w₂ hit _ _ =>
      value law (value_positionValue law _)
  | someOf =>
    refine bind law hback fun w₁ f hw hf => ?_
    exact bind law (keeps_search law hr (law.value_mono hw ha) hf true) fun w₂ hit _ _ =>
      value law (value_bool law _)
  | every =>
    refine bind law hback fun w₁ f hw hf => ?_
    exact bind law (keeps_search law hr (law.value_mono hw ha) hf false) fun w₂ hit _ _ =>
      value law (value_bool law _)
  | reduce =>
    refine bind law hback fun w₁ f hw hf => ?_
    exact keeps_foldElements law hr (law.value_mono hw ha) hf
      (value_argument law (hargs' hw) 1)

theorem keeps_methodCall (method : Method) {receiver : Value} (hreceiver : D.value w receiver)
    {args : List Value} (hargs : ∀ v ∈ args, D.value w v) :
    (method.call r receiver args).Keeps D w D.value (method.call r' receiver args) := by
  unfold Method.call
  split
  · exact keeps_stringCall law _ _ _
  · exact keeps_arrayCall law hr _ hreceiver hargs
  · exact value law (value_null law)

end Methods

end Quill
