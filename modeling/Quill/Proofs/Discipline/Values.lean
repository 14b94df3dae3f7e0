import Quill.Proofs.Discipline.Basic

/-!
# Values in disciplines

Values that are no references may be passed around anywhere. What is put together from values that
may be passed around may be so too, and what may be at a stage may be later.
-/

set_option autoImplicit false

namespace Quill

variable {α : Type} {D : Discipline}

/-! ## What may be passed around -/

namespace Discipline

/-- What was so at a stage is so at every later one. -/
def Lasts (D : Discipline) (p : D.Stage → α → Prop) : Prop :=
  ∀ ⦃w w' : D.Stage⦄ ⦃a : α⦄, D.grows w w' → p w a → p w' a

variable {w : D.Stage}

theorem values_of_subset {items more : Array Value} (h : D.values w items)
    (hmore : ∀ v ∈ more, v ∈ items) : D.values w more :=
  fun v hv => h v (hmore v hv)

theorem values_append {items more : Array Value} (h : D.values w items) (hmore : D.values w more) :
    D.values w (items ++ more) := by
  intro v hv
  rcases Array.mem_append.mp hv with hv | hv
  · exact h v hv
  · exact hmore v hv

theorem values_append_list {items : Array Value} {more : List Value} (h : D.values w items)
    (hmore : ∀ v ∈ more, D.value w v) : D.values w (items ++ more) := by
  intro v hv
  rw [← Array.mem_toList_iff, Array.toList_appendList, List.mem_append, Array.mem_toList_iff] at hv
  rcases hv with hv | hv
  · exact h v hv
  · exact hmore v hv

theorem values_pop {items : Array Value} (h : D.values w items) : D.values w items.pop := by
  refine values_of_subset h fun v hv => ?_
  rw [← Array.mem_toList_iff, Array.toList_pop] at hv
  exact Array.mem_toList_iff.mp (List.dropLast_subset _ hv)

theorem values_extract {items : Array Value} (h : D.values w items) (start stop : Nat) :
    D.values w (items.extract start stop) := by
  refine values_of_subset h fun v hv => ?_
  obtain ⟨k, hk, rfl⟩ := Array.mem_extract_iff_getElem.mp hv
  exact Array.getElem_mem _

theorem values_singleton {v : Value} (hv : D.value w v) : D.values w #[v] := by
  intro x hx
  rw [Array.mem_singleton.mp hx]
  exact hv

theorem values_push {items : Array Value} {v : Value} (h : D.values w items) (hv : D.value w v) :
    D.values w (items.push v) := by
  intro x hx
  rcases Array.mem_push.mp hx with hx | rfl
  · exact h x hx
  · exact hv

theorem entries_set {d : Dict Value} {v : Value} (h : D.entries w d) (hv : D.value w v)
    (key : String) : D.entries w (d.set key v) := by
  intro k x hx
  rw [Dict.get?_set] at hx
  split at hx
  · cases hx
    exact hv
  · exact h k x hx

theorem lasts_true : D.Lasts fun (_ : D.Stage) (_ : α) => True := fun _ _ _ _ _ => trivial

theorem lasts_outcome {p : D.Stage → α → Prop} (hp : D.Lasts p) : D.Lasts (D.outcome p) := by
  intro w w' outcome hw h
  cases outcome with
  | ok a => exact hp hw h
  | error f => exact h

variable (law : D.Lawful)

include law

theorem lasts_value : D.Lasts D.value := fun _ _ _ => law.value_mono

theorem lasts_values : D.Lasts D.values := fun _ _ _ hw h v hv => law.value_mono hw (h v hv)

theorem lasts_entries : D.Lasts D.entries := fun _ _ _ hw h key v hv => law.value_mono hw (h key v hv)

theorem lasts_completion : D.Lasts D.completion := by
  intro w w' c hw hc
  cases c with
  | normal v | returned v => exact law.value_mono hw hc
  | broke | continued => trivial

theorem lasts_function : D.Lasts D.function := by
  intro w w' f hw hf
  cases f with
  | user d s => exact ⟨hf.1, law.scope_mono hw hf.2⟩
  | builtin which => trivial
  | bound method receiver => exact law.value_mono hw hf
  | host name service => exact hf

theorem lasts_args : D.Lasts fun w (args : List Value) => ∀ v ∈ args, D.value w v :=
  fun _ _ _ hw h v hv => law.value_mono hw (h v hv)

theorem value_null : D.value w .null := law.plain w fun _ => trivial

theorem value_number (n : Number) : D.value w (.number n) := law.plain w fun _ => trivial

theorem value_string (s : String) : D.value w (.string s) := law.plain w fun _ => trivial

theorem value_bool (b : Bool) : D.value w (.bool b) := law.plain w fun _ => trivial

/-- What may be missing is null then. -/
theorem value_getD {o : Option Value} (h : ∀ v, o = some v → D.value w v) :
    D.value w (o.getD .null) := by
  cases o with
  | none => exact value_null law
  | some v => exact h v rfl

theorem value_argument {args : List Value} (h : ∀ v ∈ args, D.value w v) (i : Nat) :
    D.value w (argument args i) :=
  value_getD law fun v hv => h v (List.mem_of_getElem? hv)

theorem value_element {items : Array Value} (h : D.values w items) (i : Nat) :
    D.value w (items[i]?.getD .null) :=
  value_getD law fun v hv => h v (Array.mem_of_getElem? hv)

theorem value_positionValue (o : Option Nat) : D.value w (positionValue o) := by
  cases o with
  | none => exact value_number law _
  | some i => exact value_number law _

theorem values_spread {h : Heap} (hh : D.heap w h) {v : Value} (hv : D.value w v) :
    D.values w (spread h v) := by
  cases v with
  | array a => exact law.element hh a
  | null | bool _ | number _ | string _ | function _ | object _ | native _ =>
    exact values_singleton hv

theorem value_flatten {h : Heap} (hh : D.heap w h) (depth : Nat) :
    ∀ items : List Value, (∀ v ∈ items, D.value w v) → ∀ v ∈ flatten h depth items, D.value w v := by
  induction depth with
  | zero => exact fun items hitems => hitems
  | succ depth ih =>
    intro items hitems v hv
    obtain ⟨item, hitem, hv⟩ := List.mem_flatMap.mp hv
    cases item with
    | array a => exact ih _ (fun x hx => law.element hh a x (Array.mem_toList_iff.mp hx)) v hv
    | null | bool _ | number _ | string _ | function _ | object _ | native _ =>
      rw [List.mem_singleton.mp hv]
      exact hitems _ hitem

theorem values_foldl_spread {h : Heap} (hh : D.heap w h) (args : List Value) :
    ∀ out : Array Value, D.values w out → (∀ v ∈ args, D.value w v) →
      D.values w (args.foldl (fun out v => out ++ spread h v) out) := by
  induction args with
  | nil => exact fun out hout _ => hout
  | cons v rest ih =>
    intro out hout hargs
    rw [List.forall_mem_cons] at hargs
    exact ih _ (values_append hout (values_spread law hh hargs.1)) hargs.2

end Discipline

open Discipline

/-! ## Rules for values -/

namespace Run.Keeps

variable {w : D.Stage} (law : D.Lawful)

include law

/-- What lasts may be delivered later. -/
theorem deliver {p : D.Stage → α → Prop} (hp : D.Lasts p) {a : α} (ha : p w a) :
    (Pure.pure a : Run α).Keeps D w p (Pure.pure a) :=
  pure law fun _ hw => hp hw ha

theorem value {v : Value} (hv : D.value w v) :
    (Pure.pure v : Run Value).Keeps D w D.value (Pure.pure v) :=
  deliver law (lasts_value law) hv

theorem allocArray {items : Array Value} (h : D.values w items) :
    (Run.allocArray items).Keeps D w D.value (Run.allocArray items) :=
  update law fun _ _ hw hh => law.allocArray hh (lasts_values law hw h)

theorem allocObject {d : Dict Value} (h : D.entries w d) :
    (Run.allocObject d).Keeps D w D.value (Run.allocObject d) :=
  update law fun _ _ hw hh => law.allocObject hh (lasts_entries law hw h)

theorem allocFunction {f : Function} (h : D.function w f) :
    (Run.allocFunction f).Keeps D w D.value (Run.allocFunction f) :=
  update law fun _ _ hw hh => law.allocFunction hh (lasts_function law hw h)

end Run.Keeps

end Quill
