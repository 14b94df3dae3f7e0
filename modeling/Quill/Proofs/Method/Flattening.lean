import Mathlib.Data.List.Basic
import Quill.Proofs.Method.NewArrays
import Quill.Proofs.Run.Echoing

/-!
# Flattening arrays

To flatten an array to a depth is to go down so many levels into the arrays that it holds. The heap
may lead from an array back into itself: a depth is a number of steps and not a height, so one step
after another can be counted all the same. Flattening twice goes down both depths, and flattening once
is collecting what the elements hold.
-/

set_option autoImplicit false

namespace Quill

/-! ## One level and the next -/

/-- What stands in place of an element: what an array holds, flattened to a depth, or the value. -/
def opened (h : Heap) (depth : Nat) : Value → List Value
  | .array a => flatten h depth (h.array a).toList
  | v => [v]

section Levels

variable {h : Heap} {depth : Nat} {items : List Value} {v : Value}

theorem flatten_zero (h : Heap) (items : List Value) : flatten h 0 items = items := rfl

theorem flatten_succ (h : Heap) (depth : Nat) (items : List Value) :
    flatten h (depth + 1) items = items.flatMap (opened h depth) := rfl

theorem opened_leaf (hv : ∀ a, v ≠ .array a) (h : Heap) (depth : Nat) : opened h depth v = [v] := by
  cases v with
  | array a => exact absurd rfl (hv a)
  | _ => rfl

theorem array_or_leaf (v : Value) : (∃ a, v = .array a) ∨ ∀ a, v ≠ .array a := by
  by_cases h : ∃ a, v = .array a
  · exact .inl h
  · exact .inr (not_exists.mp h)

theorem flatten_one (h : Heap) (items : List Value) :
    flatten h 1 items = items.flatMap fun v => (spread h v).toList := by
  rw [flatten_succ]
  congr 1
  funext v
  cases v <;> rfl

/-! ## Two depths after each other -/

theorem flatten_nil (h : Heap) (depth : Nat) : flatten h depth [] = [] := by
  cases depth <;> rfl

theorem flatten_append (h : Heap) (depth : Nat) (items more : List Value) :
    flatten h depth (items ++ more) = flatten h depth items ++ flatten h depth more := by
  cases depth with
  | zero => rfl
  | succ depth => rw [flatten_succ, flatten_succ, flatten_succ, List.flatMap_append]

theorem flatten_flatMap (h : Heap) (depth : Nat) (f : Value → List Value) (items : List Value) :
    flatten h depth (items.flatMap f) = items.flatMap fun v => flatten h depth (f v) := by
  induction items with
  | nil => exact flatten_nil h depth
  | cons v items ih => rw [List.flatMap_cons, flatten_append, ih, List.flatMap_cons]

theorem flatten_leaf (hv : ∀ a, v ≠ .array a) (h : Heap) (depth : Nat) :
    flatten h depth [v] = [v] := by
  cases depth with
  | zero => rfl
  | succ depth => rw [flatten_succ, List.flatMap_singleton, opened_leaf hv]

/-- On the number of levels of the first: a value that is no array stays, and below an array there
is one level less to go. -/
theorem flatten_add (h : Heap) (a b : Nat) (items : List Value) :
    flatten h (a + b) items = flatten h b (flatten h a items) := by
  induction a generalizing items with
  | zero => rw [Nat.zero_add, flatten_zero]
  | succ a ih =>
    rw [Nat.add_right_comm, flatten_succ, flatten_succ, flatten_flatMap]
    congr 1
    funext v
    rcases array_or_leaf v with ⟨e, rfl⟩ | hleaf
    · exact ih _
    · rw [opened_leaf hleaf, opened_leaf hleaf, flatten_leaf hleaf]

end Levels

/-! ## How far down an element is -/

/-- The value is met behind so many arrays: as one of the items, or below an array among them. -/
inductive Heap.Sits (h : Heap) : Nat → List Value → Value → Prop
  | here {items : List Value} {v : Value} : v ∈ items → Sits h 0 items v
  | inside {depth : Nat} {items : List Value} {a : ArrayRef} {v : Value} :
      .array a ∈ items → Sits h depth (h.array a).toList v → Sits h (depth + 1) items v

section Depth

variable {h h' : Heap} {depth : Nat} {items : List Value} {v : Value}

theorem Heap.sits_zero_iff : h.Sits 0 items v ↔ v ∈ items := by
  constructor
  · rintro (hv | _)
    exact hv
  · exact .here

theorem Heap.sits_succ_iff :
    h.Sits (depth + 1) items v ↔ ∃ a, .array a ∈ items ∧ h.Sits depth (h.array a).toList v := by
  constructor
  · rintro (_ | ⟨ha, hv⟩)
    exact ⟨_, ha, hv⟩
  · rintro ⟨a, ha, hv⟩
    exact .inside ha hv

/-- Arrays are left over at the depth, and nowhere above. -/
theorem array_mem_flatten_iff {e : ArrayRef} :
    .array e ∈ flatten h depth items ↔ h.Sits depth items (.array e) := by
  induction depth generalizing items with
  | zero => exact Heap.sits_zero_iff.symm
  | succ depth ih =>
    rw [flatten_succ, List.mem_flatMap, Heap.sits_succ_iff]
    constructor
    · rintro ⟨v, hv, he⟩
      rcases array_or_leaf v with ⟨a, rfl⟩ | hleaf
      · exact ⟨a, hv, ih.mp he⟩
      · rw [opened_leaf hleaf, List.mem_singleton] at he
        exact absurd he.symm (hleaf e)
    · rintro ⟨a, ha, he⟩
      exact ⟨.array a, ha, ih.mpr he⟩

/-- Other values are taken from every level down to the depth. -/
theorem leaf_mem_flatten_iff (hleaf : ∀ a, v ≠ .array a) :
    v ∈ flatten h depth items ↔ ∃ level ≤ depth, h.Sits level items v := by
  induction depth generalizing items with
  | zero => simp only [Nat.le_zero, exists_eq_left, Heap.sits_zero_iff, flatten_zero]
  | succ depth ih =>
    rw [flatten_succ, List.mem_flatMap]
    constructor
    · rintro ⟨w, hw, hv⟩
      rcases array_or_leaf w with ⟨a, rfl⟩ | hleaf'
      · obtain ⟨level, hle, hsits⟩ := ih.mp hv
        exact ⟨level + 1, Nat.succ_le_succ hle, .inside hw hsits⟩
      · rw [opened_leaf hleaf', List.mem_singleton] at hv
        exact ⟨0, Nat.zero_le _, .here (hv ▸ hw)⟩
    · rintro ⟨level, hle, hsits⟩
      cases hsits with
      | here hv => exact ⟨v, hv, by rw [opened_leaf hleaf]; exact List.mem_singleton_self v⟩
      | inside ha hv => exact ⟨.array _, ha, ih.mpr ⟨_, Nat.le_of_succ_le_succ hle, hv⟩⟩

end Depth

/-! ## When more arrays are made -/

section Growing

variable {h h' : Heap} {items : List Value}

/-- All that the arrays refer to is in the heap, as in every machine that is `Machine.InOrder`. -/
def Heap.Closed (h : Heap) : Prop := ∀ a, ∀ v ∈ h.array a, v.InHeap h

theorem inHeap_flatten (hclosed : h.Closed) (depth : Nat) (hitems : ∀ v ∈ items, v.InHeap h) :
    ∀ v ∈ flatten h depth items, v.InHeap h := by
  induction depth generalizing items with
  | zero => exact hitems
  | succ depth ih =>
    intro v hv
    rw [flatten_succ] at hv
    obtain ⟨w, hw, hv⟩ := List.mem_flatMap.mp hv
    rcases array_or_leaf w with ⟨a, rfl⟩ | hleaf
    · exact ih (fun u hu => hclosed a u (Array.mem_def.mpr hu)) v hv
    · rw [opened_leaf hleaf, List.mem_singleton] at hv
      exact hv ▸ hitems w hw

/-- What is flattened does not depend on arrays that it does not lead to. -/
theorem flatten_congr (hclosed : h.Closed)
    (hsame : ∀ a, a.index < h.arrays.size → h'.array a = h.array a) (depth : Nat)
    (hitems : ∀ v ∈ items, v.InHeap h) : flatten h' depth items = flatten h depth items := by
  induction depth generalizing items with
  | zero => rfl
  | succ depth ih =>
    rw [flatten_succ, flatten_succ]
    refine List.flatMap_congr fun v hv => ?_
    rcases array_or_leaf v with ⟨a, rfl⟩ | hleaf
    · have ha : h'.array a = h.array a := hsame a (hitems _ hv)
      rw [opened, opened, ha]
      exact ih fun u hu => hclosed a u (Array.mem_def.mpr hu)
    · rw [opened_leaf hleaf, opened_leaf hleaf]

end Growing

/-! ## The methods -/

section Methods

variable {r : Eval} {m : Machine} {x : ArrayRef}

theorem flat_makes (r : Eval) (x : ArrayRef) (args : List Value) (m : Machine) :
    (ArrayMethod.flat.call r x args).Makes m
      (flatten m.heap (boundOr 1 (argument args 0)).toNat (m.heap.array x).toList) :=
  .of_eq rfl (Run.makes_allocArray m
    (flatten m.heap (boundOr 1 (argument args 0)).toNat (m.heap.array x).toList).toArray)

/-- Going down both depths at once, before or after, gives what going down one after the other
gives. -/
theorem flat_flat (r : Eval) (hclosed : m.heap.Closed) (hx : (Value.array x).InHeap m.heap)
    {a b c : Value} (ha : 0 ≤ boundOr 1 a) (hb : 0 ≤ boundOr 1 b)
    (hc : boundOr 1 c = boundOr 1 a + boundOr 1 b) :
    ∃ items y m₁ z m₂, ArrayMethod.flat.call r x [a] m = .ok (.array y) m₁ ∧
      ArrayMethod.flat.call r y [b] m₁ = .ok (.array z) m₂ ∧
      (m₂.heap.array z).toList = items ∧
      (ArrayMethod.flat.call r x [c]).Makes m items ∧
      (ArrayMethod.flat.call r x [c]).Makes m₂ items := by
  obtain ⟨y, m₁, hfirst, hgains₁⟩ := flat_makes r x [a] m
  obtain ⟨z, m₂, hsecond, hgains₂⟩ := flat_makes r y [b] m₁
  have hsum : (boundOr 1 c).toNat = (boundOr 1 a).toNat + (boundOr 1 b).toNat := by
    rw [hc, Int.toNat_add ha hb]
  have hitems : ∀ v ∈ (m.heap.array x).toList, v.InHeap m.heap :=
    fun v hv => hclosed x v (Array.mem_def.mpr hv)
  have hkept : ∀ e, e.index < m.heap.arrays.size → m₂.heap.array e = m.heap.array e :=
    fun e he => by
      rw [hgains₂.others e (by rw [hgains₁.size]; exact Nat.lt_succ_of_lt he), hgains₁.others e he]
  have hfirst' := hgains₁.elements
  have hsecond' := hgains₂.elements
  rw [argument_zero] at hfirst'
  rw [argument_zero, hfirst', flatten_congr hclosed hgains₁.others _
    (inHeap_flatten hclosed _ hitems), ← flatten_add, ← hsum] at hsecond'
  have hlater := flat_makes r x [c] m₂
  rw [argument_zero, hkept x hx, flatten_congr hclosed hkept _ hitems] at hlater
  exact ⟨_, y, m₁, z, m₂, hfirst, hsecond, hsecond', flat_makes r x [c] m, hlater⟩

/-- A function that echoes has the elements collected as they are. -/
theorem flatMap_of_echoes (hx : (Value.array x).InHeap m.heap) {g : FunctionRef}
    (hechoes : r.Echoes (.function g) x m) (hfuel : (m.heap.array x).size < r.fuel)
    (rest : List Value) :
    ∃ m₁, m.heap.SameContainers m₁.heap ∧
      (ArrayMethod.flatMap.call r x (.function g :: rest)) m =
        Run.allocArray (flatten m.heap 1 (m.heap.array x).toList).toArray m₁ := by
  obtain ⟨m₁, hreached, hgathered⟩ :=
    hechoes.flatMapM_gathered (fun p hp => hp) m .start
  refine ⟨m₁, hechoes.sameContainers hreached, ?_⟩
  have hwalks := (collect_walks hx hechoes.spares hfuel fun _ answer h => spread h answer).same
  rw [Run.bind_ok hgathered] at hwalks
  have hlist : (m.heap.array x).toList.zipIdx.flatMap (fun p => (spread m.heap p.1).toList) =
      flatten m.heap 1 (m.heap.array x).toList := by
    conv_rhs => rw [flatten_one, ← List.zipIdx_map_fst 0 (m.heap.array x).toList,
      List.flatMap_map]
  rw [hlist] at hwalks
  exact hwalks

end Methods

/-- Flattening, in a heap that may lead from an array back into itself. One depth after another is
both at once, with the same elements; a depth that is not positive gives a copy; the arrays that are
left are those that lie behind as many arrays as the depth says, the other values are those that lie
behind as many or fewer, and no container changes. Collecting what the elements hold, as `flatMap`
does with a function that delivers its argument, is flattening once. -/
theorem flat_composes (r : Eval) {m : Machine} {x : ArrayRef} (hclosed : m.heap.Closed)
    (hx : (Value.array x).InHeap m.heap) :
    (∀ (h : Heap) (a b : Nat) (items : List Value),
      flatten h (a + b) items = flatten h b (flatten h a items)) ∧
    (∀ a b c : Value, 0 ≤ boundOr 1 a → 0 ≤ boundOr 1 b →
      boundOr 1 c = boundOr 1 a + boundOr 1 b →
      ∃ items y m₁ z m₂, ArrayMethod.flat.call r x [a] m = .ok (.array y) m₁ ∧
        ArrayMethod.flat.call r y [b] m₁ = .ok (.array z) m₂ ∧
        (m₂.heap.array z).toList = items ∧
        (ArrayMethod.flat.call r x [c]).Makes m items ∧
        (ArrayMethod.flat.call r x [c]).Makes m₂ items) ∧
    (∀ d : Value, boundOr 1 d ≤ 0 →
      (ArrayMethod.flat.call r x [d]).Makes m (m.heap.array x).toList) ∧
    (∀ args : List Value, let depth := (boundOr 1 (argument args 0)).toNat
      ∃ items, (ArrayMethod.flat.call r x args).Makes m items ∧
        (∀ e, .array e ∈ items ↔ m.heap.Sits depth (m.heap.array x).toList (.array e)) ∧
        ∀ v, (∀ e, v ≠ .array e) →
          (v ∈ items ↔ ∃ level ≤ depth, m.heap.Sits level (m.heap.array x).toList v)) ∧
    (∀ (one : Value) (g : FunctionRef) (rest : List Value), boundOr 1 one = 1 →
      r.Echoes (.function g) x m → (m.heap.array x).size < r.fuel →
      ∃ (items : List Value) (m₁ m₂ : Machine) (z : ArrayRef),
        (ArrayMethod.flat.call r x [one]).Makes m items ∧
        ArrayMethod.flatMap.call r x (.function g :: rest) m = .ok (.array z) m₂ ∧
        m.heap.SameContainers m₁.heap ∧ m₁.Gains m₂ z items) ∧
    (∀ (host : Host) (fuel : Nat) (g : FunctionRef) (d : FunctionDef) (closure : Scope),
      m.heap.function? g = some (.user d closure) → d.IsIdentity →
      m.callDepth < m.maxCallDepth → (evaluator host (fuel + 2)).Echoes (.function g) x m) := by
  refine ⟨flatten_add, fun a b c ha hb hc => flat_flat r hclosed hx ha hb hc, fun d hd => ?_,
    fun args => ⟨_, flat_makes r x args m, fun e => array_mem_flatten_iff,
      fun v => leaf_mem_flatten_iff⟩,
    fun one g rest hone hechoes hfuel => ?_,
    fun host fuel g d closure hg hd hdepth => evaluator_echoes hg hd hdepth x⟩
  · have hmakes := flat_makes r x [d] m
    rw [argument_zero, Int.toNat_of_nonpos hd] at hmakes
    exact hmakes
  · obtain ⟨m₁, hsame, hcall⟩ := flatMap_of_echoes hx hechoes hfuel rest
    obtain ⟨z, m₂, hmade, hgains⟩ :=
      Run.makes_allocArray m₁ (flatten m.heap 1 (m.heap.array x).toList).toArray
    have hmakes := flat_makes r x [one] m
    rw [argument_zero, hone] at hmakes
    exact ⟨_, m₁, m₂, z, hmakes, hcall.trans hmade, hsame, hgains⟩

/-- A machine with an array that holds itself and null, and with the function `x => x`. -/
def loopMachine : Machine :=
  { heap :=
      { arrays := #[#[.array ⟨0⟩, .null]]
        functions := #[.user ⟨none, ["x"], .expr (.ident "x" .start), .start⟩ ⟨⟨0⟩, []⟩] }
    globals := ⟨⟨0⟩, []⟩, scope := ⟨⟨0⟩, []⟩ }

theorem flat_composes_in_loop :
    loopMachine.heap.Closed ∧ (Value.array ⟨0⟩).InHeap loopMachine.heap ∧
    ∃ (items : List Value) (m₁ m₂ : Machine) (z : ArrayRef),
      (ArrayMethod.flat.call (evaluator smallHost 4) ⟨0⟩ [.null]).Makes loopMachine items ∧
      ArrayMethod.flatMap.call (evaluator smallHost 4) ⟨0⟩ [.function ⟨0⟩] loopMachine =
        .ok (.array z) m₂ ∧
      loopMachine.heap.SameContainers m₁.heap ∧ m₁.Gains m₂ z items := by
  have hclosed : loopMachine.heap.Closed := by
    rintro ⟨_ | i⟩ v hv
    · have hv : v = .array ⟨0⟩ ∨ v = .null := by simpa [loopMachine, Heap.array] using hv
      rcases hv with rfl | rfl
      · exact Nat.zero_lt_one
      · exact trivial
    · simp [loopMachine, Heap.array] at hv
  have hx : (Value.array ⟨0⟩).InHeap loopMachine.heap := Nat.zero_lt_one
  obtain ⟨-, -, -, -, hflatMap, hidentity⟩ := flat_composes (evaluator smallHost 4) hclosed hx
  refine ⟨hclosed, hx, hflatMap .null ⟨0⟩ [] rfl ?_ (by decide)⟩
  exact hidentity smallHost 2 ⟨0⟩ _ _ rfl ⟨"x", .start, rfl, rfl⟩ (by decide)

end Quill
