import Quill.Method.OfString
import Quill.Proofs.Heap.Tables

/-!
# Methods that make an array

What they make is an array that was not there before. No other container changes, the one they are
called on included, so what was read from the machine before can be read after them.
-/

set_option autoImplicit false

namespace Quill

/-! ## Arguments -/

theorem argument_nil (i : Nat) : argument [] i = .null := rfl

theorem argument_zero (v : Value) (args : List Value) : argument (v :: args) 0 = v := rfl

theorem argument_succ (v : Value) (args : List Value) (i : Nat) :
    argument (v :: args) (i + 1) = argument args i :=
  congrArg (Option.getD · Value.null) (List.getElem?_cons_succ)

/-! ## One more array -/

/-- The second machine is the first with one more array, of the given elements; all that there was is
as it was. -/
structure Machine.Gains (m m' : Machine) (a : ArrayRef) (items : List Value) : Prop where
  fresh : a.index = m.heap.arrays.size
  size : m'.heap.arrays.size = m.heap.arrays.size + 1
  elements : (m'.heap.array a).toList = items
  others : ∀ b, b.index < m.heap.arrays.size → m'.heap.array b = m.heap.array b
  rest : m' = { m with heap := { m.heap with arrays := m'.heap.arrays } }

/-- What was gained is still there when more is gained. -/
theorem Machine.Gains.kept {m m₁ m₂ : Machine} {a b : ArrayRef} {items more : List Value}
    (h₁ : m.Gains m₁ a items) (h₂ : m₁.Gains m₂ b more) : (m₂.heap.array a).toList = items := by
  rw [h₂.others a (by rw [h₁.fresh, h₁.size]; exact Nat.lt_succ_self _)]
  exact h₁.elements

/-- From this machine the computation delivers a new array of the given elements. -/
def Run.Makes (act : Run Value) (m : Machine) (items : List Value) : Prop :=
  ∃ a m', act m = .ok (.array a) m' ∧ m.Gains m' a items

namespace Run

variable {act act' : Run Value} {m : Machine} {items : List Value}

theorem makes_allocArray (m : Machine) (items : Array Value) :
    (Run.allocArray items).Makes m items.toList := by
  refine ⟨⟨m.heap.arrays.size⟩, _, rfl, rfl, Array.size_push _, ?_,
    fun b hb => Heap.array_allocArray hb items, rfl⟩
  show ((m.heap.arrays.push items).getD m.heap.arrays.size #[]).toList = items.toList
  simp [Array.getD_eq_getD_getElem?]

/-- Only what the computation does from this machine counts. -/
theorem Makes.of_eq (h : act m = act' m) (hmakes : act'.Makes m items) : act.Makes m items := by
  unfold Makes
  rw [h]
  exact hmakes

end Run

end Quill
