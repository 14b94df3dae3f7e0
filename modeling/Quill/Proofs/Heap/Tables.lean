import Quill.Scope

/-!
# The tables of the heap

What the places of the tables hold after one of them was changed or added: a change leaves all other
places alone, and what is new comes behind all there were. A value belongs to a heap if it is no
reference or a reference to a place that there is.
-/

set_option autoImplicit false

namespace Quill

/-! ## Values of a heap -/

/-- The value belongs to the heap: what it refers to is in its table. -/
def Value.InHeap (h : Heap) : Value → Prop
  | .array a => a.index < h.arrays.size
  | .object o => o.index < h.objects.size
  | .function f => f.index < h.functions.size
  | _ => True

/-! ## A table -/

section Table

variable {α : Type} {xs : Array α} {i j : Nat}

theorem getD_modify_self (hi : i < xs.size) (change : α → α) (missing : α) :
    (xs.modify i change).getD i missing = change (xs.getD i missing) := by
  simp only [Array.getD_eq_getD_getElem?, Array.getElem?_modify, if_pos,
    Array.getElem?_eq_getElem hi]
  rfl

theorem getD_modify_ne (hne : j ≠ i) (change : α → α) (missing : α) :
    (xs.modify i change).getD j missing = xs.getD j missing := by
  simp only [Array.getD_eq_getD_getElem?, Array.getElem?_modify, if_neg (Ne.symm hne)]

/-- A change of a place that is not there changes nothing. -/
theorem getD_modify_cases (xs : Array α) (i j : Nat) (change : α → α) (missing : α) :
    (xs.modify i change).getD j missing = xs.getD j missing ∨
      j = i ∧ (xs.modify i change).getD j missing = change (xs.getD j missing) := by
  by_cases hj : j = i
  · subst hj
    by_cases hin : j < xs.size
    · exact .inr ⟨rfl, getD_modify_self hin change missing⟩
    · left
      simp only [Array.getD_eq_getD_getElem?, Array.getElem?_modify, if_pos,
        Array.getElem?_eq_none (Nat.le_of_not_lt hin), Option.map_none]
  · exact .inl (getD_modify_ne hj change missing)

theorem getD_push_of_lt (hi : i < xs.size) (x missing : α) :
    (xs.push x).getD i missing = xs.getD i missing := by
  simp only [Array.getD_eq_getD_getElem?, Array.getElem?_push, if_neg (Nat.ne_of_lt hi)]

/-- A place holds what it held before, or what was added. -/
theorem getD_push_cases (xs : Array α) (i : Nat) (x missing : α) :
    (xs.push x).getD i missing = xs.getD i missing ∨ (xs.push x).getD i missing = x := by
  simp only [Array.getD_eq_getD_getElem?, Array.getElem?_push]
  split
  · exact .inr rfl
  · exact .inl rfl

end Table

/-! ## The tables of containers and frames -/

namespace Heap

variable {h : Heap} {a b : ArrayRef} {o p : ObjectRef} {f g : FrameRef}

theorem array_modifyArray_self (ha : a.index < h.arrays.size)
    (change : Array Value → Array Value) : (h.modifyArray a change).array a = change (h.array a) :=
  getD_modify_self ha change _

theorem array_modifyArray_ne (hne : b ≠ a) (change : Array Value → Array Value) :
    (h.modifyArray a change).array b = h.array b :=
  getD_modify_ne (fun heq => hne (congrArg ArrayRef.mk heq)) change _

theorem array_modifyArray_cases (h : Heap) (a b : ArrayRef) (change : Array Value → Array Value) :
    (h.modifyArray a change).array b = h.array b ∨
      b = a ∧ (h.modifyArray a change).array b = change (h.array b) :=
  (getD_modify_cases h.arrays a.index b.index change _).imp_right fun ⟨heq, hchange⟩ =>
    ⟨congrArg ArrayRef.mk heq, hchange⟩

theorem array_allocArray (ha : a.index < h.arrays.size) (items : Array Value) :
    (h.allocArray items).2.array a = h.array a :=
  getD_push_of_lt ha items _

theorem array_allocArray_cases (h : Heap) (items : Array Value) (b : ArrayRef) :
    (h.allocArray items).2.array b = h.array b ∨ (h.allocArray items).2.array b = items :=
  getD_push_cases h.arrays b.index items _

theorem object_modifyObject_self (ho : o.index < h.objects.size)
    (change : Dict Value → Dict Value) :
    (h.modifyObject o change).object o = change (h.object o) :=
  getD_modify_self ho change _

theorem object_modifyObject_ne (hne : p ≠ o) (change : Dict Value → Dict Value) :
    (h.modifyObject o change).object p = h.object p :=
  getD_modify_ne (fun heq => hne (congrArg ObjectRef.mk heq)) change _

theorem object_modifyObject_cases (h : Heap) (o p : ObjectRef) (change : Dict Value → Dict Value) :
    (h.modifyObject o change).object p = h.object p ∨
      p = o ∧ (h.modifyObject o change).object p = change (h.object p) :=
  (getD_modify_cases h.objects o.index p.index change _).imp_right fun ⟨heq, hchange⟩ =>
    ⟨congrArg ObjectRef.mk heq, hchange⟩

theorem object_allocObject_cases (h : Heap) (d : Dict Value) (p : ObjectRef) :
    (h.allocObject d).2.object p = h.object p ∨ (h.allocObject d).2.object p = d :=
  getD_push_cases h.objects p.index d _

theorem frame_modifyFrame_self (hf : f.index < h.frames.size)
    (change : Dict Binding → Dict Binding) :
    (h.modifyFrame f change).frame f = change (h.frame f) :=
  getD_modify_self hf change _

theorem frame_modifyFrame_ne (hne : g ≠ f) (change : Dict Binding → Dict Binding) :
    (h.modifyFrame f change).frame g = h.frame g :=
  getD_modify_ne (fun heq => hne (congrArg FrameRef.mk heq)) change _

theorem frame_modifyFrame_cases (h : Heap) (f g : FrameRef)
    (change : Dict Binding → Dict Binding) :
    (h.modifyFrame f change).frame g = h.frame g ∨
      g = f ∧ (h.modifyFrame f change).frame g = change (h.frame g) :=
  (getD_modify_cases h.frames f.index g.index change _).imp_right fun ⟨heq, hchange⟩ =>
    ⟨congrArg FrameRef.mk heq, hchange⟩

theorem frame_childScope (s : Scope) (hg : g.index < h.frames.size) :
    (h.childScope s).2.frame g = h.frame g :=
  getD_push_of_lt hg _ _

theorem frame_childScope_cases (h : Heap) (s : Scope) (g : FrameRef) :
    (h.childScope s).2.frame g = h.frame g ∨ (h.childScope s).2.frame g = .empty :=
  getD_push_cases h.frames g.index .empty _

/-- The binding that is found for a name is one of the frame that it is found in. -/
theorem get?_of_findBinding? {name : String} {chain : List FrameRef} {f : FrameRef} {b : Binding}
    (hfind : h.findBinding? name chain = some (f, b)) : (h.frame f).get? name = some b := by
  induction chain with
  | nil => cases hfind
  | cons g outer ih =>
    rw [findBinding?] at hfind
    cases hget : (h.frame g).get? name with
    | some found => rw [hget] at hfind; cases hfind; exact hget
    | none => rw [hget] at hfind; exact ih hfind

end Heap

end Quill
