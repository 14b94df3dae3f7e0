import Quill.Proofs.Heap.Tables

/-!
# Lineage

A scope lists its own frame and those around it. `Lineage` says that the list is what one finds by
following parents from its first frame to the root, where every frame has one parent for good or is
the root itself. Parents are older than their children, so following them ends, and it ends after
no more steps than there are frames up to the first.
-/

set_option autoImplicit false

namespace Quill

/-- The frames are those found by following parents up to the root. -/
inductive Lineage (parents : Array (Option FrameRef)) (root : FrameRef) : List FrameRef → Prop
  | root : parents[root.index]? = some none → Lineage parents root [root]
  | inside {f g : FrameRef} {outer : List FrameRef} : parents[f.index]? = some (some g) →
      Lineage parents root (g :: outer) → Lineage parents root (f :: g :: outer)

/-- Every frame is younger than its parent. -/
def ParentsOlder (parents : Array (Option FrameRef)) : Prop :=
  ∀ (i : Nat) (f : FrameRef), parents[i]? = some (some f) → f.index < i

/-- Looks for a name in a frame and then in its parent, for so many frames. Gives nothing if that
does not come to an end. -/
def followParents (parents : Array (Option FrameRef)) (h : Heap) (name : String) :
    Nat → FrameRef → Option (Option (FrameRef × Binding))
  | 0, _ => none
  | steps + 1, f =>
    match (h.frame f).get? name, parents[f.index]? with
    | some b, _ => some (some (f, b))
    | none, some (some g) => followParents parents h name steps g
    | none, _ => some none

namespace Lineage

variable {parents parents' : Array (Option FrameRef)} {root : FrameRef} {chain : List FrameRef}

/-- All frames of a lineage are there. -/
theorem lt_size (h : Lineage parents root chain) : ∀ f ∈ chain, f.index < parents.size := by
  induction h with
  | root hroot =>
    intro f hf
    rw [List.mem_singleton.mp hf]
    exact (Array.getElem?_eq_some_iff.mp hroot).1
  | inside hparent _ ih =>
    rw [List.forall_mem_cons]
    exact ⟨(Array.getElem?_eq_some_iff.mp hparent).1, ih⟩

/-- The parents of frames that are there stay the same when frames are added. -/
theorem mono (h : Lineage parents root chain)
    (hgrows : ∀ (i : Nat) p, parents[i]? = some p → parents'[i]? = some p) :
    Lineage parents' root chain := by
  induction h with
  | root hroot => exact .root (hgrows _ _ hroot)
  | inside hparent _ ih => exact .inside (hgrows _ _ hparent) ih

/-- A new frame inside of a scope. -/
theorem child {s : Scope} (h : Lineage parents root s.chain) :
    Lineage (parents.push (some s.frame)) root (⟨parents.size⟩ :: s.chain) := by
  have hnew : (parents.push (some s.frame))[parents.size]? = some (some s.frame) := by simp
  refine .inside hnew (h.mono fun i p hp => ?_)
  have hi : i < parents.size := (Array.getElem?_eq_some_iff.mp hp).1
  rw [Array.getElem?_push, if_neg (Nat.ne_of_lt hi)]
  exact hp

/-- Following parents ends, and finds what is found in the scope. -/
theorem followParents_eq (holder : ParentsOlder parents) (h : Heap) (name : String) (steps : Nat) :
    ∀ {f : FrameRef} {outer : List FrameRef}, Lineage parents root (f :: outer) → f.index < steps →
      followParents parents h name steps f = some (h.findBinding? name (f :: outer)) := by
  induction steps with
  | zero => intro f outer _ hsteps; omega
  | succ steps ih =>
    intro f outer hlineage hsteps
    unfold followParents Heap.findBinding?
    cases hget : (h.frame f).get? name with
    | some b => rfl
    | none =>
      cases hlineage with
      | root hroot =>
        rw [hroot]
        rfl
      | inside hparent hrest =>
        rw [hparent]
        have hlt := holder _ _ hparent
        exact ih hrest (by omega)

/-- What the root binds is found from everywhere, unless a nearer frame binds it. -/
theorem findBinding?_root {h : Heap} {name : String} {b : Binding}
    (hlineage : Lineage parents root chain) (hroot : (h.frame root).get? name = some b)
    (hnearer : ∀ f ∈ chain, f ≠ root → (h.frame f).get? name = none) :
    h.findBinding? name chain = some (root, b) := by
  induction hlineage with
  | root _ => rw [Heap.findBinding?, hroot]
  | @inside f g outer hparent hrest ih =>
    rw [List.forall_mem_cons] at hnearer
    by_cases hf : f = root
    · rw [hf, Heap.findBinding?, hroot]
    · rw [Heap.findBinding?, hnearer.1 hf]
      exact ih hnearer.2

end Lineage

end Quill
