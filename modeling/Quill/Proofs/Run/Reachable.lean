import Quill.Proofs.Discipline.Sessions
import Quill.Proofs.Heap.Lineage

/-!
# Machines that can be reached

From a new machine a host gets to others by running programs, calling functions and binding global
names, with values that it got from the machine. On all of these, whatever ended in a failure under
way, references point to what there is, and scopes follow the lineage of one and the same tree of
frames, up to the frame of the global names. Functions keep the scopes they were made in, and these
are kept in bindings of the frames in turn; so the references go round, but the parents do not.
-/

set_option autoImplicit false

namespace Quill

/-! ## Machines in order -/

/-- All references of the machine point to what there is, and all scopes follow a lineage. -/
structure Machine.InOrder (parents : Array (Option FrameRef)) (m : Machine) : Prop where
  frames : m.heap.frames.size = parents.size
  older : ParentsOlder parents
  elements : ∀ a, ∀ v ∈ m.heap.array a, v.InHeap m.heap
  entries : ∀ o key v, (m.heap.object o).get? key = some v → v.InHeap m.heap
  bindings : ∀ f name b, (m.heap.frame f).get? name = some b → b.value.InHeap m.heap
  receivers : ∀ f method v, m.heap.function? f = some (.bound method v) → v.InHeap m.heap
  closures : ∀ f d s, m.heap.function? f = some (.user d s) →
    Lineage parents m.globals.frame s.chain
  scope : Lineage parents m.globals.frame m.scope.chain
  globals : Lineage parents m.globals.frame m.globals.chain

/-- The machines that a host gets to from a new one, offering no functions of its own. -/
inductive Machine.Reachable : Machine → Prop
  | new : Reachable Machine.new
  | execute {m : Machine} (host : Host) (fuel : Nat) (program : List Stmt) : Reachable m →
      Reachable ((Quill.execute (evaluator host fuel) program).after m)
  | call {m : Machine} (host : Host) (fuel : Nat) {callee : Value} {args : List Value} :
      Reachable m → callee.InHeap m.heap → (∀ v ∈ args, v.InHeap m.heap) →
      Reachable (((evaluator host fuel).call callee args).after m)
  | define {m : Machine} (name : String) {v : Value} : Reachable m → v.InHeap m.heap →
      Reachable (m.define name v)
  | defineConstant {m : Machine} (name : String) {v : Value} : Reachable m → v.InHeap m.heap →
      Reachable (m.defineConstant name v)

/-! ## The discipline -/

/-- How far the tables of a heap go, and the parents of its frames. -/
structure Extent where
  arrays : Nat
  objects : Nat
  functions : Nat
  parents : Array (Option FrameRef)

namespace Extent

/-- The value is no reference or one that is in the tables. -/
def Holds (e : Extent) : Value → Prop
  | .array a => a.index < e.arrays
  | .object o => o.index < e.objects
  | .function f => f.index < e.functions
  | _ => True

/-- The tables go further, and what parents were known stay the same. -/
structure Grows (e e' : Extent) : Prop where
  arrays : e.arrays ≤ e'.arrays
  objects : e.objects ≤ e'.objects
  functions : e.functions ≤ e'.functions
  parents : ∀ (i : Nat) p, e.parents[i]? = some p → e'.parents[i]? = some p

/-- The function has a receiver that is in the tables, or a scope that follows the lineage. -/
def Admits (e : Extent) (root : FrameRef) : Function → Prop
  | .user _ s => Lineage e.parents root s.chain
  | .builtin _ => True
  | .bound _ receiver => e.Holds receiver
  | .host _ _ => False

/-- What the heap holds is in the tables, or follows the lineage. -/
structure Contains (e : Extent) (root : FrameRef) (h : Heap) : Prop where
  elements : ∀ a, ∀ v ∈ h.array a, e.Holds v
  entries : ∀ o key v, (h.object o).get? key = some v → e.Holds v
  bindings : ∀ f name b, (h.frame f).get? name = some b → e.Holds b.value
  closures : ∀ f g, h.function? f = some g → e.Admits root g

/-- The heap goes as far, and holds no reference that goes further. -/
structure Covers (e : Extent) (root : FrameRef) (h : Heap) : Prop extends e.Contains root h where
  arrays : h.arrays.size = e.arrays
  objects : h.objects.size = e.objects
  functions : h.functions.size = e.functions
  frames : h.frames.size = e.parents.size
  older : ParentsOlder e.parents

variable {e e' : Extent} {root : FrameRef} {h : Heap}

theorem Grows.refl (e : Extent) : e.Grows e :=
  ⟨Nat.le_refl _, Nat.le_refl _, Nat.le_refl _, fun _ _ hp => hp⟩

theorem Grows.trans {e₁ e₂ e₃ : Extent} (h₁ : e₁.Grows e₂) (h₂ : e₂.Grows e₃) : e₁.Grows e₃ :=
  ⟨Nat.le_trans h₁.arrays h₂.arrays, Nat.le_trans h₁.objects h₂.objects,
    Nat.le_trans h₁.functions h₂.functions, fun i p hp => h₂.parents i p (h₁.parents i p hp)⟩

theorem Holds.mono (hgrows : e.Grows e') {v : Value} (hv : e.Holds v) : e'.Holds v := by
  cases v with
  | array a => exact Nat.lt_of_lt_of_le hv hgrows.arrays
  | object o => exact Nat.lt_of_lt_of_le hv hgrows.objects
  | function f => exact Nat.lt_of_lt_of_le hv hgrows.functions
  | null | bool _ | number _ | string _ | native _ => trivial

theorem Admits.mono (hgrows : e.Grows e') {f : Function} (hf : e.Admits root f) :
    e'.Admits root f := by
  cases f with
  | user d s => exact Lineage.mono hf hgrows.parents
  | builtin which => trivial
  | bound method receiver => exact Holds.mono hgrows hf
  | host name service => exact hf

/-- What was in the tables still is when they go further. -/
theorem Contains.mono (hgrows : e.Grows e') (hcontains : e.Contains root h) :
    e'.Contains root h where
  elements a v hv := .mono hgrows (hcontains.elements a v hv)
  entries o key v hv := .mono hgrows (hcontains.entries o key v hv)
  bindings f name b hb := .mono hgrows (hcontains.bindings f name b hb)
  closures f g hg := .mono hgrows (hcontains.closures f g hg)

theorem Covers.holds_iff (hcovers : e.Covers root h) (v : Value) : e.Holds v ↔ v.InHeap h := by
  cases v with
  | array a => simp [Holds, Value.InHeap, hcovers.arrays]
  | object o => simp [Holds, Value.InHeap, hcovers.objects]
  | function f => simp [Holds, Value.InHeap, hcovers.functions]
  | null | bool _ | number _ | string _ | native _ => exact Iff.rfl

/-! ### Changes -/

theorem Covers.modifyArray (hcovers : e.Covers root h) (a : ArrayRef)
    {change : Array Value → Array Value} (hchange : ∀ v ∈ change (h.array a), e.Holds v) :
    e.Covers root (h.modifyArray a change) where
  arrays := Array.size_modify.trans hcovers.arrays
  objects := hcovers.objects
  functions := hcovers.functions
  frames := hcovers.frames
  older := hcovers.older
  elements b v hv := by
    rcases h.array_modifyArray_cases a b change with heq | ⟨rfl, heq⟩
    · exact hcovers.elements b v (heq ▸ hv)
    · exact hchange v (heq ▸ hv)
  entries := hcovers.entries
  bindings := hcovers.bindings
  closures := hcovers.closures

theorem Covers.modifyObject (hcovers : e.Covers root h) (o : ObjectRef)
    {change : Dict Value → Dict Value}
    (hchange : ∀ key v, (change (h.object o)).get? key = some v → e.Holds v) :
    e.Covers root (h.modifyObject o change) where
  arrays := hcovers.arrays
  objects := Array.size_modify.trans hcovers.objects
  functions := hcovers.functions
  frames := hcovers.frames
  older := hcovers.older
  elements := hcovers.elements
  entries p key v hv := by
    rcases h.object_modifyObject_cases o p change with heq | ⟨rfl, heq⟩
    · exact hcovers.entries p key v (heq ▸ hv)
    · exact hchange key v (heq ▸ hv)
  bindings := hcovers.bindings
  closures := hcovers.closures

theorem Covers.setBinding (hcovers : e.Covers root h) (f : FrameRef) (name : String) {b : Binding}
    (hb : e.Holds b.value) : e.Covers root (h.modifyFrame f (·.set name b)) where
  arrays := hcovers.arrays
  objects := hcovers.objects
  functions := hcovers.functions
  frames := Array.size_modify.trans hcovers.frames
  older := hcovers.older
  elements := hcovers.elements
  entries := hcovers.entries
  bindings g k b' hget := by
    rcases h.frame_modifyFrame_cases f g (·.set name b) with heq | ⟨rfl, heq⟩
    · exact hcovers.bindings g k b' (heq ▸ hget)
    · rw [heq, Dict.get?_set] at hget
      split at hget
      · cases hget
        exact hb
      · exact hcovers.bindings g k b' hget
  closures := hcovers.closures

/-! ### Additions -/

theorem Covers.allocArray (hcovers : e.Covers root h) {items : Array Value}
    (hitems : ∀ v ∈ items, e.Holds v) :
    ∃ e', e.Grows e' ∧ e'.Covers root (h.allocArray items).2 ∧ e'.Holds (h.allocArray items).1 := by
  let e' : Extent := { e with arrays := e.arrays + 1 }
  have hgrows : e.Grows e' := ⟨Nat.le_succ _, Nat.le_refl _, Nat.le_refl _, fun _ _ hp => hp⟩
  have hcontains := hcovers.toContains.mono hgrows
  have hsize : h.arrays.size < e'.arrays := hcovers.arrays ▸ Nat.lt_succ_self _
  refine ⟨e', hgrows, { hcovers with
    elements := fun b v hv => ?_
    entries := hcontains.entries
    bindings := hcontains.bindings
    closures := hcontains.closures
    arrays := (Array.size_push _).trans (congrArg (· + 1) hcovers.arrays) }, hsize⟩
  rcases h.array_allocArray_cases items b with heq | heq
  · exact hcontains.elements b v (heq ▸ hv)
  · exact .mono hgrows (hitems v (heq ▸ hv))

theorem Covers.allocObject (hcovers : e.Covers root h) {d : Dict Value}
    (hd : ∀ key v, d.get? key = some v → e.Holds v) :
    ∃ e', e.Grows e' ∧ e'.Covers root (h.allocObject d).2 ∧ e'.Holds (h.allocObject d).1 := by
  let e' : Extent := { e with objects := e.objects + 1 }
  have hgrows : e.Grows e' := ⟨Nat.le_refl _, Nat.le_succ _, Nat.le_refl _, fun _ _ hp => hp⟩
  have hcontains := hcovers.toContains.mono hgrows
  have hsize : h.objects.size < e'.objects := hcovers.objects ▸ Nat.lt_succ_self _
  refine ⟨e', hgrows, { hcovers with
    elements := hcontains.elements
    entries := fun p key v hv => ?_
    bindings := hcontains.bindings
    closures := hcontains.closures
    objects := (Array.size_push _).trans (congrArg (· + 1) hcovers.objects) }, hsize⟩
  rcases h.object_allocObject_cases d p with heq | heq
  · exact hcontains.entries p key v (heq ▸ hv)
  · exact .mono hgrows (hd key v (heq ▸ hv))

theorem Covers.allocFunction (hcovers : e.Covers root h) {f : Function} (hf : e.Admits root f) :
    ∃ e', e.Grows e' ∧ e'.Covers root (h.allocFunction f).2 ∧ e'.Holds (h.allocFunction f).1 := by
  let e' : Extent := { e with functions := e.functions + 1 }
  have hgrows : e.Grows e' := ⟨Nat.le_refl _, Nat.le_refl _, Nat.le_succ _, fun _ _ hp => hp⟩
  have hcontains := hcovers.toContains.mono hgrows
  have hsize : h.functions.size < e'.functions := hcovers.functions ▸ Nat.lt_succ_self _
  refine ⟨e', hgrows, { hcovers with
    elements := hcontains.elements
    entries := hcontains.entries
    bindings := hcontains.bindings
    closures := fun ref g hg => ?_
    functions := (Array.size_push _).trans (congrArg (· + 1) hcovers.functions) }, hsize⟩
  rw [Heap.function?, Heap.allocFunction, Array.getElem?_push] at hg
  split at hg
  · cases hg
    exact .mono hgrows hf
  · exact hcontains.closures ref g hg

/-- A new frame has the frame at work for its parent, which was there before. -/
theorem Covers.childScope (hcovers : e.Covers root h) {s : Scope}
    (hs : Lineage e.parents root s.chain) :
    ∃ e', e.Grows e' ∧ e'.Covers root (h.childScope s).2 ∧
      Lineage e'.parents root (h.childScope s).1.chain := by
  let e' : Extent := { e with parents := e.parents.push (some s.frame) }
  have hparents (i : Nat) (p : Option FrameRef) (hp : e.parents[i]? = some p) :
      e'.parents[i]? = some p := by
    have hi : i < e.parents.size := (Array.getElem?_eq_some_iff.mp hp).1
    rw [Array.getElem?_push, if_neg (Nat.ne_of_lt hi)]
    exact hp
  have hgrows : e.Grows e' := ⟨Nat.le_refl _, Nat.le_refl _, Nat.le_refl _, hparents⟩
  have hcontains := hcovers.toContains.mono hgrows
  have hframes : (h.childScope s).2.frames.size = e'.parents.size := by
    show (h.frames.push _).size = (e.parents.push _).size
    rw [Array.size_push, Array.size_push, hcovers.frames]
  -- The frame at work is in its own lineage, and what is in a lineage is in the tables.
  have holder : ParentsOlder e'.parents := by
    intro i f hf
    rw [Array.getElem?_push] at hf
    split at hf
    · next hi =>
      cases hf
      rw [hi]
      exact hs.lt_size s.frame List.mem_cons_self
    · exact hcovers.older i f hf
  have hbindings (g : FrameRef) (name : String) (b : Binding)
      (hb : ((h.childScope s).2.frame g).get? name = some b) : e'.Holds b.value := by
    rcases h.frame_childScope_cases s g with heq | heq
    · exact hcontains.bindings g name b (heq ▸ hb)
    · rw [heq] at hb
      cases hb
  have hchild : Lineage e'.parents root (⟨h.frames.size⟩ :: s.chain) := hcovers.frames ▸ hs.child
  exact ⟨e', hgrows, { hcovers with
    elements := hcontains.elements
    entries := hcontains.entries
    bindings := hbindings
    closures := hcontains.closures
    frames := hframes
    older := holder }, hchild⟩

end Extent

/-- References point to what there is, and scopes follow the lineage up to the root. -/
def lineageDiscipline (root : FrameRef) : Discipline where
  Stage := Extent
  grows := Extent.Grows
  heap e h := e.Covers root h
  value := Extent.Holds
  scope e s := Lineage e.parents root s.chain
  node _ := True
  failure _ := True

theorem lineageDiscipline_lawful (root : FrameRef) : (lineageDiscipline root).Lawful where
  refl := Extent.Grows.refl
  trans := Extent.Grows.trans
  value_mono hgrows hv := Extent.Holds.mono hgrows hv
  scope_mono hgrows hs := hs.mono hgrows.parents
  plain := by
    intro v e hv
    cases v with
    | array _ | object _ | function _ => exact absurd (hv {}) (Nat.not_lt_zero _)
    | null | bool _ | number _ | string _ | native _ => trivial
  element hcovers := hcovers.elements
  entry hcovers := hcovers.entries
  binding hcovers hget := hcovers.bindings _ _ _ hget
  fetch := by
    intro e h ref f hcovers hf
    have hadmits := hcovers.closures ref f hf
    cases f with
    | user d s => exact ⟨trivial, hadmits⟩
    | builtin which => trivial
    | bound method receiver => exact hadmits
    | host name service => exact hadmits
  modifyArray a hcovers hchange := hcovers.modifyArray a hchange
  modifyObject o hcovers hchange := hcovers.modifyObject o hchange
  setBinding f name hcovers hb := hcovers.setBinding f name hb
  allocArray hcovers hitems := hcovers.allocArray hitems
  allocObject hcovers hd := hcovers.allocObject hd
  allocFunction := by
    intro e h f hcovers hf
    refine hcovers.allocFunction ?_
    cases f with
    | user d s => exact hf.2
    | builtin which => trivial
    | bound method receiver => exact hf
    | host name service => exact hf
  child hcovers hs := hcovers.childScope hs
  below _ _ := trivial
  failure _ _ := trivial

/-! ## Steps of the host -/

/-- The machine fits the discipline of its own root, and the global scope is the root. -/
def Machine.Rooted (m : Machine) : Prop :=
  ∃ e : Extent, (lineageDiscipline m.globals.frame).Fits e m ∧
    Lineage e.parents m.globals.frame m.globals.chain

variable {m m' : Machine}

theorem Machine.Rooted.of_reaches {e e' : Extent}
    (hglobals : Lineage e.parents m.globals.frame m.globals.chain)
    (hreach : (lineageDiscipline m.globals.frame).Reaches e m e' m') : m'.Rooted := by
  refine ⟨e', ?_⟩
  rw [hreach.globals]
  exact ⟨hreach.fits, hglobals.mono hreach.grows.parents⟩

theorem rooted_new : Machine.new.Rooted := by
  let e : Extent := ⟨0, 0, 0, #[none]⟩
  have hroot : Lineage e.parents ⟨0⟩ [⟨0⟩] := .root rfl
  have hframe (f : FrameRef) : (Heap.rootScope {}).2.frame f = .empty := by
    rcases getD_push_cases #[] f.index Dict.empty Dict.empty with heq | heq
    · exact heq.trans (by simp)
    · exact heq
  have holder : ParentsOlder e.parents := by
    intro i f hf
    cases i with
    | zero => cases hf
    | succ i => cases hf
  have hcovers : e.Covers ⟨0⟩ (Heap.rootScope {}).2 :=
    { elements := fun a v hv => nomatch hv
      entries := fun o key v hv => nomatch hv
      bindings := fun f name b hb => by rw [hframe] at hb; cases hb
      closures := fun f g hg => nomatch hg
      arrays := rfl
      objects := rfl
      functions := rfl
      frames := rfl
      older := holder }
  obtain ⟨e', hgrows, hfits⟩ := fits_new (lineageDiscipline_lawful ⟨0⟩) hcovers hroot
  exact ⟨e', hfits, hroot.mono hgrows.parents⟩

theorem Machine.Rooted.execute (h : m.Rooted) (host : Host) (fuel : Nat) (program : List Stmt) :
    ((Quill.execute (evaluator host fuel) program).after m).Rooted := by
  obtain ⟨e, hfits, hglobals⟩ := h
  have law := lineageDiscipline_lawful m.globals.frame
  have hprogram : ∀ s ∈ program, (lineageDiscipline m.globals.frame).node (.stmt s) :=
    fun _ _ => trivial
  have hkeeps := keeps_execute law (evaluator_keeps law trivial host fuel) hprogram e
  obtain ⟨e', hreach⟩ := hkeeps.reaches law hfits
  exact .of_reaches hglobals hreach

theorem Machine.Rooted.call (h : m.Rooted) (host : Host) (fuel : Nat) {callee : Value}
    {args : List Value} (hcallee : callee.InHeap m.heap) (hargs : ∀ v ∈ args, v.InHeap m.heap) :
    (((evaluator host fuel).call callee args).after m).Rooted := by
  obtain ⟨e, hfits, hglobals⟩ := h
  have law := lineageDiscipline_lawful m.globals.frame
  have hkeeps := (evaluator_keeps law trivial host fuel).call
    ((hfits.heap.holds_iff callee).mpr hcallee)
    (fun v hv => (hfits.heap.holds_iff v).mpr (hargs v hv))
  obtain ⟨e', hreach⟩ := hkeeps.reaches law hfits
  exact .of_reaches hglobals hreach

theorem Machine.Rooted.bind (h : m.Rooted) (name : String) {v : Value} (hv : v.InHeap m.heap)
    (mutable : Bool) : ({ m with heap := m.heap.bind m.globals name v mutable } : Machine).Rooted := by
  obtain ⟨e, hfits, hglobals⟩ := h
  have hheld : e.Holds v := (hfits.heap.holds_iff v).mpr hv
  have hcovers := hfits.heap.setBinding m.globals.frame name (b := ⟨v, mutable⟩) hheld
  exact ⟨e, ⟨hcovers, hfits.scope⟩, hglobals⟩

theorem Machine.Reachable.rooted (h : m.Reachable) : m.Rooted := by
  induction h with
  | new => exact rooted_new
  | execute host fuel program _ ih => exact ih.execute host fuel program
  | call host fuel _ hcallee hargs ih => exact ih.call host fuel hcallee hargs
  | define name _ hv ih => exact ih.bind name hv true
  | defineConstant name _ hv ih => exact ih.bind name hv false

theorem Machine.Rooted.inOrder (h : m.Rooted) : ∃ parents, m.InOrder parents := by
  obtain ⟨e, hfits, hglobals⟩ := h
  have hcovers : e.Covers m.globals.frame m.heap := hfits.heap
  refine ⟨e.parents, ?_⟩
  constructor
  case frames => exact hcovers.frames
  case older => exact hcovers.older
  case elements => exact fun a v hv => (hcovers.holds_iff v).mp (hcovers.elements a v hv)
  case entries => exact fun o key v hv => (hcovers.holds_iff v).mp (hcovers.entries o key v hv)
  case bindings =>
    exact fun f name b hb => (hcovers.holds_iff b.value).mp (hcovers.bindings f name b hb)
  case receivers => exact fun f method v hf => (hcovers.holds_iff v).mp (hcovers.closures f _ hf)
  case closures => exact fun f d s hf => hcovers.closures f _ hf
  case scope => exact hfits.scope
  case globals => exact hglobals

/-! ## Every machine that can be reached -/

/-- The scope is at work, or that of the global names, or one that a function was made in. -/
inductive Machine.HasScope (m : Machine) : Scope → Prop
  | atWork : HasScope m m.scope
  | globals : HasScope m m.globals
  | closure {f : FunctionRef} {d : FunctionDef} {s : Scope} :
      m.heap.function? f = some (.user d s) → HasScope m s

theorem Machine.InOrder.lineage {parents : Array (Option FrameRef)} (h : m.InOrder parents)
    {s : Scope} (hs : m.HasScope s) : Lineage parents m.globals.frame s.chain := by
  cases hs with
  | atWork => exact h.scope
  | globals => exact h.globals
  | closure hf => exact h.closures _ _ _ hf

/-- Every machine that can be reached is in order. So looking for a name from any of its scopes by
following parents comes to an end, with what is found in the scope, and a global name is found from
every scope unless a nearer frame binds the name. -/
theorem reachable_inOrder (h : m.Reachable) :
    ∃ parents, m.InOrder parents ∧ ∀ s, m.HasScope s → ∀ name,
      followParents parents m.heap name (s.frame.index + 1) s.frame =
        some (m.heap.findBinding? name s.chain) ∧
      ∀ b, (m.heap.frame m.globals.frame).get? name = some b →
        (∀ f ∈ s.chain, f ≠ m.globals.frame → (m.heap.frame f).get? name = none) →
        m.heap.findBinding? name s.chain = some (m.globals.frame, b) := by
  obtain ⟨parents, horder⟩ := h.rooted.inOrder
  refine ⟨parents, horder, fun s hs name => ?_⟩
  have hlineage := horder.lineage hs
  refine ⟨hlineage.followParents_eq horder.older m.heap name _ (Nat.lt_succ_self _), ?_⟩
  exact fun b hroot hnearer => hlineage.findBinding?_root hroot hnearer

/-- `{ function f() { return f } }`. -/
def blockWithFunction : List Stmt :=
  let p : Position := .start
  let d : FunctionDef :=
    { name := some "f", params := [], body := .block [.ret (some (.ident "f" p)) p], position := p }
  [.block [.function d] p]

/-- The function is kept in the frame that it was made in, and this in the function. -/
theorem reachable_inOrder_blockWithFunction :
    ((Quill.execute (evaluator smallHost 9) blockWithFunction).after Machine.new).Reachable ∧
    ∃ parents,
      ((Quill.execute (evaluator smallHost 9) blockWithFunction).after Machine.new).InOrder
        parents := by
  have hreachable : ((Quill.execute (evaluator smallHost 9) blockWithFunction).after
      Machine.new).Reachable := .execute smallHost 9 blockWithFunction .new
  obtain ⟨parents, horder, -⟩ := reachable_inOrder hreachable
  exact ⟨hreachable, parents, horder⟩

end Quill
