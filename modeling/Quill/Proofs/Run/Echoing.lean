import Quill.Eval
import Quill.Proofs.Run.CallingBack

/-!
# Functions that deliver their argument

A function echoes if it delivers its first argument and changes no container. A method that collects
what such a function answers goes through the elements as they are. The function that a script writes
as `x => x` echoes.
-/

set_option autoImplicit false

namespace Quill

/-- The arrays and the objects are the same. -/
structure Heap.SameContainers (h h' : Heap) : Prop where
  arrays : h'.arrays = h.arrays
  objects : h'.objects = h.objects

/-- Called for the elements of the array, one call after the other, the function delivers its first
argument and changes no container. -/
def Eval.Echoes (r : Eval) (f : Value) (a : ArrayRef) (m : Machine) : Prop :=
  ∀ m', ReachedByCalls r f a (m.heap.array a).toList m m' → ∀ v rest,
    ∃ m₁, r.call f (v :: rest) m' = .ok v m₁ ∧ m'.heap.SameContainers m₁.heap

section Calls

variable {r : Eval} {f : Value} {a : ArrayRef} {m m' : Machine} {items args : List Value}

theorem ElementCall.exists_cons (h : ElementCall a items args) : ∃ v rest, args = v :: rest := by
  cases h with
  | visit _ => exact ⟨_, _, rfl⟩
  | fold acc _ => exact ⟨_, _, rfl⟩

theorem Run.after_of_ok {α : Type} {act : Run α} {v : α} (h : act m = .ok v m') :
    act.after m = m' := by
  rw [Run.after, h]

/-- What a value is spread into is decided by the arrays of the heap. -/
theorem spread_congr {h h' : Heap} (harrays : h.arrays = h'.arrays) (v : Value) :
    spread h v = spread h' v := by
  cases v with
  | array e => exact congrArg (·.getD e.index #[]) harrays
  | _ => rfl

namespace Eval.Echoes

variable (hechoes : r.Echoes f a m)

include hechoes

theorem sameContainers (h : ReachedByCalls r f a (m.heap.array a).toList m m') :
    m.heap.SameContainers m'.heap := by
  induction h with
  | start => exact ⟨rfl, rfl⟩
  | @call m' args hreached hargs ih =>
    obtain ⟨v, rest, rfl⟩ := hargs.exists_cons
    obtain ⟨m₁, hcall, hsame⟩ := hechoes m' hreached v rest
    rw [Run.after_of_ok hcall]
    exact ⟨hsame.arrays.trans ih.arrays, hsame.objects.trans ih.objects⟩

theorem spares : r.Spares f a m := fun _ hreached =>
  congrArg (·.getD a.index #[]) (hechoes.sameContainers hreached).arrays

/-- What is gathered from the answers is what is gathered from the elements themselves. -/
theorem flatMapM_gathered {ps : List (Value × Nat)}
    (hps : ∀ p ∈ ps, p ∈ (m.heap.array a).toList.zipIdx) :
    ∀ m', ReachedByCalls r f a (m.heap.array a).toList m m' →
      ∃ m₁, ReachedByCalls r f a (m.heap.array a).toList m m₁ ∧
        ps.flatMapM (gathered r a f fun _ answer h => spread h answer) m' =
          .ok (ps.flatMap fun p => (spread m.heap p.1).toList) m₁ := by
  induction ps with
  | nil => exact fun m' hreached => ⟨m', hreached, rfl⟩
  | cons p ps ih =>
    intro m' hreached
    rw [List.forall_mem_cons] at hps
    have hargs : ElementCall a (m.heap.array a).toList [p.1, .ofNat p.2, .array a] :=
      .visit (mem_zipIdx_iff.mp hps.1)
    obtain ⟨m₁, hcall, -⟩ := hechoes m' hreached p.1 [.ofNat p.2, .array a]
    have hreached₁ := hreached.call hargs
    rw [Run.after_of_ok hcall] at hreached₁
    obtain ⟨m₂, hreached₂, hrest⟩ := ih hps.2 m₁ hreached₁
    have hgathered : gathered r a f (fun _ answer h => spread h answer) p m' =
        .ok (spread m₁.heap p.1).toList m₁ := by
      have hanswer : answerFor r f a p m' = .ok p.1 m₁ := hcall
      rw [gathered, Run.bind_ok hanswer]
      rfl
    rw [spread_congr ((hechoes.sameContainers hreached₁).arrays)] at hgathered
    refine ⟨m₂, hreached₂, ?_⟩
    rw [List.flatMapM_cons, Run.bind_ok hgathered, Run.bind_ok hrest]
    rfl

end Eval.Echoes

end Calls

/-! ## The identity in a script -/

/-- A function of one parameter that is worth this parameter, such as `x => x`. -/
def FunctionDef.IsIdentity (d : FunctionDef) : Prop :=
  ∃ name position, d.params = [name] ∧ d.body = .expr (.ident name position)

variable {host : Host} {fuel : Nat} {d : FunctionDef} {closure : Scope} {g : FunctionRef}

/-- In the frame of the call the parameter is what was passed. -/
theorem callFrame_lookup? (h : Heap) (closure : Scope) (name : String) (v : Value)
    (rest : List Value) :
    let frame := callFrame h closure [name] (v :: rest)
    frame.2.lookup? frame.1 name = some v := by
  have hframe : (callFrame h closure [name] (v :: rest)).2.frame ⟨h.frames.size⟩ =
      ((h.childScope closure).2.frame ⟨h.frames.size⟩).set name ⟨v, true⟩ :=
    Heap.frame_modifyFrame_self (by exact (Array.size_push _).symm ▸ Nat.lt_succ_self _) _
  show (Heap.findBinding? _ name (⟨h.frames.size⟩ :: closure.chain)).map (·.2.value) = some v
  rw [Heap.findBinding?, hframe, Dict.get?_set, if_pos rfl]
  rfl

theorem runBody_ident {r : Eval} {m : Machine} {name : String} {position : Position} {v : Value}
    (hexpr : ∀ e, r.expr e = evalExpr (evaluator host fuel) e)
    (hlookup : m.heap.lookup? m.scope name = some v) :
    runBody r (.expr (.ident name position)) m = .ok v m := by
  show r.expr (.ident name position) m = .ok v m
  rw [hexpr, evalExpr, Run.readVariable, hlookup]

/-- What is the same after a body that changes nothing: the registers are changed back. -/
theorem inCall_of_ok {m : Machine} {scope : Scope} {act : Run Value} {v : Value}
    (h : ∀ m', m'.heap = m.heap → m'.scope = scope → act m' = .ok v m') :
    Run.inCall scope act m = .ok v m := by
  have hact := h { m with scope, loopDepth := 0, callDepth := m.callDepth + 1 } rfl rfl
  simp only [Run.inCall, Run.bracket, hact, Nat.add_sub_cancel]

/-- A call of the identity delivers the first argument. What it leaves behind is a frame and, if
calls are reported, a line in the report. -/
theorem call_identity {m : Machine} (hg : m.heap.function? g = some (.user d closure))
    (hd : d.IsIdentity) (hdepth : m.callDepth < m.maxCallDepth) (v : Value) (rest : List Value) :
    ∃ frames events, (evaluator host (fuel + 2)).call (.function g) (v :: rest) m =
      .ok v { m with heap := { m.heap with frames }, events } := by
  obtain ⟨name, position, hparams, hbody⟩ := hd
  obtain ⟨events, hreport⟩ :=
    m.exists_report_eq .trace ("call " ++ d.displayName ++ "/" ++ toString (v :: rest).length)
  have hread : Run.read (·.function? g) m = .ok (some (.user d closure)) m := by rw [Run.read, hg]
  have hreported : Run.report .trace ("call " ++ d.displayName ++ "/" ++
      toString (v :: rest).length) m = .ok () { m with events } :=
    congrArg (EStateM.Result.ok ()) hreport
  have hexhausted : callsExhausted { m with events } = .ok false { m with events } :=
    congrArg (EStateM.Result.ok · _) (decide_eq_false (Nat.not_le.mpr hdepth))
  have hframe := callFrame_lookup? m.heap closure name v rest
  refine ⟨(callFrame m.heap closure [name] (v :: rest)).2.frames, events, ?_⟩
  show callValue host (evaluator host (fuel + 1)) (.function g) (v :: rest) m = _
  rw [callValue, Run.bind_ok hread]
  show callUser (evaluator host (fuel + 1)) d closure (v :: rest) m = _
  rw [callUser, Run.bind_ok hreported, Run.bind_ok hexhausted, hparams, hbody]
  refine inCall_of_ok fun m' hheap hscope => ?_
  refine runBody_ident (fun e => rfl) ?_
  rw [hheap, hscope]
  exact hframe

/-- The identity echoes as long as one more call may be open. -/
theorem evaluator_echoes {m : Machine} (hg : m.heap.function? g = some (.user d closure))
    (hd : d.IsIdentity) (hdepth : m.callDepth < m.maxCallDepth) (a : ArrayRef) :
    (evaluator host (fuel + 2)).Echoes (.function g) a m := by
  -- A call changes none of what the next one depends on.
  have hkept : ∀ m', ReachedByCalls (evaluator host (fuel + 2)) (.function g) a
      (m.heap.array a).toList m m' →
      m'.heap.function? g = some (.user d closure) ∧ m'.callDepth < m'.maxCallDepth := by
    intro m' hreached
    induction hreached with
    | start => exact ⟨hg, hdepth⟩
    | @call m' args _ hargs ih =>
      obtain ⟨v, rest, rfl⟩ := hargs.exists_cons
      obtain ⟨frames, events, hcall⟩ := call_identity ih.1 hd ih.2 v rest
      rw [Run.after_of_ok hcall]
      exact ih
  intro m' hreached v rest
  obtain ⟨hg', hdepth'⟩ := hkept m' hreached
  obtain ⟨frames, events, hcall⟩ := call_identity hg' hd hdepth' v rest
  exact ⟨_, hcall, rfl, rfl⟩

end Quill
