import Quill.Host
import Quill.Proofs.Heap.Tables
import Quill.Proofs.Run.Along

/-!
# Methods that call back

Nine methods of arrays call a function for the elements. They ask the array for the next element
after every call, so a function that changes the array under way has a say in what comes next. A
function that leaves the array alone does not: then the methods are the functions on lists that they
are named for, over the elements as they were in the beginning, from the left to the right, with the
monad of runs carrying what else the calls do and the failure of one of them.
-/

set_option autoImplicit false

namespace Quill

variable {σ τ α β : Type}

/-! ## Functions on lists -/

section Lists

variable {M : Type → Type} [Monad M] [LawfulMonad M]

theorem flatMapM_singleton (g : α → M β) (xs : List α) :
    (xs.flatMapM fun x => do return [← g x]) = xs.mapM g := by
  induction xs with
  | nil => simp
  | cons x rest ih =>
    simp only [List.flatMapM_cons, List.mapM_cons, bind_assoc, pure_bind, ih,
      List.singleton_append]

theorem filterAuxM_eq (keep : α → M Bool) (xs : List α) :
    ∀ kept : List α, xs.filterAuxM keep kept = (do return (← xs.filterAuxM keep []) ++ kept) := by
  induction xs with
  | nil => simp [List.filterAuxM]
  | cons x rest ih =>
    intro kept
    simp only [List.filterAuxM, bind_assoc]
    refine bind_congr fun keeps => ?_
    cases keeps with
    | false => exact ih kept
    | true =>
      dsimp only [cond_true]
      rw [ih (x :: kept), ih [x]]
      simp

theorem filterM_cons (keep : α → M Bool) (x : α) (xs : List α) :
    (x :: xs).filterM keep = (do
      let keeps ← keep x
      let rest ← xs.filterM keep
      return if keeps then x :: rest else rest) := by
  simp only [List.filterM, List.filterAuxM, bind_assoc, pure_bind]
  refine bind_congr fun keeps => ?_
  cases keeps with
  | false => rfl
  | true =>
    dsimp only [cond_true]
    rw [filterAuxM_eq]
    simp

/-- Collecting what passes a test is filtering. -/
theorem flatMapM_filter (test : α → M Bool) (pick : α → β) (xs : List α) :
    (xs.flatMapM fun x => do return if ← test x then [pick x] else []) =
      (do return (← xs.filterM test).map pick) := by
  induction xs with
  | nil => simp [List.filterM, List.filterAuxM]
  | cons x rest ih =>
    simp only [List.flatMapM_cons, filterM_cons, bind_assoc, pure_bind, ih]
    refine bind_congr fun keeps => ?_
    cases keeps <;> simp

/-- Some element passes if the search finds one. -/
theorem isSome_findM? (test : α → M Bool) (xs : List α) :
    (do return (← xs.findM? test).isSome) = xs.anyM test := by
  induction xs with
  | nil => simp [List.findM?]
  | cons x rest ih =>
    simp only [List.findM?, List.anyM_cons, bind_assoc, ← ih]
    refine bind_congr fun passes => ?_
    cases passes <;> simp

/-- All elements pass if the search for one that does not finds none. -/
theorem isNone_findM? (test : α → M Bool) (xs : List α) :
    (do return (← xs.findM? fun x => do return !(← test x)).isNone) = xs.allM test := by
  induction xs with
  | nil => simp [List.findM?]
  | cons x rest ih =>
    simp only [List.findM?, List.allM_cons, bind_assoc, pure_bind, ← ih]
    refine bind_congr fun passes => ?_
    cases passes <;> simp

end Lists

/-! ## Functions that leave the array alone -/

/-- A call that a method makes for an element: with the element, its position and the array, and in
a fold with the value so far before them. -/
inductive ElementCall (a : ArrayRef) (items : List Value) : List Value → Prop
  | visit {x : Value} {i : Nat} :
      items[i]? = some x → ElementCall a items [x, .ofNat i, .array a]
  | fold (acc : Value) {x : Value} {i : Nat} :
      items[i]? = some x → ElementCall a items [acc, x, .ofNat i, .array a]

/-- The machines that calls of `f` for elements lead to, each call starting where the one before it
ended. -/
inductive ReachedByCalls (r : Eval) (f : Value) (a : ArrayRef) (items : List Value) (m : Machine) :
    Machine → Prop
  | start : ReachedByCalls r f a items m m
  | call {m' : Machine} {args : List Value} : ReachedByCalls r f a items m m' →
      ElementCall a items args → ReachedByCalls r f a items m ((r.call f args).after m')

/-- No call of `f` for an element changes the array. -/
def Eval.Spares (r : Eval) (f : Value) (a : ArrayRef) (m : Machine) : Prop :=
  ∀ m', ReachedByCalls r f a (m.heap.array a).toList m m' → m'.heap.array a = m.heap.array a

section Walk

variable {r : Eval} {f : Value} {a : ArrayRef} {m m' m₁ : Machine} {items args : List Value}

theorem Run.bind_ok {x : Run α} {g : α → Run β} {v : α} (hx : x m = .ok v m') :
    (x >>= g) m = g v m' := by
  simp only [Bind.bind, EStateM.bind, hx]

theorem Run.bind_error {x : Run α} {g : α → Run β} {e : Stop} (hx : x m = .error e m') :
    (x >>= g) m = .error e m' := by
  simp only [Bind.bind, EStateM.bind, hx]

namespace ReachedByCalls

/-- Between the calls the array is asked for the elements that it had. -/
theorem read_eq (h : ReachedByCalls r f a (m.heap.array a).toList m m') (hspares : r.Spares f a m)
    (i : Nat) : Run.read (fun h => (h.array a)[i]?) m' = .ok (m.heap.array a)[i]? m' := by
  rw [← hspares m' h]
  rfl

/-- What goes on behind a call has to do the same on the machines that calls lead to. -/
theorem call_bind_eq (h : ReachedByCalls r f a items m m') (hargs : ElementCall a items args)
    {k k' : Value → Run β}
    (hk : ∀ v m₁, ReachedByCalls r f a items m m₁ → k v m₁ = k' v m₁) :
    (r.call f args >>= k) m' = (r.call f args >>= k') m' := by
  have hafter := h.call hargs
  unfold Run.after at hafter
  cases hcall : r.call f args m' with
  | error e m₁ => rw [Run.bind_error hcall, Run.bind_error hcall]
  | ok v m₁ =>
    rw [hcall] at hafter
    rw [Run.bind_ok hcall, Run.bind_ok hcall]
    exact hk v m₁ hafter

/-- What goes on behind a call leads to such machines if it does so from them. -/
theorem after_call_bind (h : ReachedByCalls r f a items m m') (hargs : ElementCall a items args)
    {k : Value → Run β} (hk : ∀ v m₁, ReachedByCalls r f a items m m₁ →
      ReachedByCalls r f a items m ((k v).after m₁)) :
    ReachedByCalls r f a items m ((r.call f args >>= k).after m') := by
  have hafter := h.call hargs
  unfold Run.after at hafter
  rw [Run.after_bind]
  cases hcall : r.call f args m' with
  | error e m₁ =>
    rw [hcall] at hafter
    exact hafter
  | ok v m₁ =>
    rw [hcall] at hafter
    exact hk v m₁ hafter

end ReachedByCalls

/-! ## From positions to lists -/

/-- The elements from a position on, with their positions: none, or one and those after it. -/
theorem drop_zipIdx (items : Array Value) (i : Nat) :
    items.toList.zipIdx.drop i =
      match items[i]? with
      | none => []
      | some x => (x, i) :: items.toList.zipIdx.drop (i + 1) := by
  by_cases hi : i < items.size
  · have hlength : i < items.toList.zipIdx.length := by simpa using hi
    rw [List.drop_eq_getElem_cons hlength, Array.getElem?_eq_getElem hi]
    simp
  · rw [Array.getElem?_eq_none (Nat.le_of_not_lt hi)]
    exact List.drop_eq_nil_of_le (by simpa using Nat.le_of_not_lt hi)

/-- The answer of `f` for an element and its position. -/
def answerFor (r : Eval) (f : Value) (a : ArrayRef) (p : Value × Nat) : Run Value :=
  r.call f [p.1, .ofNat p.2, .array a]

/-- The value that `f` makes of a value so far and of an element and its position. -/
def foldFor (r : Eval) (f : Value) (a : ArrayRef) (acc : Value) (p : Value × Nat) : Run Value :=
  r.call f [acc, p.1, .ofNat p.2, .array a]

/-- The walk of the methods over a list of elements with their positions. -/
def visitList (r : Eval) (a : ArrayRef) (f : Value)
    (visit : σ → Value → Nat → Value → Run (Visit σ τ)) (state : σ) :
    List (Value × Nat) → Run (Visit σ τ)
  | [] => return .next state
  | p :: rest => do
    let answer ← answerFor r f a p
    match ← visit state p.1 p.2 answer with
    | .next state => visitList r a f visit state rest
    | .finish result => return .finish result

/-- What is made of an answer changes nothing. -/
def OnlyReads (visit : σ → Value → Nat → Value → Run (Visit σ τ)) : Prop :=
  ∀ state x i answer m, ∃ next, visit state x i answer m = .ok next m

variable {visit : σ → Value → Nat → Value → Run (Visit σ τ)}

/-- As long as the calls spare the array, asking it for the next element is going on in the list of
the elements that it had. -/
theorem visitFrom_eq_visitList (hspares : r.Spares f a m) (hvisit : OnlyReads visit) (fuel : Nat) :
    ∀ (i : Nat) (state : σ) (m' : Machine),
      ReachedByCalls r f a (m.heap.array a).toList m m' →
      i ≤ (m.heap.array a).size → (m.heap.array a).size < fuel + i →
      visitFrom r a f visit fuel i state m' =
        visitList r a f visit state ((m.heap.array a).toList.zipIdx.drop i) m' := by
  induction fuel with
  | zero =>
    -- One pass more than there are elements left is asked for, so the passes do not run out.
    intro i state m' hreached hi hfuel
    omega
  | succ fuel ih =>
    intro i state m' hreached hi hfuel
    rw [visitFrom, Run.bind_ok (hreached.read_eq hspares i), drop_zipIdx]
    cases hitem : (m.heap.array a)[i]? with
    | none => rfl
    | some x =>
      have hlt : i < (m.heap.array a).size := (Array.getElem?_eq_some_iff.mp hitem).1
      refine hreached.call_bind_eq (.visit (by simpa using hitem)) fun answer m₁ hreached₁ => ?_
      obtain ⟨next, hnext⟩ := hvisit state x i answer m₁
      rw [Run.bind_ok hnext, Run.bind_ok hnext]
      cases next with
      | finish result => rfl
      | next state' => exact ih (i + 1) state' m₁ hreached₁ (by omega) (by omega)

/-- The same for a fold. -/
theorem foldFrom_eq_foldlM (hspares : r.Spares f a m) (fuel : Nat) :
    ∀ (i : Nat) (acc : Value) (m' : Machine),
      ReachedByCalls r f a (m.heap.array a).toList m m' →
      i ≤ (m.heap.array a).size → (m.heap.array a).size < fuel + i →
      foldFrom r a f fuel i acc m' =
        ((m.heap.array a).toList.zipIdx.drop i).foldlM (foldFor r f a) acc m' := by
  induction fuel with
  | zero =>
    intro i acc m' hreached hi hfuel
    omega
  | succ fuel ih =>
    intro i acc m' hreached hi hfuel
    rw [foldFrom, Run.bind_ok (hreached.read_eq hspares i), drop_zipIdx]
    cases hitem : (m.heap.array a)[i]? with
    | none => rfl
    | some x =>
      have hlt : i < (m.heap.array a).size := (Array.getElem?_eq_some_iff.mp hitem).1
      refine hreached.call_bind_eq (.fold acc (by simpa using hitem)) fun acc' m₁ hreached₁ => ?_
      exact ih (i + 1) acc' m₁ hreached₁ (by omega) (by omega)

/-! ## What the walks make of a list -/

/-- What is collected for an element. -/
def gathered (r : Eval) (a : ArrayRef) (f : Value) (visit : Value → Value → Heap → Array Value)
    (p : Value × Nat) : Run (List Value) := do
  let answer ← answerFor r f a p
  let more ← Run.read (visit p.1 answer)
  return more.toList

theorem visitList_collect (visit : Value → Value → Heap → Array Value) (ps : List (Value × Nat)) :
    ∀ out : Array Value,
      visitList r a f (τ := Empty) (fun out item _ answer => do
          let more ← Run.read (visit item answer)
          return .next (out ++ more)) out ps =
        (do
          let more ← ps.flatMapM (gathered r a f visit)
          return .next (out ++ more.toArray)) := by
  induction ps with
  | nil =>
    intro out
    simp [visitList]
  | cons p rest ih =>
    intro out
    rw [visitList, List.flatMapM_cons]
    simp only [gathered, bind_assoc, pure_bind, ih]
    simp only [← List.append_toArray, Array.toArray_toList, Array.append_assoc]

theorem visitList_search (wanted : Bool) (ps : List (Value × Nat)) :
    visitList r a f (fun (_ : Unit) item i answer =>
        return if answer.toBool == wanted then .finish (item, i) else .next ()) () ps =
      (do
        match ← ps.findM? (fun p => do return (← answerFor r f a p).toBool == wanted) with
        | none => return .next ()
        | some hit => return .finish hit) := by
  induction ps with
  | nil => rfl
  | cons p rest ih =>
    rw [visitList, List.findM?]
    simp only [bind_assoc, pure_bind]
    refine bind_congr fun answer => ?_
    by_cases hwanted : (answer.toBool == wanted) = true
    · simp [hwanted]
    · simp only [hwanted]
      exact ih

theorem visitList_all (ps : List (Value × Nat)) :
    visitList r a f (τ := Empty) (fun (_ : Unit) _ _ _ => return .next ()) () ps =
      (do
        forM ps fun p => do
          let _ ← answerFor r f a p
          return ()
        return .next ()) := by
  induction ps with
  | nil => rfl
  | cons p rest ih =>
    rw [visitList, List.forM_cons]
    simp only [bind_assoc, pure_bind, ih]

/-! ## The array stays as it is -/

/-- The pairs are elements of a list with their positions. -/
theorem mem_zipIdx_iff {p : Value × Nat} : p ∈ items.zipIdx ↔ items[p.2]? = some p.1 := by
  obtain ⟨x, i⟩ := p
  exact List.mk_mem_zipIdx_iff_getElem?

theorem reached_visitList (hvisit : OnlyReads visit) {ps : List (Value × Nat)}
    (hps : ∀ p ∈ ps, p ∈ items.zipIdx) :
    ∀ (state : σ) (m' : Machine), ReachedByCalls r f a items m m' →
      ReachedByCalls r f a items m ((visitList r a f visit state ps).after m') := by
  induction ps with
  | nil => exact fun state m' hreached => hreached
  | cons p rest ih =>
    intro state m' hreached
    rw [List.forall_mem_cons] at hps
    have hargs : ElementCall a items [p.1, .ofNat p.2, .array a] :=
      .visit (mem_zipIdx_iff.mp hps.1)
    refine hreached.after_call_bind hargs fun answer m₁ hreached₁ => ?_
    obtain ⟨next, hnext⟩ := hvisit state p.1 p.2 answer m₁
    simp only [Run.after_bind, hnext]
    cases next with
    | finish result => exact hreached₁
    | next state' => exact ih hps.2 state' m₁ hreached₁

theorem reached_foldlM {ps : List (Value × Nat)} (hps : ∀ p ∈ ps, p ∈ items.zipIdx) :
    ∀ (acc : Value) (m' : Machine), ReachedByCalls r f a items m m' →
      ReachedByCalls r f a items m ((ps.foldlM (foldFor r f a) acc).after m') := by
  induction ps with
  | nil => exact fun acc m' hreached => hreached
  | cons p rest ih =>
    intro acc m' hreached
    rw [List.forall_mem_cons] at hps
    have hargs : ElementCall a items [acc, p.1, .ofNat p.2, .array a] :=
      .fold acc (mem_zipIdx_iff.mp hps.1)
    exact hreached.after_call_bind hargs fun acc' m₁ hreached₁ => ih hps.2 acc' m₁ hreached₁

end Walk

/-! ## The methods -/

/-- The test that a method makes of the answer for an element. -/
def testFor (r : Eval) (f : Value) (a : ArrayRef) (p : Value × Nat) : Run Bool := do
  return (← answerFor r f a p).toBool

/-- The fold over elements with their positions. Without an initial value, null being none, the first
element is it. -/
def reduceList (r : Eval) (f : Value) (a : ArrayRef) : Value → List (Value × Nat) → Run Value
  | .null, [] => Run.fail 0 .emptyReduce
  | .null, first :: later => later.foldlM (foldFor r f a) first.1
  | initial, elements => elements.foldlM (foldFor r f a) initial

/-- The function on lists that a method is named for, over elements with their positions. Methods
that call no function have none. -/
def ArrayMethod.onList? (r : Eval) (f : Value) (a : ArrayRef) (initial : Value)
    (elements : List (Value × Nat)) : ArrayMethod → Option (Run Value)
  | .map => some do Run.allocArray (← elements.mapM (answerFor r f a)).toArray
  | .filter => some do
    let kept ← elements.filterM (testFor r f a)
    Run.allocArray (kept.map (·.1)).toArray
  | .flatMap => some do
    let items ← elements.flatMapM fun p => do
      let answer ← answerFor r f a p
      return (← Run.read (spread · answer)).toList
    Run.allocArray items.toArray
  | .forEach => some do
    forM elements fun p => do
      let _ ← answerFor r f a p
      return ()
    return .null
  | .find => some do return ((← elements.findM? (testFor r f a)).map (·.1)).getD .null
  | .findIndex => some do return positionValue ((← elements.findM? (testFor r f a)).map (·.2))
  | .someOf => some do return .bool (← elements.anyM (testFor r f a))
  | .every => some do return .bool (← elements.allM (testFor r f a))
  | .reduce => some (reduceList r f a initial elements)
  | _ => none

/-- From this machine the computation does what a walk over a list does, and the array is the same
after it. -/
structure Run.Walks (a : ArrayRef) (m : Machine) (act walk : Run α) : Prop where
  same : act m = walk m
  array : (act.after m).heap.array a = m.heap.array a

/-- Only what the computation does from this machine counts. -/
theorem Run.Walks.of_eq {a : ArrayRef} {m : Machine} {act act' walk : Run α} (h : act m = act' m)
    (hwalks : Run.Walks a m act' walk) : Run.Walks a m act walk := by
  refine ⟨h.trans hwalks.same, ?_⟩
  rw [Run.after, h]
  exact hwalks.array

theorem Run.Walks.map {a : ArrayRef} {m : Machine} {act walk : Run α} (h : Run.Walks a m act walk)
    (g : α → β) : Run.Walks a m (do return g (← act)) (do return g (← walk)) := by
  refine ⟨?_, ?_⟩
  · show EStateM.bind act _ m = EStateM.bind walk _ m
    simp only [EStateM.bind, h.same]
  · have harray := h.array
    rw [Run.after_bind]
    rw [Run.after] at harray
    cases hact : act m with
    | ok v m' => rw [hact] at harray; exact harray
    | error e m' => rw [hact] at harray; exact harray

section Methods

variable {r : Eval} {f : Value} {a : ArrayRef} {m : Machine}

/-- Where there are elements the array is in the table, and where there are none there is no call. -/
theorem ReachedByCalls.inTable (ha : a.index < m.heap.arrays.size) (hspares : r.Spares f a m)
    {m' : Machine} (h : ReachedByCalls r f a (m.heap.array a).toList m m') :
    a.index < m'.heap.arrays.size := by
  cases h with
  | start => exact ha
  | @call m₁ args hreached hargs =>
    refine Decidable.byContradiction fun hout => ?_
    have hempty : ((r.call f args).after m₁).heap.array a = #[] := by
      rw [Heap.array, Array.getD_eq_getD_getElem?, Array.getElem?_eq_none (Nat.le_of_not_lt hout)]
      rfl
    rw [hspares _ (hreached.call hargs)] at hempty
    rw [hempty] at hargs
    cases hargs with
    | visit hitem => cases hitem
    | fold acc hitem => cases hitem

section Visits

variable (ha : a.index < m.heap.arrays.size) (hspares : r.Spares f a m)
  (hfuel : (m.heap.array a).size < r.fuel)

include ha hspares

/-- What goes on behind calls that spare the array. -/
theorem Run.Walks.bind {x y : Run α} {k : α → Run β} (hsame : x m = y m)
    (hreached : ReachedByCalls r f a (m.heap.array a).toList m (x.after m))
    (hk : ∀ v m', a.index < m'.heap.arrays.size →
      ((k v).after m').heap.array a = m'.heap.array a) :
    Run.Walks a m (x >>= k) (y >>= k) := by
  refine ⟨?_, ?_⟩
  · show EStateM.bind x k m = EStateM.bind y k m
    simp only [EStateM.bind, hsame]
  · rw [Run.after_bind]
    rw [Run.after] at hreached
    cases hx : x m with
    | ok v m' =>
      rw [hx] at hreached
      exact (hk v m' (hreached.inTable ha hspares)).trans (hspares m' hreached)
    | error e m' =>
      rw [hx] at hreached
      exact hspares m' hreached

include hfuel

theorem visitFrom_walks {visit : σ → Value → Nat → Value → Run (Visit σ τ)}
    (hvisit : OnlyReads visit) (state : σ) {k : Visit σ τ → Run β}
    (hk : ∀ v m', a.index < m'.heap.arrays.size →
      ((k v).after m').heap.array a = m'.heap.array a) :
    Run.Walks a m (visitFrom r a f visit r.fuel 0 state >>= k)
      (visitList r a f visit state (m.heap.array a).toList.zipIdx >>= k) := by
  have hsame := visitFrom_eq_visitList hspares hvisit r.fuel 0 state m .start (Nat.zero_le _) hfuel
  rw [List.drop_zero] at hsame
  refine .bind ha hspares hsame ?_ hk
  rw [Run.after, hsame]
  exact reached_visitList hvisit (fun p hp => hp) state m .start

/-- Methods that collect go through the list and put together what they gather. -/
theorem collect_walks (visit : Value → Value → Heap → Array Value) :
    Run.Walks a m (collect r a f visit)
      (do Run.allocArray (← (m.heap.array a).toList.zipIdx.flatMapM (gathered r a f visit)).toArray)
    := by
  have hreads : OnlyReads (σ := Array Value) (τ := Empty) fun out item _ answer => do
      let more ← Run.read (visit item answer)
      return .next (out ++ more) :=
    fun out item _ answer m' => ⟨.next (out ++ visit item answer m'.heap), rfl⟩
  have hwalks : Run.Walks a m (collect r a f visit) _ :=
    visitFrom_walks ha hspares hfuel hreads #[] fun v m' ha' => by
      cases v with
      | finish result => exact result.elim
      | next out => exact Heap.array_allocArray ha' out
  simp only [visitList_collect, bind_assoc, pure_bind, Array.empty_append] at hwalks
  exact hwalks

theorem map_walks :
    Run.Walks a m (collect r a f fun _ answer _ => #[answer])
      (do Run.allocArray (← (m.heap.array a).toList.zipIdx.mapM (answerFor r f a)).toArray) := by
  have hwalks := collect_walks ha hspares hfuel fun _ answer _ => #[answer]
  have hgathered : gathered r a f (fun _ answer _ => #[answer]) =
      fun p => do return [← answerFor r f a p] := rfl
  rw [hgathered, flatMapM_singleton] at hwalks
  exact hwalks

theorem filter_walks :
    Run.Walks a m (collect r a f fun item answer _ => if answer.toBool then #[item] else #[])
      (do
        let kept ← (m.heap.array a).toList.zipIdx.filterM (testFor r f a)
        Run.allocArray (kept.map (·.1)).toArray) := by
  have hwalks := collect_walks ha hspares hfuel fun item answer _ =>
    if answer.toBool then #[item] else #[]
  have hgathered : gathered r a f (fun item answer _ => if answer.toBool then #[item] else #[]) =
      fun p => do return if ← testFor r f a p then [p.1] else [] := by
    funext p
    simp only [testFor, bind_assoc, pure_bind]
    refine bind_congr fun answer => ?_
    have hread : Run.read (fun _ => if answer.toBool then #[p.1] else #[]) =
      (pure (if answer.toBool then #[p.1] else #[]) : Run _) := rfl
    rw [hread, pure_bind]
    cases answer.toBool <;> rfl
  rw [hgathered, flatMapM_filter] at hwalks
  simp only [bind_assoc, pure_bind] at hwalks
  exact hwalks

/-- Methods that search go through the list up to the first hit. -/
theorem search_walks (wanted : Bool) :
    Run.Walks a m (search r a f wanted)
      ((m.heap.array a).toList.zipIdx.findM? fun p => do
        return (← answerFor r f a p).toBool == wanted) := by
  have hreads : OnlyReads fun (_ : Unit) item i (answer : Value) =>
      return if answer.toBool == wanted then .finish (item, i) else .next () :=
    fun _ item i answer m' => ⟨_, rfl⟩
  -- Ending in a hit or in none and then asking which it was gives back what was found.
  have hend {k : Visit Unit (Value × Nat) → Run (Option (Value × Nat))}
      (hnext : k (.next ()) = return none) (hfinish : ∀ hit, k (.finish hit) = return some hit)
      (found : Option (Value × Nat)) :
      ((match found with
        | none => return .next ()
        | some hit => return .finish hit) >>= k) = return found := by
    cases found with
    | none => rw [pure_bind, hnext]
    | some hit => rw [pure_bind, hfinish]
  have hwalks : Run.Walks a m (search r a f wanted) _ :=
    visitFrom_walks ha hspares hfuel hreads () fun v m' _ => by
      cases v with
      | finish hit => rfl
      | next state => rfl
  rw [visitList_search, bind_assoc] at hwalks
  rw [bind_congr (hend rfl fun _ => rfl), bind_pure] at hwalks
  exact hwalks

/-- A search for what passes the test. -/
theorem hit_walks :
    Run.Walks a m (search r a f true) ((m.heap.array a).toList.zipIdx.findM? (testFor r f a)) := by
  have hwalks := search_walks ha hspares hfuel true
  simp only [beq_true] at hwalks
  exact hwalks

/-- A search for what does not pass the test. -/
theorem miss_walks :
    Run.Walks a m (search r a f false)
      ((m.heap.array a).toList.zipIdx.findM? fun p => do return !(← testFor r f a p)) := by
  have hwalks := search_walks ha hspares hfuel false
  simp only [beq_false] at hwalks
  simp only [testFor, bind_assoc, pure_bind]
  exact hwalks

/-- A method that only calls goes through the list to its end. -/
theorem visitAll_walks :
    Run.Walks a m (visitAll r a f)
      (do
        forM (m.heap.array a).toList.zipIdx fun p => do
          let _ ← answerFor r f a p
          return ()
        return .null) := by
  have hreads : OnlyReads (τ := Empty) fun (_ : Unit) (_ : Value) (_ : Nat) (_ : Value) =>
      return .next () :=
    fun _ _ _ _ m' => ⟨_, rfl⟩
  have hwalks := visitFrom_walks ha hspares hfuel hreads () (k := fun _ => return Value.null) ?_
  · simp only [visitList_all, bind_assoc, pure_bind] at hwalks
    exact hwalks
  · exact fun v m' ha' => rfl

omit ha in
theorem foldFrom_walks (initial : Value) (i : Nat) (hi : i ≤ (m.heap.array a).size) :
    Run.Walks a m (foldFrom r a f r.fuel i initial)
      (((m.heap.array a).toList.zipIdx.drop i).foldlM (foldFor r f a) initial) := by
  have hsame := foldFrom_eq_foldlM hspares r.fuel i initial m .start hi (by omega)
  refine ⟨hsame, ?_⟩
  rw [Run.after, hsame]
  exact hspares _ (reached_foldlM (fun p hp => List.mem_of_mem_drop hp) initial m .start)

omit ha in
/-- A fold goes through the list, or through what follows its first element. -/
theorem foldElements_walks (initial : Value) :
    Run.Walks a m (foldElements r a f initial)
      (reduceList r f a initial (m.heap.array a).toList.zipIdx) := by
  have hwhole := foldFrom_walks hspares hfuel initial 0 (Nat.zero_le _)
  rw [List.drop_zero] at hwhole
  unfold foldElements
  cases initial with
  | null =>
    have hread : Run.read (fun h => (h.array a)[0]?) m = .ok (m.heap.array a)[0]? m := rfl
    have hlist := drop_zipIdx (m.heap.array a) 0
    rw [List.drop_zero] at hlist
    rw [hlist]
    cases hfirst : (m.heap.array a)[0]? with
    | none =>
      rw [hfirst] at hread
      refine .of_eq (Run.bind_ok hread) ⟨rfl, rfl⟩
    | some first =>
      rw [hfirst] at hread
      have hsize : 0 < (m.heap.array a).size := (Array.getElem?_eq_some_iff.mp hfirst).1
      exact .of_eq (Run.bind_ok hread) (foldFrom_walks hspares hfuel first 1 hsize)
  | bool _ | number _ | string _ | function _ | object _ | array _ | native _ => exact hwhole

end Visits

end Methods

/-- A method that calls a function for the elements of an array does what the function on lists does
that it is named for, if no call changes the array: it makes the same calls in the same order, ends
where it ends, with its result or with the failure of the call that failed, and the array is then
what it was before. The passes of a loop have to suffice for the elements. -/
theorem callback_method_is_list_function {r : Eval} {g : FunctionRef} {a : ArrayRef} {m : Machine}
    (ha : a.index < m.heap.arrays.size) (hspares : r.Spares (.function g) a m)
    (hfuel : (m.heap.array a).size < r.fuel) (method : ArrayMethod) (rest : List Value)
    {walk : Run Value}
    (hwalk : method.onList? r (.function g) a (argument rest 0) (m.heap.array a).toList.zipIdx =
      some walk) :
    method.call r a (.function g :: rest) m = walk m ∧
      ((method.call r a (.function g :: rest)).after m).heap.array a = m.heap.array a := by
  suffices h : Run.Walks a m (method.call r a (.function g :: rest)) walk from ⟨h.same, h.array⟩
  cases method with
  | map => cases hwalk; exact map_walks ha hspares hfuel
  | filter => cases hwalk; exact filter_walks ha hspares hfuel
  | flatMap => cases hwalk; exact collect_walks ha hspares hfuel fun _ answer h => spread h answer
  | forEach => cases hwalk; exact visitAll_walks ha hspares hfuel
  | find =>
    cases hwalk
    exact (hit_walks ha hspares hfuel).map fun hit => (hit.map (·.1)).getD Value.null
  | findIndex =>
    cases hwalk
    exact (hit_walks ha hspares hfuel).map fun hit => positionValue (hit.map (·.2))
  | someOf =>
    cases hwalk
    have hwalks := (hit_walks ha hspares hfuel).map fun hit => Value.bool hit.isSome
    simp only [← isSome_findM?, bind_assoc, pure_bind]
    exact hwalks
  | every =>
    cases hwalk
    have hwalks := (miss_walks ha hspares hfuel).map fun hit => Value.bool hit.isNone
    simp only [← isNone_findM?, bind_assoc, pure_bind]
    exact hwalks
  | reduce => cases hwalk; exact foldElements_walks hspares hfuel (argument rest 0)
  | _ => cases hwalk

/-! ## A run of it -/

/-- A machine with an array of two elements and the function that leaves messages. -/
def loggingMachine : Machine :=
  { heap := { arrays := #[#[.null, .bool true]], functions := #[.builtin .log] },
    globals := ⟨⟨0⟩, []⟩, scope := ⟨⟨0⟩, []⟩ }

theorem loggingMachine_spares :
    (evaluator smallHost 4).Spares (.function ⟨0⟩) ⟨0⟩ loggingMachine := by
  intro m' hreached
  suffices h : m'.heap = loggingMachine.heap by rw [h]
  induction hreached with
  | start => rfl
  | @call m₁ args hreached hargs ih =>
    have hlog : Run.read (·.function? ⟨0⟩) m₁ = .ok (some (.builtin .log)) m₁ := by
      simp only [Run.read, ih]
      rfl
    have hcall : (evaluator smallHost 4).call (.function ⟨0⟩) args m₁ =
        Builtin.log.call args m₁ := Run.bind_ok hlog
    rw [Run.after, hcall]
    obtain ⟨output, events, hrecord⟩ :=
      m₁.exists_record_eq .log (" ".intercalate (args.map Value.toText))
    show (m₁.record .log (" ".intercalate (args.map Value.toText))).heap = _
    rw [hrecord]
    exact ih

/-- Asking whether every element passes `log` leaves one message, since it answers null. -/
theorem every_log_is_list_function :
    0 < loggingMachine.heap.arrays.size ∧
    (evaluator smallHost 4).Spares (.function ⟨0⟩) ⟨0⟩ loggingMachine ∧
    (loggingMachine.heap.array ⟨0⟩).size < (evaluator smallHost 4).fuel ∧
    ∃ walk, ArrayMethod.every.onList? (evaluator smallHost 4) (.function ⟨0⟩) ⟨0⟩ .null
        [(.null, 0), (.bool true, 1)] = some walk ∧
      ArrayMethod.every.call (evaluator smallHost 4) ⟨0⟩ [.function ⟨0⟩] loggingMachine =
        walk loggingMachine ∧
      ((ArrayMethod.every.call (evaluator smallHost 4) ⟨0⟩ [.function ⟨0⟩]).after
        loggingMachine).heap.array ⟨0⟩ = #[.null, .bool true] := by
  refine ⟨by decide, loggingMachine_spares, by decide, _, rfl, ?_⟩
  exact callback_method_is_list_function (by decide) loggingMachine_spares (by decide) .every [] rfl

end Quill
