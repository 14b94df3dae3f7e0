import Quill.Eval

/-!
# What runs deliver

A run that delivers something was made of runs that did, and so what it delivers can be told from
how it was put together. What the heap holds is left out of account.
-/

set_option autoImplicit false

namespace Quill

variable {α β : Type}

namespace Run

variable {m m' : Machine}

theorem of_bind_eq_ok {x : Run α} {f : α → Run β} {b : β} (h : (x >>= f) m = .ok b m') :
    ∃ a m₁, x m = .ok a m₁ ∧ f a m₁ = .ok b m' := by
  simp only [Bind.bind, EStateM.bind] at h
  cases hx : x m with
  | ok a m₁ => rw [hx] at h; exact ⟨a, m₁, rfl, h⟩
  | error e m₁ => rw [hx] at h; cases h

theorem of_bracket_eq_ok {σ : Type} {keep : Machine → σ} {enter : Machine → Machine}
    {leave : σ → Machine → Machine} {act : Run α} {a : α}
    (h : Run.bracket keep enter leave act m = .ok a m') : ∃ m₁, act (enter m) = .ok a m₁ := by
  unfold Run.bracket at h
  dsimp only at h
  cases hact : act (enter m) with
  | ok b m₁ => rw [hact] at h; cases h; exact ⟨m₁, rfl⟩
  | error e m₁ => rw [hact] at h; cases h

theorem of_attempt_eq_ok {act : Run α} {a : α} (h : Run.attempt act m = .ok (.ok a) m') :
    act m = .ok a m' := by
  unfold Run.attempt at h
  cases hact : act m with
  | ok b m₁ => rw [hact] at h; cases h; rfl
  | error e m₁ => rw [hact] at h; cases e <;> cases h

theorem of_resume_eq_ok {outcome : Except Failure α} {a : α}
    (h : Run.resume outcome m = .ok a m') : outcome = .ok a := by
  cases outcome with
  | ok b => cases h; rfl
  | error f => cases h

end Run

/-- What the computation delivers, it delivers with this property. -/
def Run.Delivers (p : α → Prop) (act : Run α) : Prop := ∀ m a m', act m = .ok a m' → p a

namespace Run.Delivers

variable {p : α → Prop}

theorem pure {a : α} (h : p a) : Delivers p (Pure.pure a : Run α) := by
  intro m a' m' hok
  cases hok
  exact h

theorem bind {x : Run β} {f : β → Run α} (h : ∀ b, Delivers p (f b)) : Delivers p (x >>= f) := by
  intro m a m' hok
  obtain ⟨b, m₁, -, hf⟩ := of_bind_eq_ok hok
  exact h b m₁ a m' hf

/-- What comes second may rely on what came first. -/
theorem bind_of {q : β → Prop} {x : Run β} {f : β → Run α} (hx : Delivers q x)
    (h : ∀ b, q b → Delivers p (f b)) : Delivers p (x >>= f) := by
  intro m a m' hok
  obtain ⟨b, m₁, hb, hf⟩ := of_bind_eq_ok hok
  exact h b (hx m b m₁ hb) m₁ a m' hf

/-- A failure delivers nothing. -/
theorem fail (line : Nat) (kind : FailureKind) : Delivers p (Run.fail line kind : Run α) := by
  intro m a m' hok
  cases hok

theorem attempt {act : Run α} (h : Delivers p act) :
    Delivers (fun outcome => ∀ a, outcome = .ok a → p a) (Run.attempt act) := by
  rintro m _ m' hok a rfl
  exact h m a m' (of_attempt_eq_ok hok)

theorem resume {outcome : Except Failure α} (h : ∀ a, outcome = .ok a → p a) :
    Delivers p (Run.resume outcome) :=
  fun _ a _ hok => h a (of_resume_eq_ok hok)

theorem bracket {σ : Type} {keep : Machine → σ} {enter : Machine → Machine}
    {leave : σ → Machine → Machine} {act : Run α} (h : Delivers p act) :
    Delivers p (Run.bracket keep enter leave act) := by
  intro m a m' hok
  obtain ⟨m₁, hact⟩ := of_bracket_eq_ok hok
  exact h _ a m₁ hact

theorem inLoop {act : Run α} (h : Delivers p act) : Delivers p (Run.inLoop act) := bracket h

theorem inChild {act : Run α} (h : Delivers p act) : Delivers p (Run.inChild act) :=
  bind fun _ => bind fun _ => bracket h

theorem inChildWith {act : Run α} (name : String) (value : Value) (mutable : Bool)
    (h : Delivers p act) : Delivers p (Run.inChildWith name value mutable act) :=
  bind fun _ => bind fun _ => bind fun _ => bracket h

end Run.Delivers

/-! ## Loops -/

section Loops

open Run.Delivers

variable {p : Completion → Prop}

/-- The end of a loop, if a pass tells one, has this property. -/
def EndsWith (p : Completion → Prop) (ended : Option Completion) : Prop :=
  ∀ c, ended = some c → p c

/-- A loop ends as one of its passes says, by the passes left. -/
theorem delivers_iterate {pass : Run (Option Completion)} (h : pass.Delivers (EndsWith p))
    (fuel : Nat) : (iterate pass fuel).Delivers p := by
  induction fuel with
  | zero => intro m c m' hok; cases hok
  | succ fuel ih =>
    refine bind_of h fun ended hended => ?_
    cases ended with
    | some done => exact pure (hended done rfl)
    | none => exact ih

theorem delivers_goOn : (Pure.pure none : Run (Option Completion)).Delivers (EndsWith p) :=
  pure nofun

variable {r : Eval} {body : Stmt} (hend : p loopEnd)
  (hbody : (r.stmt body).Delivers fun c => EndsWith p c.leavesLoop?)

include hend hbody

omit hbody in
theorem delivers_stop :
    (Pure.pure (some loopEnd) : Run (Option Completion)).Delivers (EndsWith p) := by
  refine pure fun c hc => ?_
  cases hc
  exact hend

/-- One pass of any loop ends as the body makes it end, or as its condition does. -/
theorem delivers_whilePass (condition : Expr) :
    (whilePass r condition body).Delivers (EndsWith p) := by
  refine bind fun v => ?_
  split
  · exact bind_of hbody fun c hc => pure hc
  · exact delivers_stop hend

theorem delivers_doWhilePass (condition : Expr) :
    (doWhilePass r body condition).Delivers (EndsWith p) := by
  refine bind_of hbody fun c hc => ?_
  split
  · next done hleaves => exact pure (hleaves ▸ hc)
  · refine bind fun v => ?_
    split
    · exact delivers_goOn
    · exact delivers_stop hend

theorem delivers_forPass (condition update : Option Expr) :
    (forPass r condition update body).Delivers (EndsWith p) := by
  refine bind fun go => ?_
  split
  · refine bind_of hbody fun c hc => ?_
    split
    · next done hleaves => exact pure (hleaves ▸ hc)
    · exact bind fun _ => delivers_goOn
  · exact delivers_stop hend

theorem delivers_eachPass (name : String) (mutable : Bool) (values : List Value) :
    (eachPass r name mutable body values).Delivers p := by
  induction values with
  | nil => exact pure hend
  | cons value rest ih =>
    refine bind_of (inChildWith name value mutable hbody) fun c hc => ?_
    split
    · next done hleaves => exact pure (hc done hleaves)
    · exact ih

end Loops

end Quill
