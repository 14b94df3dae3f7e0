import Quill.Session
import Quill.Proofs.Run.InStep.Evaluation

/-!
# No message is lost

A script leaves messages by calling `log`, `warn` and `error`, from wherever it comes to: from a
callback, inside of a `try`, or in a loop that is left. To say that each of these calls leaves one
message one has to know the calls. `notingEvaluator` is the evaluator with one thing added: whenever
one of the three functions is called, it notes the message before it makes the call. It notes on a
machine that is muted, among what leaves the machine, where nothing else can be.

That all calls are noted is seen by stopping the run. `stoppingEvaluator k` notes too, but stops
behind the note with number `k`, in a way that no script can catch. So the calls that are reached
are the ones that it can be stopped at, one after the other.

All three keep in step, however a run ends. What the evaluator keeps and passes on is therefore told
by what is noted: `messages_kept`. The functions of the host are taken to leave no messages but by
the calls that they make.
-/

set_option autoImplicit false

namespace Quill

open Run.InStepWith

variable {α : Type}

/-! ## Messages -/

structure Message where
  channel : Channel
  text : String
deriving DecidableEq, Repr

namespace Message

/-- What a sink receives of it. -/
def sunk (message : Message) : Message :=
  { message with text := message.channel.sinkLine message.text }

/-- The texts on one channel. -/
def textsOn (c : Channel) (messages : List Message) : List String :=
  (messages.filter (·.channel = c)).map text

theorem textsOn_append (c : Channel) (before after : List Message) :
    textsOn c (before ++ after) = textsOn c before ++ textsOn c after := by
  simp only [textsOn, List.filter_append, List.map_append]

theorem textsOn_singleton (c : Channel) (message : Message) :
    textsOn c [message] = if message.channel = c then [message.text] else [] := by
  unfold textsOn
  by_cases hc : message.channel = c
  · simp [hc]
  · simp [hc]

/-- What the sink of a channel receives tells the texts on the channel. -/
theorem textsOn_map_sunk (c : Channel) (messages : List Message) :
    textsOn c (messages.map sunk) = (textsOn c messages).map c.sinkLine := by
  rw [textsOn, textsOn, List.filter_map, List.map_map, List.map_map]
  refine List.map_congr_left fun message hmem => ?_
  obtain ⟨-, hchannel⟩ := List.mem_filter.mp hmem
  obtain rfl : message.channel = c := of_decide_eq_true hchannel
  rfl

end Message

/-- The messages that were kept of one channel. -/
def Output.on (o : Output) : Channel → List String
  | .log => o.logs.toList
  | .warn => o.warnings.toList
  | .error => o.errors.toList

theorem Output.on_push (o : Output) (message : Message) (c : Channel) :
    (o.push message.channel message.text).on c = o.on c ++ Message.textsOn c [message] := by
  obtain ⟨channel, text⟩ := message
  rw [Message.textsOn_singleton]
  cases channel <;> cases c <;> simp [push, on]

namespace Machine

variable {m : Machine}

/-- What the sinks have received, in order. -/
def sunk (m : Machine) : List Message :=
  m.events.toList.filterMap fun
    | .sunk channel text => some ⟨channel, text⟩
    | .report _ _ => none

theorem sunk_report (m : Machine) (level : Level) (line : String) :
    (m.report level line).sunk = m.sunk := by
  unfold report
  split
  · simp [sunk]
  · rfl

/-- Without a sink on its channel nobody receives a message. -/
theorem sunk_record (m : Machine) (message : Message) :
    (m.record message.channel message.text).sunk =
      m.sunk ++ ([message].filter (m.sinks.has ·.channel)).map Message.sunk := by
  unfold record
  dsimp only
  split
  · next hhas => simp [sunk, Message.sunk, hhas]
  · next hhas =>
    rw [sunk_report]
    simp [sunk, hhas]

/-- Nothing leaves the machine by itself: it has no sinks and makes no report. -/
structure Mute (m : Machine) : Prop where
  sinks : m.sinks = {}
  verbosity : m.verbosity = .off

/-- The machine without sinks and without a report, from which nothing has left. -/
def muted (m : Machine) : Machine := { m with sinks := {}, verbosity := .off, events := #[] }

theorem Mute.report (h : m.Mute) (level : Level) (line : String) : m.report level line = m := by
  simp [Machine.report, h.verbosity, Verbosity.shows]

theorem Mute.record (h : m.Mute) (channel : Channel) (text : String) :
    m.record channel text = { m with output := m.output.push channel text } := by
  have hsinks : m.sinks.has channel = false := by
    rw [h.sinks]
    cases channel <;> rfl
  have hquiet : { m with output := m.output.push channel text }.Mute := ⟨h.sinks, h.verbosity⟩
  unfold Machine.record
  dsimp only
  rw [hsinks, if_neg Bool.false_ne_true, hquiet.report]

theorem muted_record (m : Machine) (channel : Channel) (text : String) :
    (m.record channel text).muted = { m with output := m.output.push channel text }.muted := by
  unfold Machine.record
  dsimp only
  split
  · rfl
  · unfold Machine.report
    split <;> rfl

theorem sinks_record (m : Machine) (channel : Channel) (text : String) :
    (m.record channel text).sinks = m.sinks := by
  obtain ⟨output, events, heq⟩ := m.exists_record_eq channel text
  rw [heq]

/-- Notes a message among what leaves the machine. -/
def note (m : Machine) (message : Message) : Machine :=
  { m with events := m.events.push (.sunk message.channel message.text) }

theorem sunk_note (m : Machine) (message : Message) :
    (m.note message).sunk = m.sunk ++ [message] := by
  simp [note, sunk]

end Machine

/-! ## Noting the calls -/

/-- The message that a built-in function leaves when it is called. -/
def Builtin.message? (which : Builtin) (args : List Value) : Option Message :=
  match which with
  | .log => some ⟨.log, " ".intercalate (args.map Value.toText)⟩
  | .warn => some ⟨.warn, (argument args 0).toText⟩
  | .error => some ⟨.error, (argument args 0).toText⟩
  | .typeof | .parseInt | .parseFloat | .fromCharCode => none

/-- Functions of scripts, methods and functions of the host leave none themselves. -/
def Function.message? (args : List Value) : Function → Option Message
  | .builtin which => which.message? args
  | .user _ _ | .bound _ _ | .host _ _ => none

/-- The message that calling a value leaves at once. -/
def Heap.message? (h : Heap) (callee : Value) (args : List Value) : Option Message :=
  match callee with
  | .function ref => (h.function? ref).bind (·.message? args)
  | _ => none

/-- Notes the message that a call is about to leave, if any. -/
def Run.note (callee : Value) (args : List Value) : Run Unit := fun m =>
  match m.heap.message? callee args with
  | some message => .ok () (m.note message)
  | none => .ok () m

/-- Notes the message too, and stops behind the note if `k` have been noted before. -/
def Run.noteUpTo (k : Nat) (callee : Value) (args : List Value) : Run Unit := fun m =>
  match m.heap.message? callee args with
  | some message =>
    if m.sunk.length < k then .ok () (m.note message) else .error .outOfFuel (m.note message)
  | none => .ok () m

/-- The evaluator that does something before it makes a call. -/
def evaluatorBefore (before : Value → List Value → Run Unit) (host : Host) : Nat → Eval
  | 0 => evaluator host 0
  | fuel + 1 =>
    { fuel
      expr := fun e => evalExpr (evaluatorBefore before host fuel) e
      stmt := fun s => execStmt (evaluatorBefore before host fuel) s
      call := fun callee args => do
        before callee args
        callValue host (evaluatorBefore before host fuel) callee args }

/-- The evaluator that notes messages before it makes the calls that leave them. -/
def notingEvaluator (host : Host) : Nat → Eval := evaluatorBefore Run.note host

/-- The one that also stops, behind the note with number `k` and before that call is made. -/
def stoppingEvaluator (k : Nat) (host : Host) : Nat → Eval := evaluatorBefore (Run.noteUpTo k) host

/-- Nothing is done before a call. -/
theorem evaluatorBefore_nothing (host : Host) (fuel : Nat) :
    evaluatorBefore (fun _ _ => pure ()) host fuel = evaluator host fuel := by
  induction fuel with
  | zero => rfl
  | succ fuel ih => simp only [evaluatorBefore, evaluator, ih, pure_bind]

/-- It is enough that calls keep in step, if their parts do. -/
theorem evaluatorBefore_inStep {R P : Machine → Machine → Prop} (law : Likeness.WithRegisters R P)
    {before before' : Value → List Value → Run Unit} {host : Host}
    (hcall : ∀ r r', r.InStepWith R P r' → ∀ callee args,
      (before callee args >>= fun _ => callValue host r callee args).InStepWith R P
        (before' callee args >>= fun _ => callValue host r' callee args))
    (fuel : Nat) :
    (evaluatorBefore before host fuel).InStepWith R P (evaluatorBefore before' host fuel) := by
  induction fuel with
  | zero => exact ⟨⟨rfl, fun _ _ => outOfFuel⟩, fun _ => outOfFuel, fun _ => outOfFuel⟩
  | succ fuel ih =>
    exact ⟨⟨rfl, hcall _ _ ih⟩, evalExpr_inStep law ih, execStmt_inStep law ih⟩

/-! ## What is noted is kept -/

/-- On the way from `m₀`, the machine `m` has come to be what the muted `w` is but for the messages.
It has kept those that `w` has noted behind those that it had, and passed them on to its sinks. -/
structure Follows (m₀ m w : Machine) : Prop where
  same : w = { m.muted with events := w.events }
  sinks : m.sinks = m₀.sinks
  kept : ∀ c, m.output.on c = m₀.output.on c ++ Message.textsOn c w.sunk
  sunk : m.sunk = m₀.sunk ++ (w.sunk.filter (m₀.sinks.has ·.channel)).map Message.sunk

variable {m₀ m w : Machine}

theorem Follows.mute (h : Follows m₀ m w) : w.Mute := by
  rw [h.same]
  exact ⟨rfl, rfl⟩

theorem follows_muted (m : Machine) : Follows m m m.muted where
  same := rfl
  sinks := rfl
  kept _ := (List.append_nil _).symm
  sunk := (List.append_nil _).symm

theorem withRegisters_follows : Likeness.WithRegisters (Follows m₀) Never where
  heap h := (congrArg Machine.heap h.same :)
  callDepth h := (congrArg Machine.callDepth h.same :)
  maxCallDepth h := (congrArg Machine.maxCallDepth h.same :)
  withHeap h heap :=
    ⟨congrArg (fun n : Machine => { n with heap }) h.same, h.sinks, h.kept, h.sunk⟩
  report {m w} h level line := by
    obtain ⟨events, heq⟩ := m.exists_report_eq level line
    have hsunk := m.sunk_report level line
    rw [h.mute.report]
    rw [heq] at hsunk ⊢
    exact ⟨h.same, h.sinks, h.kept, hsunk.trans h.sunk⟩
  past := passing_never
  registers h := (congrArg Machine.registers h.same :)
  setRegisters h kept :=
    ⟨congrArg (Machine.setRegisters · kept) h.same, h.sinks, h.kept, h.sunk⟩

/-- A message that was noted is left. -/
theorem Follows.record (h : Follows m₀ m w) (message : Message) :
    Follows m₀ (m.record message.channel message.text)
      ((w.note message).record message.channel message.text) := by
  have hmute : (w.note message).Mute := ⟨h.mute.sinks, h.mute.verbosity⟩
  have hnoted : ((w.note message).record message.channel message.text).sunk =
      w.sunk ++ [message] := by
    rw [hmute.record]
    exact w.sunk_note message
  refine ⟨?_, (m.sinks_record _ _).trans h.sinks, fun c => ?_, ?_⟩
  · rw [hmute.record, Machine.muted_record, h.same]
    rfl
  · have houtput : (m.record message.channel message.text).output =
        m.output.push message.channel message.text :=
      congrArg Machine.output (m.muted_record message.channel message.text)
    rw [houtput, Output.on_push, h.kept, hnoted, Message.textsOn_append, List.append_assoc]
  · rw [Machine.sunk_record, h.sunk, h.sinks, hnoted, List.filter_append, List.map_append,
      List.append_assoc]

theorem Builtin.call_inStep_of_quiet {R P : Machine → Machine → Prop} {which : Builtin}
    {args : List Value} (h : which.message? args = none) : (which.call args).Steps R P := by
  cases which with
  | log | warn | error => cases h
  | typeof | parseInt | parseFloat | fromCharCode => exact pure _

theorem Function.call_of_message? {f : Function} {args : List Value} {message : Message}
    (h : f.message? args = some message) (host : Host) (r : Eval) :
    f.call host r args = (do
      Run.record message.channel message.text
      return .null) := by
  cases f with
  | builtin which =>
    cases which with
    | log | warn | error =>
      cases h
      rfl
    | typeof | parseInt | parseFloat | fromCharCode => cases h
  | user | bound | host => cases h

section Callee

variable {callee : Value} {args : List Value}

theorem Run.note_of_quiet (h : m.heap.message? callee args = none) (act : Run α) :
    (Run.note callee args >>= fun _ => act) m = act m := by
  simp only [Bind.bind, EStateM.bind, Run.note, h]

theorem Run.note_of_message {message : Message}
    (h : m.heap.message? callee args = some message) (act : Run α) :
    (Run.note callee args >>= fun _ => act) m = act (m.note message) := by
  simp only [Bind.bind, EStateM.bind, Run.note, h]

variable {ref : FunctionRef} {host : Host} {r : Eval}

theorem callValue_of_some {f : Function} (h : m.heap.function? ref = some f) :
    callValue host r (.function ref) args m = f.call host r args m := by
  simp only [callValue_function, Bind.bind, EStateM.bind, Run.read, h]

theorem callValue_of_none (h : m.heap.function? ref = none) :
    callValue host r (.function ref) args m =
      Run.fail 0 (.notCallable (Value.function ref).toText) m := by
  simp only [callValue_function, Bind.bind, EStateM.bind, Run.read, h]

end Callee

/-- A call keeps in step with the call behind the note of its message. -/
theorem noted_call {host : Host} {r r' : Eval} (hr : r.InStepWith (Follows m₀) Never r')
    (hhost : ∀ service args,
      (host service r args).InStepWith (Follows m₀) Never (host service r' args))
    (callee : Value) (args : List Value) :
    (callValue host r callee args).InStepWith (Follows m₀) Never
      (Run.note callee args >>= fun _ => callValue host r' callee args) := by
  refine ⟨fun m w h => .inStep ?_, fun _ _ h => h.elim⟩
  have law : Likeness.WithRegisters (Follows m₀) Never := withRegisters_follows
  have hheap : w.heap = m.heap := law.heap h
  cases callee with
  | function ref =>
    cases hf : m.heap.function? ref with
    | none =>
      rw [Run.note_of_quiet (by simp [Heap.message?, hheap, hf]), callValue_of_none hf,
        callValue_of_none (hheap ▸ hf)]
      exact .error _ h
    | some f =>
      rw [callValue_of_some hf]
      cases hmessage : f.message? args with
      | none =>
        rw [Run.note_of_quiet (by simp [Heap.message?, hheap, hf, hmessage]),
          callValue_of_some (hheap ▸ hf)]
        refine (Function.call_inStep law.toLikeness (runBody_inStep law hr) hr.toCallsInStepWith
          hhost fun which hwhich => ?_).endsInStep h
        subst hwhich
        exact Builtin.call_inStep_of_quiet hmessage
      | some message =>
        have hnoted : w.heap.message? (.function ref) args = some message := by
          simp [Heap.message?, hheap, hf, hmessage]
        have hf' : (w.note message).heap.function? ref = some f := hheap ▸ hf
        rw [Run.note_of_message hnoted, callValue_of_some hf', Function.call_of_message? hmessage,
          Function.call_of_message? hmessage]
        exact .ok Value.null (h.record message)
  | _ => exact .error _ h

/-! ## Every call is noted -/

/-- Both machines are the same, they are mute, and up to `k` messages have been noted. -/
structure Counts (k : Nat) (m m' : Machine) : Prop where
  same : m' = m
  mute : m.Mute
  length_le : m.sunk.length ≤ k

/-- The second machine was stopped behind the note with number `k`, and the first has gone on. -/
structure Passed (k : Nat) (m n : Machine) : Prop where
  lt_length : k < m.sunk.length
  sunk : n.sunk = m.sunk.take (k + 1)

variable {k : Nat} {m' n : Machine}

theorem Passed.of_append (h : Passed k m n) {more : List Message}
    (hm' : m'.sunk = m.sunk ++ more) : Passed k m' n where
  lt_length := by
    rw [hm', List.length_append]
    exact Nat.lt_add_right _ h.lt_length
  sunk := by rw [hm', List.take_append_of_le_length h.lt_length, h.sunk]

theorem withRegisters_counts : Likeness.WithRegisters (Counts k) (Passed k) where
  heap h := congrArg Machine.heap h.same
  callDepth h := congrArg Machine.callDepth h.same
  maxCallDepth h := congrArg Machine.maxCallDepth h.same
  withHeap h heap := ⟨congrArg (fun n : Machine => { n with heap }) h.same,
    ⟨h.mute.sinks, h.mute.verbosity⟩, h.length_le⟩
  report h level line := by
    obtain ⟨rfl, hmute, hlength⟩ := h
    rw [hmute.report]
    exact ⟨rfl, hmute, hlength⟩
  past :=
    { withHeap := fun h _ => ⟨h.lt_length, h.sunk⟩
      report := fun {m _} h level line =>
        h.of_append ((m.sunk_report level line).trans (List.append_nil _).symm)
      setRegisters := fun h _ _ => ⟨h.lt_length, h.sunk⟩ }
  registers h := congrArg Machine.registers h.same
  setRegisters h kept := ⟨congrArg (Machine.setRegisters · kept) h.same,
    ⟨h.mute.sinks, h.mute.verbosity⟩, h.length_le⟩

theorem recordsInStep_counts : RecordsInStep (Counts k) (Passed k) := by
  refine fun channel text => ⟨?_, fun m n h => h.of_append (m.sunk_record ⟨channel, text⟩)⟩
  rintro _ m ⟨rfl, hmute, hlength⟩
  refine .inStep (.ok () ?_)
  rw [hmute.record]
  exact ⟨rfl, ⟨hmute.sinks, hmute.verbosity⟩, hlength⟩

/-- Notes keep in step until one has the number `k`. -/
theorem note_inStep (callee : Value) (args : List Value) :
    (Run.note callee args).InStepWith (Counts k) (Passed k) (Run.noteUpTo k callee args) where
  ends := by
    rintro _ m ⟨rfl, hmute, hlength⟩
    unfold Run.note Run.noteUpTo
    cases m.heap.message? callee args with
    | none => exact .inStep (.ok () ⟨rfl, hmute, hlength⟩)
    | some message =>
      have hnoted : (m.note message).sunk.length = m.sunk.length + 1 := by
        rw [m.sunk_note, List.length_append, List.length_singleton]
      by_cases hlast : m.sunk.length < k
      · simp only [if_pos hlast]
        exact .inStep (.ok () ⟨rfl, ⟨hmute.sinks, hmute.verbosity⟩, hnoted ▸ hlast⟩)
      · simp only [if_neg hlast]
        have hpast : Passed k (m.note message) (m.note message) :=
          ⟨by omega, (List.take_of_length_le (by omega)).symm⟩
        exact .past hpast
  goesOn m n h := by
    unfold Run.note
    split
    · exact h.of_append (m.sunk_note _)
    · exact h

/-! ## Every run -/

/-- The functions of the host leave no messages but by the calls that they make. -/
structure Host.LeavesByCalling (host : Host) : Prop where
  follows : ∀ m₀, host.InStepWith (Follows m₀) Never
  counts : ∀ k, host.InStepWith (Counts k) (Passed k)

/-- The evaluator and the noting one keep in step. -/
theorem notingEvaluator_inStep {host : Host} (hhost : host.InStepWith (Follows m₀) Never)
    (fuel : Nat) :
    (evaluator host fuel).InStepWith (Follows m₀) Never (notingEvaluator host fuel) := by
  rw [← evaluatorBefore_nothing]
  refine evaluatorBefore_inStep withRegisters_follows (fun r r' hr callee args => ?_) fuel
  rw [pure_bind]
  exact noted_call hr (fun service args => hhost service r r' args hr) callee args

/-- The noting evaluator and the one that stops keep in step. -/
theorem stoppingEvaluator_inStep {host : Host} (hhost : host.InStepWith (Counts k) (Passed k))
    (fuel : Nat) : (notingEvaluator host fuel).InStepWith (Counts k) (Passed k)
      (stoppingEvaluator k host fuel) := by
  have law : Likeness.WithRegisters (Counts k) (Passed k) := withRegisters_counts
  refine evaluatorBefore_inStep law (fun r r' hr callee args => ?_) fuel
  exact bind (note_inStep callee args) fun _ => callValue_inStep law.toLikeness
    (runBody_inStep law hr) hr.toCallsInStepWith
    (fun service args => hhost service r r' args hr) recordsInStep_counts callee args

/-- What a host has a machine do. -/
inductive Task
  | program (stmts : List Stmt)
  | call (callee : Value) (args : List Value)

def Task.run (r : Eval) : Task → Run Value
  | .program stmts => execute r stmts
  | .call callee args => r.call callee args

theorem Task.run_inStep {R P : Machine → Machine → Prop} (law : Likeness.WithRegisters R P)
    {r r' : Eval} (hr : r.InStepWith R P r') (task : Task) :
    (task.run r).InStepWith R P (task.run r') := by
  cases task with
  | program stmts => exact execute_inStep law hr stmts
  | call callee args => exact hr.call callee args

theorem EndsInStep.machineAt {R : Machine → Machine → Prop}
    {x x' : EStateM.Result Stop Machine α} (h : EndsInStep R x x') :
    R (machineAt x) (machineAt x') := by
  cases h with
  | ok _ h => exact h
  | error _ h => exact h

/-- A run that is stopped behind the note with number `k` ends there if there is such a note, and
otherwise it is the same. -/
theorem EndsOrPasses.of_counts {x x' : EStateM.Result Stop Machine α}
    (h : EndsOrPasses (Counts k) (Passed k) x x') :
    (k < (machineAt x).sunk.length →
      ∃ n, x' = .error .outOfFuel n ∧ n.sunk = (machineAt x).sunk.take (k + 1)) ∧
    ((machineAt x).sunk.length ≤ k → x' = x) := by
  cases h with
  | inStep hends =>
    refine ⟨fun hlt => absurd hlt (Nat.not_lt.mpr hends.machineAt.length_le), fun _ => ?_⟩
    cases hends with
    | ok a h => rw [h.same]
    | error stop h => rw [h.same]
  | past hpast =>
    exact ⟨fun _ => ⟨_, rfl, hpast.sunk⟩, fun hle => absurd hpast.lt_length (Nat.not_lt.mpr hle)⟩

/-- A run and the noting one end alike, with the same value, the same failure or without fuel, on
machines that are the same but for what leaves them. What is noted are the calls that are reached:
stopped behind the note with number `k` the run ends with the notes up to that, and without such a
note it is not stopped.

Behind the messages that there were, the machine has kept the message of every call that was noted.
The sinks have received it too, in the order of the calls and where there is a sink. With a sink on
every channel, they receive one line for each call, and those for one channel are the lines of the
messages that were newly kept. -/
theorem messages_kept {host : Host} (hhost : host.LeavesByCalling) (fuel : Nat) (task : Task)
    (m : Machine) :
    let run := task.run (evaluator host fuel) m
    let noting := task.run (notingEvaluator host fuel) m.muted
    let stopping (k : Nat) := task.run (stoppingEvaluator k host fuel) m.muted
    let m' := machineAt run
    let noted := (machineAt noting).sunk
    EndsInStep (fun m' w' => w' = { m'.muted with events := w'.events }) run noting ∧
    (∀ k, (k < noted.length →
        ∃ n, stopping k = .error .outOfFuel n ∧ n.sunk = noted.take (k + 1)) ∧
      (noted.length ≤ k → stopping k = noting)) ∧
    (∀ c, m'.output.on c = m.output.on c ++ Message.textsOn c noted) ∧
    m'.sunk = m.sunk ++ (noted.filter (m.sinks.has ·.channel)).map Message.sunk ∧
    (m.sinks = .all → ∃ received, m'.sunk = m.sunk ++ received ∧
      received.length = noted.length ∧
      ∀ c, Message.textsOn c received =
        ((m'.output.on c).drop (m.output.on c).length).map c.sinkLine) := by
  intro run noting stopping m' noted
  have hends : EndsInStep (Follows m) run noting :=
    (task.run_inStep withRegisters_follows
      (notingEvaluator_inStep (hhost.follows m) fuel)).endsInStep (follows_muted m)
  have hfollows : Follows m m' (machineAt noting) := hends.machineAt
  refine ⟨hends.imp fun h => h.same, fun k => ?_, hfollows.kept, hfollows.sunk, fun hsinks => ?_⟩
  · have hbegin : Counts k m.muted m.muted := ⟨rfl, ⟨rfl, rfl⟩, Nat.zero_le k⟩
    exact ((task.run_inStep withRegisters_counts
      (stoppingEvaluator_inStep (hhost.counts k) fuel)).ends hbegin).of_counts
  · refine ⟨noted.map Message.sunk, ?_, List.length_map _, fun c => ?_⟩
    · have hall : noted.filter (m.sinks.has ·.channel) = noted :=
        List.filter_eq_self.mpr fun message _ => by
          rw [hsinks]
          cases message.channel <;> rfl
      rw [hfollows.sunk, hall]
    · rw [hfollows.kept, List.drop_left, Message.textsOn_map_sunk]

theorem smallHost_leavesByCalling : smallHost.LeavesByCalling where
  follows m₀ := by
    refine smallHost_inStepWith withRegisters_follows fun depth => Run.InStep.self fun m w h => ?_
    exact .ok () ⟨congrArg (fun n : Machine => { n with maxCallDepth := depth }) h.same, h.sinks,
      h.kept, h.sunk⟩
  counts k := by
    refine smallHost_inStepWith withRegisters_counts fun depth => ?_
    refine ⟨fun m m' h => .inStep ?_, fun m n h => ⟨h.lt_length, h.sunk⟩⟩
    exact .ok () ⟨congrArg (fun n : Machine => { n with maxCallDepth := depth }) h.same,
      ⟨h.mute.sinks, h.mute.verbosity⟩, h.length_le⟩

/-- `try { log("a", "b"); throw "t" } catch (e) { warn(e) } ["x", "y"].map(error); throw "end"`. -/
def leavingProgram : List Stmt :=
  let p : Position := .start
  let call (name : String) (args : List Expr) : Stmt := .expr (.call (.ident name p) args p)
  [.tryCatch [call "log" [.string "a" p, .string "b" p], .throw (.string "t" p) p]
     (some ⟨"e", [call "warn" [.ident "e" p]], p⟩) none p,
   .expr (.call (.member (.array [.string "x" p, .string "y" p] p) "map" false p)
     [.ident "error" p] p),
   .throw (.string "end" p) p]

/-- One message is left in front of a failure that is caught, one behind it, and two by calls that a
method makes, in front of a failure that is not caught. -/
theorem leavingProgram_messages :
    let m : Machine := { Machine.new with sinks := .all }
    let task := Task.program leavingProgram
    let noting := task.run (notingEvaluator smallHost 20) m.muted
    let stopping := task.run (stoppingEvaluator 0 smallHost 20) m.muted
    let m' := machineAt (task.run (evaluator smallHost 20) m)
    smallHost.LeavesByCalling ∧ m.sinks = .all ∧
    (m.run (task.run (evaluator smallHost 20))).1 = .failed ⟨1, .thrown "end"⟩ ∧
    (machineAt noting).sunk = [⟨.log, "a b"⟩, ⟨.warn, "t"⟩, ⟨.error, "x"⟩, ⟨.error, "y"⟩] ∧
    (∃ n, stopping = .error .outOfFuel n ∧ n.sunk = [⟨.log, "a b"⟩]) ∧
    m'.output.on .error = ["x", "y"] ∧
    m'.sunk = [⟨.log, "a b"⟩, ⟨.warn, "WARN: t"⟩, ⟨.error, "ERROR: x"⟩, ⟨.error, "ERROR: y"⟩] ∧
    ∃ received, m'.sunk = received ∧ received.length = 4 ∧
      Message.textsOn .error received = (m'.output.on .error).map Channel.error.sinkLine := by
  intro m task noting stopping m'
  obtain ⟨-, hstopped, hkept, hsunk, hall⟩ := messages_kept smallHost_leavesByCalling 20 task m
  obtain ⟨received, hreceived, hlength, htexts⟩ := hall rfl
  have hnoted : (machineAt noting).sunk =
      [⟨.log, "a b"⟩, ⟨.warn, "t"⟩, ⟨.error, "x"⟩, ⟨.error, "y"⟩] := by decide +kernel
  have hfirst := (hstopped 0).1 (by rw [hnoted]; decide)
  rw [hnoted] at hsunk hlength hfirst
  refine ⟨smallHost_leavesByCalling, rfl, by decide +kernel, hnoted, hfirst, ?_, hsunk, received,
    hreceived, hlength, htexts .error⟩
  rw [hkept, hnoted]
  rfl

end Quill
