import Runbook.Run.Workflow

/-!
# Episodes

What happens when the turn of a step comes, events and log entries aside: the context it meets, the
parameters of its call if there is one, how it ends, and the state in which it leaves the tools. An
episode is a function of the step, the context and the state of the tools alone.

* `Tools.episode`: the episode of a step;
* `execute_eq`: executing a step plays its episode, whatever the publisher and the log.
-/

namespace Runbook

/-- How a step ends: skipped for its condition, failed with an error, or succeeded with a text. -/
inductive Ending
  | skipped (condition : String)
  | failed (error : String)
  | succeeded (raw : String)

namespace Ending

/-- The state that a step ends in. -/
def status : Ending → StepStatus
  | skipped _ => .skipped
  | failed _ => .failed
  | succeeded _ => .success

/-- The result of a step that ended so. -/
def result (summaryLength : Nat) (s : Step) : Ending → StepResult
  | skipped condition => s.skippedResult condition
  | failed error => s.failedResult error
  | succeeded raw => s.successResult (String.ofList (raw.toList.take summaryLength))

/-- The resources found at the end of a step. -/
def resources : Ending → List Resource
  | succeeded raw => resourcesOf raw
  | _ => []

/-- What is logged at the end of a step. -/
def notes (s : Step) : Ending → List LogEntry
  | skipped condition => [.stepSkipped s.id condition]
  | failed error => [.toolFailed s.id s.tool error]
  | succeeded _ => []

/-- The answer to the call of a step that ended so, if there was a call. -/
def answer? : Ending → Option (Except (Option String) String)
  | skipped _ => none
  | failed error => some (.error (some error))
  | succeeded raw => some (.ok raw)

@[simp] theorem status_skipped (c : String) : (skipped c).status = .skipped := rfl
@[simp] theorem status_failed (error : String) : (failed error).status = .failed := rfl
@[simp] theorem status_succeeded (raw : String) : (succeeded raw).status = .success := rfl

@[simp] theorem resources_skipped (c : String) : (skipped c).resources = [] := rfl
@[simp] theorem resources_failed (error : String) : (failed error).resources = [] := rfl
@[simp] theorem resources_succeeded (raw : String) :
    (succeeded raw).resources = resourcesOf raw := rfl

@[simp] theorem answer?_skipped (c : String) : (skipped c).answer? = none := rfl
@[simp] theorem answer?_failed (error : String) :
    (failed error).answer? = some (.error (some error)) := rfl
@[simp] theorem answer?_succeeded (raw : String) :
    (succeeded raw).answer? = some (.ok raw) := rfl

variable (n : Nat) (s : Step) (x : Ending)

@[simp] theorem result_id : (x.result n s).id = s.id := by cases x <;> rfl
@[simp] theorem result_name : (x.result n s).name = s.name := by cases x <;> rfl
@[simp] theorem result_tool : (x.result n s).tool = s.tool := by cases x <;> rfl
@[simp] theorem result_status : (x.result n s).status = x.status := by cases x <;> rfl

/-- A result holds an error exactly when the step failed. -/
theorem result_error : (x.result n s).error.isSome ↔ x.status = .failed := by
  cases x <;> simp [result, status, Step.skippedResult, Step.failedResult, Step.successResult]

end Ending

/-- The turn of a step: the context it meets, the parameters of its call if there is one, how it
ends unless the run ends with it, and the state in which it leaves the tools. -/
structure Episode (σ : Type) where
  step : Step
  before : Context
  parameters : Option (Table String Value)
  ending : Except Abort Ending
  tools : σ

namespace Episode

variable {σ : Type} (x : Episode σ)

/-- The context after an episode: only a success changes it. -/
def after [Stack] : Context :=
  match x.ending with
  | .ok (.succeeded raw) => x.before.complete x.step raw
  | _ => x.before

/-- The call of an episode, if there is one. -/
def calls : List Happening :=
  match x.parameters with
  | some ps => [.call x.step.tool ps x.before]
  | none => []

/-- What the executor logs during an episode. -/
def notes : List LogEntry :=
  match x.ending with
  | .ok ending => ending.notes x.step
  | .error _ => []

/-- Whether the next step has its turn after this one. -/
def goesOn : Bool :=
  match x.ending with
  | .ok ending => !(ending.status = .failed && x.step.policy = .stop)
  | .error _ => false

end Episode

/-- The end of a step whose tool call ended so. -/
def Outcome.ending (o : Outcome) (tool : String) : Except Abort Ending :=
  match o.text tool with
  | .ok raw => .ok (.succeeded raw)
  | .error (some error) => .ok (.failed error)
  | .error none => .error o.abort

/-- A call that ends its step makes it succeed with a text or fail with an error. -/
theorem Outcome.ending_ok {o : Outcome} {tool : String} {ending : Ending}
    (h : o.ending tool = .ok ending) :
    (∃ raw, o.text tool = .ok raw ∧ ending = .succeeded raw) ∨
      ∃ error, o.text tool = .error (some error) ∧ ending = .failed error := by
  unfold Outcome.ending at h
  rcases ho : o.text tool with reason | raw
  · rw [ho] at h
    cases reason with
    | none => simp at h
    | some error =>
      simp only [Except.ok.injEq] at h
      exact .inr ⟨error, rfl, h.symm⟩
  · simp only [ho, Except.ok.injEq] at h
    exact .inl ⟨raw, rfl, h.symm⟩

/-- Whether an outcome ends the run: the run is interrupted during the call, or the call raises an
exception whose text cannot be made. -/
inductive Outcome.Aborts : Outcome → Prop
  | interrupted : Aborts .interrupted
  | textless (kind raised : String) : Aborts (.raised kind (.error raised))

/-- A call that ends the run. -/
theorem Outcome.Aborts.ending {o : Outcome} (h : o.Aborts) (tool : String) :
    o.ending tool = .error o.abort := by
  cases h <;> rfl

/-- A run that ends with a call is cancelled, or ends with an exception. -/
theorem Outcome.abort_cases (o : Outcome) :
    o.abort = .cancelled ∨ ∃ kind, o.abort = .raised kind := by
  unfold abort
  split
  · exact .inr ⟨_, rfl⟩
  · exact .inl rfl

/-- A call ends its step unless it ends the run. -/
theorem Outcome.exists_ending {o : Outcome} {tool : String} (h : ¬ o.Aborts) :
    ∃ ending, o.ending tool = .ok ending := by
  have htext : o.text tool ≠ .error none := by
    cases o with
    | returned r =>
      simp only [text]
      split
      · simp
      · split <;> simp
    | raised kind message =>
      cases message with
      | ok message => simp [text]
      | error raised => exact absurd (.textless kind raised) h
    | cancelled message => simp [text]
    | interrupted => exact absurd .interrupted h
  unfold ending
  split
  · exact ⟨_, rfl⟩
  · exact ⟨_, rfl⟩
  · next hnone => exact absurd hnone htext

/-- The episode of a step in a context and a state of the tools. -/
def Tools.episode [Stack] {σ : Type} (tools : Tools σ) (s : Step) (c : Context) (τ : σ) :
    Episode σ :=
  match s.isSkipped c with
  | .error f => ⟨s, c, none, .error (.fault f), τ⟩
  | .ok true => ⟨s, c, none, .ok (.skipped (s.guard?.getD "")), τ⟩
  | .ok false =>
    match c.substituteTable s.parameters with
    | .error f => ⟨s, c, none, .error (.fault f), τ⟩
    | .ok ps =>
      ⟨s, c, some ps, (tools τ s.tool ps).1.ending s.tool, (tools τ s.tool ps).2⟩

section Tools

variable [Stack] {σ : Type} (tools : Tools σ) (s : Step) (c : Context) (τ : σ)

@[simp] theorem episode_step : (tools.episode s c τ).step = s := by
  unfold Tools.episode
  split
  · rfl
  · rfl
  · split <;> rfl

@[simp] theorem episode_before : (tools.episode s c τ).before = c := by
  unfold Tools.episode
  split
  · rfl
  · rfl
  · split <;> rfl

variable {tools s c τ}

/-- An episode that ends its step has a call unless the step is skipped. -/
theorem parameters_isSome_iff {ending : Ending} (h : (tools.episode s c τ).ending = .ok ending) :
    (tools.episode s c τ).parameters.isSome ↔ ending.status ≠ .skipped := by
  revert h
  unfold Tools.episode
  cases s.isSkipped c with
  | error f => simp
  | ok skipped =>
    cases skipped with
    | true =>
      rintro ⟨⟩
      simp
    | false =>
      cases c.substituteTable s.parameters with
      | error f => simp
      | ok ps =>
        intro h
        obtain ⟨raw, -, rfl⟩ | ⟨error, -, rfl⟩ := Outcome.ending_ok h <;> simp

end Tools

namespace RunM

variable {σ β α γ : Type}

theorem bind_ok {x : RunM σ β α} {f : α → RunM σ β γ} {s s' : RunState σ β} {a : α}
    (h : x s = .ok a s') : (x >>= f) s = f a s' := by
  simp [bind, EStateM.bind, h]

/-- A part of a run in two halves: the second goes on where the first returned. -/
@[simp] theorem bind_apply (x : RunM σ β α) (f : α → RunM σ β γ) (s : RunState σ β) :
    (x >>= f) s = match x s with
      | .ok a s' => f a s'
      | .error a s' => .error a s' := by
  cases h : x s <;> simp [bind, EStateM.bind, h]

@[simp] theorem map_apply (f : α → γ) (x : RunM σ β α) (s : RunState σ β) :
    (f <$> x) s = match x s with
      | .ok a s' => .ok (f a) s'
      | .error a s' => .error a s' := by
  cases h : x s <;> simp [Functor.map, EStateM.map, h]

@[simp] theorem pure_apply (a : α) (s : RunState σ β) : (pure a : RunM σ β α) s = .ok a s := rfl

theorem get_apply (s : RunState σ β) : (get : RunM σ β (RunState σ β)) s = .ok s s := rfl

@[simp] theorem modify_apply (f : RunState σ β → RunState σ β) (s : RunState σ β) :
    (modify f : RunM σ β PUnit) s = .ok ⟨⟩ (f s) := rfl

@[simp] theorem modifyGet_apply (f : RunState σ β → α × RunState σ β) (s : RunState σ β) :
    (modifyGet f : RunM σ β α) s = .ok (f s).1 (f s).2 := rfl

@[simp] theorem throw_apply (a : Abort) (s : RunState σ β) :
    (throw a : RunM σ β α) s = .error a s := rfl

@[simp] theorem log_apply (entry : LogEntry) (s : RunState σ β) :
    (log entry : RunM σ β Unit) s = .ok () { s with log := s.log ++ [entry] } := rfl

@[simp] theorem orFault_ok (a : α) (s : RunState σ β) :
    (orFault (.ok a) : RunM σ β α) s = .ok a s := rfl

@[simp] theorem orFault_error (f : Fault) (s : RunState σ β) :
    (orFault (.error f) : RunM σ β α) s = .error (.fault f) s := rfl

end RunM

namespace Engine

variable {σ β : Type}

theorem call_apply (e : Engine σ β) (tool : String) (ps : Table String Value)
    (s : RunState σ β) :
    e.call tool ps s = .ok (e.tools s.tools tool ps).1
      { s with
        tools := (e.tools s.tools tool ps).2
        trace := s.trace ++ [.call tool ps s.context] } := rfl

variable [Stack]

/-- The state of a run after an episode. -/
def play (x : Episode σ) (s : RunState σ β) : RunState σ β :=
  { s with
    context := x.after
    tools := x.tools
    trace := s.trace ++ x.calls
    log := s.log ++ x.notes }

/-- What executing a step comes to, in terms of its episode. -/
def playResult (e : Engine σ β) (x : Episode σ) (s : RunState σ β) :
    EStateM.Result Abort (RunState σ β) (StepResult × List Resource) :=
  match x.ending with
  | .ok ending => .ok (ending.result e.summaryLength x.step, ending.resources) (play x s)
  | .error a => .error a (play x s)

/-- Calling the tool of a step ends the step as the outcome of the call says. -/
theorem invoke_eq (e : Engine σ β) (step : Step) (ps : Table String Value) (s : RunState σ β) :
    e.invoke step ps s =
      e.playResult ⟨step, s.context, some ps, (e.tools s.tools step.tool ps).1.ending step.tool,
        (e.tools s.tools step.tool ps).2⟩ s := by
  unfold invoke Outcome.ending playResult
  rw [RunM.bind_ok (e.call_apply step.tool ps s)]
  cases h : (e.tools s.tools step.tool ps).1.text step.tool with
  | ok raw => simp [play, Episode.after, Episode.calls, Episode.notes, Ending.result,
      Ending.resources, Ending.notes]
  | error o =>
    cases o with
    | some error => simp [play, Episode.after, Episode.calls, Episode.notes, Ending.result,
        Ending.resources, Ending.notes]
    | none => simp [play, Episode.after, Episode.calls, Episode.notes]

/-- **Executing a step plays its episode.** -/
theorem execute_eq (e : Engine σ β) (step : Step) (s : RunState σ β) :
    e.execute step s = e.playResult (e.tools.episode step s.context s.tools) s := by
  unfold execute Tools.episode
  rw [RunM.bind_ok (RunM.get_apply s)]
  cases hs : step.isSkipped s.context with
  | error f => simp [playResult, play, Episode.after, Episode.calls, Episode.notes]
  | ok skipped =>
    cases skipped with
    | true => simp [playResult, play, Episode.after, Episode.calls, Episode.notes, Ending.result,
        Ending.resources, Ending.notes]
    | false =>
      cases hp : s.context.substituteTable step.parameters with
      | error f => simp [playResult, play, Episode.after, Episode.calls, Episode.notes]
      | ok ps => simp [invoke_eq]

end Engine
end Runbook
