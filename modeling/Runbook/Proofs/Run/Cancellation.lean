import Runbook.Proofs.Run.Ledger
import Runbook.Proofs.Run.Policy

/-!
# Cancellation

A call during which the run is cancelled is the last thing that happens in the run, and the context
stays as the steps before have left it. A cancellation that is not one of the run is a failure of
the tool like any other.

* `exists_of_call`: every call of a trace is that of an episode of the course;
* `trace_begins`: what happens in a run is the beginning of its script, and of less where an episode
  aborts;
* `run_uncancelled`: with exceptions for the cancellations of the tools a run is the same;
* `run_cancelled_call`: what a run comes to, a call of which ends in a cancellation.
-/

namespace Runbook

/-! ### Cancellations of the tools -/

/-- The outcome of a call with an exception for a cancellation that is not one of the run. -/
def Outcome.uncancelled (tool : String) : Outcome → Outcome
  | .cancelled message => .raised "ToolInvocationError"
      (.ok (if message = "" then "Tool " ++ tool ++ " was cancelled" else message))
  | o => o

/-- Tools that raise exceptions for the cancellations that are not ones of the run. -/
def Tools.uncancelled {σ : Type} (tools : Tools σ) : Tools σ := fun τ tool ps =>
  ((tools τ tool ps).1.uncancelled tool, (tools τ tool ps).2)

/-- What a cancelled call is recorded with is not empty. -/
theorem Outcome.cancelled_message_ne (tool message : String) :
    (if message = "" then "Tool " ++ tool ++ " was cancelled" else message) ≠ "" := by
  split
  · intro h
    have htool := (String.append_eq_empty_iff.1 h).2
    exact absurd htool (by decide)
  · assumption

/-- A cancellation is recorded like the exception. -/
theorem Outcome.text_uncancelled (o : Outcome) (tool : String) :
    (o.uncancelled tool).text tool = o.text tool := by
  cases o with
  | cancelled message =>
    simp only [uncancelled, text, if_neg (cancelled_message_ne tool message)]
  | returned r => rfl
  | raised kind message => rfl
  | interrupted => rfl

theorem Outcome.abort_uncancelled (o : Outcome) (tool : String) :
    (o.uncancelled tool).abort = o.abort := by
  cases o <;> rfl

theorem Tools.episode_uncancelled [Stack] {σ : Type} (tools : Tools σ) (s : Step) (c : Context)
    (τ : σ) :
    tools.uncancelled.episode s c τ = tools.episode s c τ := by
  simp only [episode, uncancelled, Outcome.ending, Outcome.text_uncancelled,
    Outcome.abort_uncancelled]

namespace Engine

variable [Stack] {σ β : Type}

/-- An engine whose tools raise exceptions for the cancellations that are not ones of the run. -/
def uncancelled (e : Engine σ β) : Engine σ β := { e with tools := e.tools.uncancelled }

theorem execute_uncancelled (e : Engine σ β) (step : Step) :
    e.uncancelled.execute step = e.execute step := by
  funext s
  have hepisode : e.uncancelled.tools.episode step s.context s.tools =
      e.tools.episode step s.context s.tools := e.tools.episode_uncancelled ..
  rw [execute_eq, execute_eq, hepisode]
  rfl

theorem runSteps_uncancelled (e : Engine σ β) (i : Identity) (steps : List Step) (t : Tally) :
    e.uncancelled.runSteps i steps t = e.runSteps i steps t := by
  have hpublish : e.uncancelled.publish = e.publish := rfl
  induction steps generalizing t with
  | nil => rfl
  | cons step rest ih => simp only [runSteps, hpublish, execute_uncancelled, ih]

/-- **A cancellation of a tool is a failure like any other**: with exceptions in their place the run
is the same. -/
theorem run_uncancelled (e : Engine σ β) (id : String) (d : Definition)
    (supplied : Table String Value) (context : Context) (tools : σ) (publisher : β) :
    e.uncancelled.run id d supplied context tools publisher =
      e.run id d supplied context tools publisher := by
  have hpublish : e.uncancelled.publish = e.publish := rfl
  simp only [run, runSeeded, hpublish, runSteps_uncancelled]

end Engine

/-! ### Calls in a course -/

/-- An episode that aborts has not ended. -/
theorem Episode.not_ended {σ : Type} {x : Episode σ} {a : Abort} (h : x.ending = .error a) :
    ¬ x.Ended := by
  rintro ⟨ending, hending⟩
  rw [h] at hending
  cases hending

/-- An episode with a call is that of a step that is not skipped and has its placeholders replaced;
it ends as the outcome of the call says. -/
theorem Tools.episode_of_parameters [Stack] {σ : Type} {tools : Tools σ} {s : Step} {c : Context}
    {τ : σ}
    {ps : Table String Value} (h : (tools.episode s c τ).parameters = some ps) :
    c.substituteTable s.parameters = .ok ps ∧
      (tools.episode s c τ).ending = (tools τ s.tool ps).1.ending s.tool := by
  revert h
  unfold episode
  cases s.isSkipped c with
  | error f => simp
  | ok skipped =>
    cases skipped with
    | true => simp
    | false =>
      cases c.substituteTable s.parameters with
      | error f => simp
      | ok other =>
        rintro ⟨⟩
        exact ⟨rfl, rfl⟩

/-- The episode at a place of a course is that of the step there, in the context and the state of
the tools that the episodes before leave; these let the run go on. -/
theorem Tools.course_eq_append [Stack] {σ : Type} {tools : Tools σ} {steps : List Step}
    {c : Context}
    {τ : σ} {xs ys : List (Episode σ)} {x : Episode σ}
    (h : tools.course steps c τ = xs ++ x :: ys) :
    (∀ y ∈ xs, y.goesOn = true) ∧ xs = tools.course (steps.take xs.length) c τ ∧
      ∃ s, steps[xs.length]? = some s ∧
        x = tools.episode s (Episode.lastContext c xs) (Episode.lastTools τ xs) := by
  refine ⟨?_, ?_, ?_⟩
  · intro y hy
    have hmem : y ∈ (tools.course steps c τ).dropLast := by
      rw [h, List.dropLast_append_of_ne_nil (by simp)]
      exact List.mem_append_left _ hy
    exact goesOn_of_mem_dropLast hmem
  · rw [course_take, h, List.take_left]
  · induction xs generalizing steps c τ with
    | nil =>
      cases steps with
      | nil => simp at h
      | cons s rest =>
        simp only [course, List.nil_append, List.cons.injEq] at h
        exact ⟨s, rfl, h.1.symm⟩
    | cons y xs ih =>
      cases steps with
      | nil => simp at h
      | cons s rest =>
        cases hg : (tools.episode s c τ).goesOn with
        | false => simp [course_cons_of_stops rest hg] at h
        | true =>
          rw [course_cons_of_goesOn rest hg, List.cons_append, List.cons.injEq] at h
          obtain ⟨rfl, h⟩ := h
          exact ih h

namespace Engine

variable {σ β : Type} {e : Engine σ β} {i : Identity}

/-- A call stands after happenings without calls. -/
theorem call_of_append {hs more pre post : List Happening} {tool : String}
    {ps : Table String Value} {c : Context} (hnone : callsIn hs = [])
    (h : hs ++ more = pre ++ .call tool ps c :: post) :
    ∃ rest, pre = hs ++ rest ∧ more = rest ++ .call tool ps c :: post := by
  obtain ⟨rest, hpre, hmore⟩ | ⟨mid, rfl, hpost⟩ := List.append_eq_append_iff.1 h
  · exact ⟨rest, hpre, hmore⟩
  · cases mid with
    | nil => exact ⟨[], by simp, hpost.symm⟩
    | cons y mid =>
      -- otherwise it would be one of them
      obtain ⟨rfl, -⟩ := List.cons.inj hpost
      rw [callsIn_append, List.append_eq_nil_iff] at hnone
      simp [callsIn, Happening.call?] at hnone

/-- A call is that of an episode or stands after it. -/
theorem call_of_calls {x : Episode σ} {more pre post : List Happening} {tool : String}
    {ps : Table String Value} {c : Context}
    (h : x.calls ++ more = pre ++ .call tool ps c :: post) :
    (pre = [] ∧ x.calls = [.call tool ps c] ∧ x.step.tool = tool ∧ x.parameters = some ps ∧
        x.before = c) ∨
      ∃ rest, pre = x.calls ++ rest ∧ more = rest ++ .call tool ps c :: post := by
  cases hps : x.parameters with
  | none =>
    have hcalls : x.calls = [] := by simp [Episode.calls, hps]
    rw [hcalls] at h ⊢
    exact .inr ⟨pre, rfl, h⟩
  | some qs =>
    have hcalls : x.calls = [.call x.step.tool qs x.before] := by simp [Episode.calls, hps]
    rw [hcalls, List.singleton_append] at h
    cases pre with
    | nil =>
      rw [List.nil_append, List.cons.injEq, Happening.call.injEq] at h
      obtain ⟨⟨rfl, rfl, rfl⟩, -⟩ := h
      exact .inl ⟨rfl, hcalls, rfl, rfl, rfl⟩
    | cons y rest =>
      rw [List.cons_append, List.cons.injEq] at h
      exact .inr ⟨rest, by rw [hcalls, h.1]; rfl, h.2⟩

variable [Stack]

@[simp] theorem callsIn_closing (x : Episode σ) : callsIn (e.closing i x) = [] := by
  unfold closing
  split <;> simp

/-- **Every call is that of an episode**: those before it have happened, and those after it not. -/
theorem exists_of_call {xs : List (Episode σ)} {event : Event} {c c' : Context} {tool : String}
    {ps : Table String Value} {pre post : List Happening}
    (h : xs.flatMap (e.happenings i) ++ e.shown event c' = pre ++ .call tool ps c :: post) :
    ∃ ys x zs, xs = ys ++ x :: zs ∧ x.step.tool = tool ∧ x.parameters = some ps ∧ x.before = c ∧
      callsIn pre = callsIn (ys.flatMap Episode.calls) ∧
      xs.flatMap (e.happenings i) =
        pre ++ .call tool ps c :: (e.closing i x ++ zs.flatMap (e.happenings i)) := by
  induction xs generalizing pre with
  | nil =>
    rw [List.flatMap_nil, List.nil_append, ← List.append_nil (e.shown event c')] at h
    obtain ⟨rest, -, hrest⟩ := call_of_append (e.callsIn_shown event c') h
    simp at hrest
  | cons x xs ih =>
    rw [List.flatMap_cons, happenings, List.append_assoc, List.append_assoc, List.append_assoc]
      at h
    obtain ⟨rest, rfl, h₁⟩ := call_of_append (e.callsIn_shown _ _) h
    obtain ⟨rfl, hcalls, htool, hps, hc⟩ | ⟨rest, rfl, h₂⟩ := call_of_calls h₁
    · refine ⟨[], x, xs, rfl, htool, hps, hc, by simp, ?_⟩
      simp [happenings, hcalls]
    · -- the call stands after the first episode
      obtain ⟨rest, rfl, h₃⟩ := call_of_append (callsIn_closing x) h₂
      obtain ⟨ys, y, zs, rfl, htool, hps, hc, hpre, hxs⟩ := ih h₃
      refine ⟨x :: ys, y, zs, rfl, htool, hps, hc, by simp [hpre], ?_⟩
      rw [List.flatMap_cons, hxs, happenings]
      simp

/-! ### What happens in a run -/

omit [Stack] in
theorem CancelledIn.trace_begins {hs : List Happening} {s s' : RunState σ β}
    (h : CancelledIn hs s s') : s'.trace <+: s.trace ++ hs := by
  obtain ⟨before, event, after, rfl, htrace⟩ := h
  exact ⟨after, by simp [htrace]⟩

variable {id : String} {d : Definition} {supplied : Table String Value} {context : Context}
  {tools : σ} {publisher : β}

/-- What happens in a run is the beginning of its script. -/
theorem trace_begins (e : Engine σ β) (id : String) (d : Definition) (supplied : Table String Value)
    (context : Context) (tools : σ) (publisher : β) :
    (lastState (e.run id d supplied context tools publisher)).trace <+:
      e.script ⟨d.name, id⟩ d (context.seed d supplied) (e.courseOf d supplied context tools) := by
  cases h : e.run id d supplied context tools publisher with
  | ok r s =>
    obtain ⟨-, -, hstage⟩ := run_ok h
    simp only [RunState.stage, Stage.mk.injEq] at hstage
    exact ⟨[], (List.append_nil s.trace).trans hstage.2.2⟩
  | error a s =>
    obtain ⟨x, -, -, -, htrace⟩ | ⟨-, -, hcan⟩ := run_error h
    · rw [lastState, htrace, script, ← List.append_assoc]
      exact List.prefix_append ..
    · exact hcan.trace_begins

/-- Where an episode aborts, the last event of the script is left out. -/
theorem trace_begins_of_abort {x : Episode σ} (hx : x ∈ e.courseOf d supplied context tools)
    (habort : ¬ x.Ended) :
    (lastState (e.run id d supplied context tools publisher)).trace <+:
      e.shown (Identity.workflowStarted ⟨d.name, id⟩ d.steps.length) (context.seed d supplied) ++
        (e.courseOf d supplied context tools).flatMap (e.happenings ⟨d.name, id⟩) := by
  simp only [run_eq, RunM.bind_apply]
  cases h₁ : e.publish (Identity.workflowStarted ⟨d.name, id⟩ d.steps.length)
      (started d supplied context tools publisher) with
  | error a s₁ =>
    obtain ⟨-, -, hcan⟩ := publish_error h₁
    exact (hcan.append _).trace_begins
  | ok u s₁ =>
    have hst₁ := publish_ok h₁
    simp only [RunState.stage, Stage.mk.injEq, started, List.nil_append] at hst₁
    have hxs : e.tools.course d.steps s₁.context s₁.tools =
        e.courseOf d supplied context tools := by rw [hst₁.1, hst₁.2.1]; rfl
    cases h₂ : e.runSteps ⟨d.name, id⟩ d.steps .start s₁ with
    | ok t s₂ =>
      obtain ⟨hended, -⟩ := runSteps_ok h₂
      rw [hxs] at hended
      exact absurd (hended x hx) habort
    | error a s₂ =>
      obtain ⟨y, -, -, hst₂⟩ | ⟨-, -, hcan⟩ := runSteps_error h₂
      · simp only [RunState.stage, Stage.mk.injEq, hxs, hst₁.2.2] at hst₂
        simp only [h₂, lastState, hst₂.2.2]
        exact List.prefix_rfl
      · rw [hxs] at hcan
        simpa only [h₂, lastState, hst₁.2.2] using hcan.trace_begins

/-- Whether a call of a run, made after some happenings, is that of an episode of its course. -/
structure IsCallOf (e : Engine σ β) (id : String) (d : Definition) (supplied : Table String Value)
    (context : Context) (tools : σ) (pre : List Happening) (tool : String)
    (ps : Table String Value) (c : Context) (ys : List (Episode σ)) (x : Episode σ)
    (zs : List (Episode σ)) : Prop where
  course : e.courseOf d supplied context tools = ys ++ x :: zs
  step_tool : x.step.tool = tool
  parameters : x.parameters = some ps
  before : x.before = c
  calls : callsIn pre = callsIn (ys.flatMap Episode.calls)
  script : e.shown (Identity.workflowStarted ⟨d.name, id⟩ d.steps.length)
        (context.seed d supplied) ++
      (e.courseOf d supplied context tools).flatMap (e.happenings ⟨d.name, id⟩) =
    pre ++ .call tool ps c :: (e.closing ⟨d.name, id⟩ x ++ zs.flatMap (e.happenings ⟨d.name, id⟩))

variable {pre post : List Happening} {tool : String} {ps : Table String Value} {c : Context}

/-- A call that happens in a run is that of an episode of its course. -/
theorem exists_isCallOf (h : (lastState (e.run id d supplied context tools publisher)).trace =
      pre ++ .call tool ps c :: post) :
    ∃ ys x zs, e.IsCallOf id d supplied context tools pre tool ps c ys x zs := by
  obtain ⟨more, hmore⟩ := trace_begins e id d supplied context tools publisher
  rw [h, List.append_assoc, List.cons_append, script] at hmore
  obtain ⟨rest, rfl, hrest⟩ := call_of_append (e.callsIn_shown _ _) hmore.symm
  obtain ⟨ys, x, zs, hsplit, htool, hps, hc, hcalls, hxs⟩ := exists_of_call hrest
  refine ⟨ys, x, zs, hsplit, htool, hps, hc, by simp [hcalls], ?_⟩
  rw [hxs, List.append_assoc]

end Engine

/-- Whether a step of a workflow meets a context in its runs with some tools: the one that the
workflow cut before the step leaves, whatever it publishes to. -/
structure Tools.Meets [Stack] {σ : Type} (t : Tools σ) (d : Definition)
    (supplied : Table String Value)
    (context : Context) (τ : σ) (k : Nat) (step : Step) (c : Context) : Prop where
  /-- The step stands in the workflow. -/
  step : d.steps[k]? = some step
  /-- The first step meets the seeded context. -/
  first : k = 0 → c = context.seed d supplied
  /-- A run of the workflow cut before the step leaves the context. -/
  cut : ∀ {β : Type} (e : Engine σ β) id b r s, e.tools = t →
    e.run id (d.cut k) supplied context τ b = .ok r s → s.context = c
  /-- Such a run returns, and no step stops it, unless the publisher cancels it. -/
  returns : ∀ {β : Type} (e : Engine σ β) id b, e.tools = t → ¬ e.CanBeCancelled →
    Engine.RanThrough (e.run id (d.cut k) supplied context τ b)

namespace Tools

variable [Stack] {σ : Type} {t : Tools σ} {d : Definition} {supplied : Table String Value}
  {context : Context} {τ : σ} {ys zs : List (Episode σ)} {x : Episode σ}

/-- The step of an episode meets the context that the episodes before leave. -/
theorem meets_of_course (h : t.course d.steps (context.seed d supplied) τ = ys ++ x :: zs) :
    t.Meets d supplied context τ ys.length x.step x.before := by
  obtain ⟨hgoes, hys, step, hstep, hx⟩ := course_eq_append h
  have hcut {β : Type} {e : Engine σ β} (he : e.tools = t) :
      e.courseOf (d.cut ys.length) supplied context τ = ys := by
    subst he
    exact hys.symm
  rw [hx, episode_step, episode_before]
  constructor
  case step => exact hstep
  case first =>
    intro hzero
    rw [List.length_eq_zero_iff.1 hzero]
    rfl
  case cut =>
    intro β e id b r s he hrun
    obtain ⟨-, -, hstage⟩ := Engine.run_ok hrun
    simp only [RunState.stage, Stage.mk.injEq, hcut he] at hstage
    exact hstage.1
  case returns =>
    intro β e id b he hp
    have hgoes' : ∀ y ∈ e.courseOf (d.cut ys.length) supplied context τ, y.goesOn = true := by
      rwa [hcut he]
    have hended : ∀ y ∈ e.courseOf (d.cut ys.length) supplied context τ, y.Ended :=
      fun y hy => .of_goesOn (hgoes' y hy)
    obtain ⟨r, s, hrun⟩ : ∃ r s, e.run id (d.cut ys.length) supplied context τ b = .ok r s :=
      Engine.run_returns hp hended
    refine ⟨r, s, hrun, ?_⟩
    obtain ⟨-, rfl, -⟩ := Engine.run_ok hrun
    exact (Episode.status_ne_failed_iff hended).2 hgoes'

/-- There is another episode exactly when one lets the run go on and was not that of the last
step. -/
theorem course_goes_on_iff (h : t.course d.steps (context.seed d supplied) τ = ys ++ x :: zs) :
    zs ≠ [] ↔ x.goesOn = true ∧ ys.length + 1 < d.steps.length := by
  have hgoes := (course_eq_append h).1
  obtain ⟨rest, hrest⟩ :
      (t.course d.steps (context.seed d supplied) τ).map Episode.step <+: d.steps :=
    course_prefix ..
  rw [h] at hrest
  constructor
  · intro hzs
    constructor
    · have hmem : x ∈ (t.course d.steps (context.seed d supplied) τ).dropLast := by
        rw [h, List.dropLast_append_of_ne_nil (by simp), List.dropLast_cons_of_ne_nil hzs]
        simp
      exact goesOn_of_mem_dropLast hmem
    · have hlength := congrArg List.length hrest
      simp only [List.length_append, List.length_map, List.length_cons] at hlength
      have hpos := List.length_pos_iff.2 hzs
      omega
  · rintro ⟨hx, hlt⟩ rfl
    -- otherwise there would be an episode for every step
    have hmap : (t.course d.steps (context.seed d supplied) τ).map Episode.step = d.steps := by
      apply map_step_course
      intro y hy
      rw [h, List.mem_append, List.mem_singleton] at hy
      rcases hy with hy | rfl
      · exact hgoes y hy
      · exact hx
    rw [h] at hmap
    have hlength := congrArg List.length hmap
    simp only [List.length_append, List.length_map, List.length_singleton] at hlength
    omega

/-- An episode that aborts is the last one, and the only one that does. -/
theorem course_of_abort (h : t.course d.steps (context.seed d supplied) τ = ys ++ x :: zs)
    (hx : ¬ x.Ended) :
    zs = [] ∧ ∀ y ∈ t.course d.steps (context.seed d supplied) τ, ¬ y.Ended → y = x := by
  obtain rfl : zs = [] := by
    by_contra hne
    exact hx (.of_goesOn ((course_goes_on_iff h).1 hne).1)
  refine ⟨rfl, ?_⟩
  intro y hy hended
  rw [h, List.mem_append, List.mem_singleton] at hy
  rcases hy with hy | hy
  · exact absurd (.of_goesOn ((course_eq_append h).1 y hy)) hended
  · exact hy

end Tools

namespace Engine

variable [Stack] {σ β : Type} {e : Engine σ β} {id : String} {d : Definition}
  {supplied : Table String Value} {context : Context} {tools : σ} {publisher : β}
  {pre post : List Happening} {tool : String} {ps : Table String Value} {c : Context}
  {ys zs : List (Episode σ)} {x : Episode σ}

/-- A call is made in the state of the tools that the calls before it leave. -/
theorem IsCallOf.ending (h : e.IsCallOf id d supplied context tools pre tool ps c ys x zs) :
    c.substituteTable x.step.parameters = .ok ps ∧
      x.ending = (e.tools (e.tools.leave tools (callsIn pre)) tool ps).1.ending tool := by
  obtain ⟨-, hys, step, -, hx⟩ := Tools.course_eq_append h.course
  have hleave : e.tools.leave tools (callsIn pre) = Episode.lastTools tools ys := by
    rw [h.calls, hys]
    exact (replay_course ..).2
  have hbefore : c = Episode.lastContext (context.seed d supplied) ys := by
    rw [← h.before, hx, episode_before]
  have hstep : step = x.step := by rw [hx, episode_step]
  have hps := h.parameters
  rw [hx] at hps
  obtain ⟨hsubstitute, hending⟩ := Tools.episode_of_parameters hps
  rw [hleave, hbefore, ← h.step_tool, ← hstep]
  rw [← hx] at hending
  exact ⟨hsubstitute, hending⟩

/-- Nothing follows a call whose episode aborts. -/
theorem IsCallOf.eq_nil_of_abort
    (hcall : e.IsCallOf id d supplied context tools pre tool ps c ys x zs)
    (h : (lastState (e.run id d supplied context tools publisher)).trace =
      pre ++ .call tool ps c :: post) {a : Abort} (hx : x.ending = .error a) : post = [] := by
  have hmem : x ∈ e.courseOf d supplied context tools := by simp [hcall.course]
  have hclosing : e.closing ⟨d.name, id⟩ x = [] := by simp [closing, hx]
  have hlast := (Tools.course_of_abort hcall.course (Episode.not_ended hx)).1
  -- nothing follows the call in the script
  have hbegins : (lastState (e.run id d supplied context tools publisher)).trace <+: _ :=
    trace_begins_of_abort hmem (Episode.not_ended hx)
  rw [h, hcall.script, hclosing, hlast, List.prefix_append_right_inj, List.prefix_cons_inj]
    at hbegins
  simpa using hbegins

/-- A run that is interrupted during a call ends with the call. -/
theorem IsCallOf.interrupted (hcall : e.IsCallOf id d supplied context tools pre tool ps c ys x zs)
    (h : (lastState (e.run id d supplied context tools publisher)).trace =
      pre ++ .call tool ps c :: post) (hx : x.ending = .error .cancelled) :
    ∃ s, e.run id d supplied context tools publisher = .error .cancelled s ∧ post = [] ∧
      s.context = c := by
  have habort := Episode.not_ended hx
  obtain ⟨hlast, honly⟩ := Tools.course_of_abort hcall.course habort
  obtain rfl := hcall.eq_nil_of_abort h hx
  cases hrun : e.run id d supplied context tools publisher with
  | ok r s =>
    obtain ⟨hended, -⟩ := run_ok hrun
    exact absurd (hended x (by simp [hcall.course])) habort
  | error a s =>
    rw [hrun, lastState] at h
    obtain ⟨y, hy, ha, hcontext, -⟩ | ⟨-, -, before, event, after, -, htrace⟩ := run_error hrun
    · obtain rfl := honly y hy (Episode.not_ended ha)
      rw [hx] at ha
      cases ha
      refine ⟨s, rfl, rfl, ?_⟩
      rw [hcontext, hcall.course, hlast, Episode.lastContext_append, Episode.lastContext_cons,
        Episode.lastContext_nil, Episode.after, hx]
      exact hcall.before
    · -- a run that is cancelled by the publisher ends with an event
      rw [h, started, List.nil_append] at htrace
      have hevent := congrArg List.getLast? htrace
      simp at hevent

/-- Whether a run holds a failure of a step and has followed its policy. -/
structure Records (d : Definition) (r : RunResult) (k : Nat) (step : Step) (error : String) :
    Prop where
  /-- The result of the step is the failure. -/
  result : r.tally.results[k]? = some (step.failedResult error)
  /-- A step with the policy to stop is the last one, and the run has failed. -/
  stop : step.policy = .stop → r.tally.results.length = k + 1 ∧ r.tally.status = .failed
  /-- After any other the run goes on with the next step. -/
  goesOn : step.policy ≠ .stop → k + 1 < d.steps.length → k + 1 < r.tally.results.length

/-- A run that returns records the failure of a call. -/
theorem IsCallOf.records (hcall : e.IsCallOf id d supplied context tools pre tool ps c ys x zs)
    {error : String} (hx : x.ending = .ok (.failed error)) {r : RunResult} {s : RunState σ β}
    (hrun : e.run id d supplied context tools publisher = .ok r s) :
    Records d r ys.length x.step error := by
  have hlength := length_results hrun
  rw [hcall.course, List.length_append, List.length_cons] at hlength
  have hgoes : x.goesOn = true ↔ x.step.policy ≠ .stop := by simp [Episode.goesOn, hx]
  have hmore := Tools.course_goes_on_iff hcall.course
  obtain ⟨hended, rfl, -⟩ := run_ok hrun
  constructor
  case result =>
    rw [Episode.results_count, Episode.getElem?_filterMap_result? _ hended, hcall.course]
    simp [Episode.result?, hx, Ending.result]
  case stop =>
    intro hstop
    constructor
    · have hzs : zs = [] := by
        by_contra hne
        exact hgoes.1 (hmore.1 hne).1 hstop
      rw [hlength, hzs]
      rfl
    · by_contra hne
      have hall := (Episode.status_ne_failed_iff hended).1 hne x
      rw [hgoes] at hall
      exact hall (by show x ∈ e.courseOf d supplied context tools; simp [hcall.course]) hstop
  case goesOn =>
    intro hpolicy hlt
    have hpos := List.length_pos_iff.2 (hmore.2 ⟨hgoes.2 hpolicy, hlt⟩)
    omega

/-- **Calls that end in a cancellation.** Every call of a run is that of a step, in the context that
the workflow cut before the step leaves. If the run is cancelled during the call, it ends with the
call, and with that context. If the tool is cancelled but the run is not, a run that returns records
a failure of the step, with an error that is not empty, and goes on as the step says; it does so
exactly as if the tool had raised an exception. -/
theorem run_cancelled_call (h : (lastState (e.run id d supplied context tools publisher)).trace =
      pre ++ .call tool ps c :: post) :
    let x := e.run id d supplied context tools publisher
    let outcome := (e.tools (e.tools.leave tools (callsIn pre)) tool ps).1
    ∃ k step, e.tools.Meets d supplied context tools k step c ∧ step.tool = tool ∧
      c.substituteTable step.parameters = .ok ps ∧
      (outcome = .interrupted → ∃ s, x = .error .cancelled s ∧ post = [] ∧ s.context = c) ∧
      ∀ message, outcome = .cancelled message →
        (∃ error, error ≠ "" ∧ ∀ r s, x = .ok r s → Records d r k step error) ∧
        e.uncancelled.run id d supplied context tools publisher = x := by
  intro result outcome
  obtain ⟨ys, x, zs, hcall⟩ := exists_isCallOf h
  have hmeets := Tools.meets_of_course hcall.course
  rw [hcall.before] at hmeets
  obtain ⟨hps, hending⟩ := hcall.ending
  refine ⟨ys.length, x.step, hmeets, hcall.step_tool, hps, ?_, ?_⟩
  · intro hinterrupted
    apply hcall.interrupted h
    show x.ending = .error .cancelled
    rw [hending]
    show outcome.ending tool = _
    rw [hinterrupted]
    rfl
  · intro message hcancelled
    refine ⟨⟨_, Outcome.cancelled_message_ne tool message, ?_⟩, run_uncancelled ..⟩
    intro r s hrun
    apply hcall.records _ hrun
    rw [hending]
    show outcome.ending tool = _
    rw [hcancelled]
    rfl

end Engine

namespace Engine

/-- A workflow whose first tool is cancelled by something else, and during whose second call the run
is cancelled. -/
def Sample.waiting : Definition :=
  ⟨"waiting", "Waits", none, none,
    [⟨"stray", "stray", "stray", [], none, none, some .continue⟩,
      ⟨"wait", "wait", "wait", [], none, none, none⟩]⟩

/-- The tools of the workflow. -/
def Sample.cancelling : Tools Nat := fun n tool _ =>
  (if tool = "stray" then .cancelled "" else .interrupted, n + 1)

/-- The run of the workflow ends with its second call; cut to its first step it records a failure
and returns. -/
theorem run_cancelled_call_sample :
    let e : Engine Nat Unit := ⟨Sample.cancelling, some .delivering, 5⟩
    (∃ s, e.run "run" Sample.waiting [] .empty 0 () = .error .cancelled s ∧ s.context = .empty) ∧
      ∃ r s k step error, e.run "run" (Sample.waiting.cut 1) [] .empty 0 () = .ok r s ∧
        error ≠ "" ∧ Records (Sample.waiting.cut 1) r k step error := by
  intro e
  constructor
  · have hwait : (lastState (e.run "run" Sample.waiting [] .empty 0 ())).trace =
        [_, _, _, _, _] ++ .call "wait" [] .empty :: [] := rfl
    obtain ⟨k, step, -, -, -, hinterrupted, -⟩ := run_cancelled_call hwait
    obtain ⟨s, hrun, -, hs⟩ := hinterrupted rfl
    exact ⟨s, hrun, hs⟩
  · have hstray : (lastState (e.run "run" (Sample.waiting.cut 1) [] .empty 0 ())).trace =
        [_, _] ++ .call "stray" [] .empty :: [_, _] := rfl
    obtain ⟨k, step, -, -, -, -, hcancelled⟩ := run_cancelled_call hstray
    obtain ⟨⟨error, herror, hrecords⟩, -⟩ := hcancelled "" rfl
    exact ⟨_, _, k, step, error, rfl, herror, hrecords _ _ rfl⟩

end Engine
end Runbook
