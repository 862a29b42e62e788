import Runbook.Proofs.Run.Episode
import Runbook.Schema.Check

/-!
# Courses

The course of a list of steps: their episodes, one after another, up to the first after which no
other step has its turn. Like an episode, a course depends on the steps, the context and the tools
alone, and a run follows it:

* `runSteps_ok`, `run_ok`: what a run returns, its context and everything that happened are read off
  its course;
* `runSteps_error`, `run_error`: a run without result has come to the end of its course, where an
  episode aborted, or was cancelled while it published an event on the way;
* `run_returns`: unless an episode aborts or the publisher cancels, a run returns.
-/

namespace Runbook

namespace Episode

variable {σ : Type}

/-- Whether an episode ends its step, with or without success. -/
def Ended (x : Episode σ) : Prop := ∃ ending, x.ending = .ok ending

/-- An episode that lets the run go on ends its step. -/
theorem Ended.of_goesOn {x : Episode σ} (h : x.goesOn = true) : x.Ended := by
  unfold goesOn at h
  split at h
  · next ending hx => exact ⟨ending, hx⟩
  · cases h

/-- The state of the tools that a course leaves. -/
def lastTools (τ : σ) (xs : List (Episode σ)) : σ :=
  xs.foldl (fun _ x => x.tools) τ

@[simp] theorem lastTools_nil (τ : σ) : lastTools τ ([] : List (Episode σ)) = τ := rfl

@[simp] theorem lastTools_cons (τ : σ) (x : Episode σ) (xs : List (Episode σ)) :
    lastTools τ (x :: xs) = lastTools x.tools xs := rfl

variable [Stack]

/-- The context that a course leaves. -/
def lastContext (c : Context) (xs : List (Episode σ)) : Context :=
  xs.foldl (fun _ x => x.after) c

@[simp] theorem lastContext_nil (c : Context) : lastContext c ([] : List (Episode σ)) = c := rfl

@[simp] theorem lastContext_cons (c : Context) (x : Episode σ) (xs : List (Episode σ)) :
    lastContext c (x :: xs) = lastContext x.after xs := rfl

/-- What a run has come to after one more episode. -/
def count (summaryLength : Nat) (t : Tally) (x : Episode σ) : Tally :=
  match x.ending with
  | .ok ending =>
    { t.add (ending.result summaryLength x.step) ending.resources with
      status :=
        if ending.status = .failed then
          if x.step.policy = .stop then .failed else .mixed
        else t.status }
  | .error _ => t

end Episode

namespace Tools

variable [Stack] {σ : Type}

/-- The course of steps from a context and a state of the tools. -/
def course (tools : Tools σ) : List Step → Context → σ → List (Episode σ)
  | [], _, _ => []
  | s :: rest, c, τ =>
    let x := tools.episode s c τ
    x :: if x.goesOn then tools.course rest x.after x.tools else []

variable (tools : Tools σ) (s : Step) (rest : List Step) (c : Context) (τ : σ)

@[simp] theorem course_nil : tools.course [] c τ = [] := rfl

variable {tools s c τ}

/-- After an episode that lets the run go on the other steps have their turn. -/
theorem course_cons_of_goesOn (h : (tools.episode s c τ).goesOn = true) :
    tools.course (s :: rest) c τ =
      tools.episode s c τ ::
        tools.course rest (tools.episode s c τ).after (tools.episode s c τ).tools := by
  simp [course, h]

/-- Any other episode is the last one. -/
theorem course_cons_of_stops (h : (tools.episode s c τ).goesOn = false) :
    tools.course (s :: rest) c τ = [tools.episode s c τ] := by
  simp [course, h]

/-- The first episode of a course does not depend on the others. -/
theorem getElem?_zero_course_cons (s : Step) (rest : List Step) (c : Context) (τ : σ) :
    (tools.course (s :: rest) c τ)[0]? = some (tools.episode s c τ) := by
  cases hg : (tools.episode s c τ).goesOn with
  | true => rw [course_cons_of_goesOn rest hg, List.getElem?_cons_zero]
  | false => rw [course_cons_of_stops rest hg, List.getElem?_cons_zero]

/-- The steps of a course are the first of the steps it was made of. -/
theorem course_prefix (steps : List Step) (c : Context) (τ : σ) :
    (tools.course steps c τ).map Episode.step <+: steps := by
  induction steps generalizing c τ with
  | nil => simp
  | cons s rest ih =>
    cases hg : (tools.episode s c τ).goesOn with
    | true => simpa [course_cons_of_goesOn rest hg] using ih _ _
    | false => simp [course_cons_of_stops rest hg]

/-- All episodes but the last let the run go on. -/
theorem goesOn_of_mem_dropLast {steps : List Step} {c : Context} {τ : σ} {x : Episode σ}
    (h : x ∈ (tools.course steps c τ).dropLast) : x.goesOn = true := by
  induction steps generalizing c τ with
  | nil => simp at h
  | cons s rest ih =>
    cases hg : (tools.episode s c τ).goesOn with
    | false => simp [course_cons_of_stops rest hg] at h
    | true =>
      rw [course_cons_of_goesOn rest hg] at h
      cases rest with
      | nil => simp at h
      | cons s' rest =>
        rw [List.dropLast_cons_of_ne_nil (by simp [course])] at h
        obtain rfl | h := List.mem_cons.1 h
        · exact hg
        · exact ih h

/-- A course whose last episode lets the run go on has an episode for every step. -/
theorem map_step_course {steps : List Step} {c : Context} {τ : σ}
    (h : ∀ x ∈ tools.course steps c τ, x.goesOn = true) :
    (tools.course steps c τ).map Episode.step = steps := by
  induction steps generalizing c τ with
  | nil => rfl
  | cons s rest ih =>
    have hg := h (tools.episode s c τ) (by simp [course])
    rw [course_cons_of_goesOn rest hg] at h ⊢
    simp [ih fun x hx => h x (List.mem_cons_of_mem _ hx)]

/-- Every episode of a course is that of a step in the context and the state of the tools that the
course of the steps before it leaves. -/
theorem split_of_mem_course {steps : List Step} {c : Context} {τ : σ} {x : Episode σ}
    (h : x ∈ tools.course steps c τ) :
    ∃ before s after, steps = before ++ s :: after ∧
      (∀ y ∈ tools.course before c τ, y.goesOn = true) ∧
      x = tools.episode s (Episode.lastContext c (tools.course before c τ))
        (Episode.lastTools τ (tools.course before c τ)) := by
  induction steps generalizing c τ with
  | nil => simp at h
  | cons s rest ih =>
    cases hg : (tools.episode s c τ).goesOn with
    | false =>
      rw [course_cons_of_stops rest hg, List.mem_singleton] at h
      exact ⟨[], s, rest, rfl, by simp, h⟩
    | true =>
      rw [course_cons_of_goesOn rest hg, List.mem_cons] at h
      obtain rfl | h := h
      · exact ⟨[], s, rest, rfl, by simp, rfl⟩
      · obtain ⟨before, s', after, rfl, hall, rfl⟩ := ih h
        refine ⟨s :: before, s', after, rfl, ?_, by simp [course_cons_of_goesOn before hg]⟩
        rw [course_cons_of_goesOn before hg]
        exact List.forall_mem_cons.2 ⟨hg, hall⟩

/-- A course is made of episodes of the tools. -/
theorem exists_episode_of_mem {steps : List Step} {c : Context} {τ : σ} {x : Episode σ}
    (h : x ∈ tools.course steps c τ) : ∃ s c' τ', x = tools.episode s c' τ' := by
  obtain ⟨before, s, after, -, -, hx⟩ := split_of_mem_course h
  exact ⟨s, _, _, hx⟩

/-- **The course of one list of steps after another**: the second has its turn only if every episode
of the first lets the run go on. -/
theorem course_append (before rest : List Step) (c : Context) (τ : σ) :
    tools.course (before ++ rest) c τ =
      let xs := tools.course before c τ
      xs ++ if xs.all Episode.goesOn then
        tools.course rest (Episode.lastContext c xs) (Episode.lastTools τ xs) else [] := by
  induction before generalizing c τ with
  | nil => simp
  | cons s before ih =>
    cases hg : (tools.episode s c τ).goesOn with
    | false => simp [course_cons_of_stops _ hg, hg]
    | true => simp [course_cons_of_goesOn _ hg, hg, ih]

end Tools

/-- The state of a run without what depends on the publisher and the log. -/
structure Stage (σ : Type) where
  context : Context
  tools : σ
  trace : List Happening

/-- The stage that a run is at. -/
def RunState.stage {σ β : Type} (s : RunState σ β) : Stage σ := ⟨s.context, s.tools, s.trace⟩

namespace Engine

variable {σ β : Type} {e : Engine σ β} {i : Identity}

/-! ### Publishing -/

/-- The trace of an event: it is seen only if there is a publisher. -/
def shown (e : Engine σ β) (event : Event) (c : Context) : List Happening :=
  if e.publisher.isSome then [.event event c] else []

/-- Whether publishing an event can end in a cancellation. -/
def CanBeCancelled (e : Engine σ β) : Prop :=
  ∃ p, e.publisher = some p ∧ ∃ b event, (p b event).1 = .cancelled

/-- Whether a run was cancelled while it published one of some events: what happened ends with that
event. -/
def CancelledIn (hs : List Happening) (s s' : RunState σ β) : Prop :=
  ∃ before event after, hs = before ++ .event event s'.context :: after ∧
    s'.trace = s.trace ++ (before ++ [.event event s'.context])

theorem CancelledIn.append {hs : List Happening} {s s' : RunState σ β} (h : CancelledIn hs s s')
    (more : List Happening) : CancelledIn (hs ++ more) s s' := by
  obtain ⟨before, event, after, rfl, ht⟩ := h
  exact ⟨before, event, after ++ more, by simp, ht⟩

theorem CancelledIn.prepend {first hs : List Happening} {s s₁ s' : RunState σ β}
    (h : CancelledIn hs s₁ s') (h₁ : s₁.trace = s.trace ++ first) :
    CancelledIn (first ++ hs) s s' := by
  obtain ⟨before, event, after, rfl, ht⟩ := h
  exact ⟨first ++ before, event, after, by simp, by simp [ht, h₁]⟩

theorem publish_none (h : e.publisher = none) (event : Event) (s : RunState σ β) :
    e.publish event s = .ok () s := by
  simp [publish, h]

theorem publish_some {p : Publisher β} (h : e.publisher = some p) (event : Event)
    (s : RunState σ β) :
    e.publish event s =
      let s' := { s with
        publisher := (p s.publisher event).2
        trace := s.trace ++ [.event event s.context] }
      match (p s.publisher event).1 with
      | .delivered => .ok () s'
      | .failed => .ok () { s' with log := s'.log ++ [.publishFailed event.kind.name] }
      | .cancelled => .error .cancelled s' := by
  simp only [publish, h, RunM.bind_apply, RunM.modifyGet_apply]
  cases (p s.publisher event).1 <;> rfl

theorem publish_ok {event : Event} {s s' : RunState σ β} (h : e.publish event s = .ok () s') :
    s'.stage = ⟨s.context, s.tools, s.trace ++ e.shown event s.context⟩ := by
  cases hp : e.publisher with
  | none =>
    rw [publish_none hp] at h
    cases h
    simp [RunState.stage, shown, hp]
  | some p =>
    rw [publish_some hp] at h
    cases hd : (p s.publisher event).1 <;> simp only [hd] at h <;> cases h <;>
      simp [RunState.stage, shown, hp]

theorem publish_error {event : Event} {s s' : RunState σ β} {a : Abort}
    (h : e.publish event s = .error a s') :
    a = .cancelled ∧ e.CanBeCancelled ∧ CancelledIn (e.shown event s.context) s s' := by
  cases hp : e.publisher with
  | none =>
    rw [publish_none hp] at h
    cases h
  | some p =>
    rw [publish_some hp] at h
    cases hd : (p s.publisher event).1 <;> simp only [hd] at h <;> cases h
    exact ⟨rfl, ⟨p, hp, _, _, hd⟩, [], event, [], by simp [shown, hp], rfl⟩

/-! ### Steps -/

variable [Stack]

/-- The trace of the end of an episode. -/
def closing (e : Engine σ β) (i : Identity) (x : Episode σ) : List Happening :=
  match x.ending with
  | .ok ending => e.shown (i.stepEnded (ending.result e.summaryLength x.step)) x.after
  | .error _ => []

/-- The trace of an episode. -/
def happenings (e : Engine σ β) (i : Identity) (x : Episode σ) : List Happening :=
  e.shown (i.stepStarted x.step) x.before ++ (x.calls ++ e.closing i x)

theorem execute_ok {step : Step} {s s' : RunState σ β} {x : StepResult × List Resource}
    (h : e.execute step s = .ok x s') :
    let y := e.tools.episode step s.context s.tools
    ∃ ending, y.ending = .ok ending ∧
      x = (ending.result e.summaryLength step, ending.resources) ∧
      s'.stage = ⟨y.after, y.tools, s.trace ++ y.calls⟩ := by
  intro y
  rw [execute_eq, playResult] at h
  cases hy : y.ending with
  | error a => simp [y, hy] at h
  | ok ending =>
    simp only [y, hy] at h
    cases h
    exact ⟨ending, rfl, by simp, rfl⟩

theorem execute_error {step : Step} {s s' : RunState σ β} {a : Abort}
    (h : e.execute step s = .error a s') :
    let y := e.tools.episode step s.context s.tools
    y.ending = .error a ∧ s'.stage = ⟨y.after, y.tools, s.trace ++ y.calls⟩ := by
  intro y
  rw [execute_eq, playResult] at h
  cases hy : y.ending with
  | error a => simp only [y, hy] at h; cases h; exact ⟨rfl, rfl⟩
  | ok ending => simp [y, hy] at h

/-- **The turn of a step.** Either its episode ends the step and the other steps follow if it lets
them, or the episode aborts, or an event around it is cancelled. -/
theorem runSteps_cons (e : Engine σ β) (i : Identity) (step : Step) (rest : List Step) (t : Tally)
    (s : RunState σ β) :
    let y := e.tools.episode step s.context s.tools
    let r := e.runSteps i (step :: rest) t s
    (y.Ended ∧ ∃ s', s'.stage = ⟨y.after, y.tools, s.trace ++ e.happenings i y⟩ ∧
      r = if y.goesOn then e.runSteps i rest (y.count e.summaryLength t) s'
        else .ok (y.count e.summaryLength t) s') ∨
    (∃ a s', r = .error a s' ∧ y.ending = .error a ∧
      s'.stage = ⟨y.after, y.tools, s.trace ++ e.happenings i y⟩) ∨
    (∃ s', r = .error .cancelled s' ∧ e.CanBeCancelled ∧ CancelledIn (e.happenings i y) s s') := by
  intro y r
  cases h₁ : e.publish (i.stepStarted step) s with
  | error a s₁ =>
    -- cancelled before the episode
    obtain ⟨rfl, hc, hs⟩ := publish_error h₁
    refine .inr (.inr ⟨s₁, by simp [r, runSteps, h₁], hc, ?_⟩)
    simpa [happenings, y] using hs.append (y.calls ++ e.closing i y)
  | ok u s₁ =>
    have hst₁ := publish_ok h₁
    simp only [RunState.stage, Stage.mk.injEq] at hst₁
    cases h₂ : e.execute step s₁ with
    | error a s₂ =>
      obtain ⟨hy, hst₂⟩ := execute_error h₂
      simp only [hst₁.1, hst₁.2.1] at hy hst₂
      refine .inr (.inl ⟨a, s₂, by simp [r, runSteps, h₁, h₂], hy, ?_⟩)
      simp [hst₂, happenings, closing, y, hy, hst₁.2.2]
    | ok x s₂ =>
      obtain ⟨ending, hy, rfl, hst₂⟩ := execute_ok h₂
      simp only [hst₁.1, hst₁.2.1] at hy hst₂
      simp only [RunState.stage, Stage.mk.injEq] at hst₂
      have hclosing : e.closing i y =
          e.shown (i.stepEnded (ending.result e.summaryLength step)) y.after := by
        simp [closing, y, hy]
      cases h₃ : e.publish (i.stepEnded (ending.result e.summaryLength step)) s₂ with
      | error a s₃ =>
        -- cancelled after the episode
        obtain ⟨rfl, hc, hs⟩ := publish_error h₃
        refine .inr (.inr ⟨s₃, by simp [r, runSteps, h₁, h₂, h₃], hc, ?_⟩)
        rw [hst₂.1] at hs
        simpa [happenings, hclosing, y] using (hs.prepend hst₂.2.2).prepend hst₁.2.2
      | ok u s₃ =>
        have hst₃ := publish_ok h₃
        simp only [RunState.stage, Stage.mk.injEq] at hst₃
        have hstage : s₃.stage = ⟨y.after, y.tools, s.trace ++ e.happenings i y⟩ := by
          simp [RunState.stage, hst₃.1, hst₃.2.1, hst₃.2.2, hst₂.1, hst₂.2.1, hst₂.2.2, hst₁.2.2,
            happenings, hclosing, y]
        refine .inl ⟨⟨ending, hy⟩, ?_⟩
        -- a failure is logged, which is no part of the stage
        by_cases hf : ending.status = .failed
        · refine ⟨{ s₃ with log := s₃.log ++ [.stepFailed step.id step.policy
            ((ending.result e.summaryLength step).error.getD "")] }, hstage, ?_⟩
          by_cases hstop : step.policy = .stop <;>
            simp [r, runSteps, h₁, h₂, h₃, hf, hstop, y, hy, Episode.goesOn, Episode.count]
        · refine ⟨s₃, hstage, ?_⟩
          simp [r, runSteps, h₁, h₂, h₃, hf, y, hy, Episode.goesOn, Episode.count]
          rfl

/-! ### Runs -/

/-- A run of steps that returns has followed their course to the end. -/
theorem runSteps_ok {steps : List Step} {t t' : Tally} {s s' : RunState σ β}
    (h : e.runSteps i steps t s = .ok t' s') :
    let xs := e.tools.course steps s.context s.tools
    (∀ x ∈ xs, x.Ended) ∧ t' = xs.foldl (Episode.count e.summaryLength) t ∧
      s'.stage = ⟨Episode.lastContext s.context xs, Episode.lastTools s.tools xs,
        s.trace ++ xs.flatMap (e.happenings i)⟩ := by
  induction steps generalizing t s with
  | nil =>
    cases h
    simp [RunState.stage]
  | cons step rest ih =>
    obtain ⟨hy, s₁, hs₁, hr⟩ | ⟨a, s₁, hr, -⟩ | ⟨s₁, hr, -⟩ := runSteps_cons e i step rest t s
    · simp only [RunState.stage, Stage.mk.injEq] at hs₁
      rw [h] at hr
      cases hg : (e.tools.episode step s.context s.tools).goesOn with
      | true =>
        rw [hg, if_pos rfl] at hr
        obtain ⟨hall, ht, hs'⟩ := ih hr.symm
        rw [hs₁.1, hs₁.2.1] at hall ht hs'
        simpa [Tools.course_cons_of_goesOn rest hg, hy, ht, hs', hs₁.2.2] using hall
      | false =>
        rw [hg, if_neg Bool.false_ne_true] at hr
        cases hr
        simp [Tools.course_cons_of_stops rest hg, hy, RunState.stage, hs₁]
    · simp [hr] at h
    · simp [hr] at h

/-- A run of steps without result has followed their course to an episode that aborts, or is
cancelled while it publishes an event of it. -/
theorem runSteps_error {steps : List Step} {t : Tally} {s s' : RunState σ β} {a : Abort}
    (h : e.runSteps i steps t s = .error a s') :
    let xs := e.tools.course steps s.context s.tools
    (∃ x ∈ xs, x.ending = .error a ∧
      s'.stage = ⟨Episode.lastContext s.context xs, Episode.lastTools s.tools xs,
        s.trace ++ xs.flatMap (e.happenings i)⟩) ∨
    (a = .cancelled ∧ e.CanBeCancelled ∧ CancelledIn (xs.flatMap (e.happenings i)) s s') := by
  induction steps generalizing t s with
  | nil => cases h
  | cons step rest ih =>
    obtain ⟨hy, s₁, hs₁, hr⟩ | ⟨b, s₁, hr, hb, hs₁⟩ | ⟨s₁, hr, hc, hcan⟩ :=
      runSteps_cons e i step rest t s
    · simp only [RunState.stage, Stage.mk.injEq] at hs₁
      rw [h] at hr
      cases hg : (e.tools.episode step s.context s.tools).goesOn with
      | false => simp [hg] at hr
      | true =>
        rw [hg, if_pos rfl] at hr
        obtain ⟨x, hx, ha, hs'⟩ | ⟨rfl, hc, hcan⟩ := ih hr.symm
        · rw [hs₁.1, hs₁.2.1] at hx hs'
          rw [Tools.course_cons_of_goesOn rest hg]
          exact .inl ⟨x, List.mem_cons_of_mem _ hx, ha, by simp [hs', hs₁.2.2]⟩
        · rw [hs₁.1, hs₁.2.1] at hcan
          refine .inr ⟨rfl, hc, ?_⟩
          rw [Tools.course_cons_of_goesOn rest hg, List.flatMap_cons]
          exact hcan.prepend hs₁.2.2
    · rw [h] at hr
      cases hr
      have hg : (e.tools.episode step s.context s.tools).goesOn = false := by
        simp [Episode.goesOn, hb]
      rw [Tools.course_cons_of_stops rest hg]
      exact .inl ⟨_, List.mem_singleton_self _, hb, by simp [hs₁]⟩
    · rw [h] at hr
      cases hr
      exact .inr ⟨rfl, hc, hcan.append _⟩

/-- What happens in a run that follows a course from a context: its beginning, the episodes, and
its end. -/
def script (e : Engine σ β) (i : Identity) (d : Definition) (c : Context)
    (xs : List (Episode σ)) : List Happening :=
  e.shown (i.workflowStarted d.steps.length) c ++ (xs.flatMap (e.happenings i) ++
    e.shown (i.workflowFinished (xs.foldl (Episode.count e.summaryLength) .start))
      (Episode.lastContext c xs))

section Whole

variable {id : String} {d : Definition} {supplied : Table String Value} {context : Context}
  {tools : σ} {publisher : β}

/-- The course of a run. -/
def courseOf (e : Engine σ β) (d : Definition) (supplied : Table String Value)
    (context : Context) (tools : σ) : List (Episode σ) :=
  e.tools.course d.steps (context.seed d supplied) tools

/-- The steps of the course of a run are the first of the workflow. -/
theorem courseOf_prefix (e : Engine σ β) (d : Definition) (supplied : Table String Value)
    (context : Context) (tools : σ) :
    (e.courseOf d supplied context tools).map Episode.step <+: d.steps :=
  Tools.course_prefix ..

/-- The state of a run whose start is logged. -/
def started (d : Definition) (supplied : Table String Value) (context : Context) (tools : σ)
    (publisher : β) : RunState σ β :=
  ⟨context.seed d supplied, tools, publisher, [], [.runStarting d.name d.steps.length]⟩

theorem run_eq (e : Engine σ β) (id : String) (d : Definition) (supplied : Table String Value)
    (context : Context) (tools : σ) (publisher : β) :
    e.run id d supplied context tools publisher =
      (do
        e.publish (Identity.workflowStarted ⟨d.name, id⟩ d.steps.length)
        let t ← e.runSteps ⟨d.name, id⟩ d.steps .start
        e.publish (Identity.workflowFinished ⟨d.name, id⟩ t)
        RunM.log (.runFinished d.name t.status)
        return ⟨d.name, id, t⟩ : RunM σ β RunResult)
        (started d supplied context tools publisher) := by
  rw [run, runSeeded, EStateM.run, RunM.bind_ok (RunM.log_apply _ _)]
  rfl

/-- **A run that returns has followed its course to the end.** -/
theorem run_ok {r : RunResult} {s : RunState σ β}
    (h : e.run id d supplied context tools publisher = .ok r s) :
    let xs := e.courseOf d supplied context tools
    (∀ x ∈ xs, x.Ended) ∧
      r = ⟨d.name, id, xs.foldl (Episode.count e.summaryLength) .start⟩ ∧
      s.stage = ⟨Episode.lastContext (context.seed d supplied) xs, Episode.lastTools tools xs,
        e.script ⟨d.name, id⟩ d (context.seed d supplied) xs⟩ := by
  simp only [run_eq, RunM.bind_apply] at h
  cases h₁ : e.publish (Identity.workflowStarted ⟨d.name, id⟩ d.steps.length)
      (started d supplied context tools publisher) with
  | error a s₁ => simp [h₁] at h
  | ok u s₁ =>
    cases h₂ : e.runSteps ⟨d.name, id⟩ d.steps .start s₁ with
    | error a s₂ => simp [h₁, h₂] at h
    | ok t s₂ =>
      cases h₃ : e.publish (Identity.workflowFinished ⟨d.name, id⟩ t) s₂ with
      | error a s₃ => simp [h₁, h₂, h₃] at h
      | ok u s₃ =>
        have hst₁ := publish_ok h₁
        obtain ⟨hall, ht, hst₂⟩ := runSteps_ok h₂
        have hst₃ := publish_ok h₃
        simp only [RunState.stage, Stage.mk.injEq, started, List.nil_append] at hst₁ hst₂ hst₃
        simp only [hst₁.1, hst₁.2.1, hst₁.2.2] at hall ht hst₂
        simp only [h₁, h₂, h₃] at h
        cases h
        refine ⟨hall, by rw [ht]; rfl, ?_⟩
        simp [RunState.stage, courseOf, script, hst₂, hst₃, ht]

/-- **A run without result** has followed its course to an episode that aborts, or was cancelled
while it published an event. -/
theorem run_error {a : Abort} {s : RunState σ β}
    (h : e.run id d supplied context tools publisher = .error a s) :
    let xs := e.courseOf d supplied context tools
    let i : Identity := ⟨d.name, id⟩
    (∃ x ∈ xs, x.ending = .error a ∧ s.context = Episode.lastContext (context.seed d supplied) xs ∧
      s.trace = e.shown (i.workflowStarted d.steps.length) (context.seed d supplied) ++
        xs.flatMap (e.happenings i)) ∨
    (a = .cancelled ∧ e.CanBeCancelled ∧
      CancelledIn (e.script i d (context.seed d supplied) xs)
        (started d supplied context tools publisher) s) := by
  intro xs i
  simp only [run_eq, RunM.bind_apply] at h
  cases h₁ : e.publish (i.workflowStarted d.steps.length)
      (started d supplied context tools publisher) with
  | error b s₁ =>
    simp only [i, h₁, EStateM.Result.error.injEq] at h
    obtain ⟨rfl, rfl⟩ := h
    obtain ⟨rfl, hc, hcan⟩ := publish_error h₁
    exact .inr ⟨rfl, hc, hcan.append _⟩
  | ok u s₁ =>
    have hst₁ := publish_ok h₁
    simp only [RunState.stage, Stage.mk.injEq, started, List.nil_append] at hst₁
    have hxs : e.tools.course d.steps s₁.context s₁.tools = xs := by rw [hst₁.1, hst₁.2.1]; rfl
    cases h₂ : e.runSteps i d.steps .start s₁ with
    | error b s₂ =>
      simp only [i, h₁, h₂, EStateM.Result.error.injEq] at h
      obtain ⟨rfl, rfl⟩ := h
      -- what the steps came to, after the event of the start
      obtain ⟨x, hx, ha, hst₂⟩ | ⟨rfl, hc, hcan⟩ := runSteps_error h₂
      · simp only [RunState.stage, Stage.mk.injEq, hxs] at hx hst₂
        rw [hst₁.1, hst₁.2.2] at hst₂
        exact .inl ⟨x, hx, ha, hst₂.1, hst₂.2.2⟩
      · rw [hxs] at hcan
        exact .inr ⟨rfl, hc, (hcan.append _).prepend hst₁.2.2⟩
    | ok t s₂ =>
      obtain ⟨-, ht, hst₂⟩ := runSteps_ok h₂
      simp only [RunState.stage, Stage.mk.injEq, hxs] at ht hst₂
      rw [hst₁.1, hst₁.2.2] at hst₂
      cases h₃ : e.publish (i.workflowFinished t) s₂ with
      | ok u s₃ => simp [i, h₁, h₂, h₃] at h
      | error b s₃ =>
        simp only [i, h₁, h₂, h₃, EStateM.Result.error.injEq] at h
        obtain ⟨rfl, rfl⟩ := h
        obtain ⟨rfl, hc, hcan⟩ := publish_error h₃
        rw [hst₂.1, ht] at hcan
        refine .inr ⟨rfl, hc, ?_⟩
        rw [script, ← List.append_assoc]
        exact hcan.prepend hst₂.2.2

/-- **A run returns** unless an episode of its course aborts or the publisher cancels it. -/
theorem run_returns (hp : ¬ e.CanBeCancelled)
    (hx : ∀ x ∈ e.courseOf d supplied context tools, x.Ended) :
    ∃ r s, e.run id d supplied context tools publisher = .ok r s := by
  cases h : e.run id d supplied context tools publisher with
  | ok r s => exact ⟨r, s, rfl⟩
  | error a s =>
    obtain ⟨x, hmem, ha, -⟩ | ⟨-, hc, -⟩ := run_error h
    · obtain ⟨ending, hend⟩ := hx x hmem
      simp [hend] at ha
    · exact absurd hc hp

end Whole

end Engine

/-! ### A sample

A workflow of five steps whose turns come out in every way there is: skipped, failed with the run
going on, succeeded with a variable mapped, failed with the run stopped, and left out. -/

namespace Sample

/-- A step of the workflow. -/
def step (id tool : String) (condition : Option (Option String))
    (mapping : Option (Table String String)) (policy : Option Policy) : Step :=
  ⟨id, id, tool, [("seen", .str "$\x7bvariables.n\x7d")], condition, mapping, policy⟩

/-- The workflow. -/
def definition : Definition :=
  ⟨"sample", "A sample", none, none,
    [step "first" "make" (some "variables.absent") none none,
      step "second" "break" none none (some .continue),
      step "third" "make" (some "variables.n == 1") (some [("n", "id")]) none,
      step "fourth" "break" none none none,
      step "fifth" "make" none none none]⟩

/-- A step of the document. -/
def entry (id tool : String) (more : List (String × Value)) : Value :=
  .ofFields ([("id", .str id), ("name", .str id), ("tool", .str tool),
    ("parameters", .ofFields [("seen", .str "$\x7bvariables.n\x7d")])] ++ more)

/-- The document of the workflow. -/
def document : Value :=
  .ofFields [("name", .str "sample"), ("description", .str "A sample"),
    ("steps", .list [
      entry "first" "make" [("condition", .str "variables.absent")],
      entry "second" "break" [("on_error", .str "continue")],
      entry "third" "make" [("condition", .str "variables.n == 1"),
        ("output_mapping", .ofFields [("n", .str "id")])],
      entry "fourth" "break" [],
      entry "fifth" "make" []])]

theorem ofDocument_document : Definition.ofDocument document = .ok definition := rfl

/-- Two tools, one of which is broken; they count their calls. -/
def tools : Tools Nat := fun n tool _ =>
  (if tool = "make" then
    .returned (.response (.ok "\x7b\"id\": 7, \"at\": \"https://k/slo/7\"\x7d"))
  else .raised "TimeoutError" (.ok ""), n + 1)

/-- An engine with the tools and a publisher. -/
def engine : Engine Nat Unit := ⟨tools, some .delivering, 5⟩

theorem not_canBeCancelled : ¬ engine.CanBeCancelled := by
  rintro ⟨p, hp, b, event, hc⟩
  cases hp
  cases hc

/-- The states of the steps in the result of a run. -/
def statuses {σ β : Type} : EStateM.Result Abort (RunState σ β) RunResult → List StepStatus
  | .ok r _ => r.tally.results.map StepResult.status
  | .error _ _ => []

/-- The sample returns, with the states that are expected. -/
theorem run_returns_sample : ∃ r s,
    engine.run "run" definition [("n", .int 1)] .empty 0 () = .ok r s ∧
      r.tally.results.map StepResult.status = [.skipped, .failed, .success, .failed] := by
  have h : statuses (engine.run "run" definition [("n", .int 1)] .empty 0 ()) =
      [.skipped, .failed, .success, .failed] := by decide +kernel
  cases hrun : engine.run "run" definition [("n", .int 1)] .empty 0 () with
  | ok r s => exact ⟨r, s, rfl, by simpa [statuses, hrun] using h⟩
  | error a s => simp [statuses, hrun] at h

end Sample
end Runbook
