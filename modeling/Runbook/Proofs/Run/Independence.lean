import Runbook.Proofs.Bus
import Runbook.Proofs.Run.Upshot

/-!
# Independence of the event bus

A run that no event bus cancels comes to what its course comes to, and the course does not depend on
the bus. So a run comes to the same without a bus, with one that raises exceptions, and with one in
memory whose handlers do what they like.

* `IsBus`: the event buses in question, none of which cancels a run;
* `upshotOf_run`: what a run comes to, with a result or without, in terms of its course;
* `run_independent`: runs with any two buses come to the same.
-/

namespace Runbook

/-- The event buses of runs: none, one that delivers or raises ordinary exceptions as it likes, and
one in memory on which every publishing ends, whose handlers raise at most ordinary exceptions. -/
inductive IsBus : {β : Type} → Option (Publisher β) → Prop
  | absent {β : Type} : IsBus (none : Option (Publisher β))
  | raising {β : Type} {p : Publisher β}
      (h : ∀ b event, (p b event).1 = .delivered ∨ (p b event).1 = .failed) : IsBus (some p)
  | inMemory {γ : Type} {react : Bus.Reactions γ} {p : Publisher (Bus.Memory γ)}
      (hreact : ∀ handler n, (react handler n).NeverCancels)
      (hp : ∀ m event, ∃ own,
        Bus.Delivers react (.ofEvent event) 0 m own (p m event).1 (p m event).2) :
      IsBus (some p)

/-- None of the event buses cancels a run. -/
theorem IsBus.ne_cancelled {β : Type} {p : Publisher β} (h : IsBus (some p)) (b : β)
    (event : Event) : (p b event).1 ≠ .cancelled := by
  cases h with
  | raising h => obtain h | h := h b event <;> simp [h]
  | inMemory hreact hp =>
    obtain ⟨own, hdelivers⟩ := hp b event
    exact Bus.delivers_ne_cancelled hreact hdelivers

namespace Bus

/-- The executable bus as a publisher. -/
def publisher (handlers : Handlers) : Publisher (Memory (List String)) := fun m event =>
  let q := publish handlers event.kind.name event.payload ⟨m.subscriptions, m.memory⟩
  (q.delivery, q.state.memory)

/-- The executable bus is one in memory, unless a handler cancels. -/
theorem isBus_publisher {handlers : Handlers} (h : ∀ e ∈ handlers, ∀ a ∈ e.2, a ≠ .cancel) :
    IsBus (some (publisher handlers)) :=
  .inMemory (neverCancels_scripted handlers h) fun m event =>
    delivers_publish handlers (.ofEvent event) ⟨m.subscriptions, m.memory⟩

end Bus

namespace Episode

variable {σ : Type}

/-- Why the run ends with an episode, if it does. -/
def abort? (x : Episode σ) : Option Abort :=
  match x.ending with
  | .ok _ => none
  | .error a => some a

theorem abort?_of_ended {x : Episode σ} (h : x.Ended) : x.abort? = none := by
  obtain ⟨ending, hx⟩ := h
  simp [abort?, hx]

end Episode

/-- At most one episode of a course aborts. -/
theorem findSome?_abort? [Stack] {σ : Type} {tools : Tools σ} {steps : List Step} {c : Context}
    {τ : σ}
    {x : Episode σ} {a : Abort} (hx : x ∈ tools.course steps c τ) (ha : x.ending = .error a) :
    (tools.course steps c τ).findSome? Episode.abort? = some a := by
  induction steps generalizing c τ with
  | nil => simp at hx
  | cons s rest ih =>
    cases hg : (tools.episode s c τ).goesOn with
    | true =>
      rw [Tools.course_cons_of_goesOn rest hg] at hx ⊢
      rw [List.findSome?_cons, Episode.abort?_of_ended (.of_goesOn hg)]
      obtain rfl | hx := List.mem_cons.1 hx
      · simp [Episode.goesOn, ha] at hg
      · exact ih hx
    | false =>
      rw [Tools.course_cons_of_stops rest hg] at hx ⊢
      obtain rfl := List.mem_singleton.1 hx
      simp [Episode.abort?, ha]

namespace Engine

variable [Stack] {σ β : Type}

/-- What is left of a run without result: why it ended, the calls it made and its context. -/
abbrev Remains := Abort × List (String × Table String Value) × Context

/-- What a run comes to, with a result or without. -/
def upshotOf : EStateM.Result Abort (RunState σ β) RunResult → Except Remains (Upshot σ)
  | .ok r s => .ok (r.upshot s)
  | .error a s => .error (a, callsIn s.trace, s.context)

/-- What a course comes to, with a result or without. -/
def upshotOfCourse (n : Nat) (c : Context) (τ : σ) (xs : List (Episode σ)) :
    Except Remains (Upshot σ) :=
  match xs.findSome? Episode.abort? with
  | none => .ok (.ofCourse n c τ xs)
  | some a => .error (a, callsIn (xs.flatMap Episode.calls), Episode.lastContext c xs)

variable {e : Engine σ β} {id : String} {d : Definition} {supplied : Table String Value}
  {context : Context} {tools : σ} {publisher : β}

/-- The course of a run that returns comes to what the run comes to. -/
theorem upshotOfCourse_of_returns {r : RunResult} {s : RunState σ β}
    (h : e.run id d supplied context tools publisher = .ok r s) :
    upshotOfCourse e.summaryLength (context.seed d supplied) tools
      (e.courseOf d supplied context tools) = .ok (r.upshot s) := by
  have hnone : (e.courseOf d supplied context tools).findSome? Episode.abort? = none :=
    List.findSome?_eq_none_iff.2 fun x hx => Episode.abort?_of_ended ((run_ok h).1 x hx)
  rw [upshotOfCourse, hnone, upshot_eq h]

/-- A run that is not cancelled comes to what its course comes to. -/
theorem upshotOf_run (hp : ¬ e.CanBeCancelled) :
    upshotOf (e.run id d supplied context tools publisher) =
      upshotOfCourse e.summaryLength (context.seed d supplied) tools
        (e.courseOf d supplied context tools) := by
  cases h : e.run id d supplied context tools publisher with
  | ok r s => rw [upshotOf, upshotOfCourse_of_returns h]
  | error a s =>
    unfold upshotOfCourse
    obtain ⟨x, hx, ha, hcontext, htrace⟩ | ⟨-, hc, -⟩ := run_error h
    · have hsome : (e.courseOf d supplied context tools).findSome? Episode.abort? = some a :=
        findSome?_abort? hx ha
      rw [upshotOf, hsome, hcontext, htrace, callsIn_append, callsIn_shown,
        callsIn_flatMap_happenings, List.nil_append]
    · exact absurd hc hp

/-- **Runs with any two event buses come to the same**: the same tool calls with the same
parameters, the same results, resources and status, and the same context, whatever the buses hold.
-/
theorem run_independent {β₁ β₂ : Type} {tools : Tools σ} {n : Nat} {p₁ : Option (Publisher β₁)}
    {p₂ : Option (Publisher β₂)} (h₁ : IsBus p₁) (h₂ : IsBus p₂) (id₁ id₂ : String)
    (d : Definition) (supplied : Table String Value) (context : Context) (τ : σ) (b₁ : β₁)
    (b₂ : β₂) :
    upshotOf ((Engine.mk tools p₁ n).run id₁ d supplied context τ b₁) =
      upshotOf ((Engine.mk tools p₂ n).run id₂ d supplied context τ b₂) := by
  have hp₁ : ¬ (Engine.mk tools p₁ n).CanBeCancelled := by
    rintro ⟨p, rfl, b, event, hc⟩
    exact h₁.ne_cancelled b event hc
  have hp₂ : ¬ (Engine.mk tools p₂ n).CanBeCancelled := by
    rintro ⟨p, rfl, b, event, hc⟩
    exact h₂.ne_cancelled b event hc
  rw [upshotOf_run hp₁, upshotOf_run hp₂]
  rfl

end Engine

namespace Engine

/-- Handlers that tamper with payloads, raise exceptions, and subscribe and publish on their own. -/
def Sample.handlers : Bus.Handlers :=
  [("tamper", [.set "status" (.str "failed"), .set "step_id" (.str "other"),
      .subscribe "workflow.finished" "late", .publish "workflow.step.started"]),
    ("noisy", [.publish "workflow.step.started", .fail]),
    ("late", [.set "step_count" (.int 0), .fail])]

/-- Who is subscribed before the run. -/
def Sample.subscriptions : Table String (List String) :=
  [("workflow.started", ["tamper"]), ("workflow.step.started", ["noisy", "tamper"]),
    ("workflow.step.failed", ["noisy"]), ("workflow.finished", ["tamper"])]

/-- A bus that raises an exception on every second call. -/
def Sample.flaky : Publisher Nat := fun n _ => (if n % 2 = 0 then .failed else .delivered, n + 1)

/-- The sample run without a bus, with a flaky one, and with one whose handlers interfere. -/
theorem run_independent_sample :
    IsBus (none : Option (Publisher Unit)) ∧ IsBus (some Sample.flaky) ∧
    IsBus (some (Bus.publisher Sample.handlers)) ∧
    upshotOf ((Engine.mk Sample.tools (none : Option (Publisher Unit)) 5).run "silent"
        Sample.definition [("n", .int 1)] .empty 0 ()) =
      upshotOf ((Engine.mk Sample.tools (some (Bus.publisher Sample.handlers)) 5).run "watched"
        Sample.definition [("n", .int 1)] .empty 0 ⟨Sample.subscriptions, []⟩) ∧
    upshotOf ((Engine.mk Sample.tools (none : Option (Publisher Unit)) 5).run "silent"
        Sample.definition [("n", .int 1)] .empty 0 ()) =
      upshotOf ((Engine.mk Sample.tools (some Sample.flaky) 5).run "noisy"
        Sample.definition [("n", .int 1)] .empty 0 0) := by
  have hflaky : IsBus (some Sample.flaky) := by
    refine .raising fun n event => ?_
    unfold Sample.flaky
    by_cases hn : n % 2 = 0
    · exact .inr (if_pos hn)
    · exact .inl (if_neg hn)
  have hmemory : IsBus (some (Bus.publisher Sample.handlers)) :=
    Bus.isBus_publisher (by simp [Sample.handlers])
  exact ⟨.absent, hflaky, hmemory, run_independent .absent hmemory ..,
    run_independent .absent hflaky ..⟩

end Engine
end Runbook
