import Runbook.Proofs.Run.Tally
import Mathlib.Data.List.Basic

/-!
# Lifecycles

The published events and the tool calls of a run that returns, in the order in which they happened.
Nothing but the steps and their results decides them (`lifecycle`), and `run_lifecycle` is the proof
that a run has no other. Without a publisher only the calls are left.
-/

namespace Runbook

/-- What others see of a run: the tools it calls and the events it publishes. -/
inductive Mark
  | call (tool : String)
  | event (e : Event)

/-- Whether a mark is a call. -/
def Mark.isCall : Mark → Bool
  | call _ => true
  | event _ => false

/-- The mark of a happening. -/
def Happening.mark : Happening → Mark
  | .call tool _ _ => .call tool
  | .event e _ => .event e

namespace Engine
namespace Identity

/-- The marks of a step with its result: its start, its call unless it was skipped, and how it
ended, with the error exactly when it failed. -/
def turn (i : Identity) (p : Step × StepResult) : List Mark :=
  .event (i.event .stepStarted [("step_id", .str p.1.id), ("tool", .str p.1.tool)]) ::
    ((if p.2.status = .skipped then [] else [.call p.1.tool]) ++
      [.event (i.event (.stepEnded p.2.status)
        ([("step_id", .str p.1.id), ("tool", .str p.1.tool)] ++
          if p.2.status = .failed then [("error", .str (p.2.error.getD ""))] else []))])

/-- The marks of a run of steps that came to a tally: its start, the turns of the steps that have a
result, and its end. -/
def lifecycle (i : Identity) (steps : List Step) (t : Tally) : List Mark :=
  .event (i.event .workflowStarted [("step_count", .int steps.length)]) ::
    ((steps.zip t.results).flatMap i.turn ++
      [.event (i.event .workflowFinished [("status", .str t.status.text),
        ("step_count", .int t.results.length),
        ("success_count", .int (t.results.filter (·.status = .success)).length)])])

end Identity

variable {σ β : Type}

/-- Whether there is anyone to see a mark: events are seen only if there is a publisher. -/
def sees (e : Engine σ β) (m : Mark) : Bool :=
  m.isCall || e.publisher.isSome

variable {e : Engine σ β} {i : Identity}

theorem map_mark_shown (event : Event) (c : Context) :
    (e.shown event c).map Happening.mark = [Mark.event event].filter e.sees := by
  cases h : e.publisher <;> simp [shown, sees, Happening.mark, Mark.isCall, h]

/-- The event at the end of a step, in terms of its state. -/
theorem stepEnded_result (n : Nat) (s : Step) (ending : Ending) :
    i.stepEnded (ending.result n s) =
      i.event (.stepEnded ending.status) ([("step_id", .str s.id), ("tool", .str s.tool)] ++
        if ending.status = .failed then [("error", .str ((ending.result n s).error.getD ""))]
        else []) := by
  cases ending <;> rfl

variable [Stack]

/-- An episode that ends its step calls the tool of the step unless it is skipped. -/
theorem map_mark_calls {tools : Tools σ} {s : Step} {c : Context} {τ : σ} {ending : Ending}
    (h : (tools.episode s c τ).ending = .ok ending) :
    (tools.episode s c τ).calls.map Happening.mark =
      (if ending.status = .skipped then [] else [.call s.tool]) := by
  have hcall := parameters_isSome_iff h
  cases hp : (tools.episode s c τ).parameters with
  | none =>
    have hskipped : ending.status = .skipped := by simpa [hp] using hcall
    simp [Episode.calls, hp, hskipped]
  | some ps =>
    have hskipped : ending.status ≠ .skipped := by simpa [hp] using hcall
    simp [Episode.calls, hp, hskipped, Happening.mark]

/-- **The turn of a step**: what is seen of an episode that ends its step. -/
theorem map_mark_happenings {tools : Tools σ} {s : Step} {c : Context} {τ : σ}
    (h : (tools.episode s c τ).Ended) :
    (e.happenings i (tools.episode s c τ)).map Happening.mark =
      (((tools.episode s c τ).endings.map (resultPair e.summaryLength)).flatMap i.turn).filter
        e.sees := by
  obtain ⟨ending, hx⟩ := h
  have hcalls : (tools.episode s c τ).calls.map Happening.mark =
      (if ending.status = .skipped then [] else [Mark.call s.tool]).filter e.sees := by
    rw [map_mark_calls hx]
    split <;> simp [sees, Mark.isCall]
  have hclosing : (e.closing i (tools.episode s c τ)).map Happening.mark =
      [Mark.event (i.stepEnded (ending.result e.summaryLength s))].filter e.sees := by
    rw [closing, hx, episode_step]
    exact map_mark_shown ..
  rw [happenings, List.map_append, List.map_append, hcalls, hclosing, map_mark_shown,
    ← List.filter_append, ← List.filter_append, episode_step, stepEnded_result]
  simp [Episode.endings, hx, Identity.turn, resultPair, Identity.stepStarted]

/-- **What is seen of a run that returns**: the marks of its lifecycle and no others. A result holds
an error exactly when it is that of a failed step. -/
theorem run_lifecycle {id : String} {d : Definition} {supplied : Table String Value}
    {context : Context} {tools : σ} {publisher : β} {r : RunResult} {s : RunState σ β}
    (h : e.run id d supplied context tools publisher = .ok r s) :
    s.trace.map Happening.mark =
        (Identity.lifecycle ⟨d.name, id⟩ d.steps r.tally).filter e.sees ∧
      r.tally.results.length ≤ d.steps.length ∧
      ∀ p ∈ d.steps.zip r.tally.results, p.2.label = p.1.label ∧
        (p.2.error.isSome ↔ p.2.status = .failed) := by
  have hpairs := zip_results h
  obtain ⟨hended, rfl, hstage⟩ := run_ok h
  simp only [RunState.stage, Stage.mk.injEq] at hstage
  have hturns : ((e.courseOf d supplied context tools).flatMap (e.happenings ⟨d.name, id⟩)).map
        Happening.mark =
      ((((e.courseOf d supplied context tools).flatMap Episode.endings).map
        (resultPair e.summaryLength)).flatMap (Identity.turn ⟨d.name, id⟩)).filter e.sees := by
    rw [List.map_flatMap, List.map_flatMap, List.flatMap_assoc, List.filter_flatMap]
    refine List.flatMap_congr fun x hx => ?_
    obtain ⟨s', c', τ', rfl⟩ := Tools.exists_episode_of_mem hx
    exact map_mark_happenings (hended _ hx)
  refine ⟨?_, ?_, ?_⟩
  · rw [hstage.2.2, script, List.map_append, List.map_append, hturns, map_mark_shown,
      map_mark_shown, ← List.filter_append, ← List.filter_append, Identity.lifecycle, hpairs]
    rfl
  · have hlength := (e.courseOf_prefix d supplied context tools).length_le
    rw [← Episode.map_fst_endings hended] at hlength
    simpa [results_course] using hlength
  · intro p hp
    rw [hpairs] at hp
    obtain ⟨z, -, rfl⟩ := List.mem_map.1 hp
    exact ⟨by simp [resultPair, StepResult.label, Step.label], by
      simpa [resultPair] using Ending.result_error e.summaryLength z.1 z.2⟩

end Engine

namespace Engine

theorem run_lifecycle_sample : ∃ r s,
    Sample.engine.run "run" Sample.definition [("n", .int 1)] .empty 0 () = .ok r s ∧
      s.trace.map Happening.mark = (Identity.lifecycle ⟨Sample.definition.name, "run"⟩
        Sample.definition.steps r.tally).filter Sample.engine.sees := by
  obtain ⟨r, s, h, -⟩ := Sample.run_returns_sample
  exact ⟨r, s, h, (run_lifecycle h).1⟩

end Engine
end Runbook
