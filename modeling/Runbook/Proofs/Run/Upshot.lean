import Runbook.Proofs.Run.Tally

/-!
# Upshots

What a run that returns comes to, its events and its log aside. It is read off the course of the run
(`upshot_eq`), and the upshot of one list of steps after another is put together from their upshots:

* `Episode.results_count`, `Episode.callsIn_course`: the results and the calls of a course are those
  of its episodes;
* `Tally.andThen`, `Upshot.andThen`: one run after another;
* `ofCourse_append`: the upshot of a course in two parts;
* `run_append`: the run of a workflow in two parts.
-/

namespace Runbook

namespace Tally

/-- What two runs have come to, the second one after the first. -/
def andThen (t u : Tally) : Tally where
  results := t.results ++ u.results
  resources := t.resources ++ u.resources
  status :=
    if u.status = .failed then .failed
    else if t.status = .mixed ∨ u.status = .mixed then .mixed
    else .success

/-- Before its first step a run adds nothing to one that did not fail. -/
theorem andThen_start {t : Tally} (h : t.status ≠ .failed) : t.andThen .start = t := by
  obtain ⟨results, resources, status⟩ := t
  cases status <;> simp_all [andThen, start]

end Tally

namespace Episode

variable {σ : Type}

/-- An episode counts in the same way after another run. -/
theorem count_andThen (n : Nat) (t u : Tally) (x : Episode σ) :
    x.count n (t.andThen u) = t.andThen (x.count n u) := by
  unfold count
  cases x.ending with
  | error a => rfl
  | ok ending =>
    by_cases hf : ending.status = .failed
    · by_cases hs : x.step.policy = .stop <;> simp [Tally.andThen, Tally.add, hf, hs]
    · simp [Tally.andThen, Tally.add, hf]

/-- A course counts in the same way after another run. -/
theorem foldl_count_andThen (n : Nat) (t u : Tally) (xs : List (Episode σ)) :
    xs.foldl (count n) (t.andThen u) = t.andThen (xs.foldl (count n) u) := by
  induction xs generalizing u with
  | nil => rfl
  | cons x xs ih => rw [List.foldl_cons, List.foldl_cons, count_andThen, ih]

theorem lastContext_append [Stack] (c : Context) (xs ys : List (Episode σ)) :
    lastContext c (xs ++ ys) = lastContext (lastContext c xs) ys :=
  List.foldl_append

theorem lastTools_append (τ : σ) (xs ys : List (Episode σ)) :
    lastTools τ (xs ++ ys) = lastTools (lastTools τ xs) ys :=
  List.foldl_append

/-- The call of an episode, if there is one. -/
def call? (x : Episode σ) : Option (String × Table String Value) :=
  x.parameters.map fun ps => (x.step.tool, ps)

/-- The result of an episode, unless it aborted. -/
def result? (n : Nat) (x : Episode σ) : Option StepResult :=
  match x.ending with
  | .ok ending => some (ending.result n x.step)
  | .error _ => none

theorem callsIn_calls (x : Episode σ) : callsIn x.calls = x.call?.toList := by
  cases h : x.parameters <;> simp [calls, call?, callsIn, Happening.call?, h]

theorem isSome_result? (n : Nat) {x : Episode σ} (h : x.Ended) : (x.result? n).isSome := by
  obtain ⟨ending, hx⟩ := h
  simp [result?, hx]

theorem callsIn_course (xs : List (Episode σ)) :
    callsIn (xs.flatMap calls) = (xs.map call?).flatMap Option.toList := by
  induction xs with
  | nil => rfl
  | cons x xs ih => rw [List.flatMap_cons, callsIn_append, callsIn_calls, ih]; rfl

/-- The result at a place is that of the episode there. -/
theorem getElem?_filterMap_result? (k : Nat) {xs : List (Episode σ)} (h : ∀ x ∈ xs, x.Ended)
    (n : Nat) : (xs.filterMap (result? k))[n]? = xs[n]?.bind (result? k) := by
  induction xs generalizing n with
  | nil => rfl
  | cons x xs ih =>
    obtain ⟨result, hx⟩ := Option.isSome_iff_exists.1 (isSome_result? k (h x List.mem_cons_self))
    rw [List.filterMap_cons_some hx]
    cases n with
    | zero => simp [hx]
    | succ n => simpa using ih (fun y hy => h y (List.mem_cons_of_mem _ hy)) n

theorem results_count (n : Nat) (xs : List (Episode σ)) :
    (xs.foldl (count n) .start).results = xs.filterMap (result? n) := by
  rw [Engine.results_course]
  induction xs with
  | nil => rfl
  | cons x xs ih => cases h : x.ending <;> simpa [endings, result?, resultPair, h] using ih

/-- The resources of a course are those of its steps. -/
theorem resources_count (n : Nat) (xs : List (Episode σ)) :
    (xs.foldl (count n) .start).resources =
      xs.flatMap fun x => x.endings.flatMap fun z => z.2.resources := by
  rw [foldl_count, resources_tallyOf, List.flatMap_assoc]
  rfl

variable [Stack]

/-- What the results of a course say about its status, unless it failed. -/
theorem status_course (n : Nat) {tools : Tools σ} {steps : List Step} {c : Context} {τ : σ}
    (h : ∀ x ∈ tools.course steps c τ, x.Ended) :
    let t := (tools.course steps c τ).foldl (count n) .start
    t.status = if t.status = .failed then .failed
      else if ∃ x ∈ t.results, x.status = .failed then .mixed else .success := by
  intro t
  obtain ⟨-, hmixed, hsuccess⟩ := status_tallyOf_start (not_stops_of_mem_dropLast (n := n) h)
  rw [← foldl_count, ← Engine.results_course] at hmixed hsuccess
  by_cases hf : t.status = .failed
  · rw [if_pos hf, hf]
  · rw [if_neg hf]
    by_cases hx : ∃ x ∈ t.results, x.status = .failed
    · rw [if_pos hx]
      cases ht : t.status with
      | failed => exact absurd ht hf
      | mixed => rfl
      | success =>
        obtain ⟨x, hmem, hfailed⟩ := hx
        exact absurd hfailed (hsuccess.1 ht x hmem)
    · rw [if_neg hx]
      exact hsuccess.2 fun x hmem hfailed => hx ⟨x, hmem, hfailed⟩

end Episode

/-- What a run comes to: its results with their resources and its status, the calls it made, and the
context and the tools as it leaves them. -/
structure Upshot (σ : Type) where
  tally : Tally
  calls : List (String × Table String Value)
  context : Context
  tools : σ

namespace Upshot

variable [Stack] {σ : Type}

/-- One run after another. -/
def andThen (u v : Upshot σ) : Upshot σ where
  tally := u.tally.andThen v.tally
  calls := u.calls ++ v.calls
  context := v.context
  tools := v.tools

/-- What a course comes to. -/
def ofCourse (n : Nat) (c : Context) (τ : σ) (xs : List (Episode σ)) : Upshot σ where
  tally := xs.foldl (Episode.count n) .start
  calls := callsIn (xs.flatMap Episode.calls)
  context := Episode.lastContext c xs
  tools := Episode.lastTools τ xs

/-- **A course in two parts**: the second part starts where the first one, which has not failed,
ends. -/
theorem ofCourse_append {n : Nat} {c : Context} {τ : σ} {xs : List (Episode σ)} {u : Upshot σ}
    (hu : u = ofCourse n c τ xs) (h : u.tally.status ≠ .failed) (ys : List (Episode σ)) :
    ofCourse n c τ (xs ++ ys) = u.andThen (ofCourse n u.context u.tools ys) := by
  subst hu
  have htally : (xs ++ ys).foldl (Episode.count n) .start =
      (xs.foldl (Episode.count n) .start).andThen (ys.foldl (Episode.count n) .start) := by
    rw [List.foldl_append, ← Episode.foldl_count_andThen]
    exact congrArg (ys.foldl (Episode.count n)) (Tally.andThen_start h).symm
  simp only [ofCourse, andThen, htally, List.flatMap_append, callsIn_append,
    Episode.lastContext_append, Episode.lastTools_append]

end Upshot

/-- What a run that returned came to. -/
def RunResult.upshot {σ β : Type} (r : RunResult) (s : RunState σ β) : Upshot σ :=
  ⟨r.tally, callsIn s.trace, s.context, s.tools⟩

/-- Seeding looks at the variables of a workflow, not at its steps. -/
@[simp] theorem Context.seed_with_steps (c : Context) (d : Definition) (steps : List Step)
    (supplied : Table String Value) :
    c.seed { d with steps := steps } supplied = c.seed d supplied :=
  rfl

/-- A context seeded for a workflow without variables, with none supplied, stays as it is. -/
theorem Context.seed_of_declarations_none (c : Context) {d : Definition}
    (h : d.declarations = none) : c.seed d [] = c := by
  simp [Context.seed, seedVariables, Definition.declared, h, Table.update]

namespace Engine

variable [Stack] {σ β : Type} {e : Engine σ β} {id : String} {d : Definition}
  {supplied : Table String Value} {context : Context} {tools : σ} {publisher : β}

/-- A run that returns comes to what its course comes to. -/
theorem upshot_eq {r : RunResult} {s : RunState σ β}
    (h : e.run id d supplied context tools publisher = .ok r s) :
    r.upshot s = .ofCourse e.summaryLength (context.seed d supplied) tools
      (e.courseOf d supplied context tools) := by
  obtain ⟨-, rfl, hstage⟩ := run_ok h
  simp only [RunState.stage, Stage.mk.injEq] at hstage
  simp only [RunResult.upshot, Upshot.ofCourse, hstage.1, hstage.2.1, hstage.2.2, callsIn_script]

/-- The course of a workflow in two parts: the second has its turn only if the run of the first does
not fail, and then goes on from what that run leaves. -/
theorem courseOf_append {steps : List Step} (more : List Step) {id₁ : String} {b₁ : β}
    {r₁ : RunResult} {s₁ : RunState σ β}
    (h : e.run id₁ { d with steps := steps } supplied context tools b₁ = .ok r₁ s₁) :
    e.courseOf { d with steps := steps ++ more } supplied context tools =
      e.courseOf { d with steps := steps } supplied context tools ++
        if r₁.tally.status = .failed then []
        else e.courseOf { d with steps := more, declarations := none } [] s₁.context s₁.tools := by
  obtain ⟨hended, hr₁, hstage⟩ := run_ok h
  simp only [RunState.stage, Stage.mk.injEq] at hstage
  have hseed : s₁.context.seed { d with steps := more, declarations := none } [] = s₁.context :=
    Context.seed_of_declarations_none _ rfl
  have hall : r₁.tally.status ≠ .failed ↔
      (e.courseOf { d with steps := steps } supplied context tools).all Episode.goesOn = true := by
    rw [hr₁, List.all_eq_true]
    exact Episode.status_ne_failed_iff hended
  rw [courseOf, Tools.course_append]
  -- the declared defaults are those of the whole workflow
  change e.courseOf { d with steps := steps } supplied context tools ++ _ = _
  congr 1
  by_cases hf : r₁.tally.status = .failed
  · rw [if_pos hf]
    exact if_neg fun hg => hall.2 hg hf
  · rw [if_neg hf, courseOf, hseed, hstage.1, hstage.2.1]
    exact if_pos (hall.1 hf)

/-- **The run of a workflow in two parts.** If the run of the first part fails, the run of the whole
comes to the same. Otherwise it comes to what the run of the first part comes to and then the run of
the second, as a workflow without variables, on the context and the tools that the first leaves; and
that run returns unless the publisher cancels it. -/
theorem run_append {steps : List Step} (more : List Step) {id₁ : String} {b₁ : β} {r r₁ : RunResult}
    {s s₁ : RunState σ β}
    (h : e.run id { d with steps := steps ++ more } supplied context tools publisher = .ok r s)
    (h₁ : e.run id₁ { d with steps := steps } supplied context tools b₁ = .ok r₁ s₁) :
    (r₁.tally.status = .failed → r.upshot s = r₁.upshot s₁) ∧
      (r₁.tally.status ≠ .failed → ∀ id₂ b₂,
        (∀ r₂ s₂,
          e.run id₂ { d with steps := more, declarations := none } [] s₁.context s₁.tools b₂ =
            .ok r₂ s₂ →
          r.upshot s = (r₁.upshot s₁).andThen (r₂.upshot s₂)) ∧
        (¬ e.CanBeCancelled → ∃ r₂ s₂,
          e.run id₂ { d with steps := more, declarations := none } [] s₁.context s₁.tools b₂ =
            .ok r₂ s₂)) := by
  have hcourse := courseOf_append more h₁
  have hended := (run_ok h).1
  have hupshot := upshot_eq h
  have hupshot₁ := upshot_eq h₁
  rw [hcourse] at hended hupshot
  rw [Context.seed_with_steps] at hupshot hupshot₁
  constructor
  · intro hfailed
    rw [hupshot, hupshot₁, if_pos hfailed, List.append_nil]
  · intro hfailed id₂ b₂
    rw [if_neg hfailed] at hended hupshot
    constructor
    · intro r₂ s₂ h₂
      have hupshot₂ := upshot_eq h₂
      rw [Context.seed_of_declarations_none _ rfl] at hupshot₂
      rw [hupshot, hupshot₂]
      exact Upshot.ofCourse_append hupshot₁ hfailed _
    · intro hp
      exact run_returns hp fun x hx => hended x (List.mem_append_right _ hx)

end Engine

namespace Engine

/-- The sample with a default for its variable. -/
def Sample.defaulted : Definition :=
  { Sample.definition with
    declarations := some [("n", ⟨"A number", .number, some (.int 1), none⟩)] }

/-- The status of a run that returned. -/
def Sample.status? {σ β : Type} : EStateM.Result Abort (RunState σ β) RunResult → Option RunStatus
  | .ok r _ => some r.tally.status
  | .error _ _ => none

theorem Sample.exists_of_status? {σ β : Type}
    {x : EStateM.Result Abort (RunState σ β) RunResult} (status : RunStatus)
    (h : status? x = some status) : ∃ r s, x = .ok r s ∧ r.tally.status = status := by
  cases x with
  | ok r s => exact ⟨r, s, rfl, by simpa [status?] using h⟩
  | error a s => simp [status?] at h

/-- The sample cut after its third step, which leaves the run going on, and after its fourth, which
stops it. -/
theorem run_append_sample : ∃ r s r₁ s₁ r₂ s₂ r₃ s₃,
    Sample.engine.run "whole" Sample.defaulted [] .empty 0 () = .ok r s ∧
    Sample.engine.run "first" { Sample.defaulted with steps := Sample.defaulted.steps.take 3 } []
      .empty 0 () = .ok r₁ s₁ ∧
    Sample.engine.run "second"
      { Sample.defaulted with steps := Sample.defaulted.steps.drop 3, declarations := none } []
      s₁.context s₁.tools () = .ok r₂ s₂ ∧
    Sample.engine.run "stopped" { Sample.defaulted with steps := Sample.defaulted.steps.take 4 } []
      .empty 0 () = .ok r₃ s₃ ∧
    r.upshot s = (r₁.upshot s₁).andThen (r₂.upshot s₂) ∧ r.upshot s = r₃.upshot s₃ := by
  obtain ⟨r, s, h, -⟩ := Sample.exists_of_status? .failed
    (x := Sample.engine.run "whole" Sample.defaulted [] .empty 0 ()) (by decide +kernel)
  obtain ⟨r₁, s₁, h₁, hr₁⟩ := Sample.exists_of_status? .mixed
    (x := Sample.engine.run "first"
      { Sample.defaulted with steps := Sample.defaulted.steps.take 3 } [] .empty 0 ())
    (by decide +kernel)
  obtain ⟨r₃, s₃, h₃, hr₃⟩ := Sample.exists_of_status? .failed
    (x := Sample.engine.run "stopped"
      { Sample.defaulted with steps := Sample.defaulted.steps.take 4 } [] .empty 0 ())
    (by decide +kernel)
  have hp := Sample.not_canBeCancelled
  obtain ⟨hsame, hreturns⟩ :=
    (run_append (Sample.defaulted.steps.drop 3) h h₁).2 (by simp [hr₁]) "second" ()
  obtain ⟨r₂, s₂, h₂⟩ := hreturns hp
  exact ⟨r, s, r₁, s₁, r₂, s₂, r₃, s₃, h, h₁, h₂, h₃, hsame r₂ s₂ h₂,
    (run_append (Sample.defaulted.steps.drop 4) h h₃).1 hr₃⟩

end Engine
end Runbook
