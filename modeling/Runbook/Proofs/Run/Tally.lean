import Runbook.Proofs.Run.Replay

/-!
# Tallies

What a run that returns has come to: whose results it holds, why it stopped, what its status says
and where its resources come from. The tally of a course is made of the endings of its steps
(`tallyOf`), and `status_tallyOf` is what the status says all along.
-/

namespace Runbook

/-- Whether a step with its result stops the run. -/
def Stops (p : Step × StepResult) : Prop :=
  p.2.status = .failed ∧ p.1.policy = .stop

/-- Whether the last of some steps with their results stops the run. -/
def Halted (ps : List (Step × StepResult)) : Prop :=
  ∃ p, ps.getLast? = some p ∧ Stops p

instance (p : Step × StepResult) : Decidable (Stops p) := by
  unfold Stops; infer_instance

/-- The state that a step ends in whose call gets an answer. -/
def statusOfAnswer : Except (Option String) String → StepStatus
  | .ok _ => .success
  | .error _ => .failed

/-- What tells a step and its result from others. -/
def Step.label (s : Step) : String × String × String := (s.id, s.name, s.tool)

@[inherit_doc Step.label]
def StepResult.label (r : StepResult) : String × String × String := (r.id, r.name, r.tool)

namespace Episode

variable {σ : Type}

/-- The step of an episode with its ending, unless the episode aborted. -/
def endings (x : Episode σ) : List (Step × Ending) :=
  match x.ending with
  | .ok ending => [(x.step, ending)]
  | .error _ => []

end Episode

/-- What a run that returns has come to, given the steps of the workflow and the answers to the
calls it made. -/
structure Tally.Accounts (t : Tally) (steps : List Step)
    (answers : List (Except (Option String) String)) : Prop where
  /-- The results are those of the first steps, one for each and in order. -/
  label : t.results.map StepResult.label = (steps.take t.results.length).map Step.label
  /-- Steps are left out only when the last result stops the run. -/
  halted_of_lt : t.results.length < steps.length → Halted (steps.zip t.results)
  /-- The run never goes on after a step that stops it. -/
  not_stops : ∀ p ∈ (steps.zip t.results).dropLast, ¬ Stops p
  failed_iff : t.status = .failed ↔ Halted (steps.zip t.results)
  mixed_iff : t.status = .mixed ↔
    ¬ Halted (steps.zip t.results) ∧ ∃ r ∈ t.results, r.status = .failed
  success_iff : t.status = .success ↔ ∀ r ∈ t.results, r.status ≠ .failed
  /-- The calls are those of the steps that were not skipped; a text that is answered makes such a
  step succeed, and anything else makes it fail. -/
  called : answers.map statusOfAnswer = (t.results.map StepResult.status).filter (· ≠ .skipped)
  /-- The resources are those found in the texts that were answered, in order. -/
  resources : t.resources = (answers.filterMap Except.toOption).flatMap resourcesOf

section Tally

variable (n : Nat)

/-- A step with its result. -/
def resultPair (z : Step × Ending) : Step × StepResult := (z.1, z.2.result n z.1)

/-- What a run has come to after one more step. -/
def addEnding (t : Tally) (z : Step × Ending) : Tally :=
  { t.add (z.2.result n z.1) z.2.resources with
    status :=
      if z.2.status = .failed then if z.1.policy = .stop then .failed else .mixed else t.status }

variable {n}

theorem results_tallyOf (t : Tally) (zs : List (Step × Ending)) :
    (zs.foldl (addEnding n) t).results = t.results ++ zs.map fun z => (resultPair n z).2 := by
  induction zs generalizing t with
  | nil => simp
  | cons z zs ih => simp [ih, addEnding, Tally.add, resultPair]

theorem resources_tallyOf (t : Tally) (zs : List (Step × Ending)) :
    (zs.foldl (addEnding n) t).resources = t.resources ++ zs.flatMap (·.2.resources) := by
  induction zs generalizing t with
  | nil => simp
  | cons z zs ih => simp [ih, addEnding, Tally.add]

/-- Along steps that do not stop the run, the status says whether any failed. -/
theorem status_of_not_stops {t : Tally} {zs : List (Step × Ending)}
    (h : ∀ z ∈ zs, ¬ Stops (resultPair n z)) :
    (zs.foldl (addEnding n) t).status =
      if zs.any (·.2.status = .failed) then .mixed else t.status := by
  induction zs generalizing t with
  | nil => rfl
  | cons z zs ih =>
    rw [List.foldl_cons, ih fun z' hz => h z' (List.mem_cons_of_mem _ hz)]
    have hz := h z List.mem_cons_self
    by_cases hf : z.2.status = .failed
    · have hp : z.1.policy ≠ .stop := fun hp => hz ⟨by simpa [resultPair] using hf, hp⟩
      simp [addEnding, hf, hp]
    · rw [List.any_cons, decide_eq_false hf, Bool.false_or]
      simp [addEnding, hf]

/-- Along steps of which only the last may stop the run, the status says whether it did, and
otherwise whether any failed. -/
theorem status_tallyOf {t : Tally} {zs : List (Step × Ending)}
    (h : ∀ z ∈ zs.dropLast, ¬ Stops (resultPair n z)) :
    (Halted (zs.map (resultPair n)) ∧ (zs.foldl (addEnding n) t).status = .failed) ∨
    (¬ Halted (zs.map (resultPair n)) ∧ (zs.foldl (addEnding n) t).status =
      if zs.any (·.2.status = .failed) then .mixed else t.status) := by
  -- only the last step decides whether the run was stopped
  obtain rfl | ⟨init, z, rfl⟩ := zs.eq_nil_or_concat
  · exact .inr ⟨by simp [Halted], rfl⟩
  · rw [List.concat_eq_append, List.dropLast_concat] at h
    by_cases hz : Stops (resultPair n z)
    · have hf : z.2.status = .failed := by simpa [resultPair] using hz.1
      refine .inl ⟨⟨resultPair n z, by simp, hz⟩, ?_⟩
      have hp : z.1.policy = .stop := hz.2
      simp [addEnding, hf, hp]
    · refine .inr ⟨?_, status_of_not_stops ?_⟩
      · rintro ⟨p, hp, hstop⟩
        simp only [List.concat_eq_append, List.map_append, List.map_cons, List.map_nil,
          List.getLast?_concat, Option.some.injEq] at hp
        exact hz (hp ▸ hstop)
      · intro z' hz'
        simp only [List.concat_eq_append, List.mem_append, List.mem_singleton] at hz'
        obtain hz' | rfl := hz'
        · exact h z' hz'
        · exact hz

/-- **The status of a run from the start**: failed when the last step stopped it, mixed when a step
failed and none stopped it, and success when no step failed. -/
theorem status_tallyOf_start {zs : List (Step × Ending)}
    (h : ∀ z ∈ zs.dropLast, ¬ Stops (resultPair n z)) :
    let ps := zs.map (resultPair n)
    let t := zs.foldl (addEnding n) .start
    (t.status = .failed ↔ Halted ps) ∧
      (t.status = .mixed ↔ ¬ Halted ps ∧ ∃ x ∈ ps.map Prod.snd, x.status = .failed) ∧
      (t.status = .success ↔ ∀ x ∈ ps.map Prod.snd, x.status ≠ .failed) := by
  intro ps t
  have hany : zs.any (·.2.status = .failed) = true ↔
      ∃ x ∈ ps.map Prod.snd, x.status = .failed := by
    rw [List.any_eq_true]
    constructor
    · rintro ⟨z, hz, hf⟩
      exact ⟨_, List.mem_map_of_mem (List.mem_map_of_mem hz), by simpa [resultPair] using hf⟩
    · rintro ⟨x, hx, hf⟩
      obtain ⟨p, hp, rfl⟩ := List.mem_map.1 hx
      obtain ⟨z, hz, rfl⟩ := List.mem_map.1 hp
      exact ⟨z, hz, by simpa [resultPair] using hf⟩
  obtain ⟨hh, hs⟩ | ⟨hh, hs⟩ := status_tallyOf (t := .start) h
  · -- the step that stopped the run has failed
    have hfail : ∃ x ∈ ps.map Prod.snd, x.status = .failed := by
      obtain ⟨p, hp, hf, -⟩ := hh
      exact ⟨p.2, List.mem_map_of_mem (List.mem_of_getLast? hp), hf⟩
    refine ⟨iff_of_true hs hh, iff_of_false (by simp [t, hs]) fun hn => hn.1 hh,
      iff_of_false (by simp [t, hs]) fun hn => ?_⟩
    obtain ⟨x, hx, hf⟩ := hfail
    exact hn x hx hf
  · by_cases hf : zs.any (·.2.status = .failed) = true
    · rw [if_pos hf] at hs
      refine ⟨iff_of_false (by simp [t, hs]) hh, iff_of_true hs ⟨hh, hany.1 hf⟩,
        iff_of_false (by simp [t, hs]) fun hn => ?_⟩
      obtain ⟨x, hx, hf⟩ := hany.1 hf
      exact hn x hx hf
    · rw [if_neg hf] at hs
      have hn : ¬ ∃ x ∈ ps.map Prod.snd, x.status = .failed := fun hx => hf (hany.2 hx)
      have ht : t.status = .success := hs
      refine ⟨iff_of_false (by simp [ht]) hh, iff_of_false (by simp [ht]) fun hx => hn hx.2,
        iff_of_true ht fun x hx hxf => hn ⟨x, hx, hxf⟩⟩

end Tally

namespace Episode

variable {σ : Type} {n : Nat} {xs : List (Episode σ)}

theorem foldl_count (t : Tally) (xs : List (Episode σ)) :
    xs.foldl (count n) t = (xs.flatMap endings).foldl (addEnding n) t := by
  induction xs generalizing t with
  | nil => rfl
  | cons x xs ih =>
    rw [List.foldl_cons, ih, List.flatMap_cons, List.foldl_append]
    cases h : x.ending <;> simp [count, endings, addEnding, h]

theorem map_fst_endings (h : ∀ x ∈ xs, x.Ended) :
    (xs.flatMap endings).map Prod.fst = xs.map Episode.step := by
  induction xs with
  | nil => rfl
  | cons x xs ih =>
    obtain ⟨ending, hx⟩ := h x List.mem_cons_self
    simp [endings, hx, ih fun y hy => h y (List.mem_cons_of_mem _ hy)]

theorem filterMap_answer? (h : ∀ x ∈ xs, x.Ended) :
    xs.filterMap Episode.answer? = (xs.flatMap endings).filterMap (·.2.answer?) := by
  induction xs with
  | nil => rfl
  | cons x xs ih =>
    obtain ⟨ending, hx⟩ := h x List.mem_cons_self
    rw [List.flatMap_cons, List.filterMap_append,
      ← ih fun y hy => h y (List.mem_cons_of_mem _ hy)]
    cases ending <;> simp [endings, answer?, Ending.answer?, hx]

/-- An ended episode lets the run go on unless its step stops the run. -/
theorem stops_of_mem_endings {x : Episode σ} {z : Step × Ending} (h : z ∈ x.endings) :
    Stops (resultPair n z) ↔ x.goesOn = false := by
  cases hx : x.ending with
  | error a => simp [endings, hx] at h
  | ok ending =>
    simp only [endings, hx, List.mem_singleton] at h
    subst h
    simp [Stops, resultPair, goesOn, hx]

theorem dropLast_endings (h : ∀ x ∈ xs, x.Ended) :
    (xs.flatMap endings).dropLast = xs.dropLast.flatMap endings := by
  obtain rfl | ⟨init, x, rfl⟩ := xs.eq_nil_or_concat
  · rfl
  · obtain ⟨ending, hx⟩ := h x (by simp)
    rw [List.concat_eq_append, List.dropLast_concat, List.flatMap_append]
    simp [endings, hx]

/-- The answers to calls are those of the steps that were not skipped, and the texts among them are
those that the resources come from. -/
theorem answers_endings (zs : List (Step × Ending)) :
    (zs.filterMap (·.2.answer?)).map statusOfAnswer =
        (zs.map fun z => (resultPair n z).2.status).filter (· ≠ .skipped) ∧
      ((zs.filterMap (·.2.answer?)).filterMap Except.toOption).flatMap resourcesOf =
        zs.flatMap (·.2.resources) := by
  induction zs with
  | nil => exact ⟨rfl, rfl⟩
  | cons z zs ih =>
    obtain ⟨s, ending⟩ := z
    cases ending <;>
      simpa [resultPair, statusOfAnswer, Except.toOption, List.filterMap_cons] using ih

variable [Stack]

/-- Only the last step of a course may stop the run. -/
theorem not_stops_of_mem_dropLast {tools : Tools σ} {steps : List Step} {c : Context} {τ : σ}
    (h : ∀ x ∈ tools.course steps c τ, x.Ended) :
    ∀ z ∈ ((tools.course steps c τ).flatMap endings).dropLast, ¬ Stops (resultPair n z) := by
  intro z hz
  rw [dropLast_endings h] at hz
  obtain ⟨x, hx, hz⟩ := List.mem_flatMap.1 hz
  rw [stops_of_mem_endings hz, Tools.goesOn_of_mem_dropLast hx]
  simp

/-- The last step of a course stops the run when there is an episode that does not let it go on. -/
theorem halted_course_iff {tools : Tools σ} {steps : List Step} {c : Context} {τ : σ}
    (h : ∀ x ∈ tools.course steps c τ, x.Ended) :
    Halted (((tools.course steps c τ).flatMap endings).map (resultPair n)) ↔
      ∃ x ∈ tools.course steps c τ, x.goesOn = false := by
  constructor
  · rintro ⟨p, hp, hstop⟩
    obtain ⟨z, hz, rfl⟩ := List.mem_map.1 (List.mem_of_getLast? hp)
    obtain ⟨x, hx, hz⟩ := List.mem_flatMap.1 hz
    exact ⟨x, hx, (stops_of_mem_endings hz).1 hstop⟩
  · rintro ⟨x, hx, hg⟩
    obtain hnil | ⟨init, y, hxs⟩ := (tools.course steps c τ).eq_nil_or_concat
    · simp [hnil] at hx
    · rw [List.concat_eq_append] at hxs
      -- all episodes before the last one let the run go on
      obtain rfl : x = y := by
        rw [hxs, List.mem_append, List.mem_singleton] at hx
        refine hx.resolve_left fun hinit => ?_
        rw [Tools.goesOn_of_mem_dropLast (by rw [hxs, List.dropLast_concat]; exact hinit)] at hg
        cases hg
      obtain ⟨ending, hending⟩ := h x hx
      refine ⟨resultPair n (x.step, ending), by simp [hxs, endings, hending], ?_⟩
      exact (stops_of_mem_endings (x := x) (by simp [endings, hending])).2 hg

/-- A course that leaves steps out ends with a step that stops the run. -/
theorem halted_of_left {tools : Tools σ} {steps rest : List Step} {c : Context} {τ : σ}
    (h : ∀ x ∈ tools.course steps c τ, x.Ended)
    (hrest : (tools.course steps c τ).map Episode.step ++ rest = steps) (hne : rest ≠ []) :
    Halted (((tools.course steps c τ).flatMap endings).map (resultPair n)) := by
  rw [halted_course_iff h]
  -- otherwise every step would have an episode, and none would be left
  refine Classical.byContradiction fun hall => hne ?_
  have hmap : (tools.course steps c τ).map Episode.step = steps :=
    Tools.map_step_course fun x hx => by
      cases hg : x.goesOn with
      | true => rfl
      | false => exact absurd ⟨x, hx, hg⟩ hall
  rwa [hmap, List.append_right_eq_self] at hrest

/-- A course does not fail when every episode lets the run go on. -/
theorem status_ne_failed_iff {tools : Tools σ} {steps : List Step} {c : Context} {τ : σ}
    (h : ∀ x ∈ tools.course steps c τ, x.Ended) :
    ((tools.course steps c τ).foldl (count n) .start).status ≠ .failed ↔
      ∀ x ∈ tools.course steps c τ, x.goesOn = true := by
  rw [foldl_count, Ne, (status_tallyOf_start (not_stops_of_mem_dropLast h)).1,
    halted_course_iff h]
  simp

end Episode

namespace Engine

/-- The results of a course are those of its episodes. -/
theorem results_course {σ : Type} (n : Nat) (xs : List (Episode σ)) :
    (xs.foldl (Episode.count n) .start).results =
      ((xs.flatMap Episode.endings).map (resultPair n)).map Prod.snd := by
  rw [Episode.foldl_count, results_tallyOf]
  simp [Tally.start]

variable [Stack] {σ β : Type} {e : Engine σ β} {id : String} {d : Definition}
  {supplied : Table String Value} {context : Context} {tools : σ} {publisher : β}

/-- The answers that the calls of a run got are those its episodes ended with. -/
theorem answersIn_trace {r : RunResult} {s : RunState σ β}
    (h : e.run id d supplied context tools publisher = .ok r s) :
    e.answersIn tools s.trace =
      ((e.courseOf d supplied context tools).flatMap Episode.endings).filterMap (·.2.answer?) := by
  obtain ⟨hended, -, hstage⟩ := run_ok h
  simp only [RunState.stage, Stage.mk.injEq] at hstage
  rw [answersIn, hstage.2.2, callsIn_script, ← Episode.filterMap_answer? hended]
  exact (replay_course ..).1

/-- The steps of a run that returns are paired with their results. -/
theorem zip_results {r : RunResult} {s : RunState σ β}
    (h : e.run id d supplied context tools publisher = .ok r s) :
    d.steps.zip r.tally.results =
      ((e.courseOf d supplied context tools).flatMap Episode.endings).map
        (resultPair e.summaryLength) := by
  obtain ⟨hended, rfl, -⟩ := run_ok h
  obtain ⟨rest, hrest⟩ := e.courseOf_prefix d supplied context tools
  rw [← Episode.map_fst_endings hended] at hrest
  rw [results_course]
  generalize (e.courseOf d supplied context tools).flatMap Episode.endings = zs at hrest ⊢
  -- the steps that are left out have no result to be paired with
  rw [← hrest, ← List.append_nil ((zs.map _).map _), List.zip_append (by simp), List.map_map,
    List.zip_map', List.zip_nil_right, List.append_nil]
  rfl

/-- **What a run that returns has come to.** -/
theorem run_accounts {r : RunResult} {s : RunState σ β}
    (h : e.run id d supplied context tools publisher = .ok r s) :
    r.tally.Accounts d.steps (e.answersIn tools s.trace) := by
  have hpairs := zip_results h
  rw [answersIn_trace h]
  obtain ⟨hended, rfl, -⟩ := run_ok h
  obtain ⟨rest, hrest⟩ := e.courseOf_prefix d supplied context tools
  have hstops := Episode.not_stops_of_mem_dropLast (n := e.summaryLength) hended
  have hleft := Episode.halted_of_left (n := e.summaryLength) hended hrest
  have hresults := results_course e.summaryLength (e.courseOf d supplied context tools)
  have hanswers := Episode.answers_endings (n := e.summaryLength)
    ((e.courseOf d supplied context tools).flatMap Episode.endings)
  rw [← Episode.map_fst_endings hended] at hrest
  obtain ⟨hfailed, hmixed, hsuccess⟩ := status_tallyOf_start hstops
  constructor
  case label =>
    rw [hresults, ← hrest, List.take_left' (by simp)]
    simp [Function.comp_def, resultPair, StepResult.label, Step.label]
  case halted_of_lt =>
    intro hlt
    rw [hpairs]
    refine hleft fun hnil => ?_
    rw [hresults, ← hrest, hnil] at hlt
    simp at hlt
  case not_stops =>
    rw [hpairs, ← List.map_dropLast]
    intro p hp
    obtain ⟨z, hz, rfl⟩ := List.mem_map.1 hp
    exact hstops z hz
  case failed_iff =>
    rw [hpairs, Episode.foldl_count]
    exact hfailed
  case mixed_iff =>
    rw [hpairs, hresults, Episode.foldl_count]
    exact hmixed
  case success_iff =>
    rw [hresults, Episode.foldl_count]
    exact hsuccess
  case called =>
    rw [hanswers.1, hresults]
    simp [Function.comp_def]
  case resources =>
    rw [hanswers.2, Episode.foldl_count, resources_tallyOf]
    rfl

end Engine

namespace Engine

theorem run_accounts_sample : ∃ r s,
    Sample.engine.run "run" Sample.definition [("n", .int 1)] .empty 0 () = .ok r s ∧
      r.tally.Accounts Sample.definition.steps (Sample.engine.answersIn 0 s.trace) := by
  obtain ⟨r, s, h, -⟩ := Sample.run_returns_sample
  exact ⟨r, s, h, run_accounts h⟩

end Engine
end Runbook
