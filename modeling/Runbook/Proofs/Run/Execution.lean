import Runbook.Proofs.Run.Tally
import Mathlib.Data.List.Basic

/-!
# Executions

What executing a step comes to, once its condition has a truth value and its parameters have their
placeholders replaced: a result, unless the run ends with the call of the tool.

* `Outcome.Fails`, `Outcome.Answers`: the two ways in which a call ends its step;
* `text_cases`: a call fails, answers with a text, or ends the run, whatever the tool does;
* `execute_exact`: the result of a step is read off its condition and the outcome of its one call;
* `execute_textless`: an exception whose text cannot be made is not recorded.
-/

namespace Runbook

/-! ### Outcomes of calls -/

/-- Whether a call fails: with an exception that has a text, with a cancellation that is not one of
the run, with an answer that is no response, or with an error response. -/
inductive Outcome.Fails : Outcome → Prop
  | raised (kind message : String) : Fails (.raised kind (.ok message))
  | cancelled (message : String) : Fails (.cancelled message)
  | malformed {r : Returned} {m : Malformed} (h : Response.ofReturned r = .error m) :
    Fails (.returned r)
  | refused {r : Returned} {response : Response} (h : Response.ofReturned r = .ok response)
    (herror : response.isError = true) : Fails (.returned r)

/-- Whether a call answers with a text: that of a response which is no error. -/
def Outcome.Answers (o : Outcome) (raw : String) : Prop :=
  ∃ r response, o = .returned r ∧ Response.ofReturned r = .ok response ∧
    response.isError = false ∧ response.text = raw

/-- A fault is described by a text that is not empty. -/
theorem Fault.message_ne (f : Fault) : f.message ≠ "" := by
  intro h
  cases f with
  | foreignValue kind =>
    exact absurd (String.append_eq_empty_iff.1 (String.append_eq_empty_iff.1 h).1).1 (by decide)
  | foreignKey kind => exact absurd (String.append_eq_empty_iff.1 h).1 (by decide)
  | tooLong => exact absurd (String.append_eq_empty_iff.1 h).1 (by decide)
  | tooLarge | circular | bottomless | tooDeep => exact absurd h (by decide)

namespace Outcome

variable {o : Outcome} {raw : String}

/-- A call that answers with a text does not fail. -/
theorem Answers.not_fails (h : o.Answers raw) : ¬ o.Fails := by
  obtain ⟨r, response, rfl, hr, herror, -⟩ := h
  intro hfails
  cases hfails with
  | malformed hm =>
    rw [hr] at hm
    cases hm
  | refused hr' herror' =>
    rw [hr] at hr'
    cases hr'
    rw [herror] at herror'
    cases herror'

/-- A call answers with one text. -/
theorem Answers.unique {other : String} (h : o.Answers raw) (h' : o.Answers other) :
    other = raw := by
  obtain ⟨r, response, rfl, hok, -, rfl⟩ := h
  obtain ⟨r', response', hr, hok', -, rfl⟩ := h'
  cases hr
  rw [hok] at hok'
  cases hok'
  rfl

/-- A malformed response is described by a text that is not empty. -/
theorem message_ne (m : Malformed) : m.message ≠ "" := by
  intro h
  cases m with
  | result kind => exact absurd (String.append_eq_empty_iff.1 h).1 (by decide)
  | content kind =>
    exact absurd (String.append_eq_empty_iff.1 (String.append_eq_empty_iff.1 h).1).1 (by decide)
  | block kind =>
    exact absurd (String.append_eq_empty_iff.1 (String.append_eq_empty_iff.1 h).1).1 (by decide)
  | member f => exact f.message_ne h

/-- **How a call ends**: it ends the run, it fails for a reason, which is in words unless an
exception has neither a text nor a name, or it answers with a text. -/
theorem text_cases (o : Outcome) (tool : String) :
    (o.Aborts ∧ o.text tool = .error none) ∨
      (o.Fails ∧ ∃ error, o.text tool = .error (some error) ∧
        (error = "" → o = .raised "" (.ok ""))) ∨
      ∃ raw, o.Answers raw ∧ o.text tool = .ok raw := by
  cases o with
  | interrupted => exact .inl ⟨.interrupted, rfl⟩
  | raised kind message =>
    cases message with
    | error raised => exact .inl ⟨.textless kind raised, rfl⟩
    | ok message =>
      refine .inr (.inl ⟨.raised kind message, _, rfl, fun h => ?_⟩)
      by_cases hm : message = ""
      · rw [if_pos hm] at h
        rw [hm, h]
      · rw [if_neg hm] at h
        exact absurd h hm
  | cancelled message =>
    refine .inr (.inl ⟨.cancelled message, _, rfl, fun h => ?_⟩)
    by_cases hm : message = ""
    · rw [if_pos hm] at h
      simp [String.ext_iff] at h
    · rw [if_neg hm] at h
      exact absurd h hm
  | returned r =>
    cases hr : Response.ofReturned r with
    | error m =>
      refine .inr (.inl ⟨.malformed hr, m.message, by simp [text, hr], fun h => ?_⟩)
      exact absurd h (message_ne m)
    | ok response =>
      cases herror : response.isError with
      | true =>
        refine .inr (.inl ⟨.refused hr herror,
          if response.text = "" then "ToolInvocationError" else response.text,
          by simp [text, hr, herror], fun h => ?_⟩)
        by_cases ht : response.text = ""
        · rw [if_pos ht] at h
          simp at h
        · rw [if_neg ht] at h
          exact absurd h ht
      | false =>
        exact .inr (.inr ⟨response.text, ⟨r, response, rfl, hr, herror, rfl⟩,
          by simp [text, hr, herror]⟩)

end Outcome

/-! ### Steps -/

/-- A condition that is judged has the truth value it is judged to have. -/
theorem Context.satisfies_of_judge [Stack] {c : Context} {condition : String} {b : Bool}
    (h : c.judge condition = .ok b) : c.satisfies condition = .ok b := by
  unfold judge at h
  split at h
  · exact h
  · cases h

/-- Where it is known whether a step is skipped, it is when its condition is a text that is not
empty and false. -/
theorem Step.eq_true_iff_of_isSkipped [Stack] {s : Step} {c : Context} {skips : Bool}
    (h : s.isSkipped c = .ok skips) :
    skips = true ↔ ∃ condition, s.condition = some (some condition) ∧
      condition ≠ "" ∧ c.satisfies condition = .ok false := by
  have hguard : ∀ condition, s.guard? = some condition ↔
      s.condition = some (some condition) ∧ condition ≠ "" := by
    intro condition
    simp [guard?, Option.join_eq_some_iff, Option.filter_eq_some_iff]
  unfold isSkipped at h
  cases hg : s.guard? with
  | none =>
    rw [hg] at h
    cases h
    refine iff_of_false (by simp) ?_
    rintro ⟨condition, hc, hne, -⟩
    rw [(hguard condition).2 ⟨hc, hne⟩] at hg
    cases hg
  | some condition =>
    obtain ⟨hc, hne⟩ := (hguard condition).1 hg
    simp only [hg] at h
    cases hj : c.judge condition with
    | error f =>
      rw [hj] at h
      cases h
    | ok b =>
      rw [hj] at h
      cases h
      have hs : c.satisfies condition = .ok b := Context.satisfies_of_judge hj
      constructor
      · intro hb
        exact ⟨condition, hc, hne, by simpa [hs] using hb⟩
      · rintro ⟨other, hother, -, hfalse⟩
        rw [hc] at hother
        cases hother
        rw [hs] at hfalse
        cases hfalse
        rfl

namespace Engine

variable [Stack] {σ β : Type}

/-- Whether executing a step came to a result with some resources, exactly as the condition of the
step and the outcome of its call say. -/
structure Executes (e : Engine σ β) (step : Step) (s : RunState σ β)
    (x : StepResult × List Resource) (s' : RunState σ β) : Prop where
  /-- The result is that of the step. -/
  label : x.1.label = step.label
  /-- The step is skipped exactly when its condition is a text, not empty, that is false. -/
  skipped_iff : x.1.status = .skipped ↔ ∃ condition, step.condition = some (some condition) ∧
    condition ≠ "" ∧ s.context.satisfies condition = .ok false
  /-- Then there is no call, no error and no resource. -/
  skipped : x.1.status = .skipped → s'.trace = s.trace ∧ s'.tools = s.tools ∧ x.1.error = none ∧
    x.2 = []
  /-- Otherwise there is one call, with the placeholders of the parameters replaced, and the step
  fails exactly when the call does, with an error in words unless it is an exception that has
  neither a text nor a name. -/
  called : x.1.status ≠ .skipped → ∃ ps, s.context.substituteTable step.parameters = .ok ps ∧
    s'.trace = s.trace ++ [.call step.tool ps s.context] ∧
    s'.tools = (e.tools s.tools step.tool ps).2 ∧
    (x.1.status = .failed ↔ (e.tools s.tools step.tool ps).1.Fails) ∧
    (∀ error, x.1.error = some error → error = "" →
      (e.tools s.tools step.tool ps).1 = .raised "" (.ok "")) ∧
    (x.1.status = .success ↔ ∃ raw, (e.tools s.tools step.tool ps).1.Answers raw) ∧
    ∀ raw, (e.tools s.tools step.tool ps).1.Answers raw →
      (∃ summary, x.1.summary = some summary ∧ summary.toList <+: raw.toList ∧
        summary.length = min e.summaryLength raw.length) ∧ x.2 = resourcesOf raw
  /-- A failure has an error, and neither a summary nor resources. -/
  failed : x.1.status = .failed → x.1.error.isSome ∧ x.1.summary = none ∧ x.2 = []
  /-- A success has no error. -/
  success : x.1.status = .success → x.1.error = none

variable {e : Engine σ β} {step : Step} {s : RunState σ β}

/-- A step that is skipped. -/
theorem executes_skipped (h : step.isSkipped s.context = .ok true) :
    ∃ x s', e.execute step s = .ok x s' ∧ e.Executes step s x s' := by
  have hepisode : e.tools.episode step s.context s.tools =
      ⟨step, s.context, none, .ok (.skipped (step.guard?.getD "")), s.tools⟩ := by
    simp [Tools.episode, h]
  refine ⟨_, _, by rw [execute_eq, hepisode]; rfl, ?_⟩
  constructor
  case label => rfl
  case skipped_iff => exact iff_of_true rfl ((Step.eq_true_iff_of_isSkipped h).1 rfl)
  case skipped => exact fun _ => ⟨by simp [play, Episode.calls], rfl, rfl, rfl⟩
  case called => exact fun hn => absurd rfl hn
  case failed =>
    intro hstatus
    cases hstatus
  case success =>
    intro hstatus
    cases hstatus

section Called

variable {ps : Table String Value} (h : step.isSkipped s.context = .ok false)
  (hps : s.context.substituteTable step.parameters = .ok ps)

include h

/-- A step that is not skipped has no condition that is false. -/
theorem not_guarded : ¬ ∃ condition, step.condition = some (some condition) ∧ condition ≠ "" ∧
    s.context.satisfies condition = .ok false := by
  rw [← Step.eq_true_iff_of_isSkipped h]
  exact Bool.false_ne_true

include hps

/-- A step that is not skipped makes one call. -/
theorem execute_called {ending : Ending}
    (hending : (e.tools s.tools step.tool ps).1.ending step.tool = .ok ending) :
    e.execute step s = .ok (ending.result e.summaryLength step, ending.resources)
      (play ⟨step, s.context, some ps, .ok ending, (e.tools s.tools step.tool ps).2⟩ s) := by
  have hepisode : e.tools.episode step s.context s.tools =
      ⟨step, s.context, some ps, .ok ending, (e.tools s.tools step.tool ps).2⟩ := by
    simp [Tools.episode, h, hps, hending]
  rw [execute_eq, hepisode]
  rfl

/-- A step whose call fails. -/
theorem executes_failed {error : String} (hfails : (e.tools s.tools step.tool ps).1.Fails)
    (htext : (e.tools s.tools step.tool ps).1.text step.tool = .error (some error))
    (hempty : error = "" → (e.tools s.tools step.tool ps).1 = .raised "" (.ok "")) :
    ∃ x s', e.execute step s = .ok x s' ∧ e.Executes step s x s' := by
  have hanswers : ¬ ∃ raw, (e.tools s.tools step.tool ps).1.Answers raw := by
    rintro ⟨raw, hraw⟩
    exact hraw.not_fails hfails
  have hending : (e.tools s.tools step.tool ps).1.ending step.tool = .ok (.failed error) := by
    simp [Outcome.ending, htext]
  refine ⟨_, _, execute_called h hps hending, ?_⟩
  constructor
  case label => rfl
  case skipped_iff => exact iff_of_false (by simp [Ending.status]) (not_guarded h)
  case skipped =>
    intro hstatus
    cases hstatus
  case called =>
    intro _
    refine ⟨ps, hps, rfl, rfl, iff_of_true rfl hfails, ?_, ?_, ?_⟩
    · rintro _ ⟨⟩ hne
      exact hempty hne
    · exact iff_of_false (by simp [Ending.status]) hanswers
    · intro raw hraw
      exact absurd ⟨raw, hraw⟩ hanswers
  case failed =>
    intro _
    exact ⟨rfl, rfl, rfl⟩
  case success =>
    intro hstatus
    cases hstatus

/-- A step whose call answers with a text. -/
theorem executes_succeeded {raw : String}
    (hraw : (e.tools s.tools step.tool ps).1.Answers raw)
    (htext : (e.tools s.tools step.tool ps).1.text step.tool = .ok raw) :
    ∃ x s', e.execute step s = .ok x s' ∧ e.Executes step s x s' := by
  have hending : (e.tools s.tools step.tool ps).1.ending step.tool = .ok (.succeeded raw) := by
    simp [Outcome.ending, htext]
  refine ⟨_, _, execute_called h hps hending, ?_⟩
  constructor
  case label => rfl
  case skipped_iff => exact iff_of_false (by simp [Ending.status]) (not_guarded h)
  case skipped =>
    intro hstatus
    cases hstatus
  case called =>
    intro _
    refine ⟨ps, hps, rfl, rfl, ?_, ?_, iff_of_true rfl ⟨raw, hraw⟩, ?_⟩
    · exact iff_of_false (by simp [Ending.status]) hraw.not_fails
    · intro _ herror
      cases herror
    intro other hother
    obtain rfl := hraw.unique hother
    refine ⟨⟨_, rfl, ?_, ?_⟩, rfl⟩
    · rw [String.toList_ofList]
      exact List.take_prefix _ _
    · rw [String.length_ofList, List.length_take, String.length_toList]
  case failed =>
    intro hstatus
    cases hstatus
  case success =>
    intro _
    rfl

end Called

/-- **Executing a step is exact.** Once its condition has a truth value and its parameters have
their placeholders replaced, executing a step returns the result that its condition and the outcome
of its call determine, unless the call ends the run: because the run is interrupted during it, or
because it raises an exception and making the text of that one raises another, which then is what
executing the step ends with. -/
theorem execute_exact {skips : Bool} {ps : Table String Value}
    (hskips : step.isSkipped s.context = .ok skips)
    (hps : skips = false → s.context.substituteTable step.parameters = .ok ps) :
    (skips = true ∨ ¬ (e.tools s.tools step.tool ps).1.Aborts →
      ∃ x s', e.execute step s = .ok x s' ∧ e.Executes step s x s') ∧
    (skips = false → (e.tools s.tools step.tool ps).1.Aborts →
      ∃ s', e.execute step s = .error (e.tools s.tools step.tool ps).1.abort s' ∧
        s'.trace = s.trace ++ [.call step.tool ps s.context] ∧ s'.context = s.context) := by
  cases skips with
  | true => exact ⟨fun _ => executes_skipped hskips, nofun⟩
  | false =>
    have hps := hps rfl
    constructor
    · intro hrun
      rcases (e.tools s.tools step.tool ps).1.text_cases step.tool with
        ⟨hi, -⟩ | ⟨hfails, error, htext, hempty⟩ | ⟨raw, hraw, htext⟩
      · exact absurd hi (hrun.resolve_left (by simp))
      · exact executes_failed hskips hps hfails htext hempty
      · exact executes_succeeded hskips hps hraw htext
    · intro _ haborts
      have hending := haborts.ending step.tool
      refine ⟨_, by simp only [execute_eq, Tools.episode, hskips, hps, hending]; rfl, ?_, ?_⟩
      · simp [play, Episode.calls]
      · simp [play, Episode.after]

end Engine

namespace Engine

/-- The second step of the sample, whose call raises an exception without a message. -/
theorem execute_exact_sample :
    ∃ x s', Sample.engine.execute (Sample.step "second" "break" none none (some .continue))
        ⟨⟨[("n", .int 1)], []⟩, 0, (), [], []⟩ = .ok x s' ∧
      Sample.engine.Executes (Sample.step "second" "break" none none (some .continue))
        ⟨⟨[("n", .int 1)], []⟩, 0, (), [], []⟩ x s' := by
  have hcall : ∀ ps, (Sample.engine.tools 0 "break" ps).1 = .raised "TimeoutError" (.ok "") :=
    fun _ => rfl
  have hok : ((⟨[("n", .int 1)], []⟩ : Context).substituteTable
      [("seen", .str "$\x7bvariables.n\x7d")]).toBool = true := by decide +kernel
  cases hps : (⟨[("n", .int 1)], []⟩ : Context).substituteTable
      [("seen", .str "$\x7bvariables.n\x7d")] with
  | error f =>
    rw [hps] at hok
    cases hok
  | ok ps =>
    have hskips : (Sample.step "second" "break" none none (some .continue)).isSkipped
        ⟨[("n", .int 1)], []⟩ = .ok false := rfl
    exact (execute_exact hskips fun _ => hps).1 (.inr ((hcall ps).symm ▸ nofun))

/-- Tools that raise an exception whose text is that of an integer of too many digits. -/
def Sample.textless : Tools Unit := fun u _ _ => (.raised "KeyError" (.error "ValueError"), u)

/-- **An exception whose text cannot be made** is not recorded as a failure of the step: executing
the step raises the exception that making the text does. -/
theorem execute_textless :
    ∃ s', (⟨Sample.textless, none, 5⟩ : Engine Unit Unit).execute
        ⟨"only", "Only", "make", [], none, none, none⟩ ⟨.empty, (), (), [], []⟩ =
      .error (.raised "ValueError") s' :=
  ⟨_, rfl⟩

end Engine
end Runbook
