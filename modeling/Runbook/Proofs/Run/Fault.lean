import Runbook.Proofs.Fault
import Runbook.Proofs.Json.Reader
import Runbook.Proofs.Run.Tally
import Runbook.Proofs.Schema

/-!
# Faults of runs

Which runs return, when all values that they are given are JSON. A step faults in a context when its
condition or a placeholder of its parameters does (`Step.Faults`), outside of the call of its tool;
it breaks off when it faults or when its call does not end it (`Step.BreaksOff`).

* `isJson_lastContext`: every context that a run goes through holds JSON;
* `episode_cases`: a step ends unless it breaks off;
* `run_returns_iff`: a run returns exactly when no step whose turn comes breaks off;
* `run_huge_variable`: a variable that is an integer beyond every binary64 number is enough.
-/

namespace Runbook

/-! ### Contexts of JSON values -/

/-- Whether the values of a table are JSON. -/
def AreJson (t : Table String Value) : Prop := ∀ e ∈ t, e.2.IsJson

theorem AreJson.set {t : Table String Value} (h : AreJson t) (key : String) {v : Value}
    (hv : v.IsJson) : AreJson (t.set key v) := by
  intro e he
  obtain he | rfl := Table.mem_of_mem_set he
  · exact h e he
  · exact hv

theorem AreJson.erase {t : Table String Value} (h : AreJson t) (key : String) :
    AreJson (t.erase key) :=
  fun e he => h e (List.mem_filter.1 he).1

theorem AreJson.mapVariable {vars : Table String Value} (h : AreJson vars) {output : Value}
    (ho : output.IsJson) (e : String × String) : AreJson (Context.mapVariable output vars e) := by
  unfold Context.mapVariable
  split
  · next v hv => exact h.set e.1 (ho.resolve hv)
  · exact h.erase e.1

theorem isJson_ofText [Stack] (raw : String) : (Output.ofText raw).value.IsJson := by
  unfold Output.ofText
  split
  · next v hv => exact Json.isJson_of_read rfl hv
  · exact Value.isJson_str raw

namespace Context

/-- Whether the variables and the outputs of a context are JSON. -/
def IsJson (c : Context) : Prop :=
  AreJson c.vars ∧ ∀ e ∈ c.steps, e.2.output.value.IsJson

theorem isJson_empty : empty.IsJson :=
  ⟨by simp [AreJson, empty], by simp [empty]⟩

theorem IsJson.tree {c : Context} (h : c.IsJson) : c.tree.IsJson := by
  have hrecord : ∀ r : Record, r.output.value.IsJson → r.value.IsJson := fun r hr =>
    Value.isJson_ofFields (by simpa using ⟨hr, Value.isJson_str r.raw⟩)
  refine Value.isJson_ofFields (List.forall_mem_cons.2 ⟨Value.isJson_ofFields h.1,
    List.forall_mem_cons.2 ⟨Value.isJson_ofFields fun e he => ?_, by simp⟩⟩)
  obtain ⟨f, hf, rfl⟩ := List.mem_map.1 he
  exact hrecord f.2 (h.2 f hf)

/-- A step that succeeds leaves JSON. -/
theorem IsJson.complete [Stack] {c : Context} (h : c.IsJson) (s : Step) (raw : String) :
    (c.complete s raw).IsJson := by
  constructor
  · have hmap : ∀ (m : Table String String) (vars : Table String Value), AreJson vars →
        AreJson (m.foldl (mapVariable (Output.ofText raw).value) vars) := by
      intro m
      induction m with
      | nil => exact fun vars hvars => hvars
      | cons e m ih => exact fun vars hvars => ih _ (hvars.mapVariable (isJson_ofText raw) e)
    exact hmap s.mapping c.vars h.1
  · intro e he
    obtain he | rfl := Table.mem_of_mem_set he
    · exact h.2 e he
    · exact isJson_ofText raw

/-- Seeding a context with JSON leaves JSON. -/
theorem IsJson.seed {c : Context} (h : c.IsJson) {d : Definition} {supplied : Table String Value}
    (hsupplied : AreJson supplied)
    (hdefaults : ∀ e ∈ d.declared, ∀ v, e.2.default = some v → v.IsJson) :
    (c.seed d supplied).IsJson := by
  refine ⟨fun e he => ?_, h.2⟩
  rcases mem_of_mem_seedVariables he with he | he | ⟨x, hx, hdefault⟩
  · exact h.1 e he
  · exact hsupplied e he
  · exact hdefaults x hx e.2 hdefault

theorem failsAmong_substituteTable [Stack] {c : Context} (hc : c.IsJson) {t : Table String Value}
    (h : AreJson t) : FailsAmong (c.substituteTable t) Fault.ofJson
      (∃ e ∈ t, c.tree.fits 0 e.2 = false ∨ c.tree.MentionsOverlong e.2) := by
  induction t with
  | nil => exact ⟨by simp, fun _ => ⟨_, rfl⟩⟩
  | cons e t ih =>
    have he := failsAmong_fill hc.tree (h e List.mem_cons_self)
    have ht := ih fun x hx => h x (List.mem_cons_of_mem _ hx)
    rw [substituteTable]
    refine (he.bind fun first => ht.map ((e.1, first) :: ·)).of_iff ?_
    simp

end Context

/-! ### Steps -/

/-- Why a run ends that is given values of JSON and is not cancelled: a fault, or an exception that
the text of another one raised. -/
def Abort.IsOfJson : Abort → Prop
  | .fault f => f ∈ Fault.ofJson
  | .raised _ => True
  | .cancelled => False

theorem Outcome.Aborts.isOfJson {o : Outcome} (h : o.Aborts) (ho : o ≠ .interrupted) :
    o.abort.IsOfJson := by
  cases h with
  | interrupted => exact absurd rfl ho
  | textless => trivial

section Steps

variable [Stack] {s : Step} {c : Context}

namespace Step

/-- Whether the condition of a step faults in a context: it asks for the truth of an integer beyond
every binary64 number, or compares the text of a collection that has none or nests too deep. -/
def GuardFaults (s : Step) (c : Context) : Prop :=
  ∃ text, s.guard? = some text ∧
    let condition := Condition.ofText text
    condition.fits c.tree = false ∨ condition.IsHuge c.tree ∨ condition.IsOverlong c.tree

/-- Whether a step faults in a context: its condition does, or it is not skipped and a placeholder
of its parameters leads to a collection without text, or the stack has no room to replace the
placeholders. -/
def Faults (s : Step) (c : Context) : Prop :=
  s.GuardFaults c ∨ (s.isSkipped c = .ok false ∧
    ∃ e ∈ s.parameters, c.tree.fits 0 e.2 = false ∨ c.tree.MentionsOverlong e.2)

/-- Whether a step is skipped is known unless its condition faults. -/
theorem failsAmong_isSkipped (hc : c.IsJson) :
    FailsAmong (s.isSkipped c) Fault.ofJson (s.GuardFaults c) := by
  unfold GuardFaults isSkipped
  cases s.guard? with
  | none => exact ⟨by simp, fun _ => ⟨false, rfl⟩⟩
  | some text => exact ((Context.failsAmong_judge hc.tree text).map (!·)).of_iff (by simp)

/-- Whether a step makes its call in a context and a state of the tools, and the call does not end
the step: it raises an exception without text, or the run is interrupted. -/
def CallAborts {σ : Type} (s : Step) (tools : Tools σ) (c : Context) (τ : σ) : Prop :=
  s.isSkipped c = .ok false ∧ ∃ ps, c.substituteTable s.parameters = .ok ps ∧
    (tools τ s.tool ps).1.Aborts

/-- Whether a step ends the run without an end of its own. -/
def BreaksOff {σ : Type} (s : Step) (tools : Tools σ) (c : Context) (τ : σ) : Prop :=
  s.Faults c ∨ s.CallAborts tools c τ

end Step

/-- **A step ends unless it breaks off**, when its call is not interrupted. -/
theorem episode_cases {σ : Type} {tools : Tools σ}
    (htools : ∀ τ tool ps, (tools τ tool ps).1 ≠ .interrupted) (hs : AreJson s.parameters)
    (hc : c.IsJson) (τ : σ) :
    (s.BreaksOff tools c τ ∧
        ∃ a : Abort, (tools.episode s c τ).ending = .error a ∧ a.IsOfJson) ∨
      (¬ s.BreaksOff tools c τ ∧ (tools.episode s c τ).Ended) := by
  have hskips := Step.failsAmong_isSkipped (s := s) hc
  unfold Step.BreaksOff Step.Faults Step.CallAborts Tools.episode
  by_cases hg : s.GuardFaults c
  · obtain ⟨f, hf, hskip⟩ := hskips.1 hg
    exact .inl ⟨.inl (.inl hg), .fault f, by simp [hskip], hf⟩
  · obtain ⟨skipped, hskip⟩ := hskips.2 hg
    cases skipped with
    | true => exact .inr ⟨by simp [hg, hskip], by simp [hskip, Episode.Ended]⟩
    | false =>
      have h := Context.failsAmong_substituteTable hc hs
      by_cases hp : ∃ e ∈ s.parameters, c.tree.fits 0 e.2 = false ∨ c.tree.MentionsOverlong e.2
      · obtain ⟨f, hf, hps⟩ := h.1 hp
        exact .inl ⟨.inl (.inr ⟨hskip, hp⟩), .fault f, by simp [hskip, hps], hf⟩
      · obtain ⟨ps, hps⟩ := h.2 hp
        by_cases hcall : (tools τ s.tool ps).1.Aborts
        · refine .inl ⟨.inr ⟨hskip, ps, hps, hcall⟩, _, ?_, hcall.isOfJson (htools τ s.tool ps)⟩
          simp [hskip, hps, hcall.ending]
        · refine .inr ⟨by simp [hg, hskip, hp, hps, hcall], ?_⟩
          simp only [hskip, hps, Episode.Ended]
          exact Outcome.exists_ending hcall

end Steps

section Course

variable [Stack] {σ : Type} {tools : Tools σ}

/-- Every context that a course goes through holds JSON. -/
theorem isJson_lastContext {c : Context} (hc : c.IsJson) (steps : List Step) (τ : σ) :
    (Episode.lastContext c (tools.course steps c τ)).IsJson := by
  induction steps generalizing c τ with
  | nil => exact hc
  | cons s rest ih =>
    have hafter : (tools.episode s c τ).after.IsJson := by
      unfold Episode.after
      rw [episode_before, episode_step]
      split
      · exact hc.complete s _
      · exact hc
    cases hg : (tools.episode s c τ).goesOn with
    | true =>
      rw [Tools.course_cons_of_goesOn rest hg]
      exact ih hafter _
    | false =>
      rw [Tools.course_cons_of_stops rest hg]
      exact hafter

end Course

/-! ### Runs -/

namespace Sample

theorem isJson_entry (id tool : String) {more : List (String × Value)}
    (h : ∀ e ∈ more, e.2.IsJson) : (entry id tool more).IsJson := by
  refine Value.isJson_ofFields (List.forall_mem_append.2 ⟨?_, h⟩)
  simp [Value.isJson_str, Value.isJson_ofFields]

theorem isJson_document : document.IsJson := by
  have hsteps : (Value.list [
      entry "first" "make" [("condition", .str "variables.absent")],
      entry "second" "break" [("on_error", .str "continue")],
      entry "third" "make" [("condition", .str "variables.n == 1"),
        ("output_mapping", .ofFields [("n", .str "id")])],
      entry "fourth" "break" [],
      entry "fifth" "make" []]).IsJson :=
    .list (by simp [isJson_entry, Value.isJson_str, Value.isJson_ofFields])
  exact Value.isJson_ofFields (by simp [Value.isJson_str, hsteps])

theorem tools_ne_interrupted (τ : Nat) (tool : String) (ps : Table String Value) :
    (engine.tools τ tool ps).1 ≠ .interrupted := by
  simp only [engine, tools]
  split <;> simp

theorem publisher_ne_cancelled (p : Publisher Unit) (h : engine.publisher = some p) (b : Unit)
    (event : Event) : (p b event).1 ≠ .cancelled := by
  cases h
  simp [Publisher.delivering]

end Sample

namespace Engine

variable [Stack] {σ β : Type} {e : Engine σ β} {id : String} {d : Definition}
  {supplied : Table String Value} {context : Context} {tools : σ} {publisher : β}

/-- When some first steps of a workflow do not fail, the next step has its turn in the context they
leave. -/
theorem episode_mem_courseOf {before after : List Step} {step : Step} {r : RunResult}
    {s : RunState σ β} (hsplit : d.steps = before ++ step :: after)
    (h : e.run id { d with steps := before } supplied context tools publisher = .ok r s)
    (hr : r.tally.status ≠ .failed) :
    e.tools.episode step s.context s.tools ∈ e.courseOf d supplied context tools := by
  obtain ⟨hended, rfl, hstage⟩ := run_ok h
  simp only [RunState.stage, Stage.mk.injEq] at hstage
  have hall : (e.tools.course before (context.seed d supplied) tools).all Episode.goesOn = true :=
    List.all_eq_true.2 ((Episode.status_ne_failed_iff hended).1 hr)
  rw [hstage.1, hstage.2.1, courseOf, hsplit, Tools.course_append]
  refine List.mem_append_right _ ?_
  rw [if_pos hall, Tools.course]
  exact List.mem_cons_self

/-- A step that has its turn in a run finds what the run of the steps before it leaves. -/
theorem exists_run_of_mem_courseOf (hp : ¬ e.CanBeCancelled) (id : String) (publisher : β)
    {x : Episode σ} (hx : x ∈ e.courseOf d supplied context tools) :
    ∃ before step after r s, d.steps = before ++ step :: after ∧
      e.run id { d with steps := before } supplied context tools publisher = .ok r s ∧
      r.tally.status ≠ .failed ∧ x = e.tools.episode step s.context s.tools := by
  obtain ⟨before, step, after, hsplit, hall, rfl⟩ := Tools.split_of_mem_course hx
  have hended : ∀ y ∈ e.courseOf { d with steps := before } supplied context tools, y.Ended :=
    fun y hy => .of_goesOn (hall y hy)
  obtain ⟨r, s, hrun⟩ : ∃ r s,
    e.run id { d with steps := before } supplied context tools publisher =
      .ok r s := run_returns hp hended
  obtain ⟨-, hr, hstage⟩ := run_ok hrun
  simp only [RunState.stage, Stage.mk.injEq] at hstage
  refine ⟨before, step, after, r, s, hsplit, hrun, ?_, by rw [hstage.1, hstage.2.1]; rfl⟩
  rw [hr]
  exact (Episode.status_ne_failed_iff hended).2 hall

/-- **When a run returns.** Given a workflow from a JSON document, JSON values to start from, tools
that do not interrupt the run and a publisher that does not cancel it, a run returns exactly when no
step whose turn comes breaks off. Otherwise it ends with an integer that is too large or too long,
with a value that nests too deep, or with an exception that the text of another one raised. -/
theorem run_returns_iff {v : Value} (hv : v.IsJson) (hd : Definition.ofDocument v = .ok d)
    (hsupplied : ∀ e ∈ supplied, e.2.IsJson) (hcontext : context.IsJson)
    (htools : ∀ τ tool ps, (e.tools τ tool ps).1 ≠ .interrupted)
    (hpublisher : ∀ p, e.publisher = some p → ∀ b event, (p b event).1 ≠ .cancelled) :
    ((∃ r s, e.run id d supplied context tools publisher = .ok r s) ↔
      ∀ before step after r s, d.steps = before ++ step :: after →
        e.run id { d with steps := before } supplied context tools publisher = .ok r s →
        r.tally.status ≠ .failed → ¬ step.BreaksOff e.tools s.context s.tools) ∧
    ∀ a s, e.run id d supplied context tools publisher = .error a s → a.IsOfJson := by
  obtain ⟨hparameters, hdefaults⟩ := isJson_of_ofDocument hv hd
  have hp : ¬ e.CanBeCancelled := fun ⟨p, hp, b, event, hc⟩ => hpublisher p hp b event hc
  have hseed : (context.seed d supplied).IsJson := hcontext.seed hsupplied hdefaults
  have hcases : ∀ before step after r s, d.steps = before ++ step :: after →
      e.run id { d with steps := before } supplied context tools publisher = .ok r s →
      (step.BreaksOff e.tools s.context s.tools ∧ ∃ a : Abort,
        (e.tools.episode step s.context s.tools).ending = .error a ∧ a.IsOfJson) ∨
      (¬ step.BreaksOff e.tools s.context s.tools ∧
        (e.tools.episode step s.context s.tools).Ended) := by
    intro before step after r s hsplit hrun
    obtain ⟨-, -, hstage⟩ := run_ok hrun
    simp only [RunState.stage, Stage.mk.injEq] at hstage
    refine episode_cases htools (hparameters step (by simp [hsplit])) ?_ _
    rw [hstage.1]
    exact isJson_lastContext hseed _ _
  refine ⟨⟨?_, fun h => run_returns hp fun x hx => ?_⟩, fun a s h => ?_⟩
  · -- a step that breaks off would be in the course, where every episode has ended
    rintro ⟨r₀, s₀, h₀⟩ before step after r s hsplit hrun hr hbreaks
    obtain ⟨ending, hending⟩ := (run_ok h₀).1 _ (episode_mem_courseOf hsplit hrun hr)
    obtain ⟨-, a, ha, -⟩ | ⟨hn, -⟩ := hcases before step after r s hsplit hrun
    · simp [hending] at ha
    · exact hn hbreaks
  · -- an episode of the course belongs to a step whose turn comes
    obtain ⟨before, step, after, r, s, hsplit, hrun, hr, rfl⟩ :=
      exists_run_of_mem_courseOf hp id publisher hx
    obtain ⟨hbreaks, -⟩ | ⟨-, hended⟩ := hcases before step after r s hsplit hrun
    · exact absurd hbreaks (h before step after r s hsplit hrun hr)
    · exact hended
  · obtain ⟨x, hx, ha, -⟩ | ⟨-, hc, -⟩ := run_error h
    · obtain ⟨before, step, after, r, s, hsplit, hrun, -, rfl⟩ :=
        exists_run_of_mem_courseOf hp id publisher hx
      obtain ⟨-, a', ha', hcause⟩ | ⟨-, ending, hending⟩ := hcases before step after r s hsplit hrun
      · rw [ha', Except.error.injEq] at ha
        exact ha ▸ hcause
      · simp [hending] at ha
    · exact absurd hc hp

end Engine

namespace Engine

theorem run_returns_iff_sample :
    (∃ r s, Sample.engine.run "run" Sample.definition [("n", .int 1)] .empty 0 () = .ok r s) ∧
      ∀ before step after r s, Sample.definition.steps = before ++ step :: after →
        Sample.engine.run "run" { Sample.definition with steps := before } [("n", .int 1)] .empty 0
          () = .ok r s →
        r.tally.status ≠ .failed → ¬ step.BreaksOff Sample.engine.tools s.context s.tools := by
  obtain ⟨r, s, h, -⟩ := Sample.run_returns_sample
  refine ⟨⟨r, s, h⟩, (run_returns_iff Sample.isJson_document Sample.ofDocument_document ?_
    Context.isJson_empty ?_ ?_).1.1 ⟨r, s, h⟩⟩
  · exact List.forall_mem_cons.2 ⟨.scalar trivial, by simp⟩
  · exact Sample.tools_ne_interrupted
  · exact Sample.publisher_ne_cancelled

/-- The document of a workflow with one step, whose condition is a variable. -/
def Sample.guardedDocument : Value :=
  .ofFields [("name", .str "guarded"), ("description", .str "A guarded step"),
    ("steps", .list [Sample.entry "only" "make" [("condition", .str "variables.n")]])]

/-- The workflow with one step, whose condition is a variable. -/
def Sample.guarded : Definition :=
  ⟨"guarded", "A guarded step", none, none,
    [Sample.step "only" "make" (some "variables.n") none none]⟩

/-- The fault that a run ends with. -/
def Sample.fault? {σ β : Type} : EStateM.Result Abort (RunState σ β) RunResult → Option Fault
  | .error (.fault f) _ => some f
  | _ => none

/-- **A variable that is too large** ends the run of a step whose condition it is. -/
theorem run_huge_variable : Sample.guardedDocument.IsJson ∧
    Definition.ofDocument Sample.guardedDocument = .ok Sample.guarded ∧
    ∃ s, Sample.engine.run "run" Sample.guarded [("n", .int (pow10 400))] .empty 0 () =
      .error (.fault .tooLarge) s := by
  refine ⟨?_, rfl, ?_⟩
  · have hsteps : (Value.list [Sample.entry "only" "make"
        [("condition", .str "variables.n")]]).IsJson :=
      .list (by simp [Sample.isJson_entry, Value.isJson_str])
    exact Value.isJson_ofFields (by simp [Value.isJson_str, hsteps])
  · have h : Sample.fault? (Sample.engine.run "run" Sample.guarded [("n", .int (pow10 400))]
        .empty 0 ()) = some .tooLarge := by decide +kernel
    unfold Sample.fault? at h
    split at h
    · next f s hrun =>
      cases h
      exact ⟨s, hrun⟩
    · cases h

end Engine
end Runbook
