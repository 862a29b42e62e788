import Runbook.Proofs.Run.Tally
import Runbook.Proofs.Schema
import Mathlib.Data.List.Induction

/-!
# Ledgers

The context of a run that starts from the empty one, at every moment: the records of the steps that
have succeeded so far, and the variables that their output mappings made of the seeded ones
(`ledger`). The steps that have succeeded are told by the calls made so far and the answers to them
(`successes`), which the trace fixes.

* `Told`: every happening of a trace meets the context that the calls before it have left;
* `told_course`: a course is told so;
* `run_follows`: at every moment of a run, whether it returns or not, the context is what the
  successes so far have made of the first one;
* `run_ledger`: from the empty context they make the ledger.
-/

namespace Runbook

/-- The steps whose calls were answered with a text, with the text. -/
def successes : List Step → List (Except (Option String) String) → List (Step × String)
  | s :: called, .ok raw :: answers => (s, raw) :: successes called answers
  | _ :: called, .error _ :: answers => successes called answers
  | _, _ => []

section Successes

variable (s : Step) (called : List Step) (answers : List (Except (Option String) String))

@[simp] theorem successes_nil : successes called [] = [] := by
  cases called <;> rfl

@[simp] theorem successes_of_nil : successes [] answers = [] := rfl

@[simp] theorem successes_ok (raw : String) :
    successes (s :: called) (.ok raw :: answers) = (s, raw) :: successes called answers := rfl

@[simp] theorem successes_error (reason : Option String) :
    successes (s :: called) (.error reason :: answers) = successes called answers := rfl

/-- Later answers are those of later steps. -/
theorem successes_append (more : List (Except (Option String) String)) :
    successes called (answers ++ more) =
      successes called answers ++ successes (called.drop answers.length) more := by
  induction answers generalizing called with
  | nil => simp
  | cons a answers ih =>
    cases called with
    | nil => simp
    | cons s called => cases a <;> simp [ih]

/-- Steps beyond the last answer make no difference. -/
theorem successes_take {n : Nat} (h : answers.length ≤ n) :
    successes (called.take n) answers = successes called answers := by
  induction answers generalizing called n with
  | nil => simp
  | cons a answers ih =>
    cases called with
    | nil => simp
    | cons s called =>
      cases n with
      | zero => simp at h
      | succ n =>
        have := ih called (Nat.le_of_succ_le_succ h)
        cases a <;> simp [this]

theorem successes_sublist : ((successes called answers).map Prod.fst).Sublist called := by
  induction answers generalizing called with
  | nil => simp
  | cons a answers ih =>
    cases called with
    | nil => simp
    | cons s called =>
      cases a with
      | ok raw => simpa using ih called
      | error reason => exact (ih called).cons _

end Successes

namespace Context

/-- An entry of an output mapping sets its variable to the value at its path, or removes it when the
path leads nowhere, and leaves the other variables alone. -/
theorem get?_mapVariable (output : Value) (vars : Table String Value) (e : String × String)
    (key : String) :
    (mapVariable output vars e).get? key =
      if key = e.1 then output.resolve e.2 else vars.get? key := by
  unfold mapVariable
  split
  · next v hv =>
    split
    · next hkey => rw [hkey, Table.get?_set_self, hv]
    · next hkey => exact Table.get?_set_of_ne _ _ (Ne.symm hkey)
  · next hv =>
    split
    · next hkey => rw [hkey, Table.get?_erase_self, hv]
    · next hkey => exact Table.get?_erase_of_ne _ (Ne.symm hkey)

variable [Stack]

/-- The context after steps succeeded with texts, one after another. -/
def completeAll (c : Context) (done : List (Step × String)) : Context :=
  done.foldl (fun c p => c.complete p.1 p.2) c

@[simp] theorem completeAll_nil (c : Context) : c.completeAll [] = c := rfl

theorem completeAll_append (c : Context) (done more : List (Step × String)) :
    c.completeAll (done ++ more) = (c.completeAll done).completeAll more :=
  List.foldl_append

end Context

/-- The context that steps which succeeded with texts leave: a record for each, in order, and the
variables that their output mappings make of the ones given. -/
def ledger [Stack] (vars : Table String Value) (done : List (Step × String)) : Context :=
  { steps := done.map fun p => (p.1.id, ⟨Output.ofText p.2, p.2⟩)
    vars := done.foldl (fun vars p =>
      p.1.mapping.foldl (Context.mapVariable (Output.ofText p.2).value) vars) vars }

/-- Completing steps with distinct identifiers never writes over a record. -/
theorem completeAll_eq_ledger [Stack] {vars : Table String Value} {done : List (Step × String)}
    (h : (done.map fun p => p.1.id).Nodup) :
    (Context.mk vars []).completeAll done = ledger vars done := by
  induction done using List.reverseRecOn with
  | nil => rfl
  | append_singleton done p ih =>
    rw [List.map_append, List.nodup_append] at h
    obtain ⟨hdone, -, hdisjoint⟩ := h
    -- the last record is a new one, so it goes to the end
    have hp : p.1.id ∉ (ledger vars done).steps.keys := by
      intro hmem
      simp only [ledger, Table.keys, List.map_map, List.mem_map] at hmem
      obtain ⟨q, hq, hid⟩ := hmem
      exact hdisjoint _ (List.mem_map_of_mem hq) p.1.id (by simp) hid
    rw [Context.completeAll_append, ih hdone]
    simp only [Context.completeAll, List.foldl_cons, List.foldl_nil, Context.complete,
      Table.set_of_not_mem _ hp]
    simp [ledger, Record.ofText]

/-- Whether every happening meets the context that the calls before it have left, the calls being
those of some steps. -/
def Told [Stack] {σ : Type} (tools : Tools σ) (c : Context) (τ : σ) (called : List Step)
    (hs : List Happening) : Prop :=
  ∀ pre h post, hs = pre ++ h :: post →
    h.context = c.completeAll (successes called (tools.answers τ (callsIn pre)))

section Told

variable [Stack] {σ : Type} {tools : Tools σ} {c : Context} {τ : σ} {called : List Step}

theorem told_nil : Told tools c τ called [] := by
  intro pre h post hs
  simp at hs

theorem told_singleton {h : Happening} (hc : h.context = c) : Told tools c τ called [h] := by
  intro pre h' post hs
  obtain ⟨rfl, rfl, rfl⟩ : pre = [] ∧ h' = h ∧ post = [] := by
    cases pre with
    | nil => simpa [eq_comm] using hs
    | cons => simp at hs
  simpa using hc

/-- A trace is told in two parts, the second from where the first leaves off. -/
theorem Told.append {hs more : List Happening} (h : Told tools c τ called hs)
    (hmore : Told tools (c.completeAll (successes called (tools.answers τ (callsIn hs))))
      (tools.leave τ (callsIn hs)) (called.drop (callsIn hs).length) more) :
    Told tools c τ called (hs ++ more) := by
  intro pre x post hsplit
  obtain ⟨mid, rfl, hmid⟩ | ⟨mid, rfl, hmid⟩ := List.append_eq_append_iff.1 hsplit
  · -- the happening is in the second part
    rw [callsIn_append, Tools.answers_append, successes_append, Context.completeAll_append,
      Tools.length_answers]
    exact hmore mid x post hmid
  · cases mid with
    | nil =>
      simp only [List.append_nil, List.nil_append] at hmore hmid
      simpa using hmore [] x post hmid.symm
    | cons y mid =>
      obtain ⟨rfl, -⟩ : x = y ∧ _ := by simpa using hmid
      exact h pre x mid rfl

/-- What happened first is told. -/
theorem Told.left {hs more : List Happening} (h : Told tools c τ called (hs ++ more)) :
    Told tools c τ called hs := by
  rintro pre x post rfl
  exact h pre x (post ++ more) (by simp)

end Told

namespace Episode

variable {σ : Type}

/-- The step of an episode, if it makes a call. -/
def caller (x : Episode σ) : List Step :=
  if x.parameters.isSome then [x.step] else []

/-- The calls of an episode are those of its step. -/
theorem map_fst_calls (x : Episode σ) :
    (callsIn x.calls).map Prod.fst = x.caller.map Step.tool := by
  cases h : x.parameters <;> simp [calls, caller, callsIn, Happening.call?, h]

theorem length_calls (x : Episode σ) : (callsIn x.calls).length = x.caller.length := by
  simpa using congrArg List.length x.map_fst_calls

theorem map_fst_course (xs : List (Episode σ)) :
    (callsIn (xs.flatMap calls)).map Prod.fst = (xs.flatMap caller).map Step.tool := by
  induction xs with
  | nil => rfl
  | cons x xs ih => simp [ih, map_fst_calls]

/-- The steps that make calls are among the steps of the course. -/
theorem flatMap_caller_sublist (xs : List (Episode σ)) :
    (xs.flatMap caller).Sublist (xs.map Episode.step) := by
  induction xs with
  | nil => simp
  | cons x xs ih =>
    rw [List.flatMap_cons, List.map_cons, caller]
    split
    · exact ih.cons_cons _
    · exact ih.cons _

end Episode

section Course

variable [Stack] {σ β : Type} {tools : Tools σ} {e : Engine σ β} {i : Engine.Identity}

/-- An episode leaves the context as the answer to its call says. -/
theorem completeAll_episode (s : Step) (c : Context) (τ : σ) (called : List Step) :
    let x := tools.episode s c τ
    c.completeAll (successes (x.caller ++ called) (tools.answers τ (callsIn x.calls))) =
      x.after := by
  intro x
  rw [(replay_episode tools s c τ).1]
  unfold x Tools.episode
  cases s.isSkipped c with
  | error f => simp [Episode.after, Episode.answer?]
  | ok skipped =>
    cases skipped with
    | true => simp [Episode.after, Episode.answer?]
    | false =>
      cases c.substituteTable s.parameters with
      | error f => simp [Episode.after, Episode.answer?]
      | ok ps =>
        simp only [Episode.after, Episode.answer?, Episode.caller, Outcome.ending]
        cases (tools τ s.tool ps).1.text s.tool with
        | ok raw => simp [Context.completeAll]
        | error reason =>
          cases reason with
          | some error => simp
          | none =>
            obtain ha | ⟨kind, ha⟩ := (tools τ s.tool ps).1.abort_cases <;> simp [ha]

theorem told_shown (c : Context) (τ : σ) (called : List Step) (event : Event) :
    Told tools c τ called (e.shown event c) := by
  unfold Engine.shown
  split
  · exact told_singleton rfl
  · exact told_nil

/-- An episode is told. -/
theorem told_happenings (s : Step) (c : Context) (τ : σ) (called : List Step) :
    let x := tools.episode s c τ
    Told tools c τ (x.caller ++ called) (e.happenings i x) := by
  intro x
  have hcalls : Told tools c τ (x.caller ++ called) x.calls := by
    unfold Episode.calls
    split
    · exact told_singleton (by simp [Happening.context, x])
    · exact told_nil
  have hclosing : ∀ τ called, Told tools x.after τ called (e.closing i x) := by
    intro τ called
    unfold Engine.closing
    split
    · exact told_shown _ _ _ _
    · exact told_nil
  have hstart : Told tools c τ (x.caller ++ called) (e.shown (i.stepStarted x.step) x.before) := by
    rw [episode_before]
    exact told_shown _ _ _ _
  refine hstart.append ?_
  -- an event leaves the context and the tools as they are
  simp only [Engine.callsIn_shown, Tools.answers_nil, successes_nil, Context.completeAll_nil,
    Tools.leave_nil, List.length_nil, List.drop_zero]
  refine hcalls.append ?_
  rw [completeAll_episode]
  exact hclosing _ _

/-- A course leaves the context that the answers to its calls make. -/
theorem completeAll_course (steps : List Step) (c : Context) (τ : σ) :
    let xs := tools.course steps c τ
    c.completeAll (successes (xs.flatMap Episode.caller)
      (tools.answers τ (callsIn (xs.flatMap Episode.calls)))) = Episode.lastContext c xs := by
  induction steps generalizing c τ with
  | nil => simp
  | cons s rest ih =>
    cases hg : (tools.episode s c τ).goesOn with
    | false => simpa [Tools.course_cons_of_stops rest hg] using completeAll_episode s c τ []
    | true =>
      simp only [Tools.course_cons_of_goesOn rest hg, List.flatMap_cons, callsIn_append]
      rw [Tools.answers_append, successes_append, Context.completeAll_append, completeAll_episode,
        (replay_episode tools s c τ).2, Tools.length_answers, Episode.length_calls, List.drop_left]
      exact ih _ _

/-- **A course is told.** -/
theorem told_course (steps : List Step) (c : Context) (τ : σ) :
    let xs := tools.course steps c τ
    Told tools c τ (xs.flatMap Episode.caller) (xs.flatMap (e.happenings i)) := by
  induction steps generalizing c τ with
  | nil => exact told_nil
  | cons s rest ih =>
    cases hg : (tools.episode s c τ).goesOn with
    | false =>
      simpa [Tools.course_cons_of_stops rest hg] using told_happenings s c τ []
    | true =>
      simp only [Tools.course_cons_of_goesOn rest hg, List.flatMap_cons]
      refine (told_happenings s c τ _).append ?_
      rw [Engine.callsIn_happenings, completeAll_episode, (replay_episode tools s c τ).2,
        Episode.length_calls, List.drop_left]
      exact ih _ _

/-- A run is told. -/
theorem told_script (d : Definition) (c : Context) (τ : σ) :
    let xs := e.tools.course d.steps c τ
    Told e.tools c τ (xs.flatMap Episode.caller) (e.script i d c xs) := by
  intro xs
  refine (told_shown _ _ _ _).append ?_
  simp only [Engine.callsIn_shown, Tools.answers_nil, successes_nil, Context.completeAll_nil,
    Tools.leave_nil, List.length_nil, List.drop_zero]
  refine (told_course _ _ _).append ?_
  rw [Engine.callsIn_flatMap_happenings, completeAll_course]
  exact told_shown _ _ _ _

end Course

namespace Engine

variable [Stack] {σ β α : Type} {e : Engine σ β}

/-- The state in which a run ends, with or without result. -/
def lastState : EStateM.Result Abort (RunState σ β) α → RunState σ β
  | .ok _ s => s
  | .error _ s => s

/-- The moments of a run up to a state, with the steps that have succeeded so far and the context,
the calls being those of some steps: everything that happens, and the end. As only the answer to a
call changes the context, it is that of the next moment in between. -/
inductive Moment (e : Engine σ β) (tools : σ) (called : List Step) (s : RunState σ β) :
    List (Step × String) → Context → Prop
  | during {pre post : List Happening} {h : Happening} (hs : s.trace = pre ++ h :: post) :
    Moment e tools called s (successes called (e.answersIn tools pre)) h.context
  | last : Moment e tools called s (successes called (e.answersIn tools s.trace)) s.context

/-- Whether a run from a context has called tools for some of its steps, and has a context at every
moment that is what the successes so far have made of the first one. -/
structure Follows (e : Engine σ β) (steps : List Step) (c : Context) (tools : σ)
    (called : List Step) (s : RunState σ β) : Prop where
  sublist : called.Sublist steps
  calls : (callsIn s.trace).map Prod.fst = called.map Step.tool
  moment : ∀ done c', e.Moment tools called s done c' → c' = c.completeAll done

/-- Whether the context was the ledger of the successes so far at every moment of a run and at its
end, the calls being those of some of its steps. -/
structure KeepsLedger (e : Engine σ β) (steps : List Step) (vars : Table String Value) (tools : σ)
    (called : List Step) (s : RunState σ β) : Prop where
  sublist : called.Sublist steps
  distinct : (called.map Step.id).Nodup
  calls : (callsIn s.trace).map Prod.fst = called.map Step.tool
  moment : ∀ pre h post, s.trace = pre ++ h :: post →
    h.context = ledger vars (successes called (e.answersIn tools pre))
  last : s.context = ledger vars (successes called (e.answersIn tools s.trace))

/-- No two steps write the same record, so what follows from a context without records is a
ledger. -/
theorem Follows.keepsLedger {steps called : List Step} {vars : Table String Value} {tools : σ}
    {s : RunState σ β} (h : e.Follows steps ⟨vars, []⟩ tools called s)
    (hsteps : (steps.map Step.id).Nodup) : e.KeepsLedger steps vars tools called s := by
  have hdistinct : (called.map Step.id).Nodup := hsteps.sublist (h.sublist.map _)
  have hledger (answers) : (Context.mk vars []).completeAll (successes called answers) =
      ledger vars (successes called answers) := by
    refine completeAll_eq_ledger ?_
    have hids := (successes_sublist called answers).map Step.id
    rw [List.map_map] at hids
    exact hdistinct.sublist hids
  constructor
  case sublist => exact h.sublist
  case distinct => exact hdistinct
  case calls => exact h.calls
  case moment => exact fun pre x post hs => (h.moment _ _ (.during hs)).trans (hledger _)
  case last => exact (h.moment _ _ .last).trans (hledger _)

/-- The steps of a course that make calls, with the states their answers mean, are those with a
result that is not skipped. -/
theorem zip_caller {tools : Tools σ} (n : Nat) {xs : List (Episode σ)}
    (h : ∀ x ∈ xs, x.Ended ∧ ∃ s c τ, x = tools.episode s c τ) :
    ((xs.flatMap Episode.caller).map Step.id).zip
        ((xs.filterMap Episode.answer?).map statusOfAnswer) =
      ((((xs.flatMap Episode.endings).map (resultPair n)).map Prod.snd).filter
        (·.status ≠ .skipped)).map fun r => (r.id, r.status) := by
  induction xs with
  | nil => rfl
  | cons x xs ih =>
    have hxs := ih fun y hy => h y (List.mem_cons_of_mem _ hy)
    obtain ⟨⟨ending, hx⟩, s, c, τ, rfl⟩ := h x List.mem_cons_self
    have hcall := parameters_isSome_iff hx
    cases ending <;>
      simp_all [Episode.caller, Episode.answer?, Episode.endings, resultPair, statusOfAnswer]

variable {id : String} {d : Definition} {supplied : Table String Value} {context : Context}
  {tools : σ} {publisher : β}

/-- A run that is told, as far as its calls go, follows from its first context. -/
theorem follows_of_told {steps called : List Step} {c : Context} {s : RunState σ β}
    (hsub : called.Sublist steps)
    (hcalls : (callsIn s.trace).map Prod.fst <+: called.map Step.tool)
    (htold : Told e.tools c tools called s.trace)
    (hlast : s.context = c.completeAll (successes called (e.answersIn tools s.trace))) :
    e.Follows steps c tools (called.take (callsIn s.trace).length) s := by
  constructor
  case sublist => exact (List.take_sublist _ _).trans hsub
  case calls =>
    rw [List.prefix_iff_eq_take.1 hcalls, List.length_map, List.map_take]
  case moment =>
    intro done c' hmoment
    -- the steps beyond the last call have no answer
    cases hmoment with
    | @during pre post h hs =>
      rw [successes_take _ _ (by simp [answersIn, hs])]
      exact htold pre h post hs
    | last =>
      rw [successes_take _ _ (by simp [answersIn])]
      exact hlast

/-- The steps that make calls in the course of a run. -/
def callers (e : Engine σ β) (d : Definition) (supplied : Table String Value)
    (context : Context) (tools : σ) : List Step :=
  (e.courseOf d supplied context tools).flatMap Episode.caller

theorem callers_sublist (e : Engine σ β) (d : Definition) (supplied : Table String Value)
    (context : Context) (tools : σ) : (e.callers d supplied context tools).Sublist d.steps :=
  (Episode.flatMap_caller_sublist _).trans (e.courseOf_prefix d supplied context tools).sublist

/-- The calls of a whole course are those of its callers. -/
theorem map_fst_callers {hs : List Happening} (hcalls : callsIn hs =
    callsIn ((e.courseOf d supplied context tools).flatMap Episode.calls)) :
    (callsIn hs).map Prod.fst = (e.callers d supplied context tools).map Step.tool := by
  rw [hcalls, Episode.map_fst_course, callers]

/-- A run that has made all the calls of its course follows. -/
theorem follows_of_course {s : RunState σ β}
    (hcalls : callsIn s.trace =
      callsIn ((e.courseOf d supplied context tools).flatMap Episode.calls))
    (htold : Told e.tools (context.seed d supplied) tools (e.callers d supplied context tools)
      s.trace)
    (hlast : s.context = Episode.lastContext (context.seed d supplied)
      (e.courseOf d supplied context tools)) :
    e.Follows d.steps (context.seed d supplied) tools
      ((e.callers d supplied context tools).take (callsIn s.trace).length) s := by
  have hfst := map_fst_callers hcalls
  refine follows_of_told (e.callers_sublist ..) (hfst ▸ List.prefix_rfl) htold ?_
  rw [hlast, answersIn, hcalls]
  exact (completeAll_course d.steps _ tools).symm

theorem run_follows_ok {r : RunResult} {s : RunState σ β}
    (h : e.run id d supplied context tools publisher = .ok r s) :
    e.Follows d.steps (context.seed d supplied) tools (e.callers d supplied context tools) s ∧
      ((e.callers d supplied context tools).map Step.id).zip
          ((e.answersIn tools s.trace).map statusOfAnswer) =
        (r.tally.results.filter (·.status ≠ .skipped)).map fun x => (x.id, x.status) := by
  obtain ⟨hended, rfl, hstage⟩ := run_ok h
  simp only [RunState.stage, Stage.mk.injEq] at hstage
  obtain ⟨hcontext, -, htrace⟩ := hstage
  have hcalls : callsIn s.trace =
      callsIn ((e.courseOf d supplied context tools).flatMap Episode.calls) := by
    rw [htrace, callsIn_script]
  have hlength : (e.callers d supplied context tools).length ≤ (callsIn s.trace).length := by
    simpa using Nat.le_of_eq (congrArg List.length (map_fst_callers hcalls)).symm
  constructor
  · rw [← List.take_of_length_le hlength]
    refine follows_of_course hcalls ?_ hcontext
    rw [htrace]
    exact told_script d _ tools
  · rw [results_course, answersIn, hcalls, courseOf, (replay_course e.tools d.steps _ tools).1]
    exact zip_caller _ fun x hx => ⟨hended x hx, Tools.exists_episode_of_mem hx⟩

theorem run_follows_error {a : Abort} {s : RunState σ β}
    (h : e.run id d supplied context tools publisher = .error a s) :
    e.Follows d.steps (context.seed d supplied) tools
      ((e.callers d supplied context tools).take (callsIn s.trace).length) s := by
  have hscript : Told e.tools (context.seed d supplied) tools
      (e.callers d supplied context tools)
      (e.script ⟨d.name, id⟩ d (context.seed d supplied)
        (e.courseOf d supplied context tools)) := told_script d _ tools
  obtain ⟨x, -, -, hcontext, htrace⟩ | ⟨-, -, before, event, after, hsplit, htrace⟩ := run_error h
  · -- an episode aborted: all of the course has happened, and only the last event is left out
    refine follows_of_course (by simp [htrace]) ?_ hcontext
    rw [script, ← List.append_assoc] at hscript
    rw [htrace]
    exact hscript.left
  · -- the run was cancelled at an event, which met the context that is left
    rw [started, List.nil_append] at htrace
    have hcalls : callsIn s.trace = callsIn before := by
      rw [htrace, callsIn_append]
      exact List.append_nil _
    refine follows_of_told (e.callers_sublist ..) ?_ ?_ ?_
    · rw [callers, ← Episode.map_fst_course, ← e.callsIn_script ⟨d.name, id⟩ d
        (context.seed d supplied), hsplit, callsIn_append, hcalls]
      exact (List.prefix_append _ _).map _
    · rw [htrace]
      rw [hsplit, List.append_cons] at hscript
      exact hscript.left
    · rw [answersIn, hcalls]
      exact hscript before _ after hsplit

/-- **A run follows from its first context**, whether it returns or not; the calls of a run that
returns are those of the steps that were not skipped. -/
theorem run_follows (e : Engine σ β) (id : String) (d : Definition)
    (supplied : Table String Value) (context : Context) (tools : σ) (publisher : β) :
    ∃ called, e.Follows d.steps (context.seed d supplied) tools called
        (lastState (e.run id d supplied context tools publisher)) ∧
      ∀ r s, e.run id d supplied context tools publisher = .ok r s →
        (called.map Step.id).zip ((e.answersIn tools s.trace).map statusOfAnswer) =
          (r.tally.results.filter (·.status ≠ .skipped)).map fun x => (x.id, x.status) := by
  cases h : e.run id d supplied context tools publisher with
  | ok r s =>
    obtain ⟨hfollows, hzip⟩ := run_follows_ok h
    refine ⟨_, hfollows, fun r' s' h' => ?_⟩
    cases h'
    exact hzip
  | error a s => exact ⟨_, run_follows_error h, fun r' s' h' => nomatch h'⟩

/-- **A run from the empty context keeps the ledger** of the successes so far, at every moment and
whether it returns or not; the calls of a run that returns are those of the steps that were not
skipped. An entry of an output mapping sets or removes its variable, and executing a step that does
not succeed leaves the context as it was. -/
theorem run_ledger {v : Value} (hd : Definition.ofDocument v = .ok d) (id : String)
    (supplied : Table String Value) (tools : σ) (publisher : β) :
    (∃ called, e.KeepsLedger d.steps (seedVariables d supplied []) tools called
        (lastState (e.run id d supplied .empty tools publisher)) ∧
      ∀ r s, e.run id d supplied .empty tools publisher = .ok r s →
        (called.map Step.id).zip ((e.answersIn tools s.trace).map statusOfAnswer) =
          (r.tally.results.filter (·.status ≠ .skipped)).map fun x => (x.id, x.status)) ∧
    (∀ output vars entry key, (Context.mapVariable output vars entry).get? key =
      if key = entry.1 then output.resolve entry.2 else vars.get? key) ∧
    ∀ step (s : RunState σ β),
      (∀ x s', e.execute step s = .ok x s' → x.1.status ≠ .success → s'.context = s.context) ∧
      ∀ a s', e.execute step s = .error a s' → s'.context = s.context := by
  have hnodup := nodup_of_ofDocument hd
  refine ⟨?_, Context.get?_mapVariable, fun step s => ⟨fun x s' h hx => ?_, fun a s' h => ?_⟩⟩
  · obtain ⟨called, hfollows, hzip⟩ := run_follows e id d supplied .empty tools publisher
    exact ⟨called, hfollows.keepsLedger hnodup, hzip⟩
  · obtain ⟨ending, hending, rfl, hstage⟩ := execute_ok h
    simp only [RunState.stage, Stage.mk.injEq] at hstage
    rw [hstage.1, Episode.after, hending]
    cases ending with
    | succeeded raw => simp at hx
    | skipped condition => simp
    | failed error => simp
  · obtain ⟨hending, hstage⟩ := execute_error h
    simp only [RunState.stage, Stage.mk.injEq] at hstage
    rw [hstage.1, Episode.after, hending, episode_before]

end Engine

namespace Engine

theorem run_ledger_sample : Definition.ofDocument Sample.document = .ok Sample.definition ∧
    ∃ called, Sample.engine.KeepsLedger Sample.definition.steps [("n", .int 1)] 0 called
      (lastState (Sample.engine.run "run" Sample.definition [("n", .int 1)] .empty 0 ())) := by
  obtain ⟨⟨called, h, -⟩, -⟩ := run_ledger (e := Sample.engine) Sample.ofDocument_document "run"
    [("n", .int 1)] 0 ()
  exact ⟨Sample.ofDocument_document, called, h⟩

end Engine
end Runbook
