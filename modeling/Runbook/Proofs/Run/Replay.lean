import Runbook.Proofs.Run.Course

/-!
# Replays

The tool calls of a trace, made again one after another, get the answers they got in the run. So the
texts of the steps that succeeded are a function of the trace and of the first state of the tools.

* `Tools.answers`, `Tools.leave`: the answers to calls, and the state they leave the tools in;
* `answers_course`: the answers to the calls of a course are those that its episodes ended with.
-/

namespace Runbook

/-- The tool and the parameters of a call. -/
def Happening.call? : Happening → Option (String × Table String Value)
  | .call tool ps _ => some (tool, ps)
  | .event _ _ => none

/-- The context at the moment of a happening. -/
def Happening.context : Happening → Context
  | .call _ _ c => c
  | .event _ c => c

/-- The calls among some happenings. -/
def callsIn (hs : List Happening) : List (String × Table String Value) :=
  hs.filterMap Happening.call?

@[simp] theorem callsIn_nil : callsIn [] = [] := rfl

@[simp] theorem callsIn_append (hs hs' : List Happening) :
    callsIn (hs ++ hs') = callsIn hs ++ callsIn hs' :=
  List.filterMap_append

namespace Tools

variable {σ : Type} (tools : Tools σ)

/-- The answers to calls made one after another: the text of each response, or why there is none. -/
def answers : σ → List (String × Table String Value) → List (Except (Option String) String)
  | _, [] => []
  | τ, (tool, ps) :: r => (tools τ tool ps).1.text tool :: answers (tools τ tool ps).2 r

/-- The state of the tools after calls made one after another. -/
def leave : σ → List (String × Table String Value) → σ
  | τ, [] => τ
  | τ, (tool, ps) :: r => leave (tools τ tool ps).2 r

@[simp] theorem answers_nil (τ : σ) : tools.answers τ [] = [] := rfl

@[simp] theorem leave_nil (τ : σ) : tools.leave τ [] = τ := rfl

@[simp] theorem length_answers (τ : σ) (calls : List (String × Table String Value)) :
    (tools.answers τ calls).length = calls.length := by
  induction calls generalizing τ with
  | nil => rfl
  | cons call r ih => simp [answers, ih]

theorem answers_append (τ : σ) (calls more : List (String × Table String Value)) :
    tools.answers τ (calls ++ more) =
      tools.answers τ calls ++ tools.answers (tools.leave τ calls) more := by
  induction calls generalizing τ with
  | nil => rfl
  | cons call r ih => simp [answers, leave, ih]

theorem leave_append (τ : σ) (calls more : List (String × Table String Value)) :
    tools.leave τ (calls ++ more) = tools.leave (tools.leave τ calls) more := by
  induction calls generalizing τ with
  | nil => rfl
  | cons call r ih => simp [leave, ih]

end Tools

namespace Episode

variable {σ : Type} (x : Episode σ)

/-- The answer to the call of an episode, if there was a call. -/
def answer? : Option (Except (Option String) String) :=
  match x.ending with
  | .ok (.succeeded raw) => some (.ok raw)
  | .ok (.failed error) => some (.error (some error))
  | .ok (.skipped _) => none
  | .error .cancelled | .error (.raised _) => some (.error none)
  | .error (.fault _) => none

end Episode

section Course

variable [Stack] {σ : Type} (tools : Tools σ)

/-- The call of an episode gets the answer the episode ends with, and leaves the tools as the
episode does. -/
theorem replay_episode (s : Step) (c : Context) (τ : σ) :
    let x := tools.episode s c τ
    tools.answers τ (callsIn x.calls) = x.answer?.toList ∧
      tools.leave τ (callsIn x.calls) = x.tools := by
  intro x
  unfold x Tools.episode
  cases s.isSkipped c with
  | error f => simp [Episode.calls, Episode.answer?]
  | ok skipped =>
    cases skipped with
    | true => simp [Episode.calls, Episode.answer?]
    | false =>
      cases c.substituteTable s.parameters with
      | error f => simp [Episode.calls, Episode.answer?]
      | ok ps =>
        simp only [Episode.calls, Episode.answer?, Outcome.ending, callsIn, List.filterMap_cons,
          Happening.call?, List.filterMap_nil, Tools.answers, Tools.leave, and_true]
        cases h : (tools τ s.tool ps).1.text s.tool with
        | ok raw => simp
        | error reason =>
          cases reason with
          | some error => simp
          | none => obtain h | ⟨kind, h⟩ := (tools τ s.tool ps).1.abort_cases <;> simp [h]

/-- The calls of a course get the answers that its episodes end with, and leave the tools as the
course does. -/
theorem replay_course (steps : List Step) (c : Context) (τ : σ) :
    let xs := tools.course steps c τ
    tools.answers τ (callsIn (xs.flatMap Episode.calls)) = xs.filterMap Episode.answer? ∧
      tools.leave τ (callsIn (xs.flatMap Episode.calls)) = Episode.lastTools τ xs := by
  induction steps generalizing c τ with
  | nil => simp
  | cons s rest ih =>
    obtain ⟨ha, hl⟩ := replay_episode tools s c τ
    cases hg : (tools.episode s c τ).goesOn with
    | false =>
      rw [Tools.course_cons_of_stops rest hg]
      cases h : (tools.episode s c τ).answer? <;> simp [ha, hl, h]
    | true =>
      obtain ⟨iha, ihl⟩ := ih (tools.episode s c τ).after (tools.episode s c τ).tools
      simp only [Tools.course_cons_of_goesOn rest hg, List.flatMap_cons, callsIn_append,
        Tools.answers_append, Tools.leave_append, ha, hl, iha, ihl]
      cases h : (tools.episode s c τ).answer? <;> simp [h]

end Course

namespace Engine

variable {σ β : Type} (e : Engine σ β) (i : Identity)

@[simp] theorem callsIn_shown (event : Event) (c : Context) : callsIn (e.shown event c) = [] := by
  unfold shown
  split <;> rfl

variable [Stack]

@[simp] theorem callsIn_happenings (x : Episode σ) :
    callsIn (e.happenings i x) = callsIn x.calls := by
  simp only [happenings, closing, callsIn_append, callsIn_shown, List.nil_append]
  split <;> simp

@[simp] theorem callsIn_flatMap_happenings (xs : List (Episode σ)) :
    callsIn (xs.flatMap (e.happenings i)) = callsIn (xs.flatMap Episode.calls) := by
  induction xs with
  | nil => rfl
  | cons x xs ih => simp [ih]

@[simp] theorem callsIn_script (d : Definition) (c : Context) (xs : List (Episode σ)) :
    callsIn (e.script i d c xs) = callsIn (xs.flatMap Episode.calls) := by
  simp [script]

/-- The answers that the calls of a run got. -/
def answersIn (e : Engine σ β) (tools : σ) (hs : List Happening) :
    List (Except (Option String) String) :=
  e.tools.answers tools (callsIn hs)

end Engine
end Runbook
