import Mathlib.Data.List.Forall2
import Runbook.Proofs.Run.Independence

/-!
# Failure policies

The failure policy of a step is looked at only after the step has failed, to tell whether the next
one has its turn. So workflows that differ in their policies alone do the same until a step stops
one of their runs.

* `Definition.Reforms`: workflows that differ in failure policies only;
* `course_until`, `course_relaxed`, `course_exchanged`: the courses of such workflows, step by step;
* `run_policies`: their runs.
-/

namespace Runbook

/-- Whether two steps differ in their failure policies only, and these are related. -/
def Step.Reforms (R : Policy → Policy → Prop) (s₁ s₂ : Step) : Prop :=
  s₂ = { s₁ with onError := s₂.onError } ∧ R s₁.policy s₂.policy

/-- Whether two workflows differ in the failure policies of their steps only, and those of each step
are related. -/
structure Definition.Reforms (R : Policy → Policy → Prop) (d₁ d₂ : Definition) : Prop where
  rest : d₂ = { d₁ with steps := d₂.steps }
  steps : List.Forall₂ (Step.Reforms R) d₁.steps d₂.steps

/-- A workflow cut after some of its steps. -/
def Definition.cut (d : Definition) (k : Nat) : Definition :=
  { d with steps := d.steps.take k }

namespace Episode

variable {σ : Type} {x y : Episode σ}

/-- An episode without the failure policy of its step. -/
def unpolicied (x : Episode σ) : Episode σ :=
  { x with step := { x.step with onError := none } }

@[simp] theorem unpolicied_ending : x.unpolicied.ending = x.ending := rfl
@[simp] theorem unpolicied_after [Stack] : x.unpolicied.after = x.after := rfl
@[simp] theorem unpolicied_tools : x.unpolicied.tools = x.tools := rfl
@[simp] theorem unpolicied_call? : x.unpolicied.call? = x.call? := rfl
@[simp] theorem unpolicied_calls : x.unpolicied.calls = x.calls := rfl
@[simp] theorem unpolicied_abort? : x.unpolicied.abort? = x.abort? := rfl

@[simp] theorem unpolicied_result? (n : Nat) : x.unpolicied.result? n = x.result? n := by
  have hresult (ending : Ending) :
      ending.result n x.unpolicied.step = ending.result n x.step := by
    cases ending <;> rfl
  simp only [result?, unpolicied_ending, hresult]

theorem unpolicied_resources :
    x.unpolicied.endings.flatMap (fun z => z.2.resources) =
      x.endings.flatMap fun z => z.2.resources := by
  unfold endings
  rw [unpolicied_ending]
  cases x.ending <;> rfl

/-- Where one failure policy lets the run go on, so does another that stops it no more often. -/
theorem goesOn_of_relaxed (h : x.unpolicied = y.unpolicied)
    (hp : y.step.policy = .stop → x.step.policy = .stop) (hx : x.goesOn = true) :
    y.goesOn = true := by
  have hending : x.ending = y.ending := by
    rw [← unpolicied_ending, h, unpolicied_ending]
  unfold goesOn at hx ⊢
  rw [← hending]
  cases hx' : x.ending with
  | error a => simp [hx'] at hx
  | ok ending =>
    simp only [hx'] at hx ⊢
    by_cases hs : y.step.policy = .stop
    · simpa [hs, hp hs] using hx
    · simp [hs]

/-- Two episodes that differ in the failure policies of their steps only, and after both or none of
which the run goes on. -/
def Alike (x y : Episode σ) : Prop :=
  x.unpolicied = y.unpolicied ∧ x.goesOn = y.goesOn

theorem Alike.count_eq (h : x.Alike y) (n : Nat) (t : Tally) : x.count n t = y.count n t := by
  obtain ⟨h, hg⟩ := h
  have hending : x.ending = y.ending := by
    rw [← unpolicied_ending, h, unpolicied_ending]
  have hresult : x.result? n = y.result? n := by
    rw [← unpolicied_result?, h, unpolicied_result?]
  unfold goesOn at hg
  unfold result? at hresult
  unfold count
  rw [hending] at hg hresult ⊢
  cases hy : y.ending with
  | error a => rfl
  | ok ending =>
    simp only [hy, Option.some.injEq] at hresult hg ⊢
    rw [hresult]
    -- only where the step failed does the status depend on its policy
    by_cases hf : ending.status = .failed
    · simp only [hf, decide_true, Bool.true_and, Bool.not_inj_iff, decide_eq_decide] at hg
      simp only [hg]
    · simp only [hf, if_false]

section Alike

variable {xs ys : List (Episode σ)}

theorem map_unpolicied_of_alike (h : List.Forall₂ Alike xs ys) :
    xs.map unpolicied = ys.map unpolicied := by
  induction h with
  | nil => rfl
  | cons hx _ ih => rw [List.map_cons, List.map_cons, hx.1, ih]

theorem foldl_count_of_alike (h : List.Forall₂ Alike xs ys) (n : Nat) (t : Tally) :
    xs.foldl (count n) t = ys.foldl (count n) t := by
  induction h generalizing t with
  | nil => rfl
  | cons hx _ ih => rw [List.foldl_cons, List.foldl_cons, hx.count_eq, ih]

end Alike

end Episode

section Course

variable [Stack] {σ : Type} {tools : Tools σ} {R : Policy → Policy → Prop} {s₁ s₂ : Step}
  {steps₁ steps₂ : List Step} {c : Context} {τ : σ}

/-- Whatever its failure policy, a step has the same episode. -/
theorem Step.Reforms.episode_eq (h : s₁.Reforms R s₂) :
    (tools.episode s₁ c τ).unpolicied = (tools.episode s₂ c τ).unpolicied := by
  obtain ⟨h, -⟩ := h
  rw [h]
  have hskipped : Step.isSkipped { s₁ with onError := s₂.onError } c = s₁.isSkipped c := rfl
  unfold Tools.episode
  rw [hskipped]
  cases s₁.isSkipped c with
  | error f => rfl
  | ok skipped =>
    cases skipped with
    | true => rfl
    | false =>
      dsimp only
      cases c.substituteTable s₁.parameters <;> rfl

/-- The next step meets the same context. -/
theorem Step.Reforms.after_eq (h : s₁.Reforms R s₂) :
    (tools.episode s₁ c τ).after = (tools.episode s₂ c τ).after := by
  rw [← Episode.unpolicied_after, h.episode_eq, Episode.unpolicied_after]

/-- The next step meets the same tools. -/
theorem Step.Reforms.tools_eq (h : s₁.Reforms R s₂) :
    (tools.episode s₁ c τ).tools = (tools.episode s₂ c τ).tools := by
  rw [← Episode.unpolicied_tools, h.episode_eq, Episode.unpolicied_tools]

/-- The course of the first steps consists of the first episodes. -/
theorem Tools.course_take (steps : List Step) (c : Context) (τ : σ) (k : Nat) :
    tools.course (steps.take k) c τ = (tools.course steps c τ).take k := by
  induction steps generalizing c τ k with
  | nil => simp
  | cons s rest ih =>
    cases k with
    | zero => rfl
    | succ k =>
      rw [List.take_succ_cons]
      cases hg : (tools.episode s c τ).goesOn with
      | true =>
        rw [course_cons_of_goesOn _ hg, course_cons_of_goesOn _ hg, List.take_succ_cons, ih]
      | false => simp [course_cons_of_stops _ hg]

/-- **Courses agree up to the first step that stops one of them**: as long as both go on, the next
episodes are the same. -/
theorem course_until (h : List.Forall₂ (Step.Reforms R) steps₁ steps₂) {k : Nat}
    (h₁ : ∀ x ∈ (tools.course steps₁ c τ).take k, x.goesOn = true)
    (h₂ : ∀ x ∈ (tools.course steps₂ c τ).take k, x.goesOn = true) :
    ((tools.course steps₁ c τ).take (k + 1)).map Episode.unpolicied =
      ((tools.course steps₂ c τ).take (k + 1)).map Episode.unpolicied := by
  induction h generalizing c τ k with
  | nil => rfl
  | @cons s₁ s₂ rest₁ rest₂ hs hrest ih =>
    cases k with
    | zero => simp [Tools.course, hs.episode_eq]
    | succ k =>
      -- both runs go on after the first step, and meet the same context and tools
      have hg₁ := h₁ (tools.episode s₁ c τ) (by simp [Tools.course])
      have hg₂ := h₂ (tools.episode s₂ c τ) (by simp [Tools.course])
      rw [Tools.course_cons_of_goesOn _ hg₁, List.take_succ_cons] at h₁ ⊢
      rw [Tools.course_cons_of_goesOn _ hg₂, List.take_succ_cons] at h₂ ⊢
      rw [← hs.after_eq, ← hs.tools_eq] at h₂ ⊢
      rw [List.map_cons, List.map_cons, hs.episode_eq,
        ih (fun x hx => h₁ x (List.mem_cons_of_mem _ hx))
          fun x hx => h₂ x (List.mem_cons_of_mem _ hx)]

/-- **The course of a workflow is a prefix** of that of one that stops less often. -/
theorem course_relaxed (hR : ∀ p q, R p q → q = .stop → p = .stop)
    (h : List.Forall₂ (Step.Reforms R) steps₁ steps₂) :
    (tools.course steps₁ c τ).map Episode.unpolicied <+:
      (tools.course steps₂ c τ).map Episode.unpolicied := by
  induction h generalizing c τ with
  | nil => exact List.prefix_rfl
  | @cons s₁ s₂ rest₁ rest₂ hs hrest ih =>
    cases hg : (tools.episode s₁ c τ).goesOn with
    | false =>
      -- the first course ends here, whether or not the second one does
      rw [Tools.course_cons_of_stops _ hg, Tools.course, List.map_cons, List.map_cons, List.map_nil,
        hs.episode_eq]
      exact List.prefix_append [_] _
    | true =>
      have hg₂ : (tools.episode s₂ c τ).goesOn = true :=
        Episode.goesOn_of_relaxed hs.episode_eq (by simpa using hR _ _ hs.2) hg
      rw [Tools.course_cons_of_goesOn _ hg, Tools.course_cons_of_goesOn _ hg₂, List.map_cons,
        List.map_cons, hs.episode_eq, ← hs.after_eq, ← hs.tools_eq]
      exact List.prefix_cons_inj _ |>.2 ih

/-- **The course of a workflow is that** of one that stops after the same steps. -/
theorem course_exchanged (hR : ∀ p q, R p q → (p = .stop ↔ q = .stop))
    (h : List.Forall₂ (Step.Reforms R) steps₁ steps₂) :
    List.Forall₂ Episode.Alike (tools.course steps₁ c τ) (tools.course steps₂ c τ) := by
  induction h generalizing c τ with
  | nil => exact .nil
  | @cons s₁ s₂ rest₁ rest₂ hs hrest ih =>
    have hg : (tools.episode s₁ c τ).goesOn = (tools.episode s₂ c τ).goesOn := by
      have hiff := hR _ _ hs.2
      refine Bool.eq_iff_iff.2 ⟨?_, ?_⟩
      · exact Episode.goesOn_of_relaxed hs.episode_eq (by simpa using hiff.2)
      · exact Episode.goesOn_of_relaxed hs.episode_eq.symm (by simpa using hiff.1)
    unfold Tools.course
    refine .cons ⟨hs.episode_eq, hg⟩ ?_
    rw [hg]
    split
    · exact hs.after_eq ▸ hs.tools_eq ▸ ih
    · exact .nil

/-- Before the last episode of a course the run goes on. -/
theorem Tools.goesOn_of_mem_take {steps : List Step} {k : Nat} {x : Episode σ}
    (hk : k < (tools.course steps c τ).length) (hx : x ∈ (tools.course steps c τ).take k) :
    x.goesOn = true := by
  have hsubset : (tools.course steps c τ).take k ⊆ (tools.course steps c τ).dropLast := by
    rw [List.dropLast_eq_take]
    exact List.take_subset_take_left _ (by omega)
  exact goesOn_of_mem_dropLast (hsubset hx)

end Course

/-- What a run came to, without its status. -/
def Upshot.unjudged {σ : Type} (u : Upshot σ) : Upshot σ :=
  { u with tally := { u.tally with status := .success } }

namespace Engine

variable [Stack] {σ β : Type} {e : Engine σ β}

section Upshots

variable {xs ys : List (Episode σ)} (n : Nat) (c : Context) (τ : σ)

/-- Only the status of a course depends on the failure policies. -/
theorem unjudged_upshotOfCourse (xs : List (Episode σ)) :
    (upshotOfCourse n c τ (xs.map Episode.unpolicied)).map Upshot.unjudged =
      (upshotOfCourse n c τ xs).map Upshot.unjudged := by
  have habort : (xs.map Episode.unpolicied).findSome? Episode.abort? =
      xs.findSome? Episode.abort? := List.findSome?_map ..
  have hcalls : (xs.map Episode.unpolicied).flatMap Episode.calls = xs.flatMap Episode.calls :=
    List.flatMap_map ..
  have hcontext : Episode.lastContext c (xs.map Episode.unpolicied) = Episode.lastContext c xs :=
    List.foldl_map ..
  have htools : Episode.lastTools τ (xs.map Episode.unpolicied) = Episode.lastTools τ xs :=
    List.foldl_map ..
  unfold upshotOfCourse
  rw [habort]
  cases xs.findSome? Episode.abort? with
  | some a => simp only [Except.map, hcalls, hcontext]
  | none =>
    simp only [Except.map, Upshot.unjudged, Upshot.ofCourse, hcalls, hcontext, htools,
      Episode.results_count, Episode.resources_count, List.filterMap_map, List.flatMap_map,
      Function.comp_def, Episode.unpolicied_result?, Episode.unpolicied_resources]

/-- Courses that are alike come to the same. -/
theorem upshotOfCourse_congr (h : List.Forall₂ Episode.Alike xs ys) :
    upshotOfCourse n c τ xs = upshotOfCourse n c τ ys := by
  -- what a course comes to is put together from its tally and the rest
  have hjudge (zs : List (Episode σ)) : upshotOfCourse n c τ zs =
      ((upshotOfCourse n c τ zs).map Upshot.unjudged).map
        fun u => { u with tally := zs.foldl (Episode.count n) .start } := by
    unfold upshotOfCourse
    cases zs.findSome? Episode.abort? <;> rfl
  rw [hjudge, hjudge ys, ← unjudged_upshotOfCourse, Episode.map_unpolicied_of_alike h,
    unjudged_upshotOfCourse, Episode.foldl_count_of_alike h]

end Upshots

/-- The calls of a run, with a result or without. -/
def callsOf : Except Remains (Upshot σ) → List (String × Table String Value)
  | .ok u => u.calls
  | .error r => r.2.1

/-- Whether no publishing kept a run from its end: the run returned, or nothing can cancel it. -/
def Undisturbed (e : Engine σ β) (x : EStateM.Result Abort (RunState σ β) RunResult) : Prop :=
  ¬ e.CanBeCancelled ∨ ∃ r s, x = .ok r s

/-- Whether a run returned and no step stopped it. -/
def RanThrough (x : EStateM.Result Abort (RunState σ β) RunResult) : Prop :=
  ∃ r s, x = .ok r s ∧ r.tally.status ≠ .failed

section Runs

variable {id : String} {d d₁ d₂ : Definition} {supplied : Table String Value} {context : Context}
  {tools : σ} {publisher : β} {R : Policy → Policy → Prop}

theorem upshotOf_eq (h : e.Undisturbed (e.run id d supplied context tools publisher)) :
    upshotOf (e.run id d supplied context tools publisher) =
      upshotOfCourse e.summaryLength (context.seed d supplied) tools
        (e.courseOf d supplied context tools) := by
  obtain hp | ⟨r, s, h⟩ := h
  · exact upshotOf_run hp
  · rw [h, upshotOf, upshotOfCourse_of_returns h]

theorem courseOf_cut (k : Nat) : e.courseOf (d.cut k) supplied context tools =
    (e.courseOf d supplied context tools).take k :=
  Tools.course_take ..

theorem RanThrough.goesOn {k : Nat}
    (h : RanThrough (e.run id (d.cut k) supplied context tools publisher)) :
    ∀ x ∈ (e.courseOf d supplied context tools).take k, x.goesOn = true := by
  obtain ⟨r, s, h, hr⟩ := h
  obtain ⟨hended, rfl, -⟩ := run_ok h
  rw [← courseOf_cut]
  exact (Episode.status_ne_failed_iff hended).1 hr

omit [Stack] in
/-- The results and the calls of a run are the first ones of another if its episodes are. -/
theorem begins_of_map_begins {xs ys : List (Episode σ)} (n : Nat)
    (h : xs.map Episode.unpolicied <+: ys.map Episode.unpolicied) :
    (xs.foldl (Episode.count n) .start).results <+: (ys.foldl (Episode.count n) .start).results ∧
      callsIn (xs.flatMap Episode.calls) <+: callsIn (ys.flatMap Episode.calls) := by
  have hresults (zs : List (Episode σ)) : zs.filterMap (Episode.result? n) =
      (zs.map Episode.unpolicied).filterMap (Episode.result? n) := by
    simp [List.filterMap_map]
  have hcalls (zs : List (Episode σ)) : zs.map Episode.call? =
      (zs.map Episode.unpolicied).map Episode.call? := by
    simp [Function.comp_def]
  constructor
  · rw [Episode.results_count, Episode.results_count, hresults, hresults ys]
    exact h.filterMap _
  · rw [Episode.callsIn_course, Episode.callsIn_course, hcalls, hcalls ys]
    obtain ⟨more, hmore⟩ := h.map Episode.call?
    rw [← hmore, List.flatMap_append]
    exact List.prefix_append ..

omit [Stack] in
/-- A workflow with other failure policies is seeded alike. -/
theorem seed_of_reforms (h : d₁.Reforms R d₂) (context : Context)
    (supplied : Table String Value) : context.seed d₂ supplied = context.seed d₁ supplied := by
  rw [h.rest]
  rfl

/-- The course of a workflow with other failure policies starts like that of the workflow. -/
theorem courseOf_of_reforms (h : d₁.Reforms R d₂) : e.courseOf d₂ supplied context tools =
    e.tools.course d₂.steps (context.seed d₁ supplied) tools := by
  rw [courseOf, seed_of_reforms h]

theorem courseOf_until (h : d₁.Reforms R d₂) {k : Nat}
    (h₁ : ∀ x ∈ (e.courseOf d₁ supplied context tools).take k, x.goesOn = true)
    (h₂ : ∀ x ∈ (e.courseOf d₂ supplied context tools).take k, x.goesOn = true) :
    ((e.courseOf d₁ supplied context tools).take (k + 1)).map Episode.unpolicied =
      ((e.courseOf d₂ supplied context tools).take (k + 1)).map Episode.unpolicied := by
  rw [courseOf_of_reforms h] at h₂ ⊢
  exact course_until h.steps h₁ h₂

/-- The course that is not the longer one is the beginning of the other. -/
theorem courseOf_of_length_le (h : d₁.Reforms R d₂)
    (hle : (e.courseOf d₁ supplied context tools).length ≤
      (e.courseOf d₂ supplied context tools).length) :
    (e.courseOf d₁ supplied context tools).map Episode.unpolicied =
      ((e.courseOf d₂ supplied context tools).take
        (e.courseOf d₁ supplied context tools).length).map Episode.unpolicied := by
  cases hk : (e.courseOf d₁ supplied context tools).length with
  | zero => simp [List.length_eq_zero_iff.1 hk]
  | succ k =>
    rw [hk] at hle
    -- before the last step of the first course both runs go on
    have hk₁ : k < (e.courseOf d₁ supplied context tools).length := by omega
    have hk₂ : k < (e.courseOf d₂ supplied context tools).length := by omega
    have huntil := courseOf_until h (fun x => Tools.goesOn_of_mem_take hk₁)
      fun x => Tools.goesOn_of_mem_take hk₂
    rwa [← hk, List.take_length, hk] at huntil

/-- The runs of workflows cut to the same number of steps agree if their courses do. -/
theorem upshotOf_cut (h : d₁.Reforms R d₂) {id₁ id₂ : String} {b₁ b₂ : β} {k : Nat}
    (hmap : ((e.courseOf d₁ supplied context tools).take k).map Episode.unpolicied =
      ((e.courseOf d₂ supplied context tools).take k).map Episode.unpolicied)
    (h₁ : e.Undisturbed (e.run id₁ (d₁.cut k) supplied context tools b₁))
    (h₂ : e.Undisturbed (e.run id₂ (d₂.cut k) supplied context tools b₂)) :
    (upshotOf (e.run id₁ (d₁.cut k) supplied context tools b₁)).map Upshot.unjudged =
      (upshotOf (e.run id₂ (d₂.cut k) supplied context tools b₂)).map Upshot.unjudged := by
  have hseed : context.seed (d₂.cut k) supplied = context.seed (d₁.cut k) supplied :=
    seed_of_reforms h context supplied
  rw [upshotOf_eq h₁, upshotOf_eq h₂, hseed, courseOf_cut, courseOf_cut, ← unjudged_upshotOfCourse,
    hmap, unjudged_upshotOfCourse]

/-- There is a result for every episode of a run that returns. -/
theorem length_results {r : RunResult} {s : RunState σ β}
    (h : e.run id d supplied context tools publisher = .ok r s) :
    r.tally.results.length = (e.courseOf d supplied context tools).length := by
  obtain ⟨hended, rfl, -⟩ := run_ok h
  rw [Episode.results_count, List.filterMap_length_eq_length]
  exact fun x hx => Episode.isSome_result? _ (hended x hx)

theorem calls_upshotOf (h : e.Undisturbed (e.run id d supplied context tools publisher)) :
    callsOf (upshotOf (e.run id d supplied context tools publisher)) =
      callsIn ((e.courseOf d supplied context tools).flatMap Episode.calls) := by
  rw [upshotOf_eq h, upshotOfCourse]
  split <;> rfl

/-- The results and the calls of a run that returns are the first ones of another if its episodes
are. -/
theorem begins_of_returns {id₁ id₂ : String} {b₁ b₂ : β} {r r' : RunResult} {s s' : RunState σ β}
    (h : e.run id₁ d₁ supplied context tools b₁ = .ok r s)
    (h' : e.run id₂ d₂ supplied context tools b₂ = .ok r' s')
    (hbegins : (e.courseOf d₁ supplied context tools).map Episode.unpolicied <+:
      (e.courseOf d₂ supplied context tools).map Episode.unpolicied) :
    r.tally.results <+: r'.tally.results ∧ callsIn s.trace <+: callsIn s'.trace := by
  have hupshot := upshot_eq h
  have hupshot' := upshot_eq h'
  simp only [RunResult.upshot, Upshot.ofCourse, Upshot.mk.injEq] at hupshot hupshot'
  rw [hupshot.1, hupshot.2.1, hupshot'.1, hupshot'.2.1]
  exact begins_of_map_begins _ hbegins

/-- A run that has no more results than another comes to what the other comes to after as many
steps. -/
theorem upshotOf_cut_of_returns (h : d₁.Reforms R d₂) {id₁ id₂ : String} {b₁ b₂ : β}
    {r : RunResult} {s : RunState σ β}
    (hx : e.run id₁ d₁ supplied context tools b₁ = .ok r s)
    (hmap : (e.courseOf d₁ supplied context tools).map Episode.unpolicied =
      ((e.courseOf d₂ supplied context tools).take r.tally.results.length).map
        Episode.unpolicied)
    (hy : e.Undisturbed (e.run id₂ (d₂.cut r.tally.results.length) supplied context tools b₂)) :
    (upshotOf (e.run id₂ (d₂.cut r.tally.results.length) supplied context tools b₂)).map
      Upshot.unjudged = .ok (r.upshot s).unjudged := by
  have hseed : context.seed (d₂.cut r.tally.results.length) supplied = context.seed d₁ supplied :=
    seed_of_reforms h context supplied
  rw [upshotOf_eq hy, hseed, courseOf_cut, ← unjudged_upshotOfCourse, ← hmap,
    unjudged_upshotOfCourse, upshotOfCourse_of_returns hx]
  rfl

/-- The course of a run goes on in that of one that is stopped no earlier. -/
theorem courseOf_relaxed (h : d₁.Reforms R d₂) (hR : ∀ p q, R p q → q = .stop → p = .stop) :
    (e.courseOf d₁ supplied context tools).map Episode.unpolicied <+:
      (e.courseOf d₂ supplied context tools).map Episode.unpolicied := by
  rw [courseOf_of_reforms h]
  exact course_relaxed hR h.steps

/-- **The runs of workflows that differ in failure policies only.** As long as no step has stopped
one of them, the next step comes to the same in both: the same results, calls, context and tools.
So the run that has no more results than the other has its first ones, with the calls and the
context of the other after as many steps. If the policies of the second stop it only where those of
the first do, the results and the calls of the first run are the first ones of the second; if they
stop both at the same steps, the runs come to the same. -/
theorem run_policies (h : d₁.Reforms R d₂) (id₁ id₂ : String) (b₁ b₂ : β) :
    let first (k : Nat) := e.run id₁ (d₁.cut k) supplied context tools b₁
    let second (k : Nat) := e.run id₂ (d₂.cut k) supplied context tools b₂
    let x := e.run id₁ d₁ supplied context tools b₁
    let y := e.run id₂ d₂ supplied context tools b₂
    (∀ k, RanThrough (first k) → RanThrough (second k) →
      e.Undisturbed (first (k + 1)) → e.Undisturbed (second (k + 1)) →
      (upshotOf (first (k + 1))).map Upshot.unjudged =
        (upshotOf (second (k + 1))).map Upshot.unjudged) ∧
    (∀ r s r' s', x = .ok r s → y = .ok r' s' →
      r.tally.results.length ≤ r'.tally.results.length →
      r.tally.results <+: r'.tally.results ∧ callsIn s.trace <+: callsIn s'.trace ∧
      (e.Undisturbed (second r.tally.results.length) →
        (upshotOf (second r.tally.results.length)).map Upshot.unjudged =
          .ok (r.upshot s).unjudged)) ∧
    (e.Undisturbed x → e.Undisturbed y →
      ((∀ p q, R p q → q = .stop → p = .stop) →
        callsOf (upshotOf x) <+: callsOf (upshotOf y) ∧
        ∀ r s r' s', x = .ok r s → y = .ok r' s' → r.tally.results <+: r'.tally.results) ∧
      ((∀ p q, R p q → (p = .stop ↔ q = .stop)) → upshotOf x = upshotOf y)) := by
  intro first second x y
  refine ⟨?_, ?_, ?_⟩
  · intro k h₁ h₂
    exact upshotOf_cut h (courseOf_until h h₁.goesOn h₂.goesOn)
  · intro r s r' s' hx hy hle
    rw [length_results hx, length_results hy] at hle
    have hmap := courseOf_of_length_le h hle
    have hbegins : (e.courseOf d₁ supplied context tools).map Episode.unpolicied <+:
        (e.courseOf d₂ supplied context tools).map Episode.unpolicied := by
      rw [hmap, List.map_take]
      exact List.take_prefix ..
    obtain ⟨hresults, hcalls⟩ := begins_of_returns hx hy hbegins
    rw [← length_results hx] at hmap
    exact ⟨hresults, hcalls, upshotOf_cut_of_returns h hx hmap⟩
  · intro hx hy
    constructor
    · intro hR
      have hbegins : (e.courseOf d₁ supplied context tools).map Episode.unpolicied <+:
          (e.courseOf d₂ supplied context tools).map Episode.unpolicied := courseOf_relaxed h hR
      refine ⟨?_, fun r s r' s' hx hy => (begins_of_returns hx hy hbegins).1⟩
      rw [calls_upshotOf hx, calls_upshotOf hy]
      exact (begins_of_map_begins e.summaryLength hbegins).2
    · intro hR
      rw [upshotOf_eq hx, upshotOf_eq hy, seed_of_reforms h, courseOf_of_reforms h]
      exact upshotOfCourse_congr _ _ _ (course_exchanged hR h.steps)

end Runs

end Engine

namespace Engine

/-- The sample with other failure policies of the two steps that fail. -/
def Sample.reformed (second fourth : Policy) : Definition :=
  { Sample.definition with steps :=
    [Sample.step "first" "make" (some "variables.absent") none none,
      Sample.step "second" "break" none none (some second),
      Sample.step "third" "make" (some "variables.n == 1") (some [("n", "id")]) none,
      Sample.step "fourth" "break" none none (some fourth),
      Sample.step "fifth" "make" none none none] }

theorem Sample.reforms {R : Policy → Policy → Prop} {second fourth : Policy} (hstop : R .stop .stop)
    (h₂ : R .continue second) (h₄ : R .stop fourth) :
    Sample.definition.Reforms R (Sample.reformed second fourth) where
  rest := rfl
  steps := .cons ⟨rfl, hstop⟩ <| .cons ⟨rfl, h₂⟩ <| .cons ⟨rfl, hstop⟩ <| .cons ⟨rfl, h₄⟩ <|
    .cons ⟨rfl, hstop⟩ .nil

/-- The sample goes on after its fourth step if that is to be skipped, and comes to the same if its
second step is to be skipped. -/
theorem run_policies_sample : ∃ r s r' s',
    Sample.definition.Reforms (fun p q => q = .stop → p = .stop)
      (Sample.reformed .continue .skip) ∧
    Sample.definition.Reforms (fun p q => p = .stop ↔ q = .stop) (Sample.reformed .skip .stop) ∧
    Sample.engine.run "run" Sample.definition [("n", .int 1)] .empty 0 () = .ok r s ∧
    Sample.engine.run "relaxed" (Sample.reformed .continue .skip) [("n", .int 1)] .empty 0 () =
      .ok r' s' ∧
    r.tally.results <+: r'.tally.results ∧ r'.tally.status = .mixed ∧
    upshotOf (Sample.engine.run "run" Sample.definition [("n", .int 1)] .empty 0 ()) =
      upshotOf (Sample.engine.run "exchanged" (Sample.reformed .skip .stop) [("n", .int 1)] .empty
        0 ()) := by
  obtain ⟨r, s, h, -⟩ := Sample.run_returns_sample
  obtain ⟨r', s', h', hr'⟩ := Sample.exists_of_status? .mixed
    (x := Sample.engine.run "relaxed" (Sample.reformed .continue .skip) [("n", .int 1)] .empty 0 ())
    (by decide +kernel)
  have hp := Sample.not_canBeCancelled
  have hrelaxed : Sample.definition.Reforms (fun p q => q = .stop → p = .stop)
      (Sample.reformed .continue .skip) := Sample.reforms (by decide) (by decide) (by decide)
  have hexchanged : Sample.definition.Reforms (fun p q => p = .stop ↔ q = .stop)
      (Sample.reformed .skip .stop) := Sample.reforms (by decide) (by decide) (by decide)
  obtain ⟨hbegins, -⟩ :=
    (run_policies hrelaxed "run" "relaxed" () ()).2.2 (.inl hp) (.inl hp)
  obtain ⟨-, hsame⟩ :=
    (run_policies hexchanged "run" "exchanged" () ()).2.2 (.inl hp) (.inl hp)
  have hresults := (hbegins fun _ _ hR => hR).2 r s r' s' h h'
  exact ⟨r, s, r', s', hrelaxed, hexchanged, h, h', hresults, hr', hsame fun _ _ hR => hR⟩

end Engine
end Runbook
