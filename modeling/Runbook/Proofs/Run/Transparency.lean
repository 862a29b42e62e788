import Runbook.Proofs.Run.Upshot

/-!
# Transparent steps

A step that was skipped leaves no trace in the context and none in the tools, and a step that failed
without stopping the run leaves none in the context. So a workflow may do without such steps: the
run of the others comes to the same, without their results.

* `without`: a list without its members at some places;
* `Tools.Alike`: a relation between states of tools under which no answer tells them apart;
* `course_without`: the course of a workflow without steps whose episodes pass;
* `run_without`: the run of such a workflow.
-/

namespace Runbook

/-! ### Lists without some members -/

/-- A list without its members at some places. -/
def without {α : Type} (drop : Nat → Bool) : List α → List α
  | [] => []
  | a :: r =>
    if drop 0 then without (fun n => drop (n + 1)) r else a :: without (fun n => drop (n + 1)) r

section Without

variable {α γ : Type} {drop : Nat → Bool} {a : α} {r : List α}

@[simp] theorem without_nil : without drop ([] : List α) = [] := rfl

theorem without_cons_of_drop (h : drop 0 = true) :
    without drop (a :: r) = without (fun n => drop (n + 1)) r := by
  rw [without, if_pos h]

theorem without_cons_of_keep (h : drop 0 = false) :
    without drop (a :: r) = a :: without (fun n => drop (n + 1)) r := by
  rw [without, if_neg (by simp [h])]

theorem map_without (f : α → γ) (l : List α) : (without drop l).map f = without drop (l.map f) := by
  induction l generalizing drop with
  | nil => rfl
  | cons a r ih =>
    cases h : drop 0 with
    | true => rw [List.map_cons, without_cons_of_drop h, without_cons_of_drop h, ih]
    | false => rw [List.map_cons, without_cons_of_keep h, without_cons_of_keep h, List.map_cons, ih]

/-- A member is kept or at one of the places. -/
theorem mem_without_or (drop : Nat → Bool) {l : List α} (h : a ∈ l) :
    a ∈ without drop l ∨ ∃ n, drop n = true ∧ l[n]? = some a := by
  induction l generalizing drop with
  | nil => simp at h
  | cons b r ih =>
    -- the places in the tail are counted from its own start
    have htail : a ∈ r → a ∈ without (fun n => drop (n + 1)) r ∨
        ∃ n, drop n = true ∧ (b :: r)[n]? = some a := by
      intro hr
      obtain hr | ⟨n, hn, hr⟩ := ih (fun n => drop (n + 1)) hr
      · exact .inl hr
      · exact .inr ⟨n + 1, hn, by simpa using hr⟩
    cases hd : drop 0 with
    | true =>
      rw [without_cons_of_drop hd]
      obtain rfl | hr := List.mem_cons.1 h
      · exact .inr ⟨0, hd, rfl⟩
      · exact htail hr
    | false =>
      rw [without_cons_of_keep hd]
      obtain rfl | hr := List.mem_cons.1 h
      · exact .inl List.mem_cons_self
      · exact (htail hr).imp_left (List.mem_cons_of_mem _)

theorem sublist_without (l : List α) : (without drop l).Sublist l := by
  induction l generalizing drop with
  | nil => exact .slnil
  | cons a r ih =>
    cases h : drop 0 with
    | true => rw [without_cons_of_drop h]; exact ih.cons a
    | false => rw [without_cons_of_keep h]; exact ih.cons_cons a

/-- Members that give nothing may as well be left out. -/
theorem flatMap_without {f : α → List γ} {l : List α}
    (h : ∀ n a, drop n = true → l[n]? = some a → f a = []) :
    (without drop l).flatMap f = l.flatMap f := by
  induction l generalizing drop with
  | nil => rfl
  | cons a r ih =>
    have hr : (without (fun n => drop (n + 1)) r).flatMap f = r.flatMap f :=
      ih fun n b hn hb => h (n + 1) b hn (by simpa using hb)
    cases hd : drop 0 with
    | true => rw [without_cons_of_drop hd, hr, List.flatMap_cons, h 0 a hd rfl, List.nil_append]
    | false => rw [without_cons_of_keep hd, List.flatMap_cons, hr, List.flatMap_cons]

theorem filterMap_without {f : α → Option γ} {l : List α} (h : ∀ a ∈ l, (f a).isSome) :
    (without drop l).filterMap f = without drop (l.filterMap f) := by
  induction l generalizing drop with
  | nil => rfl
  | cons a r ih =>
    obtain ⟨c, hc⟩ := Option.isSome_iff_exists.1 (h a List.mem_cons_self)
    have hr : (without (fun n => drop (n + 1)) r).filterMap f =
        without (fun n => drop (n + 1)) (r.filterMap f) :=
      ih fun b hb => h b (List.mem_cons_of_mem _ hb)
    cases hd : drop 0 with
    | true => rw [without_cons_of_drop hd, hr, List.filterMap_cons_some hc, without_cons_of_drop hd]
    | false =>
      rw [without_cons_of_keep hd, List.filterMap_cons_some hc, hr, List.filterMap_cons_some hc,
        without_cons_of_keep hd]

end Without

/-! ### Calls and the steps that made them -/

/-- The calls of a run, each at the place of the step that made it: one for every step that was not
skipped. -/
def callsByStep : List StepResult → List (String × Table String Value) →
    List (Option (String × Table String Value))
  | [], _ => []
  | x :: r, calls =>
    if x.status = .skipped then none :: callsByStep r calls
    else calls.head? :: callsByStep r calls.tail

/-- A step that was skipped made no call. -/
theorem getElem?_callsByStep {results : List StepResult} {n : Nat} {x : StepResult}
    (h : results[n]? = some x) (hx : x.status = .skipped)
    (calls : List (String × Table String Value)) :
    (callsByStep results calls)[n]? = some none := by
  induction results generalizing n calls with
  | nil => simp at h
  | cons y results ih =>
    cases n with
    | zero =>
      obtain rfl := Option.some.inj h
      rw [callsByStep, if_pos hx]
      rfl
    | succ n =>
      rw [List.getElem?_cons_succ] at h
      rw [callsByStep]
      split
      · exact ih h calls
      · exact ih h calls.tail

/-- In a course every call is at the place of the step that made it. -/
theorem callsByStep_course [Stack] {σ : Type} {tools : Tools σ} {steps : List Step} {c : Context}
    {τ : σ}
    (n : Nat) (h : ∀ x ∈ tools.course steps c τ, x.Ended) :
    let xs := tools.course steps c τ
    callsByStep (xs.foldl (Episode.count n) .start).results (callsIn (xs.flatMap Episode.calls)) =
      xs.map Episode.call? := by
  intro xs
  rw [Episode.results_count, Episode.callsIn_course]
  -- what the induction needs of an episode: it has a result, and a call unless that says skipped
  have hcall : ∀ x ∈ xs, ∃ result, x.result? n = some result ∧
      (x.call?.isSome ↔ result.status ≠ .skipped) := by
    intro x hx
    obtain ⟨ending, hending⟩ := h x hx
    obtain ⟨s, c', τ', rfl⟩ := Tools.exists_episode_of_mem hx
    refine ⟨ending.result n s, by simp [Episode.result?, hending], ?_⟩
    simpa [Episode.call?] using parameters_isSome_iff hending
  clear_value xs
  clear h
  induction xs with
  | nil => rfl
  | cons x xs ih =>
    obtain ⟨result, hresult, hsome⟩ := hcall x List.mem_cons_self
    have ih := ih fun y hy => hcall y (List.mem_cons_of_mem _ hy)
    rw [List.filterMap_cons_some hresult, callsByStep, List.map_cons, List.flatMap_cons]
    by_cases hs : result.status = .skipped
    · have hnone : x.call? = none := by simpa [hs] using hsome
      rw [if_pos hs, hnone, Option.toList_none, List.nil_append, ih]
    · obtain ⟨call, hx⟩ := Option.isSome_iff_exists.1 (hsome.2 hs)
      rw [if_neg hs, hx]
      exact congrArg _ ih

/-! ### Tools that answer alike -/

/-- Whether tools in related states answer alike, and are left in related states. -/
structure Tools.Alike {σ : Type} (tools : Tools σ) (R : σ → σ → Prop) : Prop where
  answer : ∀ {τ τ'}, R τ τ' → ∀ tool ps, (tools τ tool ps).1 = (tools τ' tool ps).1
  next : ∀ {τ τ'}, R τ τ' → ∀ tool ps, R (tools τ tool ps).2 (tools τ' tool ps).2

theorem Tools.alike_eq {σ : Type} (tools : Tools σ) : tools.Alike Eq where
  answer h _ _ := h ▸ rfl
  next h _ _ := h ▸ rfl

/-- Tools that answer by name and parameters alone answer alike in all states. -/
theorem Tools.alike_of_stateless {σ : Type} {tools : Tools σ}
    (h : ∀ τ τ' tool ps, (tools τ tool ps).1 = (tools τ' tool ps).1) :
    tools.Alike fun _ _ => True where
  answer _ tool ps := h _ _ tool ps
  next _ _ _ := trivial

namespace Episode

variable {σ : Type}

/-- An episode without the state in which it leaves the tools. -/
def bare (x : Episode σ) : Episode Unit :=
  ⟨x.step, x.before, x.parameters, x.ending, ()⟩

section Bare

variable (x : Episode σ)

@[simp] theorem bare_after [Stack] : x.bare.after = x.after := rfl
@[simp] theorem bare_goesOn : x.bare.goesOn = x.goesOn := rfl
@[simp] theorem bare_call? : x.bare.call? = x.call? := rfl
@[simp] theorem bare_result? (n : Nat) : x.bare.result? n = x.result? n := rfl
@[simp] theorem bare_endings : x.bare.endings = x.endings := rfl

end Bare

/-- Whether a run that met tools in some state goes on after an episode as if it had not been. -/
structure Passes [Stack] (R : σ → σ → Prop) (τ : σ) (x : Episode σ) : Prop where
  goesOn : x.goesOn = true
  after : x.after = x.before
  resources : x.endings.flatMap (fun z => z.2.resources) = []
  tools : ∀ τ', R τ τ' → R x.tools τ'

/-- Whether the step of an episode is skipped. -/
def IsSkipped (x : Episode σ) : Prop := ∃ condition, x.ending = .ok (.skipped condition)

/-- Whether the step of an episode fails and the run goes on. -/
def IsTolerated (x : Episode σ) : Prop :=
  (∃ error, x.ending = .ok (.failed error)) ∧ x.step.policy ≠ .stop

end Episode

section Course

variable [Stack] {σ : Type} {tools : Tools σ} {R : σ → σ → Prop} {s : Step} {c : Context} {τ τ' : σ}

/-- Tools that answer alike make the same episode, and are left alike. -/
theorem bare_episode (hR : tools.Alike R) (h : R τ τ') :
    (tools.episode s c τ).bare = (tools.episode s c τ').bare ∧
      R (tools.episode s c τ).tools (tools.episode s c τ').tools := by
  unfold Tools.episode
  cases s.isSkipped c with
  | error f => exact ⟨rfl, h⟩
  | ok skipped =>
    cases skipped with
    | true => exact ⟨rfl, h⟩
    | false =>
      cases c.substituteTable s.parameters with
      | error f => exact ⟨rfl, h⟩
      | ok ps => exact ⟨by simp [Episode.bare, hR.answer h], hR.next h _ _⟩

/-- A step that is skipped does not touch the tools. -/
theorem tools_of_isSkipped (h : (tools.episode s c τ).IsSkipped) :
    (tools.episode s c τ).tools = τ := by
  obtain ⟨condition, h⟩ := h
  revert h
  unfold Tools.episode
  cases s.isSkipped c with
  | error f => simp
  | ok skipped =>
    cases skipped with
    | true => simp
    | false =>
      cases c.substituteTable s.parameters with
      | error f => simp
      | ok ps =>
        intro h
        obtain ⟨raw, -, he⟩ | ⟨error, -, he⟩ := Outcome.ending_ok h <;> cases he

theorem passes_of_isSkipped (h : (tools.episode s c τ).IsSkipped) :
    (tools.episode s c τ).Passes R τ := by
  have htools := tools_of_isSkipped h
  obtain ⟨condition, h⟩ := h
  exact ⟨by simp [Episode.goesOn, h], by simp [Episode.after, h], by simp [Episode.endings, h],
    by simp [htools]⟩

theorem passes_of_isTolerated {x : Episode σ} (h : x.IsTolerated) :
    x.Passes (fun _ _ => True) τ := by
  obtain ⟨⟨error, h⟩, hpolicy⟩ := h
  exact ⟨by simp [Episode.goesOn, h, hpolicy], by simp [Episode.after, h],
    by simp [Episode.endings, h], fun _ _ => trivial⟩

/-- **The course of the other steps** when the episodes of the ones left out pass: they have the
same episodes, and leave the same context and the tools alike. -/
theorem course_without {P : Episode σ → Prop} (hR : tools.Alike R)
    (hP : ∀ s c τ, P (tools.episode s c τ) → (tools.episode s c τ).Passes R τ) (hτ : R τ τ')
    {steps : List Step} {drop : Nat → Bool}
    (hdrop : ∀ n, drop n = true → ∃ x, (tools.course steps c τ)[n]? = some x ∧ P x) :
    let xs := tools.course steps c τ
    let ys := tools.course (without drop steps) c τ'
    ys.map Episode.bare = (without drop xs).map Episode.bare ∧
      Episode.lastContext c ys = Episode.lastContext c xs ∧
      R (Episode.lastTools τ xs) (Episode.lastTools τ' ys) := by
  induction steps generalizing c τ τ' drop with
  | nil => exact ⟨rfl, rfl, hτ⟩
  | cons s rest ih =>
    obtain ⟨hbare, htools⟩ := bare_episode (s := s) (c := c) hR hτ
    have hafter : (tools.episode s c τ).after = (tools.episode s c τ').after := by
      rw [← Episode.bare_after, hbare, Episode.bare_after]
    have hgoes : (tools.episode s c τ).goesOn = (tools.episode s c τ').goesOn := by
      rw [← Episode.bare_goesOn, hbare, Episode.bare_goesOn]
    have hfirst : drop 0 = true → (tools.episode s c τ).Passes R τ := by
      intro hd
      obtain ⟨x, hx, hpx⟩ := hdrop 0 hd
      rw [Tools.getElem?_zero_course_cons] at hx
      obtain rfl := Option.some.inj hx
      exact hP s c τ hpx
    cases hg : (tools.episode s c τ).goesOn with
    | false =>
      -- the episode that ends the course does not pass, so its step is kept
      have hkeep : drop 0 = false := by
        rw [← Bool.not_eq_true]
        intro hd
        rw [(hfirst hd).goesOn] at hg
        cases hg
      simp only [Tools.course_cons_of_stops rest hg, without_cons_of_keep hkeep,
        Tools.course_cons_of_stops _ (hgoes ▸ hg), without_nil, List.map_cons, List.map_nil, hbare,
        Episode.lastContext_cons, Episode.lastContext_nil, hafter, Episode.lastTools_cons,
        Episode.lastTools_nil, true_and]
      exact htools
    | true =>
      have hrest : ∀ n, drop (n + 1) = true → ∃ x,
          (tools.course rest (tools.episode s c τ).after (tools.episode s c τ).tools)[n]? =
            some x ∧ P x := by
        intro n hn
        obtain ⟨x, hx, hpx⟩ := hdrop (n + 1) hn
        rw [Tools.course_cons_of_goesOn rest hg] at hx
        exact ⟨x, hx, hpx⟩
      rw [Tools.course_cons_of_goesOn rest hg]
      cases hd : drop 0 with
      | true =>
        -- the other run is not past this step yet, and its tools are as good as those behind it
        have hpass := hfirst hd
        have hctx : (tools.episode s c τ).after = c := by rw [hpass.after, episode_before]
        rw [hctx] at hrest
        obtain ⟨hmap, hlast, hleft⟩ := ih (hpass.tools τ' hτ) hrest
        simp only [without_cons_of_drop hd, hctx, Episode.lastContext_cons, Episode.lastTools_cons]
        exact ⟨hmap, hlast, hleft⟩
      | false =>
        obtain ⟨hmap, hlast, hleft⟩ := ih htools hrest
        simp only [without_cons_of_keep hd, Tools.course_cons_of_goesOn _ (hgoes ▸ hg), ← hafter,
          List.map_cons, hbare, Episode.lastContext_cons, Episode.lastTools_cons]
        exact ⟨congrArg _ hmap, hlast, hleft⟩

end Course

/-! ### Runs -/

namespace Tally

/-- Whether the step at a place was skipped. -/
def Skips (t : Tally) (n : Nat) : Prop :=
  ∃ x, t.results[n]? = some x ∧ x.status = .skipped

/-- Whether the step at a place failed and the run went on. -/
def Tolerates (t : Tally) (steps : List Step) (n : Nat) : Prop :=
  ∃ s x, steps[n]? = some s ∧ t.results[n]? = some x ∧ x.status = .failed ∧ s.policy ≠ .stop

end Tally

namespace Engine

variable {σ β : Type} {e : Engine σ β} {id : String} {d : Definition}
  {supplied : Table String Value} {context : Context} {tools : σ} {publisher : β}

/-- What the run of a workflow without some of its steps has in common with the run of the whole. -/
structure SameWithout (drop : Nat → Bool) (r : RunResult) (s : RunState σ β) (r' : RunResult)
    (s' : RunState σ β) : Prop where
  results : r'.tally.results = without drop r.tally.results
  resources : r'.tally.resources = r.tally.resources
  /-- A run that is not stopped has the status of the results that are left. -/
  status : r'.tally.status = if r.tally.status = .failed then .failed
    else if ∃ x ∈ r'.tally.results, x.status = .failed then .mixed else .success
  /-- The calls are those of the steps that are left. -/
  calls : callsIn s'.trace =
    (without drop (callsByStep r.tally.results (callsIn s.trace))).flatMap Option.toList
  context : s'.context = s.context

section Passing

variable {P : Episode σ → Prop} {R : σ → σ → Prop} {drop : Nat → Bool} {xs ys : List (Episode σ)}

/-- The results that are left. -/
theorem results_without (n : Nat) (hended : ∀ x ∈ xs, x.Ended)
    (hmap : ys.map Episode.bare = (without drop xs).map Episode.bare) :
    (ys.foldl (Episode.count n) .start).results =
      without drop (xs.foldl (Episode.count n) .start).results := by
  have hys : ys.filterMap (Episode.result? n) =
      (without drop xs).filterMap (Episode.result? n) := by
    have h := congrArg (List.filterMap (Episode.result? n)) hmap
    rwa [List.filterMap_map, List.filterMap_map] at h
  rw [Episode.results_count, Episode.results_count, hys]
  exact filterMap_without fun x hx => Episode.isSome_result? n (hended x hx)

/-- The calls that are left. -/
theorem calls_without (hmap : ys.map Episode.bare = (without drop xs).map Episode.bare) :
    callsIn (ys.flatMap Episode.calls) =
      (without drop (xs.map Episode.call?)).flatMap Option.toList := by
  have hys : ys.map Episode.call? = (without drop xs).map Episode.call? := by
    have h := congrArg (List.map Episode.call?) hmap
    rwa [List.map_map, List.map_map] at h
  rw [Episode.callsIn_course, hys, map_without]

theorem ended_without (hended : ∀ x ∈ xs, x.Ended)
    (hmap : ys.map Episode.bare = (without drop xs).map Episode.bare) : ∀ y ∈ ys, y.Ended := by
  intro y hy
  have hmem : y.bare ∈ (without drop xs).map Episode.bare := hmap ▸ List.mem_map_of_mem hy
  obtain ⟨x, hx, he⟩ := List.mem_map.1 hmem
  obtain ⟨ending, hending⟩ := hended x ((sublist_without xs).subset hx)
  have hsame : x.bare.ending = y.bare.ending := congrArg Episode.ending he
  exact ⟨ending, hsame ▸ hending⟩

variable [Stack]

/-- Episodes that pass have no resources. -/
theorem resources_without (n : Nat)
    (hpass : ∀ n x, drop n = true → xs[n]? = some x → ∃ τ, x.Passes R τ)
    (hmap : ys.map Episode.bare = (without drop xs).map Episode.bare) :
    (ys.foldl (Episode.count n) .start).resources =
      (xs.foldl (Episode.count n) .start).resources := by
  let found (x : Episode Unit) := x.endings.flatMap fun z => z.2.resources
  have hys : ys.flatMap (fun x => found x.bare) =
      (without drop xs).flatMap fun x => found x.bare := by
    rw [← List.flatMap_map, hmap, List.flatMap_map]
  rw [Episode.resources_count, Episode.resources_count]
  refine hys.trans (flatMap_without fun n x hn hx => ?_)
  obtain ⟨τ, hx⟩ := hpass n x hn hx
  exact hx.resources

/-- An episode that stops the run is left. -/
theorem goesOn_without (hpass : ∀ n x, drop n = true → xs[n]? = some x → ∃ τ, x.Passes R τ)
    (hmap : ys.map Episode.bare = (without drop xs).map Episode.bare) :
    (∀ y ∈ ys, y.goesOn = true) ↔ ∀ x ∈ xs, x.goesOn = true := by
  have hys : ys.map Episode.goesOn = (without drop xs).map Episode.goesOn := by
    have h := congrArg (List.map Episode.goesOn) hmap
    rwa [List.map_map, List.map_map] at h
  rw [← List.forall_mem_map (P := (· = true)), hys, List.forall_mem_map]
  constructor
  · intro h x hx
    obtain hx | ⟨n, hn, hx⟩ := mem_without_or drop hx
    · exact h x hx
    · obtain ⟨τ, hx⟩ := hpass n x hn hx
      exact hx.goesOn
  · exact fun h x hx => h x ((sublist_without xs).subset hx)

end Passing

variable [Stack]

section Passing

variable {P : Episode σ → Prop} {R : σ → σ → Prop} {drop : Nat → Bool}

theorem exists_passes (hP : ∀ s c τ, P (e.tools.episode s c τ) → (e.tools.episode s c τ).Passes R τ)
    (hdrop : ∀ n, drop n = true → ∃ x, (e.courseOf d supplied context tools)[n]? = some x ∧ P x)
    (n : Nat) (x : Episode σ) (hn : drop n = true)
    (hx : (e.courseOf d supplied context tools)[n]? = some x) : ∃ τ, x.Passes R τ := by
  obtain ⟨y, hy, hPy⟩ := hdrop n hn
  obtain rfl := Option.some.inj (hx.symm.trans hy)
  obtain ⟨step, c, τ, rfl⟩ := Tools.exists_episode_of_mem (List.mem_of_getElem? hx)
  exact ⟨τ, hP step c τ hPy⟩

/-- **The run of the other steps** when the episodes of the ones left out pass. -/
theorem sameWithout_of_passes (hR : e.tools.Alike R)
    (hP : ∀ s c τ, P (e.tools.episode s c τ) → (e.tools.episode s c τ).Passes R τ)
    (hτ : R tools tools) {r r' : RunResult} {s s' : RunState σ β} {id' : String} {b' : β}
    (h : e.run id d supplied context tools publisher = .ok r s)
    (hdrop : ∀ n, drop n = true →
      ∃ x, (e.courseOf d supplied context tools)[n]? = some x ∧ P x)
    (h' : e.run id' { d with steps := without drop d.steps } supplied context tools b' =
      .ok r' s') : SameWithout drop r s r' s' ∧ R s.tools s'.tools := by
  have hended := (run_ok h).1
  have hended' := (run_ok h').1
  have hupshot := upshot_eq h
  have hupshot' := upshot_eq h'
  simp only [RunResult.upshot, Upshot.ofCourse, Upshot.mk.injEq, courseOf,
    Context.seed_with_steps] at hupshot hupshot' hended hended'
  obtain ⟨htally, hcalls, hcontext, htools⟩ := hupshot
  obtain ⟨htally', hcalls', hcontext', htools'⟩ := hupshot'
  obtain ⟨hmap, hlast, hleft⟩ := course_without hR hP hτ hdrop
  have hpass := exists_passes hP hdrop
  refine ⟨⟨?_, ?_, ?_, ?_, ?_⟩, ?_⟩
  · rw [htally, htally']
    exact results_without _ hended hmap
  · rw [htally, htally']
    exact resources_without _ hpass hmap
  · -- neither run fails unless an episode that is left stops it
    have hfails : r'.tally.status ≠ .failed ↔ r.tally.status ≠ .failed := by
      rw [htally, htally', Episode.status_ne_failed_iff hended,
        Episode.status_ne_failed_iff hended']
      exact goesOn_without hpass hmap
    have hstatus := Episode.status_course e.summaryLength hended'
    simp only [← htally'] at hstatus
    by_cases hf : r.tally.status = .failed
    · rw [if_pos hf, hstatus, if_pos (by simpa [hf] using hfails)]
    · rw [if_neg hf, hstatus, if_neg (hfails.2 hf)]
  · rw [hcalls', calls_without hmap, hcalls, htally, callsByStep_course _ hended]
  · rw [hcontext, hcontext']
    exact hlast
  · rw [htools, htools']
    exact hleft

/-- The run of the other steps returns unless it is cancelled while it publishes an event. -/
theorem returns_of_passes (hR : e.tools.Alike R)
    (hP : ∀ s c τ, P (e.tools.episode s c τ) → (e.tools.episode s c τ).Passes R τ)
    (hτ : R tools tools) {r : RunResult} {s : RunState σ β} (id' : String) (b' : β)
    (h : e.run id d supplied context tools publisher = .ok r s)
    (hdrop : ∀ n, drop n = true →
      ∃ x, (e.courseOf d supplied context tools)[n]? = some x ∧ P x) (hp : ¬ e.CanBeCancelled) :
    ∃ r' s', e.run id' { d with steps := without drop d.steps } supplied context tools b' =
      .ok r' s' := by
  obtain ⟨hmap, -, -⟩ := course_without hR hP hτ hdrop
  exact run_returns hp (ended_without (run_ok h).1 hmap)

end Passing

section Results

variable {r : RunResult} {s : RunState σ β} {n : Nat}

/-- At the place of a result there is an episode that ended so. -/
theorem exists_ending {result : StepResult}
    (h : e.run id d supplied context tools publisher = .ok r s)
    (hresult : r.tally.results[n]? = some result) :
    ∃ x ending, (e.courseOf d supplied context tools)[n]? = some x ∧ x.ending = .ok ending ∧
      ending.status = result.status := by
  obtain ⟨hended, rfl, -⟩ := run_ok h
  rw [Episode.results_count, Episode.getElem?_filterMap_result? _ hended] at hresult
  obtain ⟨x, hx, hresult⟩ := Option.bind_eq_some_iff.1 hresult
  obtain ⟨ending, hending⟩ := hended x (List.mem_of_getElem? hx)
  refine ⟨x, ending, hx, hending, ?_⟩
  rw [Episode.result?, hending] at hresult
  rw [← Option.some.inj hresult, Ending.result_status]

theorem exists_isSkipped (h : e.run id d supplied context tools publisher = .ok r s)
    (hn : r.tally.Skips n) :
    ∃ x, (e.courseOf d supplied context tools)[n]? = some x ∧ x.IsSkipped := by
  obtain ⟨result, hresult, hskipped⟩ := hn
  obtain ⟨x, ending, hx, hending, hstatus⟩ := exists_ending h hresult
  rw [hskipped] at hstatus
  cases ending with
  | skipped condition => exact ⟨x, hx, condition, hending⟩
  | failed error => cases hstatus
  | succeeded raw => cases hstatus

theorem exists_isTolerated (h : e.run id d supplied context tools publisher = .ok r s)
    (hn : r.tally.Tolerates d.steps n) :
    ∃ x, (e.courseOf d supplied context tools)[n]? = some x ∧ x.IsTolerated := by
  obtain ⟨step, result, hstep, hresult, hfailed, hpolicy⟩ := hn
  obtain ⟨x, ending, hx, hending, hstatus⟩ := exists_ending h hresult
  -- the episode is that of the step at the same place
  obtain ⟨rest, hrest⟩ := e.courseOf_prefix d supplied context tools
  have hlt : n < ((e.courseOf d supplied context tools).map Episode.step).length := by
    rw [List.length_map]
    exact (List.getElem?_eq_some_iff.1 hx).1
  obtain rfl : x.step = step := by
    rw [← hrest, List.getElem?_append_left hlt, List.getElem?_map, hx] at hstep
    exact Option.some.inj hstep
  rw [hfailed] at hstatus
  cases ending with
  | skipped condition => cases hstatus
  | failed error => exact ⟨x, hx, ⟨error, hending⟩, hpolicy⟩
  | succeeded raw => cases hstatus

/-- Without steps that were skipped a run makes the same calls and has the same status. -/
theorem SameWithout.of_skips {drop : Nat → Bool} {r' : RunResult} {s' : RunState σ β}
    (h : e.run id d supplied context tools publisher = .ok r s)
    (hdrop : ∀ n, drop n = true → r.tally.Skips n) (hsame : SameWithout drop r s r' s') :
    callsIn s'.trace = callsIn s.trace ∧ r'.tally.status = r.tally.status := by
  have hended := (run_ok h).1
  have hupshot := upshot_eq h
  simp only [RunResult.upshot, Upshot.ofCourse, Upshot.mk.injEq, courseOf] at hupshot hended
  obtain ⟨htally, hcalls, -, -⟩ := hupshot
  constructor
  · rw [hsame.calls, flatMap_without, hcalls, htally, callsByStep_course _ hended,
      Episode.callsIn_course]
    intro n call hn hcall
    obtain ⟨x, hx, hskipped⟩ := hdrop n hn
    rw [getElem?_callsByStep hx hskipped] at hcall
    obtain rfl := Option.some.inj hcall
    rfl
  · have hfailed : (∃ x ∈ r'.tally.results, x.status = .failed) ↔
        ∃ x ∈ r.tally.results, x.status = .failed := by
      rw [hsame.results]
      constructor
      · rintro ⟨x, hx, hf⟩
        exact ⟨x, (sublist_without _).subset hx, hf⟩
      · rintro ⟨x, hx, hf⟩
        obtain hx | ⟨n, hn, hx⟩ := mem_without_or drop hx
        · exact ⟨x, hx, hf⟩
        · obtain ⟨y, hy, hskipped⟩ := hdrop n hn
          obtain rfl := Option.some.inj (hx.symm.trans hy)
          exact absurd (hf.symm.trans hskipped) (by simp)
    have hstatus := Episode.status_course e.summaryLength hended
    simp only [← htally] at hstatus
    rw [hsame.status]
    by_cases hf : r.tally.status = .failed
    · rw [if_pos hf, hf]
    · rw [if_neg hf] at hstatus ⊢
      rw [hstatus]
      simp only [hfailed]

end Results

/-- **The run of a workflow without steps that made no difference.** Without some of the steps that
were skipped, a run comes to the same, their results aside. If the tools answer by name and
parameters alone, steps that failed without stopping the run may be left out as well; then their
calls are missing too, and the status is that of the results that are left. -/
theorem run_without {r : RunResult} {s : RunState σ β}
    (h : e.run id d supplied context tools publisher = .ok r s) (drop : Nat → Bool) (id' : String)
    (b' : β) :
    let again := e.run id' { d with steps := without drop d.steps } supplied context tools b'
    ((∀ n, drop n = true → r.tally.Skips n) →
      (∀ r' s', again = .ok r' s' → r'.upshot s' =
        { r.upshot s with tally := { r.tally with results := without drop r.tally.results } }) ∧
      (¬ e.CanBeCancelled → ∃ r' s', again = .ok r' s')) ∧
    ((∀ τ τ' tool ps, (e.tools τ tool ps).1 = (e.tools τ' tool ps).1) →
      (∀ n, drop n = true → r.tally.Skips n ∨ r.tally.Tolerates d.steps n) →
      (∀ r' s', again = .ok r' s' → SameWithout drop r s r' s') ∧
      (¬ e.CanBeCancelled → ∃ r' s', again = .ok r' s')) := by
  intro again
  constructor
  · intro hskips
    have hdrop := fun n hn => exists_isSkipped h (hskips n hn)
    have hR := e.tools.alike_eq
    have hP : ∀ s c τ, (e.tools.episode s c τ).IsSkipped → (e.tools.episode s c τ).Passes Eq τ :=
      fun s c τ => passes_of_isSkipped
    refine ⟨fun r' s' h' => ?_, returns_of_passes hR hP rfl id' b' h hdrop⟩
    obtain ⟨hsame, htools⟩ := sameWithout_of_passes hR hP rfl h hdrop h'
    obtain ⟨hcalls, hstatus⟩ := hsame.of_skips h hskips
    have htally : r'.tally = ⟨without drop r.tally.results, r.tally.resources, r.tally.status⟩ := by
      rw [← hsame.results, ← hsame.resources, ← hstatus]
    rw [RunResult.upshot, RunResult.upshot, htally, hcalls, hsame.context, htools]
  · intro hstateless hskips
    have hR := Tools.alike_of_stateless hstateless
    have hP : ∀ s c τ, (e.tools.episode s c τ).IsSkipped ∨ (e.tools.episode s c τ).IsTolerated →
        (e.tools.episode s c τ).Passes (fun _ _ => True) τ := by
      rintro s c τ (hx | hx)
      · exact passes_of_isSkipped hx
      · exact passes_of_isTolerated hx
    have hdrop : ∀ n, drop n = true → ∃ x, (e.courseOf d supplied context tools)[n]? = some x ∧
        (x.IsSkipped ∨ x.IsTolerated) := by
      intro n hn
      obtain hn | hn := hskips n hn
      · obtain ⟨x, hx, hskipped⟩ := exists_isSkipped h hn
        exact ⟨x, hx, .inl hskipped⟩
      · obtain ⟨x, hx, htolerated⟩ := exists_isTolerated h hn
        exact ⟨x, hx, .inr htolerated⟩
    exact ⟨fun r' s' h' => (sameWithout_of_passes hR hP trivial h hdrop h').1,
      returns_of_passes hR hP trivial id' b' h hdrop⟩

end Engine

namespace Engine

/-- The sample without its first step, which was skipped, and without the second as well, which
failed and let the run go on. -/
theorem run_without_sample : ∃ r s r₁ s₁ r₂ s₂,
    Sample.engine.run "run" Sample.definition [("n", .int 1)] .empty 0 () = .ok r s ∧
    r.tally.Skips 0 ∧ r.tally.Tolerates Sample.definition.steps 1 ∧
    Sample.engine.run "first"
      { Sample.definition with steps := without (· == 0) Sample.definition.steps }
      [("n", .int 1)] .empty 0 () = .ok r₁ s₁ ∧
    r₁.upshot s₁ = { r.upshot s with
      tally := { r.tally with results := without (· == 0) r.tally.results } } ∧
    Sample.engine.run "second"
      { Sample.definition with steps := without (· < 2) Sample.definition.steps }
      [("n", .int 1)] .empty 0 () = .ok r₂ s₂ ∧
    SameWithout (· < 2) r s r₂ s₂ := by
  obtain ⟨r, s, h, hr⟩ := Sample.run_returns_sample
  have hstatus (n : Nat) : (r.tally.results[n]?).map StepResult.status =
      ([.skipped, .failed, .success, .failed] : List StepStatus)[n]? := by
    rw [← List.getElem?_map, hr]
  have hskips : r.tally.Skips 0 := Option.map_eq_some_iff.1 (hstatus 0)
  have htolerates : r.tally.Tolerates Sample.definition.steps 1 := by
    obtain ⟨x, hx, hfailed⟩ := Option.map_eq_some_iff.1 (hstatus 1)
    exact ⟨_, x, rfl, hx, hfailed, by decide⟩
  have hp := Sample.not_canBeCancelled
  obtain ⟨hsame₁, hreturns₁⟩ := (run_without h (· == 0) "first" ()).1 (by simpa using hskips)
  obtain ⟨r₁, s₁, h₁⟩ := hreturns₁ hp
  obtain ⟨hsame₂, hreturns₂⟩ := (run_without h (· < 2) "second" ()).2 (fun _ _ _ _ => rfl) <| by
    intro n hn
    obtain rfl | rfl : n = 0 ∨ n = 1 := by
      have := of_decide_eq_true hn
      omega
    · exact .inl hskips
    · exact .inr htolerates
  obtain ⟨r₂, s₂, h₂⟩ := hreturns₂ hp
  exact ⟨r, s, r₁, s₁, r₂, s₂, h, hskips, htolerates, h₁, hsame₁ r₁ s₁ h₁, h₂, hsame₂ r₂ s₂ h₂⟩

end Engine
end Runbook
