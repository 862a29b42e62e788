import Runbook.Report
import Runbook.Proofs.Clock

/-!
# The times of reports

A report tells when something started and ended by stamps, and how long it took in milliseconds. For
times of whole milliseconds nothing is lost: the stamps are read back as the same instants, they are
in the order of these, and the duration is the difference between them, unless the clocks of the
zone that both times are in were changed in the meantime.

* `isSome_report?_iff`, `isSome_document?_iff`: what there is a report of;
* `TellsTimes`: what a report tells of a span;
* `times_exact`: reports tell the times exactly;
* `not_times_exact`: across a change of the clocks, and for whole milliseconds of a zone whose
  offset is finer, they do not.
-/

namespace Runbook

open Reading

/-- Whether a time is told exactly: in the calendar, and of whole milliseconds. -/
structure Reading.IsExact (r : Reading) : Prop where
  inCalendar : InCalendar r.instant
  whole : 1000 ∣ r.instant

theorem Reading.tells_of_isExact {r : Reading} (h : r.IsExact) {text : String}
    (ht : r.stamp? = some text) : Tells text r.instant := by
  have htells := tells_of_stamp? ht
  rwa [Int.mul_ediv_cancel' h.whole] at htells

/-! ### Spans -/

namespace Span

variable {s : Span}

/-- Whether the clocks were not changed between the ends of a span: a rule that both share has the
same offset at both. -/
def IsSteady (s : Span) : Prop :=
  s.startedAt.zone.sharesRule s.completedAt.zone → s.startedAt.zone.ahead = s.completedAt.zone.ahead

/-- Whether a span has exact ends, without a change of the clocks between them, and lasts from one
to the other. -/
structure IsExact (s : Span) : Prop where
  started : s.startedAt.IsExact
  completed : s.completedAt.IsExact
  steady : s.IsSteady
  duration : s.durationMs = s.startedAt.elapsedMs s.completedAt

/-- Whether both ends of a span are in the calendar. -/
structure IsTellable (s : Span) : Prop where
  started : InCalendar s.startedAt.instant
  completed : InCalendar s.completedAt.instant

theorem IsExact.isTellable (h : s.IsExact) : s.IsTellable :=
  ⟨h.started.inCalendar, h.completed.inCalendar⟩

/-- Unless the clocks were changed, the elapsed time is that of the time line. -/
theorem IsSteady.elapsed (h : s.IsSteady) :
    s.startedAt.elapsed s.completedAt = s.completedAt.instant - s.startedAt.instant := by
  unfold Reading.elapsed
  split
  · next hrule =>
    have hahead := h hrule
    unfold instant
    omega
  · rfl

/-- The milliseconds of an exact span are all that is between its ends. -/
theorem IsExact.mul_durationMs (h : s.IsExact) :
    1000 * s.durationMs = s.completedAt.instant - s.startedAt.instant := by
  have hwhole := Int.dvd_sub h.completed.whole h.started.whole
  rw [h.duration, elapsedMs, h.steady.elapsed, Int.fdiv_eq_ediv_of_nonneg _ (by decide),
    Int.mul_ediv_cancel' hwhole]

theorem isSome_fields?_iff : s.fields?.isSome ↔ s.IsTellable := by
  have hfields : s.fields?.isSome ↔ s.startedAt.stamp?.isSome ∧ s.completedAt.stamp?.isSome := by
    unfold fields?
    cases s.startedAt.stamp? <;> cases s.completedAt.stamp? <;> simp
  rw [hfields, isSome_stamp?_iff, isSome_stamp?_iff]
  exact ⟨fun ⟨hstarted, hcompleted⟩ => ⟨hstarted, hcompleted⟩, fun h => ⟨h.started, h.completed⟩⟩

/-- The members that tell the times of a span. -/
theorem exists_of_fields? {times : List (String × Value)} (h : s.fields? = some times) :
    ∃ started completed, s.startedAt.stamp? = some started ∧
      s.completedAt.stamp? = some completed ∧
      times = [("started_at", .str started), ("completed_at", .str completed),
        ("duration_ms", .int s.durationMs)] := by
  obtain ⟨started, hstarted, h⟩ := Option.bind_eq_some_iff.1 h
  obtain ⟨completed, hcompleted, h⟩ := Option.bind_eq_some_iff.1 h
  exact ⟨started, completed, hstarted, hcompleted, (Option.some.inj h).symm⟩

end Span

/-- What a report tells of a span: stamps of its ends, and the milliseconds between these, which are
negative if the end is the earlier one. -/
structure TellsTimes (report : Value) (s : Span) : Prop where
  started : ∃ text, report.member? "started_at" = some (.str text) ∧
    Tells text s.startedAt.instant
  completed : ∃ text, report.member? "completed_at" = some (.str text) ∧
    Tells text s.completedAt.instant
  duration : ∃ d : Int, report.member? "duration_ms" = some (.int d) ∧
    1000 * d = s.completedAt.instant - s.startedAt.instant

/-- A report with the members of an exact span tells its times. -/
theorem Span.IsExact.tellsTimes {s : Span} (h : s.IsExact) {report : Value}
    {started completed : String} (hstarted : s.startedAt.stamp? = some started)
    (hcompleted : s.completedAt.stamp? = some completed)
    (hstart : report.member? "started_at" = some (.str started))
    (hend : report.member? "completed_at" = some (.str completed))
    (hduration : report.member? "duration_ms" = some (.int s.durationMs)) :
    TellsTimes report s where
  started := ⟨started, hstart, tells_of_isExact h.started hstarted⟩
  completed := ⟨completed, hend, tells_of_isExact h.completed hcompleted⟩
  duration := ⟨s.durationMs, hduration, h.mul_durationMs⟩

/-! ### Reports of steps -/

section Step

variable {r : StepResult} {s : Span} {v : Value}

theorem isSome_report?_iff : (r.report? s).isSome ↔ s.IsTellable := by
  rw [← Span.isSome_fields?_iff, StepResult.report?]
  cases s.fields? <;> simp

theorem tellsTimes_of_report? (h : r.report? s = some v) (hs : s.IsExact) : TellsTimes v s := by
  obtain ⟨times, htimes, h⟩ := Option.bind_eq_some_iff.1 h
  obtain ⟨started, completed, hstarted, hcompleted, rfl⟩ := Span.exists_of_fields? htimes
  obtain rfl := Option.some.inj h
  exact hs.tellsTimes hstarted hcompleted rfl rfl rfl

theorem member?_duration_of_report? (h : r.report? s = some v) :
    v.member? "duration_ms" = some (.int s.durationMs) := by
  obtain ⟨times, htimes, h⟩ := Option.bind_eq_some_iff.1 h
  obtain ⟨started, completed, -, -, rfl⟩ := Span.exists_of_fields? htimes
  obtain rfl := Option.some.inj h
  rfl

end Step

/-! ### Reports of runs -/

section Run

variable {α β : Type} {f : α → Option β} {l : List α}

theorem forall₂_of_mapM_some {bs : List β} (h : l.mapM f = some bs) :
    List.Forall₂ (fun a b => f a = some b) l bs := by
  induction l generalizing bs with
  | nil =>
    cases h
    exact .nil
  | cons a l ih =>
    rw [List.mapM_cons] at h
    obtain ⟨b, hb, h⟩ := Option.bind_eq_some_iff.1 h
    obtain ⟨bs, hbs, h⟩ := Option.bind_eq_some_iff.1 h
    cases h
    exact .cons hb (ih hbs)

theorem isSome_mapM_iff : (l.mapM f).isSome ↔ ∀ a ∈ l, (f a).isSome := by
  induction l with
  | nil => simp
  | cons a l ih =>
    rw [List.forall_mem_cons, ← ih, List.mapM_cons]
    cases f a <;> cases l.mapM f <;> simp

variable {generated : String} {r : Report} {v : Value}

/-- There is a report of a run if its times and those of its steps are in the calendar. -/
theorem isSome_document?_iff : (r.document? generated).isSome ↔
    r.span.IsTellable ∧ ∀ e ∈ r.steps, e.2.IsTellable := by
  have hsteps : (r.steps.mapM fun (e : StepResult × Span) => e.1.report? e.2).isSome ↔
      ∀ e ∈ r.steps, e.2.IsTellable := by
    simp only [isSome_mapM_iff, isSome_report?_iff]
  rw [← Span.isSome_fields?_iff, ← hsteps, Report.document?]
  cases r.span.fields? <;>
    cases r.steps.mapM fun (e : StepResult × Span) => e.1.report? e.2 <;> simp

/-- The report of a run tells its times, and has the reports of the steps in it. -/
theorem tellsTimes_of_document? (h : r.document? generated = some v) (hs : r.span.IsExact) :
    TellsTimes v r.span ∧ ∃ steps, v.member? "steps" = some (.list steps) ∧
      List.Forall₂ (fun e w => e.1.report? e.2 = some w) r.steps steps := by
  obtain ⟨times, htimes, h⟩ := Option.bind_eq_some_iff.1 h
  obtain ⟨steps, hsteps, h⟩ := Option.bind_eq_some_iff.1 h
  obtain ⟨started, completed, hstarted, hcompleted, rfl⟩ := Span.exists_of_fields? htimes
  obtain rfl := Option.some.inj h
  exact ⟨hs.tellsTimes hstarted hcompleted rfl rfl rfl, steps, rfl, forall₂_of_mapM_some hsteps⟩

end Run

/-- **Reports tell the times exactly.** If a step started and ended in the years 1 to 9999 of UTC,
at whole milliseconds and in any zones, without a change of the clocks in a zone that both times are
in, and its duration is the time elapsed, then it has a report, with stamps that are read back as
the same instants and with the difference of these in milliseconds. So does the report of a run,
which there is as soon as the times of its steps are in those years too. Stamps are in the order of
the instants that they tell; and a time that is finer has the stamp of the millisecond before it. -/
theorem times_exact :
    (∀ (r : StepResult) (s : Span), s.IsExact → ∃ v, r.report? s = some v ∧ TellsTimes v s) ∧
      (∀ (generated : String) (r : Report), r.span.IsExact →
        ((r.document? generated).isSome ↔ ∀ e ∈ r.steps, e.2.IsTellable) ∧
          ∀ v, r.document? generated = some v → TellsTimes v r.span ∧
            ∃ steps, v.member? "steps" = some (.list steps) ∧
              List.Forall₂ (fun e w => e.1.report? e.2 = some w) r.steps steps) ∧
      (∀ text text' t t', Tells text t → Tells text' t' → (text < text' ↔ t < t')) ∧
      ∀ r : Reading, (r.stamp?.isSome ↔ InCalendar r.instant) ∧
        ∀ text, r.stamp? = some text → Tells text (1000 * (r.instant / 1000)) := by
  refine ⟨fun r s hs => ?_, fun generated r hr => ⟨?_, fun v hv => tellsTimes_of_document? hv hr⟩,
    fun text text' t t' h h' => h.lt_iff h', fun r => ⟨isSome_stamp?_iff, fun text =>
      tells_of_stamp?⟩⟩
  · obtain ⟨v, hv⟩ := Option.isSome_iff_exists.1 (isSome_report?_iff.2 hs.isTellable)
    exact ⟨v, hv, tellsTimes_of_report? hv hs⟩
  · rw [isSome_document?_iff]
    exact and_iff_right hr.isTellable

/-- The last evening of a February, in a zone that is 4 hours, 30 minutes and 15 seconds behind. -/
def Sample.evening : Reading :=
  ⟨⟨2024, 2, 29⟩, 23, 30, 0, 250000, ⟨-16215000000, none, by decide⟩, by decide⟩

/-- A moment earlier, in UTC. -/
def Sample.night : Reading :=
  ⟨⟨2024, 3, 1⟩, 3, 59, 59, 999000, .utc, by decide⟩

theorem Sample.stamp?_evening : evening.stamp? = some "2024-03-01T04:00:15.250Z" := by
  decide +kernel

theorem Sample.stamp?_night : night.stamp? = some "2024-03-01T03:59:59.999Z" := by
  decide +kernel

/-- From the evening to the moment before it. -/
def Sample.span : Span := .between evening night

theorem Sample.isExact_span : span.IsExact where
  started := ⟨isSome_stamp?_iff.1 (Option.isSome_of_eq_some stamp?_evening), by decide⟩
  completed := ⟨isSome_stamp?_iff.1 (Option.isSome_of_eq_some stamp?_night), by decide⟩
  steady := nofun
  duration := rfl

/-- A step and a run that end before they start, and the order of their stamps. -/
theorem times_exact_sample :
    let step : StepResult := ⟨"look", "Look", "find", .success, none, none⟩
    let report : Report := ⟨"memo", "run", .success, Sample.span, [(step, Sample.span)], []⟩
    Sample.span.IsExact ∧ Sample.span.durationMs = -15251 ∧
      (∃ v, step.report? Sample.span = some v ∧ TellsTimes v Sample.span) ∧
      (∃ v, report.document? "" = some v ∧ TellsTimes v Sample.span) ∧
      "2024-03-01T03:59:59.999Z" < "2024-03-01T04:00:15.250Z" := by
  intro step report
  obtain ⟨hsteps, hruns, horder, hstamps⟩ := times_exact
  obtain ⟨hsome, htells⟩ := hruns "" report Sample.isExact_span
  obtain ⟨v, hv⟩ := Option.isSome_iff_exists.1 (hsome.2 fun e he => by
    obtain rfl := List.mem_singleton.1 he
    exact Sample.isExact_span.isTellable)
  have hnight := (hstamps Sample.night).2 _ Sample.stamp?_night
  have hevening := (hstamps Sample.evening).2 _ Sample.stamp?_evening
  exact ⟨Sample.isExact_span, by decide, hsteps step _ Sample.isExact_span,
    ⟨v, hv, (htells v hv).1⟩,
    (horder _ _ _ _ hnight hevening).2 (by decide)⟩

/-! ### Where the times are not told exactly -/

/-- The zone of a city that is an hour ahead of UTC, and another hour in summer. -/
def Sample.city (hours : Int) (h : (hours * 3600000000).natAbs < 86400000000) : Zone :=
  ⟨hours * 3600000000, some 0, h⟩

/-- Half past one in a night in which the clocks are put forward at two. -/
def Sample.beforeChange : Reading :=
  ⟨⟨2024, 3, 31⟩, 1, 30, 0, 0, city 1 (by decide), by decide⟩

/-- Half past three in the same night, an hour later. -/
def Sample.afterChange : Reading :=
  ⟨⟨2024, 3, 31⟩, 3, 30, 0, 0, city 2 (by decide), by decide⟩

/-- A midnight in a zone that is half a millisecond ahead of UTC. -/
def Sample.fineMidnight : Reading :=
  ⟨⟨1970, 1, 1⟩, 0, 0, 0, 0, ⟨500, none, by decide⟩, by decide⟩

/-- **A change of the clocks counts as elapsed time**, and a whole millisecond of a zone whose
offset is finer is none in UTC, so its stamp tells an earlier instant. -/
theorem not_times_exact :
    (Sample.beforeChange.IsExact ∧ Sample.afterChange.IsExact ∧
      Sample.beforeChange.elapsedMs Sample.afterChange = 7200000 ∧
      ∀ (r : StepResult) (v : Value),
        r.report? (.between Sample.beforeChange Sample.afterChange) = some v →
          ¬ TellsTimes v (.between Sample.beforeChange Sample.afterChange)) ∧
      Sample.fineMidnight.microsecond = 0 ∧
      ∃ text, Sample.fineMidnight.stamp? = some text ∧
        ¬ Tells text Sample.fineMidnight.instant := by
  refine ⟨⟨⟨by decide, by decide⟩, ⟨by decide, by decide⟩, by decide, ?_⟩, rfl, ?_⟩
  · rintro r v hv ⟨-, -, d, hd, hinstants⟩
    rw [member?_duration_of_report? hv, Option.some.injEq, Value.scalar.injEq,
      Scalar.int.injEq] at hd
    subst hd
    revert hinstants
    decide
  · have hcalendar : InCalendar Sample.fineMidnight.instant := by decide
    obtain ⟨text, htext⟩ := Option.isSome_iff_exists.1 (isSome_stamp?_iff.2 hcalendar)
    exact ⟨text, htext, fun htells => absurd (htells.unique (tells_of_stamp? htext)) (by decide)⟩

end Runbook
