import Runbook.Proofs.Condition.Agreement
import Runbook.Proofs.Condition.Canonical
import Runbook.Proofs.Path
import Runbook.Proofs.Run.Ledger
import Mathlib.Data.Bool.AllAny

/-!
# Mapped variables

A step that succeeds leaves the variables of its output mapping as mirrors of its output: such a
variable has the value at its path in the output, or none if the path leads nowhere (`Mirrors`).
What succeeds later keeps a mirror, unless it maps the variable again, because no other step writes
the record. So the path of the variable and the path into the output of the step are
interchangeable.

* `mirrors_complete`, `Mirrors.complete`: what a success makes a mirror, and what it keeps;
* `run_mirrors`: mirrors in a run.
-/

namespace Runbook

open Placeholder Condition

/-! ### Texts of the two paths -/

/-- Whether a text can stand before the rest of a path: it is a path itself, and has no character of
an operator. -/
structure IsStem (a : String) : Prop where
  isPath : IsPath a
  plain : ∀ c ∈ a.toList, ∀ op : Comparator, c ∉ op.sign.toList

section Stem

variable {a b : String} (h : IsStem a)

include h

theorem IsStem.isPath_append (hclosed : '}' ∉ b.toList) (htrim : trim b = b) : IsPath (a ++ b) := by
  obtain ⟨⟨hne, hinside⟩, ha⟩ := h.isPath
  refine ⟨⟨by simp [hne], ?_⟩, trim_append ha htrim (by simpa using hne)⟩
  simp [hinside, hclosed]

theorem IsStem.isOperand_append (hb : IsOperand b) : IsOperand (a ++ b) := by
  obtain ⟨⟨hne, -⟩, ha⟩ := h.isPath
  refine ⟨trim_append ha hb.trimmed (by simpa using hne), fun op hop => ?_⟩
  rw [String.toList_append] at hop
  exact hb.without op
    (infix_of_infix_append op.sign_ne_nil (fun c hc => h.plain c hc op) hop)

end Stem

theorem isStem_variables : IsStem "variables." where
  isPath := by decide
  plain := by
    intro c hc op
    revert c
    cases op <;> exact List.all_iff_forall_prop.1 (by decide)

/-- The identifier of a step has no characters of other kinds than its pattern names. -/
theorem not_mem_of_isStepId {id : String} (h : Schema.Pattern.stepId.matches id.toList) {c : Char}
    (hc : (Schema.isNameStart c || c = '_') = false) : c ∉ id.toList := by
  intro hmem
  rw [Schema.Pattern.matches] at h
  cases hid : id.toList with
  | nil => simp [hid] at hmem
  | cons d r =>
    rw [hid] at h hmem
    simp only [Schema.isStepId, Bool.and_eq_true, List.all_eq_true] at h
    obtain rfl | hmem := List.mem_cons.1 hmem
    · simp_all [Schema.isNameStart]
    · rw [h.2 c hmem] at hc
      cases hc

theorem isStem_output {id : String} (h : Schema.Pattern.stepId.matches id.toList) :
    IsStem (outputStem id) where
  isPath := by
    have hlist : (outputStem id).toList =
        's' :: ("teps.".toList ++ id.toList ++ ".output".toList) ++
        ['.'] := by simp [outputStem]
    have hhead : (outputStem id).toList.head? = some 's' := by rw [hlist]; rfl
    have hlast : (outputStem id).toList.getLast? = some '.' := by
      rw [hlist, List.getLast?_append_of_ne_nil _ (List.cons_ne_nil _ _)]
      rfl
    have htrim : trimBy isBlank (outputStem id).toList = (outputStem id).toList := by
      rw [trimBy_eq_self_iff, hhead, hlast]
      simp only [Option.mem_some_iff, forall_eq']
      decide
    refine ⟨⟨by simp [hlist], ?_⟩, ?_⟩
    · simp [outputStem, not_mem_of_isStepId h (c := '}') (by decide)]
    · rw [trim, htrim, String.ofList_toList]
  plain := by
    intro c hc op hop
    have hsign : ∀ d ∈ op.sign.toList, (Schema.isNameStart d || d = '_') = false ∧
        d ∉ "steps.".toList ∧ d ∉ ".output.".toList := by
      cases op <;> exact List.all_iff_forall_prop.1 (by decide)
    obtain ⟨hname, hsteps, houtput⟩ := hsign c hop
    simp only [outputStem, String.toList_append, List.mem_append] at hc
    rcases hc with (hc | hc) | hc
    · exact hsteps hc
    · exact not_mem_of_isStepId h hname hc
    · exact houtput hc

namespace Context

/-- Whether a variable mirrors a path in the output of a step that has succeeded with a text. -/
structure Mirrors [Stack] (c : Context) (x id raw path : String) : Prop where
  record : c.steps.get? id = some (.ofText raw)
  value : c.vars.get? x = (Output.ofText raw).value.resolve path

section Mapping

variable (output : Value) {vars : Table String Value} {mapping : Table String String}
  {x path : String}

/-- An output mapping leaves the variables alone that it does not mention. -/
theorem get?_foldl_mapVariable_of_notMem (h : x ∉ mapping.keys) :
    (mapping.foldl (mapVariable output) vars).get? x = vars.get? x := by
  induction mapping generalizing vars with
  | nil => rfl
  | cons e mapping ih =>
    simp only [Table.keys, List.map_cons, List.mem_cons, not_or] at h
    rw [List.foldl_cons, ih h.2, get?_mapVariable, if_neg h.1]

/-- An output mapping gives a variable the value at its path. -/
theorem get?_foldl_mapVariable_of_mem (hkeys : mapping.keys.Nodup) (h : (x, path) ∈ mapping) :
    (mapping.foldl (mapVariable output) vars).get? x = output.resolve path := by
  induction mapping generalizing vars with
  | nil => cases h
  | cons e mapping ih =>
    obtain ⟨hnotMem, hkeys⟩ := List.nodup_cons.1 hkeys
    rw [List.foldl_cons]
    obtain rfl | h := List.mem_cons.1 h
    · rw [get?_foldl_mapVariable_of_notMem output hnotMem, get?_mapVariable, if_pos rfl]
    · exact ih hkeys h

end Mapping

section Steps

variable [Stack] {c : Context} {s : Step} {x id raw path : String}

/-- **A success makes the variables of its mapping mirrors.** -/
theorem mirrors_complete (c : Context) (raw : String) (hkeys : s.mapping.keys.Nodup)
    (h : (x, path) ∈ s.mapping) : (c.complete s raw).Mirrors x s.id raw path where
  record := Table.get?_set_self ..
  value := get?_foldl_mapVariable_of_mem _ hkeys h

/-- **The success of another step keeps a mirror** unless it maps the variable. -/
theorem Mirrors.complete (h : c.Mirrors x id raw path) (hid : s.id ≠ id) (hx : x ∉ s.mapping.keys)
    (later : String) : (c.complete s later).Mirrors x id raw path where
  record := (Table.get?_set_of_ne _ _ hid).trans h.record
  value := (get?_foldl_mapVariable_of_notMem _ hx).trans h.value

/-- A mirror is kept by any number of successes. -/
theorem Mirrors.completeAll (h : c.Mirrors x id raw path) {later : List (Step × String)}
    (hlater : ∀ q ∈ later, q.1.id ≠ id ∧ x ∉ q.1.mapping.keys) :
    (c.completeAll later).Mirrors x id raw path := by
  induction later generalizing c with
  | nil => exact h
  | cons q later ih =>
    obtain ⟨hq, hlater⟩ := List.forall_mem_cons.1 hlater
    exact ih (h.complete hq.1 hq.2 q.2) hlater

/-! ### Agreement -/

/-- The paths of a variable and of what it mirrors lead to the same. -/
theorem Mirrors.resolve_eq (h : c.Mirrors x id raw path) (hdot : '.' ∉ x.toList)
    (hid : '.' ∉ id.toList) :
    c.tree.resolve (variablePath x) = c.tree.resolve (outputPath id path) := by
  rw [c.resolve_variable hdot, c.resolve_output hid, h.record, h.value]
  rfl

/-- **A variable and what it mirrors are interchangeable** in placeholders and conditions. -/
theorem Mirrors.agree (h : c.Mirrors x id raw path) (hid : Schema.Pattern.stepId.matches id.toList)
    (hx : IsPath x) (hdot : '.' ∉ x.toList) (hclosed : '}' ∉ path.toList)
    (htrim : trim path = path) :
    c.substitute (.str (ofPath (variablePath x))) =
        c.substitute (.str (ofPath (outputPath id path))) ∧
      (IsOperand x → IsOperand path →
        c.satisfies (variablePath x) = c.satisfies (outputPath id path)) := by
  have hresolve := h.resolve_eq hdot (not_mem_of_isStepId hid (by decide))
  have hvariable : IsPath (variablePath x) :=
    isStem_variables.isPath_append hx.inside.unclosed hx.trimmed
  have houtput : IsPath (outputPath id path) := (isStem_output hid).isPath_append hclosed htrim
  constructor
  · rw [c.substitute_ofPath hvariable, c.substitute_ofPath houtput, textAt, textAt, hresolve]
  · intro hx hpath
    have hvariable : IsOperand (variablePath x) := isStem_variables.isOperand_append hx
    have houtput : IsOperand (outputPath id path) := (isStem_output hid).isOperand_append hpath
    rw [satisfies_path c hvariable, satisfies_path c houtput, holds, holds, hresolve]

end Steps
end Context

/-! ### Runs -/

/-- Whether, of some steps that have succeeded, the last to map a variable is one that succeeded
with a text, and maps it to a path. -/
def LastMapped (done : List (Step × String)) (x : String) (step : Step) (raw path : String) :
    Prop :=
  (x, path) ∈ step.mapping ∧ ∃ earlier later, done = earlier ++ (step, raw) :: later ∧
    ∀ q ∈ later, x ∉ q.1.mapping.keys

section LastMapped

variable {done : List (Step × String)} {x : String} {step : Step} {raw path : String}

theorem LastMapped.mem (h : LastMapped done x step raw path) : step ∈ done.map Prod.fst := by
  obtain ⟨-, earlier, later, rfl, -⟩ := h
  simp

/-- The last step to map a variable makes it a mirror, as no later one writes its record. -/
theorem LastMapped.mirrors [Stack] (h : LastMapped done x step raw path) (c : Context)
    (hids : ((done.map Prod.fst).map Step.id).Nodup) (hkeys : step.mapping.keys.Nodup) :
    (c.completeAll done).Mirrors x step.id raw path := by
  obtain ⟨hmem, earlier, later, rfl, hlater⟩ := h
  have hid : ∀ q ∈ later, q.1.id ≠ step.id := by
    simp only [List.map_append, List.map_cons, List.nodup_append, List.nodup_cons, List.map_map]
      at hids
    intro q hq heq
    exact hids.2.1.1 (List.mem_map.2 ⟨q, hq, heq⟩)
  rw [Context.completeAll_append]
  exact (Context.mirrors_complete (c.completeAll earlier) raw hkeys hmem).completeAll
    fun q hq => ⟨hid q hq, hlater q hq⟩

end LastMapped

theorem Step.Valid.nodup_keys_mapping {s : Step} (h : s.Valid) : s.mapping.keys.Nodup := by
  unfold Step.mapping
  cases hm : s.outputMapping with
  | none => exact List.nodup_nil
  | some t => exact h.outputMapping t hm

namespace Engine

variable {σ β : Type} {e : Engine σ β} {d : Definition}

/-- The steps that have succeeded at a moment are among those whose tools were called. -/
theorem Moment.sublist {tools : σ} {called : List Step} {s : RunState σ β}
    {done : List (Step × String)} {c : Context} (h : e.Moment tools called s done c) :
    (done.map Prod.fst).Sublist called := by
  cases h <;> exact successes_sublist _ _

variable [Stack]

/-- **Mapped variables mirror outputs** at every moment of a run, until they are mapped again: the
path of the variable and the path into the output of the step give the same text in a placeholder,
and the same truth as a condition. -/
theorem run_mirrors {v : Value} (hd : Definition.ofDocument v = .ok d) (id : String)
    (supplied : Table String Value) (context : Context) (tools : σ) (publisher : β) :
    ∃ called, e.Follows d.steps (context.seed d supplied) tools called
        (lastState (e.run id d supplied context tools publisher)) ∧
      (∀ r s, e.run id d supplied context tools publisher = .ok r s →
        (called.map Step.id).zip ((e.answersIn tools s.trace).map statusOfAnswer) =
          (r.tally.results.filter (·.status ≠ .skipped)).map fun x => (x.id, x.status)) ∧
      ∀ done c, e.Moment tools called (lastState (e.run id d supplied context tools publisher))
        done c → ∀ x step raw path, LastMapped done x step raw path →
        c.Mirrors x step.id raw path ∧
        (IsPath x → '.' ∉ x.toList → '}' ∉ path.toList → trim path = path →
          c.substitute (.str (ofPath (variablePath x))) =
              c.substitute (.str (ofPath (outputPath step.id path))) ∧
            (IsOperand x → IsOperand path →
              c.satisfies (variablePath x) = c.satisfies (outputPath step.id path))) := by
  have hvalid := Definition.valid_of_ofDocument hd
  obtain ⟨called, hfollows, hzip⟩ := run_follows e id d supplied context tools publisher
  refine ⟨called, hfollows, hzip, fun done c hmoment x step raw path hlast => ?_⟩
  have hdone : (done.map Prod.fst).Sublist d.steps := hmoment.sublist.trans hfollows.sublist
  have hstep : step.Valid := hvalid.steps step (hdone.subset hlast.mem)
  have hmirrors : c.Mirrors x step.id raw path := by
    rw [hfollows.moment done c hmoment]
    exact hlast.mirrors _ (hvalid.ids.sublist (hdone.map _)) hstep.nodup_keys_mapping
  exact ⟨hmirrors, hmirrors.agree hstep.id⟩

end Engine

/-- Two steps, the first of which maps a variable. -/
def Sample.mapped : Definition :=
  ⟨"mapped", "A sample", none, none,
    [step "first" "make" none (some [("n", "id")]) none, step "second" "make" none none none]⟩

/-- The document of the workflow. -/
def Sample.mappedDocument : Value :=
  .ofFields [("name", .str "mapped"), ("description", .str "A sample"),
    ("steps", .list [
      entry "first" "make" [("output_mapping", .ofFields [("n", .str "id")])],
      entry "second" "make" []])]

/-- A variable that had a value before, and is kept by a later success. -/
theorem Engine.run_mirrors_sample :
    let e := Sample.engine
    let s := lastState (e.run "run" Sample.mapped [("n", .int 1)] .empty 0 ())
    let first := Sample.step "first" "make" none (some [("n", "id")]) none
    let raw := "\x7b\"id\": 7, \"at\": \"https://k/slo/7\"\x7d"
    Definition.ofDocument Sample.mappedDocument = .ok Sample.mapped ∧
      ∃ called done, e.Moment 0 called s done s.context ∧ LastMapped done "n" first raw "id" ∧
        s.context.Mirrors "n" "first" raw "id" ∧
        s.context.substitute (.str "$\x7bvariables.n\x7d") =
          s.context.substitute (.str "$\x7bsteps.first.output.id\x7d") ∧
        s.context.satisfies "variables.n" = s.context.satisfies "steps.first.output.id" := by
  intro e s first raw
  have hdocument : Definition.ofDocument Sample.mappedDocument = .ok Sample.mapped := rfl
  obtain ⟨called, hfollows, -, hmirrors⟩ :=
    run_mirrors (e := Sample.engine) hdocument "run" [("n", .int 1)] .empty 0 ()
  -- both steps make calls, and both calls are answered alike
  have hanswers : e.answersIn 0 s.trace = [.ok raw, .ok raw] := by decide +kernel
  have hlength : (callsIn s.trace).length = 2 := by decide +kernel
  have hcalled : called = Sample.mapped.steps := by
    refine hfollows.sublist.eq_of_length ?_
    rw [← List.length_map Step.tool, ← hfollows.calls, List.length_map]
    exact hlength
  subst hcalled
  have hlast :
      LastMapped (successes Sample.mapped.steps (e.answersIn 0 s.trace)) "n" first raw "id" := by
    rw [hanswers]
    exact ⟨List.mem_singleton.2 rfl, [], _, rfl, by decide⟩
  have hx : IsPath "n" := by decide
  have hox : IsOperand "n" := by decide
  have hpath : IsOperand "id" := by decide
  obtain ⟨hmirror, hagree⟩ := hmirrors _ _ .last _ _ _ _ hlast
  obtain ⟨hsubstitute, hsatisfies⟩ := hagree hx (by decide) (by decide) (by decide)
  exact ⟨hdocument, _, _, .last, hlast, hmirror, hsubstitute, hsatisfies hox hpath⟩

end Runbook
