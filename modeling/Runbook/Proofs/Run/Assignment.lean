import Runbook.Proofs.Run.Execution
import Runbook.Proofs.Run.Mapping

/-!
# Output mappings as assignments

An output mapping is carried out entry by entry, and each entry writes its variable or removes it.
All the same it is one simultaneous assignment (`Context.assigned`): every path starts from the
output of the step, and no entry sees what another one wrote, so the order of the entries does not
matter.

* `get?_foldl_mapVariable`: the entries, one after another, come to the assignment;
* `execute_assigns`: the variables after a step that succeeds.
-/

namespace Runbook

namespace Context

/-- The variables after an output mapping is carried out at once: a variable that it names has the
value at its path in the output, if there is one, and any other variable has the value it had. -/
def assigned (output : Value) (mapping : Table String String) (vars : String → Option Value)
    (x : String) : Option Value :=
  match mapping.get? x with
  | some path => output.resolve path
  | none => vars x

/-- **The entries of an output mapping, one after another, are one assignment.** -/
theorem get?_foldl_mapVariable (output : Value) (vars : Table String Value)
    {mapping : Table String String} (hkeys : mapping.keys.Nodup) :
    (mapping.foldl (mapVariable output) vars).get? = assigned output mapping vars.get? := by
  funext x
  unfold assigned
  cases h : mapping.get? x with
  | some path => exact get?_foldl_mapVariable_of_mem output hkeys (Table.mem_of_get? h)
  | none => exact get?_foldl_mapVariable_of_notMem output (Table.get?_eq_none_iff.1 h)

/-- The order of the entries does not matter. -/
theorem assigned_of_perm (output : Value) {order mapping : Table String String}
    (hkeys : mapping.keys.Nodup) (h : order.Perm mapping) (vars : String → Option Value) :
    assigned output order vars = assigned output mapping vars := by
  funext x
  rw [assigned, assigned, Table.get?_of_perm hkeys h]

end Context

/-- A call whose text is taken has answered with it. -/
theorem Outcome.answers_of_text {o : Outcome} {tool raw : String} (h : o.text tool = .ok raw) :
    o.Answers raw := by
  rcases o.text_cases tool with ⟨-, hnone⟩ | ⟨-, error, herror, -⟩ | ⟨other, hanswers, hother⟩
  · rw [hnone] at h
    cases h
  · rw [herror] at h
    cases h
  · rw [hother] at h
    cases h
    exact hanswers

namespace Engine

variable [Stack] {σ β : Type} {e : Engine σ β} {step : Step} {s s' : RunState σ β}
  {x : StepResult × List Resource}

/-- A step that succeeds is not skipped, and the call of its tool ends with a text. -/
theorem exists_text (h : e.execute step s = .ok x s') (hx : x.1.status = .success) :
    step.isSkipped s.context = .ok false ∧
      ∃ ps raw, s.context.substituteTable step.parameters = .ok ps ∧
        (e.tools s.tools step.tool ps).1.text step.tool = .ok raw := by
  obtain ⟨ending, hending, rfl, -⟩ := execute_ok h
  unfold Tools.episode at hending
  split at hending
  · cases hending
  · cases hending
    cases hx
  · next hskips =>
    refine ⟨hskips, ?_⟩
    split at hending
    · cases hending
    · next ps hps =>
      rcases Outcome.ending_ok hending with ⟨raw, hraw, rfl⟩ | ⟨error, -, rfl⟩
      · exact ⟨ps, raw, hps, hraw⟩
      · cases hx

/-- **A step that succeeds assigns its output mapping.** The tool has answered with a text, and the
variables are those from before with the values assigned that the text, read as an output, has at
the paths of the mapping. With its entries in any other order the step comes to the same variables,
and to the same in all else. -/
theorem execute_assigns (hkeys : step.mapping.keys.Nodup) (h : e.execute step s = .ok x s')
    (hx : x.1.status = .success) :
    (∃ ps raw, s.context.substituteTable step.parameters = .ok ps ∧
      (e.tools s.tools step.tool ps).1.Answers raw ∧
      s'.context.vars.get? =
        Context.assigned (Output.ofText raw).value step.mapping s.context.vars.get?) ∧
    ∀ order : Table String String, order.Perm step.mapping →
      ∃ vars : Table String Value, vars.get? = s'.context.vars.get? ∧
        e.execute { step with outputMapping := some order } s =
          .ok x { s' with context := { s'.context with vars } } := by
  obtain ⟨hskips, ps, raw, hps, hraw⟩ := exists_text h hx
  have hending : (e.tools s.tools step.tool ps).1.ending step.tool = .ok (.succeeded raw) := by
    rw [Outcome.ending, hraw]
  have hvars := Context.get?_foldl_mapVariable (Output.ofText raw).value s.context.vars hkeys
  rw [execute_called hskips hps hending] at h
  cases h
  refine ⟨⟨ps, raw, hps, Outcome.answers_of_text hraw, hvars⟩, fun order horder => ?_⟩
  -- the mapping is read after the call alone, so the other order makes the same call
  let reordered : Step := { step with outputMapping := some order }
  have hskipsToo : reordered.isSkipped s.context = .ok false := hskips
  have hcalled := execute_called hskipsToo hps hending
  have horderKeys : order.keys.Nodup := (horder.map Prod.fst).nodup_iff.2 hkeys
  refine ⟨(s.context.complete reordered raw).vars, ?_, hcalled⟩
  calc (s.context.complete reordered raw).vars.get?
    _ = Context.assigned (Output.ofText raw).value order s.context.vars.get? :=
        Context.get?_foldl_mapVariable _ _ horderKeys
    _ = Context.assigned (Output.ofText raw).value step.mapping s.context.vars.get? :=
        Context.assigned_of_perm _ hkeys horder _
    _ = (s.context.complete step raw).vars.get? := hvars.symm

end Engine

namespace Engine

/-- The step of the sample, with an output mapping of three variables. -/
def Sample.assigning : Step :=
  Sample.step "first" "make" none (some [("n", "id"), ("gone", "missing"), ("at", "at.more")]) none

/-- Whether executing a step came to a success. -/
def Sample.succeeds {σ β : Type} :
    EStateM.Result Abort (RunState σ β) (StepResult × List Resource) → Bool
  | .ok x _ => x.1.status = .success
  | .error _ _ => false

/-- A variable that is replaced, one that is removed, and one that is left alone. -/
theorem execute_assigns_sample :
    let s : RunState Nat Unit :=
      ⟨⟨[("n", .int 1), ("gone", .int 2), ("kept", .int 3)], []⟩, 0, (), [], []⟩
    ∃ x s', Sample.engine.execute Sample.assigning s = .ok x s' ∧
      (s'.context.vars.get? "n").map Value.toNumber = some (.ofInt 7) ∧
      s'.context.vars.get? "gone" = none ∧ s'.context.vars.get? "at" = none ∧
      s'.context.vars.get? "kept" = some (.int 3) ∧
      ∃ vars : Table String Value, vars.get? = s'.context.vars.get? ∧
        Sample.engine.execute { Sample.assigning with
          outputMapping := some [("at", "at.more"), ("n", "id"), ("gone", "missing")] } s =
          .ok x { s' with context := { s'.context with vars } } := by
  intro s
  have hsuccess : Sample.succeeds (Sample.engine.execute Sample.assigning s) = true := by
    decide +kernel
  cases h : Sample.engine.execute Sample.assigning s with
  | error a s' => simp [h, Sample.succeeds] at hsuccess
  | ok x s' =>
    have hx : x.1.status = .success := by simpa [h, Sample.succeeds] using hsuccess
    obtain ⟨⟨ps, raw, -, hanswers, hvars⟩, horders⟩ := execute_assigns (by decide) h hx
    have hraw : raw = "\x7b\"id\": 7, \"at\": \"https://k/slo/7\"\x7d" :=
      Outcome.Answers.unique ⟨_, _, rfl, rfl, rfl, rfl⟩ hanswers
    subst hraw
    refine ⟨x, s', rfl, ?_, ?_, ?_, ?_, horders _ (by decide)⟩
    · rw [hvars]
      decide +kernel
    · rw [hvars, ← Option.isNone_iff_eq_none]
      decide +kernel
    · rw [hvars, ← Option.isNone_iff_eq_none]
      decide +kernel
    · rw [hvars]
      rfl

end Engine
end Runbook
