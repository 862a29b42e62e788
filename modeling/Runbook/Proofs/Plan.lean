import Runbook.Plan
import Runbook.Proofs.Json.Reader
import Runbook.Proofs.Run.Defaults
import Runbook.Proofs.Schema

/-!
# Workflows with a plan

A plan shows the parameters of the steps as JSON text and the variables as they are shown in
placeholders. Values that JSON lacks are shown among the variables and refused among the parameters,
so that a workflow from a YAML text can be accepted and have no plan.

* `returns_plan`: the workflows that have a plan;
* `not_returns_plan_dated`: one with a date as parameter has none.
-/

namespace Runbook

namespace Plan

variable [Stack]

/-! ### Steps -/

theorem returns_parameterText (v : Value) :
    Returns (parameterText v) ↔ ¬ v.IsUnprintable ∧ v.depth ≤ Stack.line := by
  unfold parameterText
  split
  · next hdepth => exact (Json.returns_spacedText v).trans (by simp [hdepth])
  · next hdepth => exact iff_of_false (not_returns_error _) fun h => hdepth h.2

theorem returns_stepSection (index : Nat) (s : Step) : Returns (stepSection index s) ↔
    ∀ e ∈ s.parameters, ¬ e.2.IsUnprintable ∧ e.2.depth ≤ Stack.line := by
  refine (returns_bind_ok _).trans (returns_mapM.trans ?_)
  refine forall₂_congr fun e _ => ?_
  exact (returns_bind_ok _).trans (returns_parameterText e.2)

theorem returns_stepSections (index : Nat) (steps : List Step) :
    Returns (stepSections index steps) ↔
      ∀ s ∈ steps, ∀ e ∈ s.parameters, ¬ e.2.IsUnprintable ∧ e.2.depth ≤ Stack.line := by
  induction steps generalizing index with
  | nil => exact iff_of_true (returns_ok _) nofun
  | cons s r ih =>
    rw [List.forall_mem_cons]
    exact returns_bind (returns_stepSection index s) fun first =>
      (returns_bind_ok _).trans (ih (index + 1))

/-! ### Variables -/

theorem returns_shownText (v : Value) :
    Returns (shownText v) ↔ ¬ v.LacksText ∧ v.depth ≤ Stack.shown := by
  unfold shownText
  split
  · next hdepth => exact v.returns_stringify.trans (by simp [hdepth])
  · next hdepth => exact iff_of_false (not_returns_error _) fun h => hdepth h.2

theorem returns_shownValue (supplied : Table String Value) (name : String) (v : Variable) :
    Returns (shownValue supplied name v) ↔
      (∀ given, supplied.get? name = some given → Returns (shownText given)) ∧
        (supplied.get? name = none → ∀ w, v.default = some w → Returns (shownText w)) := by
  unfold shownValue
  cases supplied.get? name with
  | some given => simp
  | none =>
    cases v.default with
    | some w => exact (returns_bind_ok _).trans (by simp)
    | none => exact iff_of_true (returns_ok _) (by simp)

theorem returns_declarationLines (d : Definition) (supplied : Table String Value) :
    Returns (declarationLines d supplied) ↔
      ∀ e ∈ d.declared, Returns (shownValue supplied e.1 e.2) := by
  unfold declarationLines
  cases hd : d.declared with
  | nil => exact iff_of_true (returns_ok _) nofun
  | cons e r =>
    refine (returns_bind_ok _).trans (returns_mapM.trans ?_)
    exact forall₂_congr fun e _ => returns_bind_ok _

end Plan

/-! ### The whole -/

namespace Json

/-- The text of a plan can have all as part that a definition in JSON can hold. -/
theorem not_isUnprintable_of_read [Stack] {cs : List Char} {v : Value}
    (h : read .document cs = .ok v) : ¬ v.IsUnprintable := by
  have hsound : Sound .document fun v => ¬ v.IsUnprintable :=
    { text := fun t => by
        rw [Value.isUnprintable_scalar]
        obtain ⟨s, hs⟩ | ⟨codes, hcodes⟩ := Dialect.exists_scalar .document t
        · simp [hs, Scalar.IsLong, Scalar.IsForeign]
        · simp [hcodes, Scalar.IsLong, Scalar.IsForeign]
      atom := fun {cs r x} hx => by
        rw [Value.isUnprintable_scalar]
        rintro (hlong | hforeign)
        · cases x with
          | int n => exact Nat.not_le.2 (natAbs_lt_of_atom rfl hx) hlong
          | _ => exact hlong
        · exact (isJson_of_atom hx).not_isForeign hforeign
      list := fun h => by simpa [Value.isUnprintable_list] using h
      mapping := fun h => by
        rw [Value.isUnprintable_mapping]
        rintro ⟨e, he, hkey | hvalue⟩
        · obtain ⟨t, ht⟩ := (h e he).1
          rw [ht] at hkey
          obtain ⟨s, hs⟩ | ⟨codes, hcodes⟩ := Dialect.exists_scalar .document t
          · simp [hs, Scalar.IsUnwritableKey, Scalar.IsLong] at hkey
          · simp [hcodes, Scalar.IsUnwritableKey, Scalar.IsLong] at hkey
        · exact (h e he).2 hvalue }
  exact hsound.of_read h

end Json

namespace Definition

theorem exists_document_of_ofText [Stack] {format text : String} {d : Definition}
    (h : ofText format text = .ok d) :
    ∃ v, documentOfText format text = .ok v ∧ ofDocument v = .ok d := by
  unfold ofText at h
  cases hv : documentOfText format text with
  | error e => rw [hv] at h; cases h
  | ok v =>
    rw [hv] at h
    refine ⟨v, rfl, ?_⟩
    change ofSource v = .ok d at h
    unfold ofSource at h
    cases hd : ofDocument v with
    | error p => rw [hd] at h; cases h
    | ok d' => rw [hd] at h; cases h; rfl

/-- **The workflows that have a plan**, for supplied values that have a text, as all scalars do, and
for which the stack has room. Nothing that is refused may be part of a parameter, a default has to
have a text where it is shown, and the stack has to have room for both. This is so for a workflow
from a document that does not nest too deep and has no refused parts, as no document in JSON has. -/
theorem returns_plan [Stack] {supplied : Table String Value}
    (h : ∀ e ∈ supplied, ¬ e.2.LacksText ∧ e.2.depth ≤ Stack.shown) :
    (∀ d : Definition, Returns (d.plan supplied) ↔
      (∀ s ∈ d.steps, ∀ e ∈ s.parameters, ¬ e.2.IsUnprintable ∧ e.2.depth ≤ Stack.line) ∧
        ∀ e ∈ d.declared, supplied.get? e.1 = none → ∀ v, e.2.default = some v →
          ¬ v.LacksText ∧ v.depth ≤ Stack.shown) ∧
    ∀ (format text : String) (d : Definition) (v : Value), documentOfText format text = .ok v →
      ofText format text = .ok d → v.depth ≤ min Stack.line Stack.shown →
      (format = yamlFormat → ¬ v.IsUnprintable) → Returns (d.plan supplied) := by
  have hplan : ∀ d : Definition, Returns (d.plan supplied) ↔
      (∀ s ∈ d.steps, ∀ e ∈ s.parameters, ¬ e.2.IsUnprintable ∧ e.2.depth ≤ Stack.line) ∧
        ∀ e ∈ d.declared, supplied.get? e.1 = none → ∀ v, e.2.default = some v →
          ¬ v.LacksText ∧ v.depth ≤ Stack.shown := by
    intro d
    refine returns_bind (Plan.returns_stepSections 1 d.steps) fun steps =>
      (returns_bind_ok _).trans ((Plan.returns_declarationLines d supplied).trans ?_)
    refine forall₂_congr fun e _ => (Plan.returns_shownValue supplied e.1 e.2).trans ?_
    simp only [Plan.returns_shownText]
    exact and_iff_right fun given hgiven => h _ (Table.mem_of_get? hgiven)
  refine ⟨hplan, fun format text d v hv hd hdepth hyaml => ?_⟩
  obtain ⟨w, hw, hd⟩ := exists_document_of_ofText hd
  cases hv.symm.trans hw
  have hprintable : ¬ v.IsUnprintable := by
    by_cases hformat : format = yamlFormat
    · exact hyaml hformat
    · unfold documentOfText at hv
      rw [if_neg hformat] at hv
      cases hread : Json.read .document text.toList with
      | error stop => rw [hread] at hv; simp only at hv; split at hv <;> cases hv
      | ok w =>
        rw [hread] at hv
        cases hv
        exact Json.not_isUnprintable_of_read hread
  obtain ⟨hparameters, hdefaults⟩ := hasPart_of_ofDocument hd
  obtain ⟨hline, hshown⟩ := Nat.le_min.1 hdepth
  refine (hplan d).2 ⟨fun s hs e he => ?_, fun e he _ w hw => ?_⟩
  · have hpart := hparameters s hs e he
    exact ⟨fun hun => hprintable (.of_hasPart hpart hun), hpart.depth_le.trans hline⟩
  · have hpart := hdefaults e he w hw
    refine ⟨fun hun => ?_, hpart.depth_le.trans hshown⟩
    exact hprintable (.of_hasPart hpart hun.isUnwritable.isUnprintable)

/-- The text of a workflow in JSON. -/
def Sample.inJson : String :=
  "\x7b\"name\": \"wf\", \"description\": \"d\", \"steps\": [\x7b\"id\": \"s\", " ++
    "\"name\": \"n\", \"tool\": \"t\", \"parameters\": \x7b\"p\": [1, null]\x7d\x7d]\x7d"

set_option maxRecDepth 10000 in
/-- With a text and a number supplied, the workflow whose defaults hold dates has a plan, since none
of them is a parameter, and so does a workflow in JSON. -/
theorem returns_plan_sample :
    let supplied : Table String Value := [("day", .str "today"), ("n", .int 7)]
    (∀ e ∈ supplied, ¬ e.2.LacksText ∧ e.2.depth ≤ Stack.shown) ∧
      Returns (Sample.dated.plan supplied) ∧
      ∃ d, ofText "json" Sample.inJson = .ok d ∧ Returns (d.plan supplied) := by
  intro supplied
  have hsupplied : ∀ e ∈ supplied, ¬ e.2.LacksText ∧ e.2.depth ≤ Stack.shown := by
    simp [supplied, Value.LacksText, Value.depth, Scalar.depth]
  have hjson : ((documentOfText "json" Sample.inJson).toOption.any fun v =>
      decide (v.depth ≤ min Stack.line Stack.shown) &&
        (Definition.ofSource v).toOption.isSome) = true := by
    decide +kernel
  obtain ⟨v, hv, hdecided⟩ := exists_ok_of_any hjson
  obtain ⟨hdepth, hsome⟩ := Bool.and_eq_true_iff.1 hdecided
  obtain ⟨d, hd⟩ : ∃ d, Definition.ofSource v = .ok d := by
    cases hd : Definition.ofSource v with
    | error e => rw [hd] at hsome; cases hsome
    | ok d => exact ⟨d, rfl⟩
  have htext : ofText "json" Sample.inJson = .ok d := by
    unfold ofText
    rw [hv]
    exact hd
  obtain ⟨hplan, hfrom⟩ := returns_plan hsupplied
  refine ⟨hsupplied, (hplan Sample.dated).2 ⟨?_, ?_⟩, d, htext,
    hfrom "json" _ d v hv htext (of_decide_eq_true hdepth) fun h => absurd h (by decide)⟩
  · simp [Sample.dated, Value.isUnprintable_scalar, Scalar.IsLong, Scalar.IsForeign, Value.depth,
      Scalar.depth]
  · simp only [Sample.dated, declared, Option.getD_some, List.forall_mem_cons]
    refine ⟨?_, ?_, ?_, by simp⟩ <;> rintro - v ⟨⟩ <;> refine ⟨?_, by decide⟩ <;>
      simp [Value.LacksText, Value.isUnwritable_set, Value.isUnwritable_mapping,
        Value.isUnwritable_scalar, Scalar.IsLong, Scalar.IsUnwritableKey]

/-- The text of a workflow with a date as parameter. -/
def Sample.datedParameter : String :=
  "name: wf\ndescription: A workflow\nsteps:\n" ++
    "- \x7bid: s, name: n, tool: t, parameters: \x7bday: 2024-01-31\x7d\x7d\n"

set_option maxRecDepth 10000 in
/-- **A date as parameter** is accepted, and the workflow has no plan. -/
theorem not_returns_plan_dated :
    ∃ d, ofText yamlFormat Sample.datedParameter = .ok d ∧ ¬ Returns (d.plan []) := by
  have h : ((ofText yamlFormat Sample.datedParameter).toOption.any fun d =>
      !(d.plan []).toBool) = true := by
    decide +kernel
  obtain ⟨d, hd, h⟩ := exists_ok_of_any h
  exact ⟨d, hd, not_returns_of_toBool h⟩

end Definition
end Runbook
