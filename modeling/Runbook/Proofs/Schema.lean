import Runbook.Proofs.Value.Part
import Runbook.Schema.Check

/-!
# What validation promises

What is read as a declaration, a step and a workflow is said by `declaration_eq_ok`, `step_eq_ok`
and `workflow_eq_ok`. A definition that was read from a document has steps with distinct identifiers
(`nodup_of_ofDocument`), and the values that it holds are parts of the document
(`hasPart_of_ofDocument`).
-/

namespace Runbook
namespace Schema

/-! ### Reading parts -/

namespace Checked

variable {α β : Type}

theorem map_ok {f : α → β} {x : Checked α} {b : β} (h : f <$> x = ok b) :
    ∃ a, x = ok a ∧ b = f a := by
  cases x with
  | ok a =>
    cases h
    exact ⟨a, rfl, rfl⟩
  | bad p => cases h

theorem seq_ok {f : Checked (α → β)} {x : Checked α} {b : β} (h : f <*> x = ok b) :
    ∃ g a, f = ok g ∧ x = ok a ∧ b = g a := by
  cases f with
  | ok g =>
    cases x with
    | ok a =>
      cases h
      exact ⟨g, a, rfl, rfl, rfl⟩
    | bad p => cases h
  | bad p => cases x <;> cases h

theorem andThen_ok {x : Checked α} {f : α → Checked β} {b : β} (h : x.andThen f = .ok b) :
    ∃ a, x = .ok a ∧ f a = .ok b := by
  cases x with
  | ok a => exact ⟨a, rfl, h⟩
  | bad p => cases h

theorem within_ok {spot : Spot} {x : Checked α} {a : α} (h : x.within spot = ok a) : x = ok a := by
  cases x with
  | ok a' => exact h
  | bad p => cases h

end Checked

open Checked

section Readers

variable {α : Type} {read : Value → Checked α}

theorem required_ok {entries : List (Scalar × Value)} {name : String} {a : α}
    (h : required entries name read = .ok a) :
    ∃ v, Value.lookup entries name = some v ∧ read v = .ok a := by
  have h := within_ok h
  split at h
  · next v hv => exact ⟨v, hv, h⟩
  · cases h

theorem optional_ok {entries : List (Scalar × Value)} {name : String} {a : α}
    (h : optional entries name read = .ok (some a)) :
    ∃ v, Value.lookup entries name = some v ∧ read v = .ok a := by
  unfold optional at h
  split at h
  · next v hv =>
    obtain ⟨a', ha, h⟩ := map_ok (within_ok h)
    cases h
    exact ⟨v, hv, ha⟩
  · cases h

/-- What is read of a list is read of its members. -/
theorem exists_of_mem_all {β : Type} {read : β → Checked α} {l : List β} {as : List α}
    (h : all read l = .ok as) {a : α} (ha : a ∈ as) : ∃ b ∈ l, read b = .ok a := by
  induction l generalizing as with
  | nil =>
    cases h
    simp at ha
  | cons b r ih =>
    obtain ⟨g, as', hg, has', rfl⟩ := seq_ok h
    obtain ⟨a', ha', rfl⟩ := map_ok hg
    obtain rfl | ha := List.mem_cons.1 ha
    · exact ⟨b, List.mem_cons_self, ha'⟩
    · obtain ⟨b', hb', h'⟩ := ih has' ha
      exact ⟨b', List.mem_cons_of_mem _ hb', h'⟩

theorem exists_of_mem_table {v : Value} {t : Table String α} (h : table read v = .ok t)
    {e : String × α} (he : e ∈ t) :
    ∃ entries, v = .mapping entries ∧ ∃ e' ∈ entries, read e'.2 = .ok e.2 := by
  unfold table at h
  split at h
  · next entries =>
    obtain ⟨l, hl, rfl⟩ := map_ok h
    have he : e ∈ l := by simpa using Table.mem_of_mem_update he
    obtain ⟨e', he', h'⟩ := exists_of_mem_all hl he
    obtain ⟨g, a, hg, ha, rfl⟩ := seq_ok h'
    obtain ⟨k, -, rfl⟩ := map_ok hg
    exact ⟨entries, rfl, e', he', within_ok ha⟩
  · cases h

theorem exists_of_mem_items {n : Nat} {l : List Value} {as : List α}
    (h : items read n l = .ok as) {a : α} (ha : a ∈ as) : ∃ v ∈ l, read v = .ok a := by
  induction l generalizing n as with
  | nil =>
    cases h
    simp at ha
  | cons v r ih =>
    obtain ⟨g, as', hg, has', rfl⟩ := seq_ok h
    obtain ⟨a', ha', rfl⟩ := map_ok hg
    obtain rfl | ha := List.mem_cons.1 ha
    · exact ⟨v, List.mem_cons_self, within_ok ha'⟩
    · obtain ⟨w, hw, h'⟩ := ih has' ha
      exact ⟨w, List.mem_cons_of_mem _ hw, h'⟩

theorem map_eq_of_items {γ : Type} {f : Value → γ} {g : α → γ} {n : Nat} {l : List Value}
    {as : List α} (h : items read n l = .ok as) (hread : ∀ v ∈ l, ∀ a, read v = .ok a → f v = g a) :
    l.map f = as.map g := by
  induction l generalizing n as with
  | nil =>
    cases h
    rfl
  | cons v r ih =>
    obtain ⟨c, as', hc, has', rfl⟩ := seq_ok h
    obtain ⟨a, ha, rfl⟩ := map_ok hc
    rw [List.map_cons, List.map_cons, hread v List.mem_cons_self a (within_ok ha),
      ih has' fun v hv => hread v (List.mem_cons_of_mem _ hv)]

/-- Items are read from a list alone, as long as the value is JSON. -/
theorem someItems_eq_ok {v : Value} (hv : v.IsRawJson) {as : List α} :
    someItems read v = .ok as ↔ ∃ l, v = .list l ∧ l ≠ [] ∧ items read 0 l = .ok as := by
  cases hv with
  | scalar _ => simp [someItems, Checked.complain]
  | mapping _ _ => simp [someItems, Checked.complain]
  | @list l _ => cases l <;> simp [someItems, Checked.complain]

/-- Items are read from parts of the value. -/
theorem items_of_someItems {v : Value} {as : List α} (h : someItems read v = .ok as) :
    ∃ l, (∀ w ∈ l, v.HasPart w) ∧ items read 0 l = .ok as := by
  cases v with
  | list l =>
    cases l with
    | nil => cases h
    | cons v r => exact ⟨v :: r, fun w hw => .item hw (.self w), h⟩
  | set members =>
    cases members with
    | nil => cases h
    | cons s r =>
      refine ⟨(s :: r).map .scalar, fun w hw => ?_, h⟩
      obtain ⟨s', hs', rfl⟩ := List.mem_map.1 hw
      exact .element hs'
  | pair a b =>
    refine ⟨[a, b], ?_, h⟩
    simp only [List.forall_mem_cons, List.not_mem_nil, false_imp_iff, implies_true, and_true]
    exact ⟨.first (.self a), .second (.self b)⟩
  | scalar _ => cases h
  | mapping _ => cases h
  | endless _ => cases h

end Readers

/-! ### Distinct identifiers -/

/-- Without duplicate, the identifiers are distinct and none of them was seen before. -/
theorem nodup_of_go {seen ids : List String} (h : duplicate?.go seen ids = none) :
    ids.Nodup ∧ ∀ id ∈ ids, id ∉ seen := by
  induction ids generalizing seen with
  | nil => simp
  | cons id r ih =>
    rw [duplicate?.go] at h
    split at h
    · simp at h
    · next hid =>
      obtain ⟨hr, hseen⟩ := ih h
      simp only [List.contains_iff_mem] at hid
      refine ⟨List.nodup_cons.2 ⟨fun hmem => hseen id hmem List.mem_cons_self, hr⟩, ?_⟩
      intro id' hid'
      obtain rfl | hid' := List.mem_cons.1 hid'
      · exact hid
      · exact fun hmem => hseen id' hid' (List.mem_cons_of_mem _ hmem)

theorem nodup_of_duplicate? {ids : List String} (h : duplicate? ids = none) : ids.Nodup :=
  (nodup_of_go h).1

/-- Identifiers that are distinct and were not seen before have no duplicate. -/
theorem go_of_nodup {seen ids : List String} (h : ids.Nodup) (hseen : ∀ id ∈ ids, id ∉ seen) :
    duplicate?.go seen ids = none := by
  induction ids generalizing seen with
  | nil => rfl
  | cons id r ih =>
    have hfresh : seen.contains id = false := by simpa using hseen id List.mem_cons_self
    obtain ⟨hid, hr⟩ := List.nodup_cons.1 h
    rw [duplicate?.go, hfresh]
    refine ih hr fun id' hid' => ?_
    rw [List.mem_cons, not_or]
    exact ⟨fun he => hid (he ▸ hid'), hseen id' (List.mem_cons_of_mem _ hid')⟩

theorem distinctSteps_eq_ok {d d' : Definition} :
    distinctSteps d = .ok d' ↔ d = d' ∧ (d.steps.map Step.id).Nodup := by
  unfold distinctSteps
  constructor
  · intro h
    split at h
    · cases h
    · next hd => exact ⟨Checked.ok.inj h, nodup_of_duplicate? hd⟩
  · rintro ⟨rfl, h⟩
    have hnone : duplicate? (d.steps.map Step.id) = none := go_of_nodup h (by simp)
    rw [hnone]

/-! ### Reading the whole -/

section Whole

variable (m : List (Scalar × Value))

/-- How a declared variable is read from its members. -/
structure ReadsVariable (x : Variable) : Prop where
  description : required m "description" text = .ok x.description
  type : required m "type" variableType = .ok x.type
  default : optional m "default" .ok = .ok x.default
  required : optional m "required" boolean = .ok x.required
  only : onlyFields m ["description", "type", "default", "required"] = .ok ()

/-- How a step is read from its members. -/
structure ReadsStep (s : Step) : Prop where
  id : required m "id" (fun v => (someText v).andThen (matching .stepId)) = .ok s.id
  name : required m "name" someText = .ok s.name
  tool : required m "tool" someText = .ok s.tool
  parameters : required m "parameters" (table .ok) = .ok s.parameters
  condition : optional m "condition" (orNull text) = .ok s.condition
  outputMapping : optional m "output_mapping" (table text) = .ok s.outputMapping
  onError : optional m "on_error" policy = .ok s.onError
  only : onlyFields m
    ["id", "name", "tool", "parameters", "condition", "output_mapping", "on_error"] = .ok ()

/-- How a workflow is read from its members. -/
structure ReadsWorkflow (d : Definition) : Prop where
  name : required m "name" (fun v => (someText v).andThen (matching .workflowName)) = .ok d.name
  description : required m "description" someText = .ok d.description
  version : optional m "version" (orNull fun v => (string v).andThen (matching .version)) =
    .ok d.version
  declarations : optional m "variables" (table declaration) = .ok d.declarations
  steps : required m "steps" (someItems step) = .ok d.steps
  only : onlyFields m ["name", "description", "version", "variables", "steps"] = .ok ()
  ids : (d.steps.map Step.id).Nodup

end Whole

theorem declaration_eq_ok {v : Value} {x : Variable} :
    declaration v = .ok x ↔ ∃ m, v = .mapping m ∧ ReadsVariable m x := by
  constructor
  · intro h
    unfold declaration at h
    split at h
    · next m =>
      obtain ⟨_, _, h₁, honly, rfl⟩ := seq_ok h
      obtain ⟨_, required, h₂, hrequired, rfl⟩ := seq_ok h₁
      obtain ⟨_, default, h₃, hdefault, rfl⟩ := seq_ok h₂
      obtain ⟨_, type, h₄, htype, rfl⟩ := seq_ok h₃
      obtain ⟨description, hdescription, rfl⟩ := map_ok h₄
      exact ⟨m, rfl, hdescription, htype, hdefault, hrequired, honly⟩
    · cases h
  · rintro ⟨m, rfl, h⟩
    rw [declaration, h.description, h.type, h.default, h.required, h.only]
    rfl

theorem step_eq_ok {v : Value} {s : Step} :
    step v = .ok s ↔ ∃ m, v = .mapping m ∧ ReadsStep m s := by
  constructor
  · intro h
    unfold step at h
    split at h
    · next m =>
      obtain ⟨_, _, h₁, honly, rfl⟩ := seq_ok h
      obtain ⟨_, onError, h₂, hpolicy, rfl⟩ := seq_ok h₁
      obtain ⟨_, outputMapping, h₃, hmapping, rfl⟩ := seq_ok h₂
      obtain ⟨_, condition, h₄, hcondition, rfl⟩ := seq_ok h₃
      obtain ⟨_, parameters, h₅, hparameters, rfl⟩ := seq_ok h₄
      obtain ⟨_, tool, h₆, htool, rfl⟩ := seq_ok h₅
      obtain ⟨_, name, h₇, hname, rfl⟩ := seq_ok h₆
      obtain ⟨id, hid, rfl⟩ := map_ok h₇
      exact ⟨m, rfl, hid, hname, htool, hparameters, hcondition, hmapping, hpolicy, honly⟩
    · cases h
  · rintro ⟨m, rfl, h⟩
    rw [step, h.id, h.name, h.tool, h.parameters, h.condition, h.outputMapping, h.onError, h.only]
    rfl

theorem workflow_eq_ok {m : List (Scalar × Value)} {d : Definition} :
    workflow m = .ok d ↔ ReadsWorkflow m d := by
  constructor
  · intro h
    obtain ⟨d₀, hd₀, hd⟩ := andThen_ok h
    obtain ⟨rfl, hids⟩ := distinctSteps_eq_ok.1 hd
    obtain ⟨_, _, h₁, honly, rfl⟩ := seq_ok hd₀
    obtain ⟨_, steps, h₂, hsteps, rfl⟩ := seq_ok h₁
    obtain ⟨_, declarations, h₃, hdeclarations, rfl⟩ := seq_ok h₂
    obtain ⟨_, version, h₄, hversion, rfl⟩ := seq_ok h₃
    obtain ⟨_, description, h₅, hdescription, rfl⟩ := seq_ok h₄
    obtain ⟨name, hname, rfl⟩ := map_ok h₅
    exact ⟨hname, hdescription, hversion, hdeclarations, hsteps, honly, hids⟩
  · intro h
    rw [workflow, h.name, h.description, h.version, h.declarations, h.steps, h.only]
    exact distinctSteps_eq_ok.2 ⟨rfl, h.ids⟩

/-! ### The values of a definition -/

/-- The default of a declared variable is part of what the variable was read from. -/
theorem hasPart_of_declaration {v : Value} {var : Variable} (h : declaration v = .ok var)
    {w : Value} (hw : var.default = some w) : v.HasPart w := by
  obtain ⟨m, rfl, hreads⟩ := declaration_eq_ok.1 h
  obtain ⟨u, hu, h'⟩ := optional_ok (hw ▸ hreads.default)
  cases h'
  exact Value.hasPart_of_lookup hu

/-- The parameters of a step are parts of what the step was read from. -/
theorem hasPart_of_step {v : Value} {s : Step} (h : step v = .ok s) :
    ∀ e ∈ s.parameters, v.HasPart e.2 := by
  obtain ⟨m, rfl, hreads⟩ := step_eq_ok.1 h
  obtain ⟨u, hu, h'⟩ := required_ok hreads.parameters
  -- every parameter is a member of the mapping it was read from, as it stands there
  intro e he
  obtain ⟨entries, rfl, e', he', h''⟩ := exists_of_mem_table h' he
  rw [← Checked.ok.inj h'']
  exact (Value.hasPart_of_lookup hu).trans (.member he' (.self _))

/-- The parameters and the defaults of a definition are parts of its document. -/
theorem hasPart_of_workflow {m : List (Scalar × Value)} {d : Definition} (h : workflow m = .ok d) :
    (∀ s ∈ d.steps, ∀ e ∈ s.parameters, (Value.mapping m).HasPart e.2) ∧
      ∀ e ∈ d.declared, ∀ w, e.2.default = some w → (Value.mapping m).HasPart w := by
  have h := workflow_eq_ok.1 h
  constructor
  · intro s hs e he
    obtain ⟨u, hu, hsteps⟩ := required_ok h.steps
    obtain ⟨l, hpart, hl⟩ := items_of_someItems hsteps
    obtain ⟨w, hw, hstep⟩ := exists_of_mem_items hl hs
    exact (Value.hasPart_of_lookup hu).trans ((hpart w hw).trans (hasPart_of_step hstep e he))
  · intro e he w hw
    cases ht : d.declarations with
    | none => simp [Definition.declared, ht] at he
    | some t =>
      rw [Definition.declared, ht, Option.getD_some] at he
      obtain ⟨u, hu, htable⟩ := optional_ok (ht ▸ h.declarations)
      obtain ⟨entries, rfl, e', he', hdecl⟩ := exists_of_mem_table htable he
      exact (Value.hasPart_of_lookup hu).trans (.member he' (hasPart_of_declaration hdecl hw))

end Schema

theorem workflow_of_ofDocument {v : Value} {d : Definition}
    (h : Definition.ofDocument v = .ok d) :
    ∃ m, v = .mapping m ∧ Schema.workflow m = .ok d := by
  unfold Definition.ofDocument at h
  split at h
  · next m =>
    cases hm : Schema.workflow m with
    | bad p => simp [hm, Schema.Checked.toExcept] at h
    | ok d' =>
      rw [hm, Schema.Checked.toExcept, Except.ok.injEq] at h
      exact ⟨m, rfl, by rw [hm, h]⟩
  · cases h

/-- **The steps of a validated definition have distinct identifiers.** -/
theorem nodup_of_ofDocument {v : Value} {d : Definition} (h : Definition.ofDocument v = .ok d) :
    (d.steps.map Step.id).Nodup := by
  obtain ⟨m, rfl, hm⟩ := workflow_of_ofDocument h
  exact (Schema.workflow_eq_ok.1 hm).ids

/-- **The parameters and the defaults of a definition are parts of its document.** -/
theorem hasPart_of_ofDocument {v : Value} {d : Definition} (h : Definition.ofDocument v = .ok d) :
    (∀ s ∈ d.steps, ∀ e ∈ s.parameters, v.HasPart e.2) ∧
      ∀ e ∈ d.declared, ∀ w, e.2.default = some w → v.HasPart w := by
  obtain ⟨m, rfl, hm⟩ := workflow_of_ofDocument h
  exact Schema.hasPart_of_workflow hm

/-- The parameters and the defaults of a definition from a JSON document are JSON. -/
theorem isJson_of_ofDocument {v : Value} {d : Definition} (hv : v.IsJson)
    (h : Definition.ofDocument v = .ok d) :
    (∀ s ∈ d.steps, ∀ e ∈ s.parameters, e.2.IsJson) ∧
      ∀ e ∈ d.declared, ∀ w, e.2.default = some w → w.IsJson := by
  obtain ⟨hparameters, hdefaults⟩ := hasPart_of_ofDocument h
  exact ⟨fun s hs e he => hv.of_hasPart (hparameters s hs e he),
    fun e he w hw => hv.of_hasPart (hdefaults e he w hw)⟩

end Runbook
