import Runbook.Proofs.Schema
import Runbook.Proofs.Value.Plain

/-!
# Documents are read back

The document of a definition is that of its plain form (`document_eq`), and a valid definition is
read back from it (`ofDocument_fields`).
-/

namespace Runbook

open Value (ofFields optionalField ofText?)

/-! ### Plain forms -/

/-- The variable with its default in plain form. -/
def Variable.plain (v : Variable) : Except DumpFault Variable := do
  let default ← v.default.mapM (Value.plain documentLimit)
  return { v with default := default }

/-- The step with its parameters in plain form. -/
def Step.plain (s : Step) : Except DumpFault Step := do
  let parameters ← s.parameters.mapM fun e => (Value.plain documentLimit e.2).map (Prod.mk e.1)
  return { s with parameters := parameters }

/-- The definition with all values in plain form. -/
def Definition.plain (d : Definition) : Except DumpFault Definition := do
  let declarations ← d.declarations.mapM fun t => t.mapM fun e => e.2.plain.map (Prod.mk e.1)
  let steps ← d.steps.mapM Step.plain
  return { d with declarations := declarations, steps := steps }

/-- The fields of a variable, its default as it is. -/
def Variable.fields (v : Variable) : List (String × Value) :=
  [("description", .str v.description), ("type", .str v.type.text)] ++
    optionalField "default" v.default ++ optionalField "required" (v.required.map .bool)

/-- The fields of a step, its parameters as they are. -/
def Step.fields (s : Step) : List (String × Value) :=
  [("id", .str s.id), ("name", .str s.name), ("tool", .str s.tool),
      ("parameters", ofFields s.parameters)] ++
    optionalField "condition" (s.condition.map ofText?) ++
    optionalField "output_mapping"
      (s.outputMapping.map fun t => ofFields (t.map fun e => (e.1, .str e.2))) ++
    optionalField "on_error" (s.onError.map fun p => .str p.text)

/-- The fields of a definition, its values as they are. -/
def Definition.fields (d : Definition) : List (String × Value) :=
  [("name", .str d.name), ("description", .str d.description)] ++
    optionalField "version" (d.version.map ofText?) ++
    optionalField "variables"
      (d.declarations.map fun t => ofFields (t.map fun e => (e.1, ofFields e.2.fields))) ++
    [("steps", .list (d.steps.map fun s => ofFields s.fields))]

/-! ### Documents -/

theorem mapM_map_ok {α β γ ε : Type} {f : α → Except ε β} {g : β → γ} (l : List α) :
    l.mapM (fun a => (f a).map g) = (l.mapM f).map (List.map g) := by
  induction l with
  | nil => rfl
  | cons a r ih =>
    rw [List.mapM_cons, List.mapM_cons, ih]
    cases f a with
    | error e => rfl
    | ok b => cases r.mapM f <;> rfl

theorem Variable.document_eq (v : Variable) :
    v.document = v.plain.map fun v => ofFields v.fields := by
  rw [document, plain]
  cases v.default.mapM (Value.plain documentLimit) <;> rfl

theorem Step.document_eq (s : Step) : s.document = s.plain.map fun s => ofFields s.fields := by
  have hentry : (fun e : String × Value =>
      (do return (e.1, ← Value.plain documentLimit e.2) : Except DumpFault _)) =
        fun e => (Value.plain documentLimit e.2).map (Prod.mk e.1) := by
    funext e
    cases Value.plain documentLimit e.2 <;> rfl
  rw [document, plain, hentry]
  cases s.parameters.mapM fun e : String × Value =>
    (Value.plain documentLimit e.2).map (Prod.mk e.1) <;> rfl

theorem Definition.mapM_document (t : Table String Variable) :
    t.mapM (fun e : String × Variable => (do return (e.1, ← e.2.document) : Except DumpFault _)) =
      (t.mapM fun e : String × Variable => e.2.plain.map (Prod.mk e.1)).map
        (List.map fun e : String × Variable => (e.1, ofFields e.2.fields)) := by
  rw [← mapM_map_ok]
  congr 1
  funext e
  rw [Variable.document_eq]
  cases e.2.plain <;> rfl

/-- **The document of a definition is that of its plain form.** -/
theorem Definition.document_eq (d : Definition) :
    d.document = d.plain.map fun d => ofFields d.fields := by
  have hsteps : d.steps.mapM Step.document =
      (d.steps.mapM Step.plain).map (List.map fun s => ofFields s.fields) := by
    rw [← mapM_map_ok]
    congr 1
    exact funext Step.document_eq
  rw [document, plain, hsteps]
  simp only [mapM_document]
  cases d.declarations with
  | none => cases d.steps.mapM Step.plain <;> rfl
  | some t =>
    simp only [Option.mapM_some]
    cases t.mapM fun e : String × Variable => e.2.plain.map (Prod.mk e.1) with
    | error e => rfl
    | ok t => cases d.steps.mapM Step.plain <;> rfl

/-! ### Members of documents -/

theorem Table.get?_append {κ α : Type} [BEq κ] (t u : Table κ α) (key : κ) :
    get? (t ++ u) key = (get? t key).or (get? u key) := by
  induction t with
  | nil => simp
  | cons e t ih =>
    rw [List.cons_append, get?, get?, ih]
    split <;> rfl

namespace Value

theorem lookup_fields (fields : List (String × Value)) (key : String) :
    lookup (fields.map fun e => (.str e.1, e.2)) key = Table.get? fields key := by
  induction fields with
  | nil => rfl
  | cons e r ih => simp [lookup, Table.get?, ih]

theorem get?_optionalField (name key : String) (v : Option Value) :
    Table.get? (optionalField name v) key = if name = key then v else none := by
  cases v <;> simp [optionalField, Table.get?]

theorem mem_keys_optionalField {name key : String} {v : Option Value}
    (h : key ∈ Table.keys (optionalField name v)) : key = name := by
  cases v <;> simp_all [optionalField, Table.keys]

end Value

namespace Schema

variable {α : Type} {m : List (Scalar × Value)} {name : String} {read : Value → Checked α}

theorem required_of_lookup (read : Value → Checked α) {v : Value} {a : α}
    (h : Value.lookup m name = some v)
    (hread : read v = .ok a) : required m name read = .ok a := by
  rw [required, h]
  exact congrArg (Checked.within (.key name)) hread

theorem optional_of_lookup (read : Value → Checked α) {o : Option α} {f : α → Value}
    (h : Value.lookup m name = o.map f) (hread : ∀ a ∈ o, read (f a) = .ok a) :
    optional m name read = .ok o := by
  cases o with
  | none => simp [optional, h]
  | some a =>
    have hread := hread a rfl
    simp only [optional, h, Option.map_some, hread]
    rfl

theorem onlyFields_of_keys {fields : List (String × Value)} {names : List String}
    (h : ∀ key ∈ Table.keys fields, key ∈ names) :
    onlyFields (fields.map fun e => (.str e.1, e.2)) names = .ok () := by
  have hnone : (fields.map fun e => ((.str e.1, e.2) : Scalar × Value)).filterMap
      (fun e => strayProblem? names e.1) = [] := by
    refine List.filterMap_eq_nil_iff.2 fun e he => ?_
    obtain ⟨e', he', rfl⟩ := List.mem_map.1 he
    have hmem := h e'.1 (List.mem_map_of_mem he')
    simp [strayProblem?, hmem]
  rw [onlyFields, hnone]

/-- A table is read back from its entries. -/
theorem table_of_entries {t : Table String α} {f : α → Value} (hkeys : t.keys.Nodup)
    (hread : ∀ e ∈ t, read (f e.2) = .ok e.2) :
    table read (Value.ofFields (t.map fun e => (e.1, f e.2))) = .ok t := by
  have hall : all (entry read) ((t.map fun e => (e.1, f e.2)).map fun e => (.str e.1, e.2)) =
      .ok t := by
    clear hkeys
    induction t with
    | nil => rfl
    | cons e r ih =>
      have hentry : entry read (.str e.1, f e.2) = .ok e := by
        rw [entry, hread e List.mem_cons_self]
        rfl
      rw [List.map_cons, List.map_cons, all, ih fun e he => hread e (List.mem_cons_of_mem _ he)]
      dsimp only
      rw [hentry]
      rfl
  rw [Value.ofFields, table, hall]
  exact congrArg Checked.ok (Table.ofEntries_of_nodup hkeys)

theorem items_of_forall {f : α → Value} {l : List α} (hread : ∀ a ∈ l, read (f a) = .ok a)
    (n : Nat) : items read n (l.map f) = .ok l := by
  induction l generalizing n with
  | nil => rfl
  | cons a r ih =>
    rw [List.map_cons, items, hread a List.mem_cons_self,
      ih (fun b hb => hread b (List.mem_cons_of_mem _ hb))]
    rfl

theorem someItems_of_forall {f : α → Value} {l : List α} (hne : l ≠ [])
    (hread : ∀ a ∈ l, read (f a) = .ok a) : someItems read (.list (l.map f)) = .ok l := by
  obtain ⟨a, r, rfl⟩ := List.exists_cons_of_ne_nil hne
  exact items_of_forall hread 0

/-! ### Parts of definitions -/

theorem get?_variable (v : Variable) :
    Table.get? v.fields "description" = some (.str v.description) ∧
      Table.get? v.fields "type" = some (.str v.type.text) ∧
      Table.get? v.fields "default" = v.default ∧
      Table.get? v.fields "required" = v.required.map .bool := by
  simp [Variable.fields, Table.get?_append, Value.get?_optionalField, Table.get?]

theorem get?_step (s : Step) :
    Table.get? s.fields "id" = some (.str s.id) ∧
      Table.get? s.fields "name" = some (.str s.name) ∧
      Table.get? s.fields "tool" = some (.str s.tool) ∧
      Table.get? s.fields "parameters" = some (.ofFields s.parameters) ∧
      Table.get? s.fields "condition" = s.condition.map .ofText? ∧
      Table.get? s.fields "output_mapping" =
        s.outputMapping.map (fun t => .ofFields (t.map fun e => (e.1, .str e.2))) ∧
      Table.get? s.fields "on_error" = s.onError.map fun p => .str p.text := by
  simp [Step.fields, Table.get?_append, Value.get?_optionalField, Table.get?]

theorem get?_definition (d : Definition) :
    Table.get? d.fields "name" = some (.str d.name) ∧
      Table.get? d.fields "description" = some (.str d.description) ∧
      Table.get? d.fields "version" = d.version.map .ofText? ∧
      Table.get? d.fields "variables" =
        d.declarations.map (fun t => .ofFields (t.map fun e => (e.1, .ofFields e.2.fields))) ∧
      Table.get? d.fields "steps" = some (.list (d.steps.map fun s => .ofFields s.fields)) := by
  simp [Definition.fields, Table.get?_append, Value.get?_optionalField, Table.get?]

theorem keys_append (t u : Table String Value) : (t ++ u).keys = t.keys ++ u.keys := by
  simp [Table.keys]

theorem mem_keys_variable {v : Variable} {key : String} (h : key ∈ Table.keys v.fields) :
    key ∈ ["description", "type", "default", "required"] := by
  simp only [Variable.fields, keys_append, List.mem_append] at h
  obtain (h | h) | h := h
  · exact List.mem_append_left ["default", "required"] h
  · rw [Value.mem_keys_optionalField h]
    decide
  · rw [Value.mem_keys_optionalField h]
    decide

theorem mem_keys_step {s : Step} {key : String} (h : key ∈ Table.keys s.fields) :
    key ∈ ["id", "name", "tool", "parameters", "condition", "output_mapping", "on_error"] := by
  simp only [Step.fields, keys_append, List.mem_append] at h
  obtain ((h | h) | h) | h := h
  · exact List.mem_append_left ["condition", "output_mapping", "on_error"] h
  · rw [Value.mem_keys_optionalField h]
    decide
  · rw [Value.mem_keys_optionalField h]
    decide
  · rw [Value.mem_keys_optionalField h]
    decide

theorem mem_keys_definition {d : Definition} {key : String} (h : key ∈ Table.keys d.fields) :
    key ∈ ["name", "description", "version", "variables", "steps"] := by
  simp only [Definition.fields, keys_append, List.mem_append] at h
  obtain ((h | h) | h) | h := h
  · exact List.mem_append_left ["version", "variables", "steps"] h
  · rw [Value.mem_keys_optionalField h]
    decide
  · rw [Value.mem_keys_optionalField h]
    decide
  · have hkey : key = "steps" := List.mem_singleton.1 h
    rw [hkey]
    decide

/-! ### Reading parts back -/

theorem text_str (s : String) : text (.str s) = .ok s := rfl

theorem variableType_text (t : VariableType) : variableType (.str t.text) = .ok t := by
  cases t <;> rfl

theorem policy_text (p : Policy) : policy (.str p.text) = .ok p := by
  cases p <;> rfl

theorem someText_str {s : String} (h : s ≠ "") : someText (.str s) = .ok s := by
  have hempty : s.isEmpty = false := by simpa using h
  simp [someText, string, text_str, Checked.andThen, hempty]

theorem orNull_ofText? {read : Value → Checked String} {o : Option String}
    (h : ∀ s ∈ o, read (.str s) = .ok s) : orNull read (.ofText? o) = .ok o := by
  cases o with
  | none => rfl
  | some s =>
    show some <$> read (.str s) = _
    rw [h s rfl]
    rfl

/-- A declaration is read back. -/
theorem declaration_fields (v : Variable) : declaration (.ofFields v.fields) = .ok v := by
  obtain ⟨hdescription, htype, hdefault, hrequired⟩ := get?_variable v
  rw [← Value.lookup_fields] at hdescription htype hdefault hrequired
  have hdescription := required_of_lookup text hdescription (text_str v.description)
  have htype := required_of_lookup variableType htype (variableType_text v.type)
  have hdefault := optional_of_lookup .ok (hdefault.trans (congrFun Option.map_id v.default).symm)
    fun _ _ => rfl
  have hrequired := optional_of_lookup boolean hrequired fun _ _ => rfl
  have honly := onlyFields_of_keys fun _ => mem_keys_variable (v := v)
  exact declaration_eq_ok.2 ⟨_, rfl, hdescription, htype, hdefault, hrequired, honly⟩

end Schema

/-! ### Valid definitions -/

/-- What a step promises. -/
structure Step.Valid (s : Step) : Prop where
  id : Schema.Pattern.stepId.matches s.id.toList
  name : s.name ≠ ""
  tool : s.tool ≠ ""
  parameters : s.parameters.keys.Nodup
  outputMapping : ∀ t ∈ s.outputMapping, t.keys.Nodup

/-- What a definition promises. -/
structure Definition.Valid (d : Definition) : Prop where
  name : Schema.Pattern.workflowName.matches d.name.toList
  description : d.description ≠ ""
  version : ∀ o ∈ d.version, ∀ s ∈ o, Schema.Pattern.version.matches s.toList
  declarations : ∀ t ∈ d.declarations, t.keys.Nodup
  steps_ne : d.steps ≠ []
  steps : ∀ s ∈ d.steps, s.Valid
  ids : (d.steps.map Step.id).Nodup

namespace Schema

theorem someText_ok {v : Value} {s : String} (h : someText v = .ok s) : s ≠ "" := by
  obtain ⟨s', -, h⟩ := Checked.andThen_ok h
  split at h
  · cases h
  · next hempty =>
    cases h
    simpa using hempty

theorem matching_ok {v : Value} {pattern : Pattern} {s : String} {read : Value → Checked String}
    (h : (read v).andThen (matching pattern) = .ok s) : pattern.matches s.toList := by
  obtain ⟨s', -, h⟩ := Checked.andThen_ok h
  unfold matching at h
  split at h
  · next hmatches =>
    cases h
    exact hmatches
  · cases h

theorem nodup_of_table {α : Type} {read : Value → Checked α} {v : Value} {t : Table String α}
    (h : table read v = .ok t) : t.keys.Nodup := by
  unfold table at h
  split at h
  · obtain ⟨l, -, rfl⟩ := Checked.map_ok h
    exact Table.nodup_keys_ofEntries l
  · cases h

/-- What is read as a step is valid. -/
theorem valid_of_step {v : Value} {s : Step} (h : step v = .ok s) : s.Valid := by
  obtain ⟨m, rfl, hreads⟩ := step_eq_ok.1 h
  obtain ⟨_, -, hid⟩ := required_ok hreads.id
  obtain ⟨_, -, hname⟩ := required_ok hreads.name
  obtain ⟨_, -, htool⟩ := required_ok hreads.tool
  obtain ⟨_, -, hparameters⟩ := required_ok hreads.parameters
  refine ⟨matching_ok hid, someText_ok hname, someText_ok htool, nodup_of_table hparameters, ?_⟩
  intro t ht
  obtain ⟨_, -, hmapping⟩ := optional_ok (ht ▸ hreads.outputMapping)
  exact nodup_of_table hmapping

theorem exists_items {α : Type} {read : Value → Checked α} {v : Value} {as : List α}
    (h : someItems read v = .ok as) : ∃ l, l ≠ [] ∧ items read 0 l = .ok as := by
  unfold someItems at h
  dsimp only at h
  split at h
  · cases h
  · cases h
  · next l hne _ => exact ⟨l, fun he => hne (he ▸ rfl), h⟩

/-- What is read as steps is at least one, and all are valid. -/
theorem valid_of_someItems {v : Value} {ss : List Step} (h : someItems step v = .ok ss) :
    ss ≠ [] ∧ ∀ s ∈ ss, s.Valid := by
  obtain ⟨l, hne, hl⟩ := exists_items h
  constructor
  · rintro rfl
    obtain ⟨w, r, rfl⟩ := List.exists_cons_of_ne_nil hne
    obtain ⟨g, as, hg, -, he⟩ := Checked.seq_ok hl
    obtain ⟨a, -, rfl⟩ := Checked.map_ok hg
    cases he
  · intro s hs
    obtain ⟨w, -, hw⟩ := exists_of_mem_items hl hs
    exact valid_of_step hw

theorem matching_of_orNull {v : Value} {pattern : Pattern} {read : Value → Checked String}
    {s : String} (h : orNull (fun v => (read v).andThen (matching pattern)) v = .ok (some s)) :
    pattern.matches s.toList := by
  unfold orNull at h
  split at h
  · cases h
  · obtain ⟨s', hs', he⟩ := Checked.map_ok h
    cases he
    exact matching_ok hs'

end Schema

/-- **What is read from a document is valid.** -/
theorem Definition.valid_of_ofDocument {v : Value} {d : Definition} (h : ofDocument v = .ok d) :
    d.Valid := by
  obtain ⟨m, rfl, hm⟩ := workflow_of_ofDocument h
  have hreads := Schema.workflow_eq_ok.1 hm
  obtain ⟨_, -, hname⟩ := Schema.required_ok hreads.name
  obtain ⟨_, -, hdescription⟩ := Schema.required_ok hreads.description
  obtain ⟨_, -, hsteps⟩ := Schema.required_ok hreads.steps
  obtain ⟨hne, hvalid⟩ := Schema.valid_of_someItems hsteps
  refine ⟨Schema.matching_ok hname, Schema.someText_ok hdescription, ?_, ?_, hne, hvalid,
    hreads.ids⟩
  · rintro o ho s rfl
    obtain ⟨v, -, hv⟩ := Schema.optional_ok (ho ▸ hreads.version)
    exact Schema.matching_of_orNull hv
  · intro t ht
    obtain ⟨_, -, htable⟩ := Schema.optional_ok (ht ▸ hreads.declarations)
    exact Schema.nodup_of_table htable

namespace Schema

/-- A valid step is read back. -/
theorem step_fields {s : Step} (h : s.Valid) : step (.ofFields s.fields) = .ok s := by
  obtain ⟨hid, hname, htool, hparameters, hcondition, hmapping, hpolicy⟩ := get?_step s
  rw [← Value.lookup_fields] at hid hname htool hparameters hcondition hmapping hpolicy
  have hne : s.id ≠ "" := by
    rintro he
    have hid := h.id
    rw [he] at hid
    cases hid
  have hmatches : (someText (.str s.id)).andThen (matching .stepId) = .ok s.id := by
    rw [someText_str hne]
    exact if_pos h.id
  have hid := required_of_lookup (fun v => (someText v).andThen (matching .stepId)) hid hmatches
  have hname := required_of_lookup someText hname (someText_str h.name)
  have htool := required_of_lookup someText htool (someText_str h.tool)
  have htable : table .ok (Value.ofFields s.parameters) = .ok s.parameters := by
    simpa using table_of_entries (f := id) h.parameters fun _ _ => rfl
  have hparameters := required_of_lookup (table .ok) hparameters htable
  have hcondition := optional_of_lookup (orNull text) hcondition fun o _ =>
    orNull_ofText? fun s _ => text_str s
  have hmapping := optional_of_lookup (table text) hmapping fun t ht =>
    table_of_entries (h.outputMapping t ht) fun e _ => text_str e.2
  have hpolicy := optional_of_lookup policy hpolicy fun p _ => policy_text p
  have honly := onlyFields_of_keys fun _ => mem_keys_step (s := s)
  exact step_eq_ok.2
    ⟨_, rfl, hid, hname, htool, hparameters, hcondition, hmapping, hpolicy, honly⟩

/-- A valid definition is read back. -/
theorem workflow_fields {d : Definition} (h : d.Valid) :
    workflow (d.fields.map fun e => (.str e.1, e.2)) = .ok d := by
  obtain ⟨hname, hdescription, hversion, hdeclarations, hsteps⟩ := get?_definition d
  rw [← Value.lookup_fields] at hname hdescription hversion hdeclarations hsteps
  have hne : d.name ≠ "" := by
    intro he
    have hname := h.name
    rw [he] at hname
    cases hname
  have hmatches : (someText (.str d.name)).andThen (matching .workflowName) = .ok d.name := by
    rw [someText_str hne]
    exact if_pos h.name
  have hname := required_of_lookup (fun v => (someText v).andThen (matching .workflowName)) hname
    hmatches
  have hdescription := required_of_lookup someText hdescription (someText_str h.description)
  have hversion := optional_of_lookup (orNull fun v => (string v).andThen (matching .version))
    hversion fun o ho => orNull_ofText? fun s hs => if_pos (h.version o ho s hs)
  have hdeclarations := optional_of_lookup (table declaration) hdeclarations fun t ht =>
    table_of_entries (f := fun v => .ofFields v.fields) (h.declarations t ht) fun e _ =>
      declaration_fields e.2
  have hsteps := required_of_lookup (someItems step) hsteps
    (someItems_of_forall h.steps_ne fun s hs => step_fields (h.steps s hs))
  have honly := onlyFields_of_keys fun _ => mem_keys_definition (d := d)
  exact workflow_eq_ok.2 ⟨hname, hdescription, hversion, hdeclarations, hsteps, honly, h.ids⟩

end Schema

/-- **A valid definition is read back from its document.** -/
theorem Definition.ofDocument_fields {d : Definition} (h : d.Valid) :
    ofDocument (ofFields d.fields) = .ok d := by
  rw [ofFields, ofDocument, Schema.workflow_fields h]
  rfl

/-! ### Definitions in plain form -/

section Entries

variable {α β ε : Type} {f : α → Except ε β} {t : Table String α} {t' : Table String β}

theorem keys_of_mapM (h : t.mapM (fun e : String × α => (f e.2).map (Prod.mk e.1)) = .ok t') :
    t'.keys = t.keys := by
  induction t generalizing t' with
  | nil =>
    obtain rfl := Except.ok.inj h
    rfl
  | cons e r ih =>
    obtain ⟨e', r', he, hr, rfl⟩ := mapM_cons_eq_ok h
    obtain ⟨b, -, rfl⟩ := map_eq_ok he
    have ih := ih hr
    simp only [Table.keys] at ih ⊢
    simp [ih]

theorem exists_of_mem_entries
    (h : t.mapM (fun e : String × α => (f e.2).map (Prod.mk e.1)) = .ok t') {e' : String × β}
    (he' : e' ∈ t') : ∃ e ∈ t, f e.2 = .ok e'.2 := by
  obtain ⟨e, he, hf⟩ := exists_of_mem_mapM h he'
  obtain ⟨b, hb, rfl⟩ := map_eq_ok hf
  exact ⟨e, he, hb⟩

end Entries

theorem mapM_entries_eq_ok_iff {α ε : Type} {f : α → Except ε α} {p : α → Prop}
    {t t' : Table String α} (h : ∀ e ∈ t, ∀ a, f e.2 = .ok a ↔ a = e.2 ∧ p e.2) :
    t.mapM (fun e => (f e.2).map (Prod.mk e.1)) = .ok t' ↔ t' = t ∧ ∀ e ∈ t, p e.2 := by
  refine mapM_eq_ok_iff fun e he e' => ?_
  simp only [map_eq_ok_iff, h e he]
  constructor
  · rintro ⟨_, ⟨rfl, hp⟩, rfl⟩
    exact ⟨rfl, hp⟩
  · rintro ⟨rfl, hp⟩
    exact ⟨e'.2, ⟨rfl, hp⟩, rfl⟩

theorem mapM_option_eq_ok_iff {α ε : Type} {f : α → Except ε α} {p : α → Prop} {o o' : Option α}
    (h : ∀ a ∈ o, ∀ b, f a = .ok b ↔ b = a ∧ p a) :
    o.mapM f = .ok o' ↔ o' = o ∧ ∀ a ∈ o, p a := by
  cases o with
  | none => simp [pure, Except.pure, eq_comm]
  | some a =>
    rw [Option.mapM_some]
    change (f a).map some = .ok o' ↔ _
    simp only [map_eq_ok_iff, h a rfl]
    constructor
    · rintro ⟨_, ⟨rfl, hp⟩, rfl⟩
      exact ⟨rfl, fun _ ha => Option.some.inj ha ▸ hp⟩
    · rintro ⟨rfl, hp⟩
      exact ⟨a, ⟨rfl, hp a rfl⟩, rfl⟩

namespace Definition

/-- Whether all values of a definition, its parameters and its defaults, have a property. -/
structure HasAll (d : Definition) (p : Value → Prop) : Prop where
  parameters : ∀ s ∈ d.steps, ∀ e ∈ s.parameters, p e.2
  defaults : ∀ t ∈ d.declarations, ∀ e ∈ t, ∀ v ∈ e.2.default, p v

theorem HasAll.imp {d : Definition} {p q : Value → Prop} (h : d.HasAll p) (hpq : ∀ v, p v → q v) :
    d.HasAll q where
  parameters s hs e he := hpq _ (h.parameters s hs e he)
  defaults t ht e he v hv := hpq v (h.defaults t ht e he v hv)

/-- All values of a definition are made of JSON values. -/
abbrev IsPlain (d : Definition) : Prop := d.HasAll fun v => v.isPlain

/-- All values of a definition can be plain forms, were it not for their levels. -/
abbrev IsForm (d : Definition) : Prop := d.HasAll Value.IsForm

/-- No value of a definition has more levels than it may have in a document. -/
abbrev IsShallow (d : Definition) : Prop := d.HasAll fun v => v.levels ≤ documentLimit

theorem IsPlain.isForm {d : Definition} (h : d.IsPlain) : d.IsForm :=
  h.imp fun _ => Value.isForm_of_isPlain

end Definition

theorem Variable.isForm_of_plain {v v' : Variable} (h : v.plain = .ok v') :
    ∀ w ∈ v'.default, w.IsForm ∧ w.levels ≤ documentLimit := by
  obtain ⟨default, hdefault, h⟩ := bind_eq_ok h
  obtain rfl := Except.ok.inj h
  rintro w rfl
  cases hv : v.default with
  | none =>
    rw [hv] at hdefault
    cases hdefault
  | some u =>
    rw [hv] at hdefault
    obtain ⟨w', hw, he⟩ := map_eq_ok hdefault
    obtain rfl := Option.some.inj he
    exact Value.isForm_plain hw

theorem Variable.plain_iff {v v' : Variable} (h : ∀ w ∈ v.default, w.IsForm) :
    v.plain = .ok v' ↔ v' = v ∧ ∀ w ∈ v.default, w.levels ≤ documentLimit := by
  rw [plain, bind_eq_ok_iff]
  simp only [mapM_option_eq_ok_iff fun w hw _ => Value.plain_iff (h w hw)]
  constructor
  · rintro ⟨_, ⟨rfl, hlevels⟩, he⟩
    exact ⟨(Except.ok.inj he).symm, hlevels⟩
  · rintro ⟨rfl, hlevels⟩
    exact ⟨_, ⟨rfl, hlevels⟩, rfl⟩

theorem Step.plain_ok {s s' : Step} (h : s.plain = .ok s') :
    (∀ e ∈ s'.parameters, e.2.IsForm ∧ e.2.levels ≤ documentLimit) ∧ s'.id = s.id ∧
      (s.Valid → s'.Valid) := by
  obtain ⟨parameters, hparameters, he⟩ := bind_eq_ok h
  obtain rfl := Except.ok.inj he
  refine ⟨fun e he => ?_, rfl, fun hs => ?_⟩
  · obtain ⟨e', -, hv⟩ := exists_of_mem_entries hparameters he
    exact Value.isForm_plain hv
  · exact ⟨hs.id, hs.name, hs.tool, by rw [keys_of_mapM hparameters]; exact hs.parameters,
      hs.outputMapping⟩

theorem Step.plain_iff {s s' : Step} (h : ∀ e ∈ s.parameters, e.2.IsForm) :
    s.plain = .ok s' ↔ s' = s ∧ ∀ e ∈ s.parameters, e.2.levels ≤ documentLimit := by
  rw [plain, bind_eq_ok_iff]
  simp only [mapM_entries_eq_ok_iff (p := fun v => v.levels ≤ documentLimit)
    fun e he _ => Value.plain_iff (h e he)]
  constructor
  · rintro ⟨_, ⟨rfl, hlevels⟩, he⟩
    exact ⟨(Except.ok.inj he).symm, hlevels⟩
  · rintro ⟨rfl, hlevels⟩
    exact ⟨_, ⟨rfl, hlevels⟩, rfl⟩

theorem ids_of_mapM {ss ss' : List Step} (h : ss.mapM Step.plain = .ok ss') :
    ss'.map Step.id = ss.map Step.id := by
  induction ss generalizing ss' with
  | nil =>
    obtain rfl := Except.ok.inj h
    rfl
  | cons s r ih =>
    obtain ⟨s', r', hs, hr, rfl⟩ := mapM_cons_eq_ok h
    rw [List.map_cons, List.map_cons, ih hr, (Step.plain_ok hs).2.1]

namespace Definition

variable {d d' : Definition}

theorem exists_declarations {t' : Table String Variable} (h : d.declarations.mapM
      (fun t => t.mapM fun e : String × Variable => e.2.plain.map (Prod.mk e.1)) =
        .ok (some t')) :
    ∃ t, d.declarations = some t ∧
      t.mapM (fun e : String × Variable => e.2.plain.map (Prod.mk e.1)) = .ok t' := by
  cases ht : d.declarations with
  | none =>
    rw [ht] at h
    cases h
  | some t =>
    rw [ht] at h
    obtain ⟨u, hu, he⟩ := map_eq_ok h
    exact ⟨t, rfl, Option.some.inj he ▸ hu⟩

/-- The values of a plain form are plain forms, and have no more levels than they may. -/
theorem isForm_of_plain (h : d.plain = .ok d') : d'.IsForm ∧ d'.IsShallow := by
  obtain ⟨declarations, hdeclarations, h⟩ := bind_eq_ok h
  obtain ⟨steps, hsteps, h⟩ := bind_eq_ok h
  obtain rfl := Except.ok.inj h
  have hvalues : HasAll ⟨d.name, d.description, d.version, declarations, steps⟩
      fun v => v.IsForm ∧ v.levels ≤ documentLimit := by
    constructor
    · intro s' hs'
      obtain ⟨s, -, hs⟩ := exists_of_mem_mapM hsteps hs'
      exact (Step.plain_ok hs).1
    · rintro t' rfl e he
      obtain ⟨t, -, ht⟩ := exists_declarations hdeclarations
      obtain ⟨e', -, hv⟩ := exists_of_mem_entries ht he
      exact Variable.isForm_of_plain hv
  exact ⟨hvalues.imp fun _ => And.left, hvalues.imp fun _ => And.right⟩

/-- A plain form is valid if the definition is. -/
theorem valid_of_plain (h : d.plain = .ok d') : d'.name = d.name ∧ (d.Valid → d'.Valid) := by
  obtain ⟨declarations, hdeclarations, h⟩ := bind_eq_ok h
  obtain ⟨steps, hsteps, h⟩ := bind_eq_ok h
  obtain rfl := Except.ok.inj h
  refine ⟨rfl, fun hd => ?_⟩
  have hids : steps.map Step.id = d.steps.map Step.id := ids_of_mapM hsteps
  refine ⟨hd.name, hd.description, hd.version, ?_, ?_, fun s' hs' => ?_, hids ▸ hd.ids⟩
  · rintro t' rfl
    obtain ⟨t, ht, hmap⟩ := exists_declarations hdeclarations
    rw [keys_of_mapM hmap]
    exact hd.declarations t ht
  · rintro rfl
    exact hd.steps_ne (List.map_eq_nil_iff.1 hids.symm)
  · obtain ⟨s, hs, hplain⟩ := exists_of_mem_mapM hsteps hs'
    exact (Step.plain_ok hplain).2.2 (hd.steps s hs)

/-- **A definition of plain forms is its own**, and has no other. It has one exactly if none of its
values has more levels than it may have. -/
theorem plain_iff (h : d.IsForm) : d.plain = .ok d' ↔ d' = d ∧ d.IsShallow := by
  have hdeclarations : ∀ o, d.declarations.mapM
      (fun t => t.mapM fun e : String × Variable => e.2.plain.map (Prod.mk e.1)) = .ok o ↔
        o = d.declarations ∧ ∀ t ∈ d.declarations, ∀ e ∈ t, ∀ v ∈ e.2.default,
          v.levels ≤ documentLimit := by
    intro o
    refine mapM_option_eq_ok_iff fun t ht t' => ?_
    exact mapM_entries_eq_ok_iff
      (p := fun v : Variable => ∀ w ∈ v.default, w.levels ≤ documentLimit)
      fun e he _ => Variable.plain_iff (h.defaults t ht e he)
  have hsteps : ∀ l, d.steps.mapM Step.plain = .ok l ↔
      l = d.steps ∧ ∀ s ∈ d.steps, ∀ e ∈ s.parameters, e.2.levels ≤ documentLimit :=
    fun l => mapM_eq_ok_iff fun s hs _ => Step.plain_iff (h.parameters s hs)
  rw [plain]
  simp only [bind_eq_ok_iff, hdeclarations, hsteps]
  constructor
  · rintro ⟨_, ⟨rfl, hdefaults⟩, _, ⟨rfl, hparameters⟩, he⟩
    exact ⟨(Except.ok.inj he).symm, hparameters, hdefaults⟩
  · rintro ⟨rfl, hparameters, hdefaults⟩
    exact ⟨_, ⟨rfl, hdefaults⟩, _, ⟨rfl, hparameters⟩, rfl⟩

end Definition

/-! ### The values of fields -/

theorem Value.forall_optionalField {P : Value → Prop} {name : String} {v : Option Value}
    (h : ∀ w ∈ v, P w) : ∀ e ∈ optionalField name v, P e.2 := by
  cases v with
  | none => simp [optionalField]
  | some w => simpa [optionalField] using h

section Fields

variable {P : Value → Prop} (hscalar : ∀ s : Scalar, s.isPlain → P (.scalar s))
include hscalar

theorem Value.forall_ofText? (o : Option String) : P (ofText? o) := by
  cases o with
  | none => exact hscalar _ rfl
  | some s => exact hscalar (.str s) rfl

/-- What holds of scalars and the default holds of all fields of a variable. -/
theorem Variable.forall_fields {v : Variable} (h : ∀ w ∈ v.default, P w) :
    ∀ e ∈ v.fields, P e.2 := by
  intro e he
  simp only [fields, List.mem_append] at he
  obtain (he | he) | he := he
  · simp only [List.mem_cons, List.not_mem_nil, or_false] at he
    obtain rfl | rfl := he <;> exact hscalar (.str _) rfl
  · exact Value.forall_optionalField h e he
  · refine Value.forall_optionalField (fun w hw => ?_) e he
    obtain ⟨b, -, rfl⟩ := Option.map_eq_some_iff.1 hw
    exact hscalar (.bool b) rfl

/-- What holds of scalars, the parameters and the mapping holds of all fields of a step. -/
theorem Step.forall_fields {s : Step} (hparameters : P (ofFields s.parameters))
    (hmapping : ∀ t ∈ s.outputMapping, P (ofFields (t.map fun e => (e.1, .scalar (.str e.2))))) :
    ∀ e ∈ s.fields, P e.2 := by
  intro e he
  simp only [fields, List.mem_append] at he
  obtain ((he | he) | he) | he := he
  · simp only [List.mem_cons, List.not_mem_nil, or_false] at he
    obtain rfl | rfl | rfl | rfl := he
    · exact hscalar (.str _) rfl
    · exact hscalar (.str _) rfl
    · exact hscalar (.str _) rfl
    · exact hparameters
  · refine Value.forall_optionalField (fun w hw => ?_) e he
    obtain ⟨o, -, rfl⟩ := Option.map_eq_some_iff.1 hw
    exact Value.forall_ofText? hscalar o
  · refine Value.forall_optionalField (fun w hw => ?_) e he
    obtain ⟨t, ht, rfl⟩ := Option.map_eq_some_iff.1 hw
    exact hmapping t ht
  · refine Value.forall_optionalField (fun w hw => ?_) e he
    obtain ⟨p, -, rfl⟩ := Option.map_eq_some_iff.1 hw
    exact hscalar (.str _) rfl

/-- What holds of scalars, the declarations and the steps holds of all fields of a definition. -/
theorem Definition.forall_fields {d : Definition}
    (hdeclarations : ∀ t ∈ d.declarations, P (ofFields (t.map fun e => (e.1, ofFields e.2.fields))))
    (hsteps : P (.list (d.steps.map fun s => ofFields s.fields))) : ∀ e ∈ d.fields, P e.2 := by
  intro e he
  simp only [fields, List.mem_append] at he
  obtain ((he | he) | he) | he := he
  · simp only [List.mem_cons, List.not_mem_nil, or_false] at he
    obtain rfl | rfl := he <;> exact hscalar (.str _) rfl
  · refine Value.forall_optionalField (fun w hw => ?_) e he
    obtain ⟨o, -, rfl⟩ := Option.map_eq_some_iff.1 hw
    exact Value.forall_ofText? hscalar o
  · refine Value.forall_optionalField (fun w hw => ?_) e he
    obtain ⟨t, ht, rfl⟩ := Option.map_eq_some_iff.1 hw
    exact hdeclarations t ht
  · obtain rfl := List.mem_singleton.1 he
    exact hsteps

end Fields

/-! ### Fields of plain forms -/

theorem Variable.isForm_fields {v : Variable} (h : ∀ w ∈ v.default, w.IsForm) :
    (ofFields v.fields).IsForm := by
  refine .fields ?_ (forall_fields (P := Value.IsForm)
    (fun _ hs => .scalar (Scalar.isForm_of_isPlain hs)) h)
  cases hdefault : v.default <;> cases hrequired : v.required <;>
    simp [fields, hdefault, hrequired, optionalField, Table.keys]

theorem Step.isForm_fields {s : Step} (hs : s.Valid) (h : ∀ e ∈ s.parameters, e.2.IsForm) :
    (ofFields s.fields).IsForm := by
  refine .fields ?_ (forall_fields (P := Value.IsForm)
    (fun _ hs => .scalar (Scalar.isForm_of_isPlain hs))
    (.fields hs.parameters h) fun t ht => .fields ?_ fun e he => ?_)
  · cases hcondition : s.condition <;> cases hmapping : s.outputMapping <;>
      cases hpolicy : s.onError <;>
      simp [fields, hcondition, hmapping, hpolicy, optionalField, Table.keys]
  · simpa [Table.keys, Function.comp_def] using hs.outputMapping t ht
  · obtain ⟨e', -, rfl⟩ := List.mem_map.1 he
    exact .scalar rfl

/-- **The fields of a valid definition of plain forms are a plain form.** -/
theorem Definition.isForm_fields {d : Definition} (hd : d.Valid) (h : d.IsForm) :
    (ofFields d.fields).IsForm := by
  refine .fields ?_ (forall_fields (P := Value.IsForm)
    (fun _ hs => .scalar (Scalar.isForm_of_isPlain hs))
    (fun t ht => .fields ?_ fun e he => ?_) (.list fun w hw => ?_))
  · cases hversion : d.version <;> cases hdeclarations : d.declarations <;>
      simp [fields, hversion, hdeclarations, optionalField, Table.keys]
  · simpa [Table.keys, Function.comp_def] using hd.declarations t ht
  · obtain ⟨e', he', rfl⟩ := List.mem_map.1 he
    exact Variable.isForm_fields (h.defaults t ht e' he')
  · obtain ⟨s, hs, rfl⟩ := List.mem_map.1 hw
    exact Step.isForm_fields (hd.steps s hs) (h.parameters s hs)

/-! ### The levels of fields -/

theorem Value.levels_scalar {n : Nat} (h : 0 < n) (s : Scalar) : (scalar s).levels ≤ n := by
  rwa [levels]

theorem Variable.levels_fields {v : Variable} (h : ∀ w ∈ v.default, w.levels ≤ documentLimit) :
    (ofFields v.fields).levels ≤ documentLimit + 1 :=
  Value.levels_ofFields.2 (forall_fields (fun s _ => Value.levels_scalar (by decide) s) h)

theorem Step.levels_fields {s : Step} (h : ∀ e ∈ s.parameters, e.2.levels ≤ documentLimit) :
    (ofFields s.fields).levels ≤ documentLimit + 2 := by
  refine Value.levels_ofFields.2 (forall_fields (P := fun v => v.levels ≤ documentLimit + 1)
    (fun s _ => Value.levels_scalar (by decide) s) (Value.levels_ofFields.2 h) fun t _ =>
      Value.levels_ofFields.2 fun e he => ?_)
  obtain ⟨e', -, rfl⟩ := List.mem_map.1 he
  exact Value.levels_scalar (by decide) _

/-- **The fields of a shallow definition have few levels more than its values.** -/
theorem Definition.levels_fields {d : Definition} (h : d.IsShallow) :
    (ofFields d.fields).levels ≤ documentLimit + 4 := by
  refine Value.levels_ofFields.2 (forall_fields (P := fun v => v.levels ≤ documentLimit + 3)
    (fun s _ => Value.levels_scalar (by decide) s) (fun t ht => ?_) ?_)
  · refine Value.levels_ofFields.2 fun e he => ?_
    obtain ⟨e', he', rfl⟩ := List.mem_map.1 he
    exact Nat.le_succ_of_le (Variable.levels_fields (h.defaults t ht e' he'))
  · refine Nat.succ_le_succ (Value.itemsLevels_le.2 fun w hw => ?_)
    obtain ⟨s, hs, rfl⟩ := List.mem_map.1 hw
    exact Step.levels_fields (h.parameters s hs)

end Runbook
