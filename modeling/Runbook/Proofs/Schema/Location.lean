import Runbook.Proofs.Schema.Acceptance

/-!
# Where the problems of a document are

Every problem of a JSON document is about what is at its place in the document: a value that is not
as it has to be, a member that no field declares, or a member that is not there.

* `Leads`: what is at a place in a document;
* `Complaint.Fits`: the values that a complaint can be about;
* `concerns_of_ofDocument`: what the problems of a document are about;
* `eq_singleton_of_place_nil`: a problem of the whole document is its only one.
-/

namespace Runbook

namespace Schema

/-! ### Places -/

/-- What a place leads to from a value: a value, or nothing where a mapping has no member under the
last key. -/
inductive Leads : Value → List Spot → Option Value → Prop
  | here (v : Value) : Leads v [] (some v)
  | absent {m : List (Scalar × Value)} {name : String} (h : Value.lookup m name = none) :
    Leads (.mapping m) [.key name] none
  | member {m : List (Scalar × Value)} {name : String} {w : Value} {place : List Spot}
    {o : Option Value} (h : Value.lookup m name = some w) (hw : Leads w place o) :
    Leads (.mapping m) (.key name :: place) o
  | item {l : List Value} {i : Nat} {w : Value} {place : List Spot} {o : Option Value}
    (h : l[i]? = some w) (hw : Leads w place o) : Leads (.list l) (.item i :: place) o

/-- The values of JSON that a complaint can be about. -/
def Complaint.Fits : Complaint → Value → Prop
  | notText, v => ¬ IsText (fun _ => True) v
  | noCharacter, v => v = .str ""
  | mismatch pattern, v => IsText (fun s => pattern.matches s.toList = false) v
  | notMapping, v | notInstance _, v | notObject _, v => ∀ m, v ≠ .mapping m
  | notList, v => ∀ l, v ≠ .list l
  | noItem, v => v = .list []
  | notBoolean, v | unreadableBoolean, v => ¬ ∃ b, ReadsAs v b
  | notVariableType, v => ¬ IsText (· ∈ ["string", "number", "boolean", "object"]) v
  | notPolicy, v => ¬ IsText (· ∈ ["stop", "skip", "continue"]) v
  | duplicateId id, v => ∃ l, v.member? "steps" = some (.list l) ∧
    [some (.str id), some (.str id)].Sublist (l.map fun w => w.member? "id")
  | _, _ => False

/-- What a problem of a value is about: a member that is missing, one that is at a stray place, or a
value that the complaint fits. -/
inductive Concerns (stray : List Spot → Prop) (v : Value) : Problem → Prop
  | missing {place : List Spot} (h : Leads v place none) : Concerns stray v ⟨place, .missing⟩
  | extra {place : List Spot} {w : Value} (h : Leads v place (some w)) (hstray : stray place) :
    Concerns stray v ⟨place, .extra⟩
  | value {place : List Spot} {w : Value} {c : Complaint} (h : Leads v place (some w))
    (hc : c.Fits w) : Concerns stray v ⟨place, c⟩

section Concerns

variable {stray : List Spot → Prop} {v w : Value} {p : Problem}

theorem Concerns.exists_leads (h : Concerns stray v p) : ∃ o, Leads v p.place o := by
  cases h with
  | missing h => exact ⟨_, h⟩
  | extra h _ => exact ⟨_, h⟩
  | value h _ => exact ⟨_, h⟩

/-- A problem of a part is one of the whole, seen from further out. -/
theorem Concerns.within {spot : Spot} (h : Concerns (fun place => stray (spot :: place)) w p)
    (hleads : ∀ {place o}, Leads w place o → Leads v (spot :: place) o) :
    Concerns stray v (p.within spot) := by
  cases h with
  | missing h => exact .missing (hleads h)
  | extra h hstray => exact .extra (hleads h) hstray
  | value h hc => exact .value (hleads h) hc

end Concerns

/-! ### The problems of readers -/

namespace Checked

variable {α β : Type} {x : Checked α} {P : Problem → Prop}

/-- Whether every problem of a reader is as described. -/
def Reports (P : Problem → Prop) (x : Checked α) : Prop := ∀ ps, x = .bad ps → ∀ p ∈ ps, P p

theorem reports_ok (a : α) : (ok a).Reports P := nofun

theorem reports_bad {ps : List Problem} (h : ∀ p ∈ ps, P p) : (bad ps : Checked α).Reports P :=
  fun _ he => bad.inj he ▸ h

theorem reports_complain {c : Complaint} (h : P ⟨[], c⟩) : (complain c : Checked α).Reports P :=
  reports_bad fun _ hp => List.mem_singleton.1 hp ▸ h

theorem Reports.imp {Q : Problem → Prop} (hx : x.Reports P) (h : ∀ p, P p → Q p) : x.Reports Q :=
  fun ps he p hp => h p (hx ps he p hp)

theorem Reports.within {spot : Spot} (hx : x.Reports fun p => P (p.within spot)) :
    (x.within spot).Reports P := by
  cases x with
  | ok a => exact reports_ok a
  | bad ps =>
    refine reports_bad fun p hp => ?_
    obtain ⟨q, hq, rfl⟩ := List.mem_map.1 hp
    exact hx ps rfl q hq

theorem Reports.map (hx : x.Reports P) (f : α → β) : (f <$> x).Reports P := by
  cases x with
  | ok a => exact reports_ok (f a)
  | bad ps => exact reports_bad (hx ps rfl)

theorem Reports.seq {f : Checked (α → β)} (hf : f.Reports P) (hx : x.Reports P) :
    (f <*> x).Reports P := by
  cases f with
  | ok g => exact hx.map g
  | bad ps =>
    cases x with
    | ok a => exact reports_bad (hf ps rfl)
    | bad qs =>
      refine reports_bad fun p hp => ?_
      rcases List.mem_append.1 hp with hp | hp
      · exact hf ps rfl p hp
      · exact hx qs rfl p hp

theorem andThen_bad {f : α → Checked β} {ps : List Problem} (h : x.andThen f = .bad ps) :
    x = .bad ps ∨ ∃ a, x = .ok a ∧ f a = .bad ps := by
  cases x with
  | ok a => exact .inr ⟨a, rfl, h⟩
  | bad ps' => exact .inl (congrArg bad (bad.inj h))

theorem Reports.andThen {f : α → Checked β} (hx : x.Reports P)
    (hf : ∀ a, x = .ok a → (f a).Reports P) : (x.andThen f).Reports P := by
  cases x with
  | ok a => exact hf a rfl
  | bad ps => exact reports_bad (hx ps rfl)

end Checked

open Checked

section Readers

variable {α : Type} {read : Value → Checked α} {m : List (Scalar × Value)} {v : Value}
  {name : String} {P : Problem → Prop} {stray : List Spot → Prop}

theorem reports_required
    (hmember : ∀ w, Value.lookup m name = some w →
      (read w).Reports fun p => P (p.within (.key name)))
    (hmissing : Value.lookup m name = none → P ⟨[.key name], .missing⟩) :
    (required m name read).Reports P := by
  refine Reports.within ?_
  split
  · next w hw => exact hmember w hw
  · next hnone => exact reports_complain (hmissing hnone)

theorem reports_optional
    (hmember : ∀ w, Value.lookup m name = some w →
      (read w).Reports fun p => P (p.within (.key name))) :
    (optional m name read).Reports P := by
  unfold optional
  split
  · next w hw => exact Reports.within ((hmember w hw).map some)
  · exact reports_ok none

theorem reports_onlyFields {fields : List String}
    (h : ∀ e ∈ m, ∀ p, strayProblem? fields e.1 = some p → P p) :
    (onlyFields m fields).Reports P := by
  unfold onlyFields
  split
  · exact reports_ok ()
  · refine reports_bad fun p hp => ?_
    obtain ⟨e, he, hp⟩ := List.mem_filterMap.1 hp
    exact h e he p hp

theorem reports_all {β : Type} {read : β → Checked α} {l : List β}
    (h : ∀ b ∈ l, (read b).Reports P) : (all read l).Reports P := by
  induction l with
  | nil => exact reports_ok _
  | cons b r ih =>
    obtain ⟨hb, hr⟩ := List.forall_mem_cons.1 h
    exact (hb.map _).seq (ih hr)

theorem reports_items {l : List Value} (n : Nat)
    (h : ∀ i w, l[i]? = some w → (read w).Reports fun p => P (p.within (.item (n + i)))) :
    (items read n l).Reports P := by
  induction l generalizing n with
  | nil => exact reports_ok _
  | cons v r ih =>
    refine .seq (.map (.within (h 0 v rfl)) _) (ih (n + 1) fun i w hw => ?_)
    have hi := h (i + 1) w hw
    rwa [← Nat.add_assoc, Nat.add_right_comm] at hi

/-! ### Members and items -/

/-- A problem of a member is one of the mapping. -/
theorem reports_member {w : Value} {x : Checked α} (h : Value.lookup m name = some w)
    (hx : x.Reports (Concerns (fun place => stray (.key name :: place)) w)) :
    x.Reports fun p => Concerns stray (.mapping m) (p.within (.key name)) :=
  hx.imp fun _ hp => hp.within (.member h)

theorem concerns_required (hm : (Value.mapping m).IsDocument)
    (h : ∀ w : Value, w.IsDocument →
      (read w).Reports (Concerns (fun place => stray (.key name :: place)) w)) :
    (required m name read).Reports (Concerns stray (.mapping m)) :=
  reports_required (fun w hw => reports_member hw (h w (hm.of_lookup hw))) fun hnone =>
    .missing (.absent hnone)

theorem concerns_optional (hm : (Value.mapping m).IsDocument)
    (h : ∀ w : Value, w.IsDocument →
      (read w).Reports (Concerns (fun place => stray (.key name :: place)) w)) :
    (optional m name read).Reports (Concerns stray (.mapping m)) :=
  reports_optional fun w hw => reports_member hw (h w (hm.of_lookup hw))

/-- A member that no field declares is at a stray place. -/
theorem concerns_onlyFields {fields : List String} (hm : (Value.mapping m).IsDocument)
    (hstray : ∀ name ∉ fields, stray [.key name]) :
    (onlyFields m fields).Reports (Concerns stray (.mapping m)) := by
  refine reports_onlyFields fun e he p hp => ?_
  obtain ⟨k, v⟩ := e
  obtain ⟨key, rfl⟩ := (hm.json.of_mapping _ he).1
  rw [strayProblem?] at hp
  split at hp
  · cases hp
  · next hfields =>
    cases hp
    obtain ⟨w, hw⟩ := Value.exists_lookup_of_mem he
    exact .extra (.member hw (.here w)) (hstray key (by simpa using hfields))

theorem concerns_table (hv : v.IsDocument)
    (h : ∀ (name : String) (w : Value), w.IsDocument →
      (read w).Reports (Concerns (fun place => stray (.key name :: place)) w)) :
    (table read v).Reports (Concerns stray v) := by
  unfold table
  split
  · next entries =>
    refine (reports_all fun e he => ?_).map _
    obtain ⟨k, w⟩ := e
    obtain ⟨key, rfl⟩ := (hv.json.of_mapping _ he).1
    have hlookup := Value.lookup_of_mem (hv.distinct entries (.self _)) he
    have hread : entry read (.str key, w) = Prod.mk key <$> (read w).within (.key key) := by
      unfold entry
      cases read w <;> rfl
    rw [hread]
    exact (Reports.within (reports_member hlookup (h key w (hv.of_lookup hlookup)))).map _
  · next hnot => exact reports_complain (.value (.here v) hnot)

theorem concerns_someItems (hv : v.IsDocument)
    (h : ∀ (i : Nat) (w : Value), w.IsDocument →
      (read w).Reports (Concerns (fun place => stray (.item i :: place)) w)) :
    (someItems read v).Reports (Concerns stray v) := by
  cases hv.json with
  | scalar _ => exact reports_complain (.value (.here _) nofun)
  | mapping _ _ => exact reports_complain (.value (.here _) nofun)
  | @list l _ =>
    cases l with
    | nil => exact reports_complain (.value (.here _) rfl)
    | cons a r =>
      refine reports_items 0 fun i w hw => ?_
      rw [Nat.zero_add]
      have hpart : (Value.list (a :: r)).HasPart w := .item (List.mem_of_getElem? hw) (.self w)
      exact (h i w (hv.of_hasPart hpart)).imp fun _ hp => hp.within (.item hw)

/-! ### Texts and words -/

/-- A reader that complains of nothing but a value that it does not read. -/
theorem concerns_of_complain {x : Checked α} {c : Complaint} (hx : x.Succeeds ∨ x = complain c)
    (hc : ¬ x.Succeeds → c.Fits v) : x.Reports (Concerns stray v) := by
  by_cases hs : x.Succeeds
  · obtain ⟨a, rfl⟩ := hs
    exact reports_ok a
  · rw [hx.resolve_left hs]
    exact reports_complain (.value (.here v) (hc hs))

theorem concerns_text (hv : v.IsJson) : (text v).Reports (Concerns stray v) := by
  refine concerns_of_complain (c := .notText) ?_ fun h ⟨s, hs, _⟩ =>
    h ⟨s, (text_eq_ok hv).2 hs⟩
  unfold text
  split
  · exact .inl ⟨_, rfl⟩
  · exact .inl ⟨_, rfl⟩
  · cases hv with
    | scalar h => cases h
  · exact .inr rfl

theorem concerns_string (hv : v.IsJson) : (string v).Reports (Concerns stray v) := by
  unfold string
  split
  · cases hv with
    | scalar h => cases h
  · exact concerns_text hv

theorem concerns_someText (hv : v.IsJson) : (someText v).Reports (Concerns stray v) := by
  refine (concerns_string hv).andThen fun s hs => ?_
  split
  · next hempty =>
    obtain rfl := (string_eq_ok hv.isRawJson).1 hs
    obtain rfl : s = "" := by simpa using hempty
    exact reports_complain (.value (.here _) rfl)
  · exact reports_ok s

theorem concerns_matching (pattern : Pattern) (s : String) :
    (matching pattern s).Reports (Concerns stray (.str s)) := by
  unfold matching
  split
  · exact reports_ok s
  · next h => exact reports_complain (.value (.here _) ⟨s, rfl, by simpa using h⟩)

theorem concerns_someText_matching (hv : v.IsJson) (pattern : Pattern) :
    ((someText v).andThen (matching pattern)).Reports (Concerns stray v) := by
  refine (concerns_someText hv).andThen fun s hs => ?_
  obtain ⟨rfl, -⟩ := (someText_eq_ok hv.isRawJson).1 hs
  exact concerns_matching pattern s

theorem concerns_string_matching (hv : v.IsJson) (pattern : Pattern) :
    ((string v).andThen (matching pattern)).Reports (Concerns stray v) := by
  refine (concerns_string hv).andThen fun s hs => ?_
  obtain rfl := (string_eq_ok hv.isRawJson).1 hs
  exact concerns_matching pattern s

theorem concerns_orNull (h : (read v).Reports (Concerns stray v)) :
    (orNull read v).Reports (Concerns stray v) := by
  unfold orNull
  split
  · exact reports_ok none
  · exact h.map some

theorem concerns_variableType (v : Value) : (variableType v).Reports (Concerns stray v) := by
  refine concerns_of_complain (c := .notVariableType) ?_ (mt succeeds_variableType.2)
  unfold variableType
  split
  case h_5 => exact .inr rfl
  all_goals exact .inl ⟨_, rfl⟩

theorem concerns_policy (hv : v.IsJson) : (policy v).Reports (Concerns stray v) := by
  refine concerns_of_complain (c := .notPolicy) ?_ (mt (succeeds_policy hv.isRawJson).2)
  unfold policy
  split
  case h_4 => exact .inr rfl
  all_goals exact .inl ⟨_, rfl⟩

/-- A truth value is read, or there is one of two complaints. -/
theorem boolean_cases (hv : v.IsJson) : (boolean v).Succeeds ∨ boolean v = complain .notBoolean ∨
    boolean v = complain .unreadableBoolean := by
  have hbit (n : Int) : (bit n).Succeeds ∨ bit n = complain .notBoolean ∨
      bit n = complain .unreadableBoolean := by
    unfold bit
    split
    · exact .inl ⟨_, rfl⟩
    · split
      · exact .inl ⟨_, rfl⟩
      · exact .inr (.inr rfl)
  unfold boolean
  split
  case h_5 =>
    cases hv with
    | scalar h => cases h
  all_goals
    repeat' split
    all_goals first
      | exact hbit _
      | exact .inl ⟨_, rfl⟩
      | exact .inr (.inl rfl)
      | exact .inr (.inr rfl)

theorem concerns_boolean (hv : v.IsJson) : (boolean v).Reports (Concerns stray v) := by
  have hfits := mt (succeeds_boolean hv.isRawJson).2
  rcases boolean_cases hv with h | h | h
  · exact concerns_of_complain (c := .notBoolean) (.inl h) hfits
  · exact concerns_of_complain (.inr h) hfits
  · exact concerns_of_complain (.inr h) hfits

end Readers

/-! ### Declarations, steps and workflows -/

section Whole

variable {m : List (Scalar × Value)} {v : Value} {stray : List Spot → Prop}

theorem concerns_declaration (hv : v.IsDocument)
    (hstray : ∀ name ∉ ["description", "type", "default", "required"], stray [.key name]) :
    (declaration v).Reports (Concerns stray v) := by
  unfold declaration
  split
  · refine .seq (.seq (.seq (.seq (.map ?_ _) ?_) ?_) ?_) (concerns_onlyFields hv hstray)
    · exact concerns_required hv fun _ hw => concerns_text hw.json
    · exact concerns_required hv fun w _ => concerns_variableType w
    · exact concerns_optional hv fun w _ => reports_ok w
    · exact concerns_optional hv fun _ hw => concerns_boolean hw.json
  · next hnot => exact reports_complain (.value (.here v) hnot)

theorem concerns_step (hv : v.IsDocument)
    (hstray : ∀ name ∉ ["id", "name", "tool", "parameters", "condition", "output_mapping",
      "on_error"], stray [.key name]) : (step v).Reports (Concerns stray v) := by
  unfold step
  split
  · refine .seq (.seq (.seq (.seq (.seq (.seq (.seq (.map ?_ _) ?_) ?_) ?_) ?_) ?_) ?_)
      (concerns_onlyFields hv hstray)
    · exact concerns_required hv fun _ hw => concerns_someText_matching hw.json _
    · exact concerns_required hv fun _ hw => concerns_someText hw.json
    · exact concerns_required hv fun _ hw => concerns_someText hw.json
    · exact concerns_required hv fun _ hw => concerns_table hw fun _ w _ => reports_ok w
    · exact concerns_optional hv fun _ hw => concerns_orNull (concerns_text hw.json)
    · exact concerns_optional hv fun _ hw => concerns_table hw fun _ _ hu => concerns_text hu.json
    · exact concerns_optional hv fun _ hw => concerns_policy hw.json
  · next hnot => exact reports_complain (.value (.here v) hnot)

/-- The places of members that no field of a workflow declares. -/
def IsStray : List Spot → Prop
  | [.key name] => name ∉ ["name", "description", "version", "variables", "steps"]
  | [.key "variables", .key _, .key name] =>
    name ∉ ["description", "type", "default", "required"]
  | [.key "steps", .item _, .key name] =>
    name ∉ ["id", "name", "tool", "parameters", "condition", "output_mapping", "on_error"]
  | _ => False

/-- An identifier that is found a second time was seen before or occurs twice. -/
theorem sublist_of_go {seen ids : List String} {id : String}
    (h : duplicate?.go seen ids = some id) : id ∈ ids ∧ (id ∈ seen ∨ [id, id].Sublist ids) := by
  induction ids generalizing seen with
  | nil => cases h
  | cons a r ih =>
    rw [duplicate?.go] at h
    split at h
    · next ha =>
      cases h
      exact ⟨List.mem_cons_self, .inl (by simpa using ha)⟩
    · obtain ⟨hmem, hseen | htwice⟩ := ih h
      · refine ⟨List.mem_cons_of_mem _ hmem, ?_⟩
        obtain rfl | hseen := List.mem_cons.1 hseen
        · exact .inr ((List.singleton_sublist.2 hmem).cons_cons _)
        · exact .inl hseen
      · exact ⟨List.mem_cons_of_mem _ hmem, .inr (htwice.cons _)⟩

theorem sublist_of_duplicate? {ids : List String} {id : String} (h : duplicate? ids = some id) :
    [id, id].Sublist ids :=
  (sublist_of_go h).2.resolve_left List.not_mem_nil

/-- The steps of a document share an identifier that is complained about. -/
theorem concerns_distinctSteps (hm : (Value.mapping m).IsDocument) {d : Definition}
    (hd : required m "steps" (someItems step) = .ok d.steps) :
    (distinctSteps d).Reports (Concerns stray (.mapping m)) := by
  unfold distinctSteps
  split
  · next id hid =>
    obtain ⟨w, hw, hread⟩ := required_ok hd
    have hjson := (hm.of_lookup hw).json
    obtain ⟨l, rfl, -, hitems⟩ := (someItems_eq_ok hjson.isRawJson).1 hread
    refine reports_complain (.value (.here _) ⟨l, hw, ?_⟩)
    rw [map_member?_id_of_items hjson.isRawJson.of_list hitems]
    exact (sublist_of_duplicate? hid).map fun id => some (Value.str id)
  · exact reports_ok d

theorem concerns_workflow (hm : (Value.mapping m).IsDocument) :
    (workflow m).Reports (Concerns IsStray (.mapping m)) := by
  refine Reports.andThen ?_ fun d hd => ?_
  · refine .seq (.seq (.seq (.seq (.seq (.map ?_ _) ?_) ?_) ?_) ?_)
      (concerns_onlyFields hm fun name hname => hname)
    · exact concerns_required hm fun _ hw => concerns_someText_matching hw.json _
    · exact concerns_required hm fun _ hw => concerns_someText hw.json
    · exact concerns_optional hm fun _ hw => concerns_orNull (concerns_string_matching hw.json _)
    · exact concerns_optional hm fun _ hw => concerns_table hw fun _ _ hu =>
        concerns_declaration hu fun name hname => hname
    · exact concerns_required hm fun _ hw => concerns_someItems hw fun _ _ hu =>
        concerns_step hu fun name hname => hname
  · obtain ⟨_, _, h₁, -, rfl⟩ := seq_ok hd
    obtain ⟨_, _, h₂, hsteps, rfl⟩ := seq_ok h₁
    obtain ⟨_, _, h₃, -, rfl⟩ := seq_ok h₂
    obtain ⟨_, _, h₄, -, rfl⟩ := seq_ok h₃
    obtain ⟨_, _, h₅, -, rfl⟩ := seq_ok h₄
    obtain ⟨_, -, rfl⟩ := map_ok h₅
    exact concerns_distinctSteps hm hsteps

theorem place_ne_nil_of_strayProblem? {fields : List String} {k : Scalar} {p : Problem}
    (h : strayProblem? fields k = some p) : p.place ≠ [] := by
  unfold strayProblem? at h
  split at h
  · split at h
    · cases h
    · cases h
      exact List.cons_ne_nil _ _
  all_goals
    cases h
    exact List.cons_ne_nil _ _

/-- A problem of a workflow that is not of a part is the only one. -/
theorem eq_singleton_of_place_nil {ps : List Problem} (h : workflow m = .bad ps) {p : Problem}
    (hp : p ∈ ps) (hplace : p.place = []) : ps = [p] := by
  have hwithin {spot : Spot} {q : Problem} : (q.within spot).place ≠ [] := List.cons_ne_nil _ _
  have hrequired {α : Type} (name : String) (read : Value → Checked α) :
      (required m name read).Reports fun p => p.place ≠ [] :=
    reports_required (fun _ _ _ _ _ _ => hwithin) fun _ => List.cons_ne_nil _ _
  have hoptional {α : Type} (name : String) (read : Value → Checked α) :
      (optional m name read).Reports fun p => p.place ≠ [] :=
    reports_optional fun _ _ _ _ _ _ => hwithin
  obtain h | ⟨d, -, h⟩ := andThen_bad h
  · refine absurd hplace ((?_ : Reports (fun p => p.place ≠ []) _) ps h p hp)
    refine .seq (.seq (.seq (.seq (.seq (.map (hrequired _ _) _) (hrequired _ _)) (hoptional _ _))
      (hoptional _ _)) (hrequired _ _)) (reports_onlyFields fun e _ q hq => ?_)
    exact place_ne_nil_of_strayProblem? hq
  · -- the members are right, so the only complaint is about identifiers
    unfold distinctSteps at h
    split at h
    · cases h
      rw [List.mem_singleton.1 hp]
    · cases h

end Whole

end Schema

namespace Definition

open Schema

/-- **What the problems of a document are about.** -/
theorem concerns_of_ofDocument {v : Value} (hv : v.IsDocument) {problems : List Problem}
    (h : ofDocument v = .error problems) :
    ∀ p ∈ problems, Concerns IsStray v p ∧ (p.place = [] → problems = [p]) := by
  intro p hp
  unfold ofDocument at h
  split at h
  · next m =>
    cases hm : workflow m with
    | ok d => rw [hm] at h; cases h
    | bad ps =>
      rw [hm] at h
      cases h
      exact ⟨concerns_workflow hv _ hm p hp, eq_singleton_of_place_nil hm hp⟩
  · next hnot =>
    cases h
    rw [List.mem_singleton.1 hp]
    exact ⟨.value (.here v) hnot, fun _ => rfl⟩

end Definition
end Runbook
