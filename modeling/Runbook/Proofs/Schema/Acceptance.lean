import Mathlib.Data.List.Nodup
import Mathlib.Data.List.TakeWhile
import Runbook.Proofs.Schema.Document

/-!
# Accepted documents

Which JSON documents are read as workflow definitions, said of the documents alone.

* `IsVariable`, `IsStep`, `IsWorkflow`: the members of a declaration, a step and a workflow;
* `Checked.Succeeds`: whether something is read, with an equivalence for each reader;
* `Checked.Explains`: whether there is a problem when nothing is read;
* `ofDocument_iff`: a document is accepted exactly when its members are those of a workflow, and
  there is a problem with any other.
-/

namespace Runbook
namespace Schema

/-! ### What documents look like -/

section Documents

variable (m : List (Scalar × Value)) (name : String) (names : List String) (p : Value → Prop)

/-- There is a member under a name, and it is as described. -/
def Has : Prop := ∃ v, Value.lookup m name = some v ∧ p v

/-- The member under a name is as described, if there is one. -/
def MayHave : Prop := ∀ v, Value.lookup m name = some v → p v

/-- There are no members under other names. -/
def HasOnly : Prop := ∀ e ∈ m, ∃ name ∈ names, e.1 = .str name

end Documents

/-- A text that is as described. -/
def IsText (p : String → Prop) (v : Value) : Prop := ∃ s, v = .str s ∧ p s

/-- A mapping to values that are as described. -/
def IsMapping (p : Value → Prop) (v : Value) : Prop := ∃ m, v = .mapping m ∧ ∀ e ∈ m, p e.2

/-- A text, be it with unpaired surrogates. -/
def IsAnyText (v : Value) : Prop := ∃ t, v = .scalar (.ofText t)

/-- Null, or a value that is as described. -/
def IsNullOr (p : Value → Prop) (v : Value) : Prop := v = .null ∨ p v

/-- A lower-case ASCII letter. -/
def IsLetter (c : Char) : Prop := 'a' ≤ c ∧ c ≤ 'z'

/-- An ASCII digit. -/
def IsDigit (c : Char) : Prop := '0' ≤ c ∧ c ≤ '9'

/-- The name of a workflow: letters, digits and hyphens, no hyphen first. -/
def IsWorkflowName (s : String) : Prop :=
  ∃ c r, s.toList = c :: r ∧ (IsLetter c ∨ IsDigit c) ∧
    ∀ x ∈ r, IsLetter x ∨ IsDigit x ∨ x = '-'

/-- The identifier of a step: letters, digits and underscores, no digit first. -/
def IsStepId (s : String) : Prop :=
  ∃ c r, s.toList = c :: r ∧ (IsLetter c ∨ c = '_') ∧
    ∀ x ∈ r, IsLetter x ∨ IsDigit x ∨ x = '_'

/-- A number, with digits of any script. -/
def IsNumber (cs : List Char) : Prop := cs ≠ [] ∧ ∀ c ∈ cs, isDecimalDigit c

/-- A version: three numbers with dots between them. -/
def IsVersion (s : String) : Prop :=
  ∃ a b c, s.toList = a ++ '.' :: (b ++ '.' :: c) ∧ IsNumber a ∧ IsNumber b ∧ IsNumber c

/-- The words for a truth value. -/
def wordsFor : Bool → List String
  | true => ["1", "on", "t", "true", "y", "yes"]
  | false => ["0", "off", "f", "false", "n", "no"]

/-- What a JSON value is read as where a truth value is expected. -/
inductive ReadsAs : Value → Bool → Prop
  | bool (b : Bool) : ReadsAs (.bool b) b
  | int (b : Bool) : ReadsAs (.int b.toInt) b
  | float {x : Binary64} {b : Bool} (h : x.toInt? = some b.toInt) : ReadsAs (.float x) b
  | word {s : String} {b : Bool} (h : s.toLower ∈ wordsFor b) : ReadsAs (.str s) b

/-- The members of a declaration. -/
structure IsVariable (m : List (Scalar × Value)) : Prop where
  description : Has m "description" IsAnyText
  type : Has m "type" (IsText (· ∈ ["string", "number", "boolean", "object"]))
  required : MayHave m "required" fun v => ∃ b, ReadsAs v b
  only : HasOnly m ["description", "type", "default", "required"]

/-- The members of a step. -/
structure IsStep (m : List (Scalar × Value)) : Prop where
  id : Has m "id" (IsText IsStepId)
  name : Has m "name" (IsText (· ≠ ""))
  tool : Has m "tool" (IsText (· ≠ ""))
  parameters : Has m "parameters" (IsMapping fun _ => True)
  condition : MayHave m "condition" (IsNullOr IsAnyText)
  outputMapping : MayHave m "output_mapping" (IsMapping IsAnyText)
  onError : MayHave m "on_error" (IsText (· ∈ ["stop", "skip", "continue"]))
  only : HasOnly m ["id", "name", "tool", "parameters", "condition", "output_mapping", "on_error"]

/-- A list of steps, at least one, no two of which share an identifier. -/
def IsSteps (v : Value) : Prop :=
  ∃ l, v = .list l ∧ l ≠ [] ∧ (∀ w ∈ l, ∃ m, w = .mapping m ∧ IsStep m) ∧
    (l.map fun w => w.member? "id").Nodup

/-- The members of a workflow. -/
structure IsWorkflow (m : List (Scalar × Value)) : Prop where
  name : Has m "name" (IsText IsWorkflowName)
  description : Has m "description" (IsText (· ≠ ""))
  version : MayHave m "version" (IsNullOr (IsText IsVersion))
  declarations : MayHave m "variables" (IsMapping fun v => ∃ m, v = .mapping m ∧ IsVariable m)
  steps : Has m "steps" IsSteps
  only : HasOnly m ["name", "description", "version", "variables", "steps"]

/-! ### Texts -/

theorem isLowerLetter_iff {c : Char} : isLowerLetter c ↔ IsLetter c := by
  simp [isLowerLetter, IsLetter]

theorem isNameStart_iff {c : Char} : isNameStart c ↔ IsLetter c ∨ IsDigit c := by
  rw [isNameStart, Bool.or_eq_true, isLowerLetter_iff, Char.isDigit, Bool.and_eq_true,
    decide_eq_true_eq, decide_eq_true_eq]
  rfl

theorem isWorkflowName_iff {s : String} :
    Pattern.workflowName.matches s.toList ↔ IsWorkflowName s := by
  unfold Pattern.matches IsWorkflowName
  cases s.toList <;> simp [isWorkflowName, isNameStart_iff, or_assoc]

theorem isStepId_iff {s : String} : Pattern.stepId.matches s.toList ↔ IsStepId s := by
  unfold Pattern.matches IsStepId
  cases s.toList <;> simp [isStepId, isNameStart_iff, isLowerLetter_iff, or_assoc]

/-- What stands before the first character that is no digit is a number unless it is empty. -/
theorem isNumber_takeWhile {cs : List Char}
    (h : (!(cs.takeWhile isDecimalDigit).isEmpty) = true) :
    IsNumber (cs.takeWhile isDecimalDigit) := by
  refine ⟨by simpa [List.isEmpty_iff] using h, fun c hc => ?_⟩
  exact List.all_eq_true.1 List.all_takeWhile c hc

theorem isDotted_zero_iff {cs : List Char} : isDotted 0 cs ↔ IsNumber cs := by
  unfold isDotted
  rw [Bool.and_eq_true]
  constructor
  · rintro ⟨hne, h⟩
    have hdrop : cs.dropWhile isDecimalDigit = [] := by
      split at h
      · assumption
      · contradiction
      · cases h
    have hcs := List.takeWhile_append_dropWhile (p := isDecimalDigit) (l := cs)
    rw [hdrop, List.append_nil] at hcs
    exact hcs ▸ isNumber_takeWhile hne
  · rintro ⟨hne, h⟩
    rw [List.takeWhile_eq_self_iff.2 h, List.dropWhile_eq_nil_iff.2 h]
    simpa using hne

theorem isDotted_succ_iff {n : Nat} {cs : List Char} :
    isDotted (n + 1) cs ↔ ∃ a r, cs = a ++ '.' :: r ∧ IsNumber a ∧ isDotted n r := by
  -- a point is no digit, so the first number ends before the first point
  have hpoint : ¬ isDecimalDigit '.' := by decide
  rw [isDotted.eq_def (n + 1), Bool.and_eq_true]
  constructor
  · rintro ⟨hne, h⟩
    split at h
    · contradiction
    · next k r hn hdrop =>
      obtain rfl := Nat.succ.inj hn
      refine ⟨cs.takeWhile isDecimalDigit, r, ?_, isNumber_takeWhile hne, h⟩
      rw [← hdrop, List.takeWhile_append_dropWhile]
    · cases h
  · rintro ⟨a, r, rfl, ⟨hne, ha⟩, hr⟩
    rw [List.takeWhile_append_of_pos ha, List.dropWhile_append_of_pos ha,
      List.takeWhile_cons_of_neg hpoint, List.dropWhile_cons_of_neg hpoint]
    exact ⟨by simpa using hne, hr⟩

theorem isVersion_iff {s : String} : Pattern.version.matches s.toList ↔ IsVersion s := by
  unfold Pattern.matches
  simp only [isDotted_succ_iff, isDotted_zero_iff, IsVersion]
  constructor
  · rintro ⟨a, _, h, ha, b, c, rfl, hb, hc⟩
    exact ⟨a, b, c, h, ha, hb, hc⟩
  · rintro ⟨a, b, c, h, ha, hb, hc⟩
    exact ⟨a, _, h, ha, b, c, rfl, hb, hc⟩

/-! ### What is read -/

namespace Checked

variable {α β : Type}

/-- Whether something is read. -/
def Succeeds (x : Checked α) : Prop := ∃ a, x = .ok a

@[simp] theorem succeeds_ok (a : α) : (ok a).Succeeds := ⟨a, rfl⟩

@[simp] theorem not_succeeds_bad (ps : List Problem) : ¬ (bad ps : Checked α).Succeeds := by
  rintro ⟨a, h⟩
  cases h

@[simp] theorem not_succeeds_complain (c : Complaint) : ¬ (complain c : Checked α).Succeeds :=
  not_succeeds_bad _

@[simp] theorem succeeds_map {f : α → β} {x : Checked α} : (f <$> x).Succeeds ↔ x.Succeeds := by
  constructor
  · rintro ⟨b, h⟩
    obtain ⟨a, rfl, -⟩ := map_ok h
    exact ⟨a, rfl⟩
  · rintro ⟨a, rfl⟩
    exact ⟨f a, rfl⟩

@[simp] theorem succeeds_seq {f : Checked (α → β)} {x : Checked α} :
    (f <*> x).Succeeds ↔ f.Succeeds ∧ x.Succeeds := by
  constructor
  · rintro ⟨b, h⟩
    obtain ⟨g, a, rfl, rfl, -⟩ := seq_ok h
    exact ⟨⟨g, rfl⟩, a, rfl⟩
  · rintro ⟨⟨g, rfl⟩, a, rfl⟩
    exact ⟨g a, rfl⟩

@[simp] theorem succeeds_within {spot : Spot} {x : Checked α} :
    (x.within spot).Succeeds ↔ x.Succeeds := by
  cases x <;> simp [within]

end Checked

open Checked

section Readers

variable {α : Type} {read : Value → Checked α} {m : List (Scalar × Value)} {v : Value}
  {p : Value → Prop}

theorem succeeds_required {name : String} (hm : ∀ e ∈ m, e.2.IsRawJson)
    (h : ∀ v, v.IsRawJson → ((read v).Succeeds ↔ p v)) :
    (required m name read).Succeeds ↔ Has m name p := by
  rw [required, succeeds_within, Has]
  cases hv : Value.lookup m name with
  | none => simp
  | some v => simpa using h v (hm _ (Value.mem_of_lookup hv))

theorem succeeds_optional {name : String} (hm : ∀ e ∈ m, e.2.IsRawJson)
    (h : ∀ v, v.IsRawJson → ((read v).Succeeds ↔ p v)) :
    (optional m name read).Succeeds ↔ MayHave m name p := by
  rw [optional, MayHave]
  cases hv : Value.lookup m name with
  | none => simp
  | some v => simpa using h v (hm _ (Value.mem_of_lookup hv))

theorem succeeds_onlyFields {names : List String} :
    (onlyFields m names).Succeeds ↔ HasOnly m names := by
  have hstray (k : Scalar) : strayProblem? names k = none ↔ ∃ name ∈ names, k = .str name := by
    cases k <;> simp [strayProblem?]
  have hnone : (m.filterMap fun e => strayProblem? names e.1) = [] ↔ HasOnly m names := by
    simp only [List.filterMap_eq_nil_iff, hstray, HasOnly]
  rw [← hnone, onlyFields]
  split
  · next h => simp [h]
  · next problems hne => simpa using hne

theorem succeeds_all {β : Type} {read : β → Checked α} {l : List β} :
    (all read l).Succeeds ↔ ∀ b ∈ l, (read b).Succeeds := by
  induction l with
  | nil => simp [all]
  | cons b r ih => simp [all, ih]

theorem succeeds_items {l : List Value} (n : Nat) :
    (items read n l).Succeeds ↔ ∀ v ∈ l, (read v).Succeeds := by
  induction l generalizing n with
  | nil => simp [items]
  | cons v r ih => simp [items, ih]

/-- A JSON value that is read as a text is that text. -/
theorem text_eq_ok (hv : v.IsJson) {s : String} : text v = .ok s ↔ v = .str s := by
  cases hv with
  | @scalar x hx => cases x <;> simp_all [text, complain, Scalar.IsJson]
  | list _ => simp [text, complain]
  | mapping _ _ => simp [text, complain]

/-- So is one that is read as a string, whatever surrogates there are in other texts. -/
theorem string_eq_ok (hv : v.IsRawJson) {s : String} : string v = .ok s ↔ v = .str s := by
  cases hv with
  | @scalar x hx => cases x <;> simp_all [string, text, complain, Scalar.IsForeign]
  | list _ => simp [string, text, complain]
  | mapping _ _ => simp [string, text, complain]

theorem someText_eq_ok (hv : v.IsRawJson) {s : String} :
    someText v = .ok s ↔ v = .str s ∧ s ≠ "" := by
  constructor
  · intro h
    obtain ⟨t, ht, hne⟩ := andThen_ok h
    obtain rfl := (string_eq_ok hv).1 ht
    split at hne
    · cases hne
    · next hempty =>
      cases hne
      exact ⟨rfl, by simpa using hempty⟩
  · rintro ⟨rfl, hne⟩
    exact someText_str hne

theorem andThen_matching_eq_ok {x : Checked String} {pattern : Pattern} {s : String} :
    x.andThen (matching pattern) = .ok s ↔ x = .ok s ∧ pattern.matches s.toList := by
  constructor
  · intro h
    obtain ⟨t, rfl, ht⟩ := andThen_ok h
    unfold matching at ht
    split at ht
    · next hmatches =>
      cases ht
      exact ⟨rfl, hmatches⟩
    · cases ht
  · rintro ⟨rfl, hmatches⟩
    exact if_pos hmatches

theorem succeeds_text (hv : v.IsRawJson) : (text v).Succeeds ↔ IsAnyText v := by
  constructor
  · rintro ⟨s, hs⟩
    cases hv with
    | @scalar x hx =>
      cases x with
      | str s => exact ⟨.str s, rfl⟩
      | wild codes => exact ⟨.wild codes, rfl⟩
      | date | moment | bytes => exact absurd trivial hx
      | _ => cases hs
    | list _ => cases hs
    | mapping _ _ => cases hs
  · rintro ⟨t, rfl⟩
    cases t <;> exact ⟨_, rfl⟩

theorem succeeds_someText (hv : v.IsRawJson) : (someText v).Succeeds ↔ IsText (· ≠ "") v := by
  simp [Succeeds, someText_eq_ok hv, IsText]

/-- A pattern that the empty text does not match leaves nothing to the check for emptiness. -/
theorem succeeds_someText_matching {pattern : Pattern} {p : String → Prop} (hv : v.IsRawJson)
    (hp : ∀ s : String, pattern.matches s.toList ↔ p s) (hempty : ¬ p "") :
    ((someText v).andThen (matching pattern)).Succeeds ↔ IsText p v := by
  have hne {s : String} (h : p s) : s ≠ "" := by
    rintro rfl
    exact hempty h
  simp only [Succeeds, andThen_matching_eq_ok, someText_eq_ok hv, hp, IsText, and_assoc]
  exact exists_congr fun s => and_congr_right fun _ => and_iff_right_of_imp hne

theorem succeeds_stepId (hv : v.IsRawJson) :
    ((someText v).andThen (matching .stepId)).Succeeds ↔ IsText IsStepId v := by
  refine succeeds_someText_matching hv (fun _ => isStepId_iff) ?_
  rintro ⟨c, r, h, -⟩
  cases h

theorem succeeds_workflowName (hv : v.IsRawJson) :
    ((someText v).andThen (matching .workflowName)).Succeeds ↔ IsText IsWorkflowName v := by
  refine succeeds_someText_matching hv (fun _ => isWorkflowName_iff) ?_
  rintro ⟨c, r, h, -⟩
  cases h

theorem succeeds_version (hv : v.IsRawJson) :
    ((string v).andThen (matching .version)).Succeeds ↔ IsText IsVersion v := by
  simp only [Succeeds, andThen_matching_eq_ok, string_eq_ok hv, isVersion_iff, IsText]

theorem succeeds_variableType :
    (variableType v).Succeeds ↔ IsText (· ∈ ["string", "number", "boolean", "object"]) v := by
  constructor
  · intro h
    unfold variableType at h
    split at h
    all_goals first | exact ⟨_, rfl, by decide⟩ | simp at h
  · rintro ⟨s, rfl, hs⟩
    simp only [List.mem_cons, List.not_mem_nil, or_false] at hs
    obtain rfl | rfl | rfl | rfl := hs <;> exact ⟨_, rfl⟩

theorem succeeds_policy (hv : v.IsRawJson) :
    (policy v).Succeeds ↔ IsText (· ∈ ["stop", "skip", "continue"]) v := by
  constructor
  · intro h
    unfold policy at h
    split at h
    case h_4 => simp at h
    all_goals
      next hstring => exact ⟨_, (string_eq_ok hv).1 hstring, by decide⟩
  · rintro ⟨s, rfl, hs⟩
    simp only [List.mem_cons, List.not_mem_nil, or_false] at hs
    obtain rfl | rfl | rfl := hs <;> exact ⟨_, rfl⟩

theorem booleanWord?_eq_some {s : String} {b : Bool} :
    booleanWord? s = some b ↔ s.toLower ∈ wordsFor b := by
  -- no word stands for both truth values, so it does not matter which list is searched first
  have hdisjoint : ∀ w ∈ wordsFor false, w ∉ wordsFor true := by decide
  have hword : booleanWord? s =
      if (wordsFor true).contains s.toLower then some true
      else if (wordsFor false).contains s.toLower then some false else none := rfl
  rw [hword]
  simp only [List.contains_iff_mem]
  by_cases ht : s.toLower ∈ wordsFor true
  · have hf := mt (hdisjoint s.toLower) (not_not_intro ht)
    cases b <;> simp [ht, hf]
  · by_cases hf : s.toLower ∈ wordsFor false <;> cases b <;> simp [ht, hf]

theorem bit_eq_ok {n : Int} {b : Bool} : bit n = .ok b ↔ n = b.toInt := by
  unfold bit
  by_cases h₀ : n = 0
  · cases b <;> simp [h₀]
  · by_cases h₁ : n = 1
    · cases b <;> simp [h₁]
    · cases b <;> simp [h₀, h₁, complain]

theorem isFinite_ofInt_toInt (b : Bool) : (Binary64.ofInt b.toInt).isFinite := by
  rw [isFinite_ofInt_iff]
  have hb : b.toInt.natAbs ≤ 1 := by cases b <;> decide
  have hle : pow2 (970 + 1 + 1) ≤ pow2 1024 := pow2_le_pow2 (by decide)
  have hpos := pow2_pos 970
  rw [pow2_succ, pow2_succ] at hle
  omega

/-- What a JSON value is read as where a truth value is expected. -/
theorem boolean_eq_ok (hv : v.IsRawJson) {b : Bool} : boolean v = .ok b ↔ ReadsAs v b := by
  constructor
  · intro h
    unfold boolean at h
    split at h
    · next c =>
      cases h
      exact .bool _
    · next n =>
      split at h
      · obtain rfl := bit_eq_ok.1 h
        exact .int b
      · cases h
    · next x =>
      split at h
      · next n hn =>
        obtain rfl := bit_eq_ok.1 h
        exact .float hn
      · cases h
    · next s =>
      split at h
      · next c hc =>
        cases h
        exact .word (booleanWord?_eq_some.1 hc)
      · cases h
    · cases h
    · cases hv with
      | scalar hforeign => exact absurd trivial hforeign
    · cases h
  · intro h
    cases h with
    | bool b => rfl
    | int b => simp only [boolean, isFinite_ofInt_toInt, if_true, bit_eq_ok]
    | float h => simp only [boolean, h, bit_eq_ok]
    | word h => simp only [boolean, booleanWord?_eq_some.2 h]

theorem succeeds_boolean (hv : v.IsRawJson) : (boolean v).Succeeds ↔ ∃ b, ReadsAs v b := by
  simp only [Succeeds, boolean_eq_ok hv]

theorem succeeds_table (hv : v.IsRawJson) (h : ∀ v, v.IsRawJson → ((read v).Succeeds ↔ p v)) :
    (table read v).Succeeds ↔ IsMapping p v := by
  cases hv with
  | scalar _ => simp [table, IsMapping]
  | list _ => simp [table, IsMapping]
  | @mapping entries hk hv =>
    have hentry (e : Scalar × Value) (he : e ∈ entries) : (entry read e).Succeeds ↔ p e.2 := by
      obtain ⟨t, ht⟩ := hk e he
      have hkey : (text (.scalar e.1)).Succeeds := (succeeds_text (.scalar ?_)).2 ⟨t, ht ▸ rfl⟩
      · simp [entry, hkey, h e.2 (hv e he)]
      · cases t <;> simp [ht, Scalar.ofText, Scalar.IsForeign]
    rw [table, succeeds_map, succeeds_all]
    simp only [IsMapping, Value.mapping.injEq, exists_eq_left']
    exact forall₂_congr hentry

theorem succeeds_orNull (h : (read v).Succeeds ↔ p v) :
    (orNull read v).Succeeds ↔ IsNullOr p v := by
  unfold orNull IsNullOr
  split
  · simp
  · next hne => rw [succeeds_map, h, or_iff_right hne]

theorem succeeds_declaration (hv : v.IsRawJson) :
    (declaration v).Succeeds ↔ ∃ m, v = .mapping m ∧ IsVariable m := by
  cases hv with
  | scalar _ => simp [declaration]
  | list _ => simp [declaration]
  | @mapping m _ hm =>
    have hany : ∀ v : Value, v.IsRawJson → ((Checked.ok v).Succeeds ↔ True) := by simp
    -- any value can stand as a default, so `IsVariable` does not mention it
    have hdefault : MayHave m "default" fun _ => True := fun _ _ => trivial
    simp only [declaration, succeeds_seq, succeeds_map, succeeds_onlyFields,
      succeeds_required hm fun _ => succeeds_text,
      succeeds_required hm fun _ _ => succeeds_variableType,
      succeeds_optional hm hany, succeeds_optional hm fun _ => succeeds_boolean,
      Value.mapping.injEq, exists_eq_left']
    constructor
    · rintro ⟨⟨⟨⟨description, type⟩, -⟩, required⟩, only⟩
      exact ⟨description, type, required, only⟩
    · rintro ⟨description, type, required, only⟩
      exact ⟨⟨⟨⟨description, type⟩, hdefault⟩, required⟩, only⟩

theorem succeeds_step (hv : v.IsRawJson) :
    (step v).Succeeds ↔ ∃ m, v = .mapping m ∧ IsStep m := by
  cases hv with
  | scalar _ => simp [step]
  | list _ => simp [step]
  | @mapping m _ hm =>
    have hany : ∀ v : Value, v.IsRawJson → ((Checked.ok v).Succeeds ↔ True) := by simp
    simp only [step, succeeds_seq, succeeds_map, succeeds_onlyFields,
      succeeds_required hm fun _ => succeeds_stepId,
      succeeds_required hm fun _ => succeeds_someText,
      succeeds_required hm fun _ hv => succeeds_table hv hany,
      succeeds_optional hm fun _ hv => succeeds_orNull (succeeds_text hv),
      succeeds_optional hm fun _ hv => succeeds_table hv fun _ => succeeds_text,
      succeeds_optional hm fun _ => succeeds_policy,
      Value.mapping.injEq, exists_eq_left']
    constructor
    · rintro ⟨⟨⟨⟨⟨⟨⟨id, name⟩, tool⟩, parameters⟩, condition⟩, outputMapping⟩, onError⟩, only⟩
      exact ⟨id, name, tool, parameters, condition, outputMapping, onError, only⟩
    · rintro ⟨id, name, tool, parameters, condition, outputMapping, onError, only⟩
      exact ⟨⟨⟨⟨⟨⟨⟨id, name⟩, tool⟩, parameters⟩, condition⟩, outputMapping⟩, onError⟩, only⟩

/-- The identifier of a step stands in its document. -/
theorem member?_id_of_step (hv : v.IsRawJson) {s : Step} (h : step v = .ok s) :
    v.member? "id" = some (.str s.id) := by
  obtain ⟨m, rfl, hreads⟩ := step_eq_ok.1 h
  obtain ⟨w, hw, hid⟩ := required_ok hreads.id
  obtain ⟨hid, -⟩ := andThen_matching_eq_ok.1 hid
  obtain ⟨rfl, -⟩ := (someText_eq_ok (hv.of_mapping _ (Value.mem_of_lookup hw))).1 hid
  exact hw

/-- The identifiers of steps stand in their documents, in order. -/
theorem map_member?_id_of_items {n : Nat} {l : List Value} (hl : ∀ w ∈ l, w.IsRawJson)
    {steps : List Step} (h : items step n l = .ok steps) :
    l.map (fun w => w.member? "id") = (steps.map Step.id).map fun id => some (.str id) := by
  rw [map_eq_of_items h fun w hw s hs => member?_id_of_step (hl w hw) hs, List.map_map]
  rfl

/-- Steps with distinct identifiers are read from a list of such documents. -/
theorem someItems_step_iff (hv : v.IsRawJson) :
    (∃ steps, someItems step v = .ok steps ∧ (steps.map Step.id).Nodup) ↔ IsSteps v := by
  -- identifiers are compared as texts when they are read, and as members of the documents here
  have hinj : Function.Injective fun id : String => some (Value.str id) := fun a b h => by
    simpa using h
  constructor
  · rintro ⟨steps, h, hnodup⟩
    obtain ⟨l, rfl, hne, hsteps⟩ := (someItems_eq_ok hv).1 h
    refine ⟨l, rfl, hne, fun w hw => ?_,
      map_member?_id_of_items hv.of_list hsteps ▸ hnodup.map hinj⟩
    exact (succeeds_step (hv.of_list w hw)).1 ((succeeds_items 0).1 ⟨steps, hsteps⟩ w hw)
  · rintro ⟨l, rfl, hne, hl, hnodup⟩
    obtain ⟨steps, hsteps⟩ : (items step 0 l).Succeeds :=
      (succeeds_items 0).2 fun w hw => (succeeds_step (hv.of_list w hw)).2 (hl w hw)
    rw [map_member?_id_of_items hv.of_list hsteps] at hnodup
    exact ⟨steps, (someItems_eq_ok hv).2 ⟨l, rfl, hne, hsteps⟩, hnodup.of_map _⟩

theorem succeeds_workflow (hm : ∀ e ∈ m, e.2.IsRawJson) :
    (workflow m).Succeeds ↔ IsWorkflow m := by
  have hversion : (optional m "version"
      (orNull fun v => (string v).andThen (matching .version))).Succeeds ↔
      MayHave m "version" (IsNullOr (IsText IsVersion)) :=
    succeeds_optional hm fun _ hv => succeeds_orNull (succeeds_version hv)
  have hdeclarations : (optional m "variables" (table declaration)).Succeeds ↔
      MayHave m "variables" (IsMapping fun v => ∃ m, v = .mapping m ∧ IsVariable m) :=
    succeeds_optional hm fun _ hv => succeeds_table hv fun _ => succeeds_declaration
  constructor
  · rintro ⟨d, hd⟩
    have hreads := workflow_eq_ok.1 hd
    obtain ⟨w, hw, hitems⟩ := required_ok hreads.steps
    exact ⟨(succeeds_required hm fun _ => succeeds_workflowName).1 ⟨_, hreads.name⟩,
      (succeeds_required hm fun _ => succeeds_someText).1 ⟨_, hreads.description⟩,
      hversion.1 ⟨_, hreads.version⟩, hdeclarations.1 ⟨_, hreads.declarations⟩,
      ⟨w, hw, (someItems_step_iff (hm _ (Value.mem_of_lookup hw))).1 ⟨_, hitems, hreads.ids⟩⟩,
      succeeds_onlyFields.1 ⟨_, hreads.only⟩⟩
  · intro h
    obtain ⟨name, hname⟩ := (succeeds_required hm fun _ => succeeds_workflowName).2 h.name
    obtain ⟨description, hdescription⟩ :=
      (succeeds_required hm fun _ => succeeds_someText).2 h.description
    obtain ⟨version, hv⟩ := hversion.2 h.version
    obtain ⟨declarations, hds⟩ := hdeclarations.2 h.declarations
    obtain ⟨w, hw, hsteps⟩ := h.steps
    obtain ⟨steps, hitems, hids⟩ := (someItems_step_iff (hm _ (Value.mem_of_lookup hw))).2 hsteps
    have hsteps := required_of_lookup (someItems step) hw hitems
    obtain ⟨_, honly⟩ := succeeds_onlyFields.2 h.only
    exact ⟨⟨name, description, version, declarations, steps⟩,
      workflow_eq_ok.2 ⟨hname, hdescription, hv, hds, hsteps, honly, hids⟩⟩

end Readers

/-! ### What is wrong -/

namespace Checked

variable {α β : Type} {x : Checked α}

/-- Whether there is a problem when nothing is read. -/
def Explains (x : Checked α) : Prop := x ≠ .bad []

theorem explains_ok (a : α) : (ok a).Explains := nofun

theorem explains_complain (c : Complaint) : (complain c : Checked α).Explains := by
  simp [Explains, complain]

theorem Explains.within (h : x.Explains) (spot : Spot) : (x.within spot).Explains := by
  cases x with
  | ok a => exact explains_ok a
  | bad ps => simpa [Explains, Checked.within] using h

theorem Explains.map (h : x.Explains) (f : α → β) : (f <$> x).Explains := by
  cases x with
  | ok a => exact explains_ok (f a)
  | bad ps =>
    show bad ps ≠ bad []
    simpa [Explains] using h

theorem Explains.seq {f : Checked (α → β)} (hf : f.Explains) (h : x.Explains) :
    (f <*> x).Explains := by
  cases f with
  | ok g => exact h.map g
  | bad ps =>
    cases x with
    | ok a =>
      show bad ps ≠ bad []
      simpa [Explains] using hf
    | bad qs =>
      show bad (ps ++ qs) ≠ bad []
      simp_all [Explains]

theorem Explains.andThen {f : α → Checked β} (h : x.Explains) (hf : ∀ a, (f a).Explains) :
    (x.andThen f).Explains := by
  cases x with
  | ok a => exact hf a
  | bad ps =>
    show bad ps ≠ bad []
    simpa [Explains] using h

end Checked

section Explains

variable {α β : Type} {read : Value → Checked α} {m : List (Scalar × Value)}

theorem explains_required (name : String) (h : ∀ v, (read v).Explains) :
    (required m name read).Explains := by
  refine Explains.within ?_ _
  split
  · exact h _
  · exact explains_complain _

theorem explains_optional (name : String) (h : ∀ v, (read v).Explains) :
    (optional m name read).Explains := by
  unfold optional
  split
  · exact ((h _).map some).within _
  · exact explains_ok _

theorem explains_onlyFields (names : List String) : (onlyFields m names).Explains := by
  unfold onlyFields
  split
  · exact explains_ok _
  · next problems hne => simpa [Explains] using hne

theorem explains_all {read : β → Checked α} (h : ∀ b, (read b).Explains) (l : List β) :
    (all read l).Explains := by
  induction l with
  | nil => exact explains_ok _
  | cons b r ih => exact ((h b).map List.cons).seq ih

theorem explains_items (h : ∀ v, (read v).Explains) (n : Nat) (l : List Value) :
    (items read n l).Explains := by
  induction l generalizing n with
  | nil => exact explains_ok _
  | cons v r ih => exact (((h v).within _).map List.cons).seq (ih _)

theorem explains_someItems (h : ∀ v, (read v).Explains) (v : Value) :
    (someItems read v).Explains := by
  unfold someItems
  dsimp only
  split
  · exact explains_complain _
  · exact explains_complain _
  · exact explains_items h _ _

theorem explains_text (v : Value) : (text v).Explains := by
  unfold text
  split
  · exact explains_ok _
  · exact explains_ok _
  · split
    · exact explains_ok _
    · exact explains_complain _
  · exact explains_complain _

theorem explains_string (v : Value) : (string v).Explains := by
  unfold string
  split
  · exact explains_complain _
  · exact explains_text _

theorem explains_someText (v : Value) : (someText v).Explains := by
  refine (explains_string v).andThen fun s => ?_
  split
  · exact explains_complain _
  · exact explains_ok _

theorem explains_matching (pattern : Pattern) (s : String) : (matching pattern s).Explains := by
  unfold matching
  split
  · exact explains_ok _
  · exact explains_complain _

theorem explains_orNull (h : ∀ v, (read v).Explains) (v : Value) : (orNull read v).Explains := by
  unfold orNull
  split
  · exact explains_ok _
  · exact (h _).map some

theorem explains_table (h : ∀ v, (read v).Explains) (v : Value) : (table read v).Explains := by
  unfold table
  split
  · refine (explains_all (fun e => ?_) _).map _
    exact ((((explains_text _).within _).within _).map Prod.mk).seq ((h e.2).within _)
  · exact explains_complain _

theorem explains_bit (n : Int) : (bit n).Explains := by
  unfold bit
  split
  · exact explains_ok _
  · split
    · exact explains_ok _
    · exact explains_complain _

theorem explains_boolean (v : Value) : (boolean v).Explains := by
  unfold boolean
  repeat' split
  all_goals first | exact explains_ok _ | exact explains_complain _ | exact explains_bit _

theorem explains_variableType (v : Value) : (variableType v).Explains := by
  unfold variableType
  split <;> first | exact explains_ok _ | exact explains_complain _

theorem explains_policy (v : Value) : (policy v).Explains := by
  unfold policy
  split <;> first | exact explains_ok _ | exact explains_complain _

theorem explains_declaration (v : Value) : (declaration v).Explains := by
  unfold declaration
  split
  · refine .seq (.seq (.seq (.seq (.map ?_ _) ?_) ?_) ?_) (explains_onlyFields _)
    · exact explains_required _ explains_text
    · exact explains_required _ explains_variableType
    · exact explains_optional _ explains_ok
    · exact explains_optional _ explains_boolean
  · exact explains_complain _

theorem explains_step (v : Value) : (step v).Explains := by
  unfold step
  split
  · refine .seq (.seq (.seq (.seq (.seq (.seq (.seq (.map ?_ _) ?_) ?_) ?_) ?_) ?_) ?_)
      (explains_onlyFields _)
    · exact explains_required _ fun v => (explains_someText v).andThen (explains_matching _)
    · exact explains_required _ explains_someText
    · exact explains_required _ explains_someText
    · exact explains_required _ (explains_table explains_ok)
    · exact explains_optional _ (explains_orNull explains_text)
    · exact explains_optional _ (explains_table explains_text)
    · exact explains_optional _ explains_policy
  · exact explains_complain _

theorem explains_workflow (m : List (Scalar × Value)) : (workflow m).Explains := by
  have hversion : ∀ v, ((string v).andThen (matching .version)).Explains := fun v =>
    (explains_string v).andThen (explains_matching _)
  refine Explains.andThen ?_ fun d => ?_
  · refine .seq (.seq (.seq (.seq (.seq (.map ?_ _) ?_) ?_) ?_) ?_) (explains_onlyFields _)
    · exact explains_required _ fun v => (explains_someText v).andThen (explains_matching _)
    · exact explains_required _ explains_someText
    · exact explains_optional _ (explains_orNull hversion)
    · exact explains_optional _ (explains_table explains_declaration)
    · exact explains_required _ (explains_someItems explains_step)
  · -- identifiers are compared only when everything else is right
    unfold distinctSteps
    split
    · exact explains_complain _
    · exact explains_ok _

end Explains

end Schema

namespace Definition

variable {v : Value}

theorem exists_ofDocument_mapping {m : List (Scalar × Value)} :
    (∃ d, ofDocument (.mapping m) = .ok d) ↔ (Schema.workflow m).Succeeds := by
  rw [ofDocument]
  cases Schema.workflow m <;> simp [Schema.Checked.toExcept]

/-- Something is wrong with a document that is rejected. -/
theorem exists_problem (h : ¬ ∃ d, ofDocument v = .ok d) :
    ∃ problems, ofDocument v = .error problems ∧ problems ≠ [] := by
  cases hd : ofDocument v with
  | ok d => exact absurd ⟨d, hd⟩ h
  | error problems =>
    refine ⟨problems, rfl, ?_⟩
    rintro rfl
    unfold ofDocument at hd
    split at hd
    · next m =>
      have hm := Schema.explains_workflow m
      cases hw : Schema.workflow m <;> simp_all [Schema.Checked.toExcept, Schema.Checked.Explains]
    · cases hd

/-- **Which JSON documents are accepted**: the mappings whose members are those of a workflow. Any
other document is rejected, and something is said to be wrong with it. Unpaired surrogates keep a
document from being accepted where a text must not be empty, and nowhere else. -/
theorem ofDocument_iff (hv : v.IsRawJson) :
    ((∃ d, ofDocument v = .ok d) ↔ ∃ m, v = .mapping m ∧ Schema.IsWorkflow m) ∧
      ((¬ ∃ m, v = .mapping m ∧ Schema.IsWorkflow m) →
        ∃ problems, ofDocument v = .error problems ∧ problems ≠ []) := by
  have hiff : (∃ d, ofDocument v = .ok d) ↔ ∃ m, v = .mapping m ∧ Schema.IsWorkflow m := by
    cases hv with
    | scalar _ => simp [ofDocument]
    | list _ => simp [ofDocument]
    | mapping _ hm => simp [exists_ofDocument_mapping, Schema.succeeds_workflow hm]
  exact ⟨hiff, fun h => exists_problem (mt hiff.1 h)⟩

/-- A short document with a step that stands there so many times. -/
def Sample.short (times : Nat) : Value :=
  .ofFields [("name", .str "short"), ("description", .str "A short one"),
    ("steps", .list (List.replicate times (.ofFields [("id", .str "only"), ("name", .str "Only"),
      ("tool", .str "make"), ("parameters", .ofFields [])])))]

theorem Sample.isRawJson_short (times : Nat) : (short times).IsRawJson := by
  refine Value.IsJson.isRawJson ?_
  have hsteps : (Value.list (List.replicate times (.ofFields [("id", .str "only"),
      ("name", .str "Only"), ("tool", .str "make"), ("parameters", .ofFields [])]))).IsJson :=
    .list fun v hv => by
      rw [List.eq_of_mem_replicate hv]
      exact Value.isJson_ofFields (by simp [Value.isJson_str, Value.isJson_ofFields])
  exact Value.isJson_ofFields (by simp [Value.isJson_str, hsteps])

/-- The short document is accepted when its step stands there once, but not when it stands there
twice. -/
theorem ofDocument_iff_sample : (Sample.short 1).IsRawJson ∧ (Sample.short 2).IsRawJson ∧
    (∃ m, Sample.short 1 = .mapping m ∧ Schema.IsWorkflow m) ∧
    ∃ problems, ofDocument (Sample.short 2) = .error problems ∧ problems ≠ [] := by
  have h₁ := Sample.isRawJson_short 1
  have h₂ := Sample.isRawJson_short 2
  refine ⟨h₁, h₂, (ofDocument_iff h₁).1.1 ⟨_, rfl⟩, (ofDocument_iff h₂).2 fun hm => ?_⟩
  obtain ⟨d, hd⟩ := (ofDocument_iff h₂).1.2 hm
  cases hd

/-- The members of a short document with a description. -/
def Sample.described (description : Scalar) : List (Scalar × Value) :=
  [(.str "name", .str "short"), (.str "description", .scalar description),
    (.str "steps", .list [.ofFields [("id", .str "only"), ("name", .str "Only"),
      ("tool", .str "make"), ("parameters", .ofFields [])]])]

/-- **A description with an unpaired surrogate** is a text that is not empty, and all else is as it
has to be. Yet the document is rejected. -/
theorem ofDocument_wild : let m := Sample.described (.wild [0xd800])
    (Value.mapping m).IsRawJson ∧ Schema.Has m "name" (Schema.IsText Schema.IsWorkflowName) ∧
      Schema.Has m "description" (fun v => ∃ t ≠ .str "", v = .scalar (.ofText t)) ∧
      Schema.Has m "steps" Schema.IsSteps ∧ Schema.HasOnly m ["name", "description", "steps"] ∧
      ofDocument (.mapping m) = .error [⟨[.key "description"], .notUnicode⟩] := by
  intro m
  have hm : ∀ e ∈ Sample.described (.str "A short one"), e.2.IsRawJson :=
    (Sample.isRawJson_short 1).of_mapping
  have hworkflow := (Schema.succeeds_workflow hm).1 ⟨_, rfl⟩
  have hname : Schema.Has m "name" (Schema.IsText Schema.IsWorkflowName) := hworkflow.name
  have hsteps : Schema.Has m "steps" Schema.IsSteps := hworkflow.steps
  have hsurrogate : (Value.scalar (.wild [0xd800])).IsRawJson := .scalar id
  refine ⟨.mapping ?_ ?_, hname, ⟨_, rfl, .wild [0xd800], nofun, rfl⟩, hsteps, ?_, rfl⟩
  · simpa [m, Sample.described] using ⟨⟨.str _, rfl⟩, ⟨.str _, rfl⟩, .str _, rfl⟩
  · simp only [Sample.described, List.forall_mem_cons] at hm
    simpa [m, Sample.described, hsurrogate] using ⟨hm.1, hm.2.2.1⟩
  · simp [m, Sample.described, Schema.HasOnly]

end Definition
end Runbook
