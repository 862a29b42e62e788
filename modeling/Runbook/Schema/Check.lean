import Runbook.Definition
import Runbook.Schema.Pattern
import Runbook.Text.Utf8

/-!
# The schema of definitions

Reading a document as a workflow definition. Every problem is found, in the order of the declared
fields, the members that are not declared last; that no two steps share an identifier is looked at
only when nothing else is wrong.
-/

namespace Runbook
namespace Schema

/-! ### Readers of parts -/

/-- A text, or bytes that encode one. -/
def text : Value → Checked String
  | .str s => .ok s
  | .scalar (.wild codes) => .ok (Text.wild codes).string
  | .scalar (.bytes b) =>
    match decodeUtf8? b with
    | some s => .ok s
    | none => .complain .notUnicode
  | _ => .complain .notText

/-- A text that is a string, as one has to be for its characters to be looked at. -/
def string : Value → Checked String
  | .scalar (.wild _) => .complain .notUnicode
  | v => text v

/-- A text with at least one character. -/
def someText (v : Value) : Checked String :=
  (string v).andThen fun s => if s.isEmpty then .complain .noCharacter else .ok s

/-- A text that matches a pattern. -/
def matching (pattern : Pattern) (s : String) : Checked String :=
  if pattern.matches s.toList then .ok s else .complain (.mismatch pattern)

/-- A value that may also be null. -/
def orNull {α : Type} (read : Value → Checked α) : Value → Checked (Option α)
  | .null => .ok none
  | v => some <$> read v

/-- The words that read as true and as false, in any case. -/
def booleanWord? (s : String) : Option Bool :=
  let word := s.toLower
  if ["1", "on", "t", "true", "y", "yes"].contains word then some true
  else if ["0", "off", "f", "false", "n", "no"].contains word then some false
  else none

/-- Read a number that has to be zero or one as a truth value. -/
def bit (n : Int) : Checked Bool :=
  if n = 0 then .ok false else if n = 1 then .ok true else .complain .unreadableBoolean

/-- A truth value, a word for one, or zero or one. -/
def boolean : Value → Checked Bool
  | .bool b => .ok b
  | .int n => if (Binary64.ofInt n).isFinite then bit n else .complain .notBoolean
  | .float x =>
    match x.toInt? with
    | some n => bit n
    | none => .complain .notBoolean
  | .str s =>
    match booleanWord? s with
    | some b => .ok b
    | none => .complain .unreadableBoolean
  | .scalar (.wild _) => .complain .notUnicode
  | .scalar (.bytes b) =>
    match (decodeUtf8? b).bind booleanWord? with
    | some b => .ok b
    | none => .complain .unreadableBoolean
  | _ => .complain .notBoolean

/-- A word for a type of variables. -/
def variableType : Value → Checked VariableType
  | .str "string" => .ok .string
  | .str "number" => .ok .number
  | .str "boolean" => .ok .boolean
  | .str "object" => .ok .object
  | _ => .complain .notVariableType

/-- A word for a policy. -/
def policy (v : Value) : Checked Policy :=
  match string v with
  | .ok "stop" => .ok .stop
  | .ok "skip" => .ok .skip
  | .ok "continue" => .ok .continue
  | _ => .complain .notPolicy

/-! ### Readers of collections -/

/-- A member that has to be there. -/
def required {α : Type} (entries : List (Scalar × Value)) (name : String)
    (read : Value → Checked α) : Checked α :=
  Checked.within (.key name) (match Value.lookup entries name with
    | some v => read v
    | none => .complain .missing)

/-- A member that may be absent. -/
def optional {α : Type} (entries : List (Scalar × Value)) (name : String)
    (read : Value → Checked α) : Checked (Option α) :=
  match Value.lookup entries name with
  | some v => Checked.within (.key name) (some <$> read v)
  | none => .ok none

/-- What is wrong with a member that no field declares. -/
def strayProblem? (fields : List String) : Scalar → Option Problem
  | .str name => if fields.contains name then none else some ⟨[.key name], .extra⟩
  | .wild codes => some ⟨[Spot.ofKey (.wild codes)], .extra⟩
  | .bytes b => some ⟨[Spot.ofKey (.bytes b)], .extra⟩
  | k => some ⟨[Spot.ofKey k], .keyNotText⟩

/-- There are no members but the declared ones. -/
def onlyFields (entries : List (Scalar × Value)) (fields : List String) : Checked Unit :=
  match entries.filterMap fun e => strayProblem? fields e.1 with
  | [] => .ok ()
  | problems => .bad problems

/-- An entry of a table: a text key and a value. -/
def entry {α : Type} (read : Value → Checked α) (e : Scalar × Value) : Checked (String × α) :=
  let spot := Spot.ofKey e.1
  Prod.mk <$> Checked.within spot (Checked.within .keyItself (text (.scalar e.1))) <*>
    Checked.within spot (read e.2)

/-- All members of a list, or all their problems. -/
def all {α β : Type} (read : α → Checked β) : List α → Checked (List β)
  | [] => .ok []
  | a :: r => List.cons <$> read a <*> all read r

/-- A mapping from texts. -/
def table {α : Type} (read : Value → Checked α) : Value → Checked (Table String α)
  | .mapping entries => Table.ofEntries <$> all (entry read) entries
  | _ => .complain .notMapping

/-- The items of a list, numbered from an index. -/
def items {α : Type} (read : Value → Checked α) : Nat → List Value → Checked (List α)
  | _, [] => .ok []
  | i, v :: r => List.cons <$> Checked.within (.item i) (read v) <*> items read (i + 1) r

/-- A list with at least one item; the members of a set and of a pair count as items. -/
def someItems {α : Type} (read : Value → Checked α) (v : Value) : Checked (List α) :=
  let list := match v with
    | .list l => some l
    | .set members => some (members.map .scalar)
    | .pair a b => some [a, b]
    | _ => none
  match list with
  | none => .complain .notList
  | some [] => .complain .noItem
  | some l => items read 0 l

/-! ### The definition -/

/-- A declared variable. -/
def declaration : Value → Checked Variable
  | .mapping m =>
    (fun description type default required _ => ⟨description, type, default, required⟩) <$>
      required m "description" text <*> required m "type" variableType <*>
      optional m "default" .ok <*> optional m "required" boolean <*>
      onlyFields m ["description", "type", "default", "required"]
  | _ => .complain (.notInstance "VariableSpec")

/-- A step. -/
def step : Value → Checked Step
  | .mapping m =>
    (fun id name tool parameters condition outputMapping onError _ =>
      ⟨id, name, tool, parameters, condition, outputMapping, onError⟩) <$>
      required m "id" (fun v => (someText v).andThen (matching .stepId)) <*>
      required m "name" someText <*> required m "tool" someText <*>
      required m "parameters" (table .ok) <*>
      optional m "condition" (orNull text) <*>
      optional m "output_mapping" (table text) <*>
      optional m "on_error" policy <*>
      onlyFields m
        ["id", "name", "tool", "parameters", "condition", "output_mapping", "on_error"]
  | _ => .complain (.notInstance "StepDefinition")

/-- The first identifier that occurs a second time. -/
def duplicate? : List String → Option String
  | ids => go [] ids
where
  /-- The first identifier that is among the ones seen before it. -/
  go (seen : List String) : List String → Option String
    | [] => none
    | id :: r => if seen.contains id then some id else go (id :: seen) r

/-- No two steps share an identifier. -/
def distinctSteps (d : Definition) : Checked Definition :=
  match duplicate? (d.steps.map Step.id) with
  | some id => .complain (.duplicateId id)
  | none => .ok d

/-- The members of a workflow document. -/
def workflow (m : List (Scalar × Value)) : Checked Definition :=
  Checked.andThen
    ((fun name description version declarations steps _ =>
      ⟨name, description, version, declarations, steps⟩) <$>
      required m "name" (fun v => (someText v).andThen (matching .workflowName)) <*>
      required m "description" someText <*>
      optional m "version" (orNull fun v => (string v).andThen (matching .version)) <*>
      optional m "variables" (table declaration) <*>
      required m "steps" (someItems step) <*>
      onlyFields m ["name", "description", "version", "variables", "steps"])
    distinctSteps

end Schema

/-- Read a document as a workflow definition, or list everything that is wrong with it. -/
def Definition.ofDocument : Value → Except (List Schema.Problem) Definition
  | .mapping m => (Schema.workflow m).toExcept
  | v => .error [⟨[], .notObject v.kind⟩]

end Runbook
