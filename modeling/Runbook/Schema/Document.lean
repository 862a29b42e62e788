import Runbook.Decimal.Layout
import Runbook.Definition
import Runbook.Stack
import Runbook.Text.Utf8
import Runbook.Value.Fault

/-!
# Documents of definitions

The plain document of a definition, made of JSON values alone: the fields that were set, in the
order of their declaration. A value that nests too deep is not written.
-/

namespace Runbook

/-- Why a value has no plain form. -/
inductive DumpFault
  /-- Bytes that encode no text. -/
  | notUnicode
  /-- A collection that holds itself. -/
  | circular
  /-- More levels than a value of a document may have. -/
  | tooDeep
  deriving DecidableEq, Repr

namespace Scalar

/-- The plain form of a scalar: bytes are read as text, dates become texts, and numbers that are not
finite become null. -/
def plain : Scalar → Except DumpFault Scalar
  | float x => .ok (if x.isFinite then float x else null)
  | date d => .ok (str d.text)
  | moment t => .ok (str t.isoText)
  | bytes b =>
    match decodeUtf8? b with
    | some s => .ok (str s)
    | none => .error .notUnicode
  | s => .ok s

/-- The characters of a key with a code point: three bytes of their own stand for a surrogate, and
none of them is a character. -/
def keyChars (n : Nat) : List Char :=
  List.replicate (if n.isValidChar then 1 else 3) (charOfNat n)

/-- The plain form of a key, which is a text. -/
def plainKey : Scalar → Except DumpFault String
  | null => .ok "None"
  | bool b => .ok (if b then "true" else "false")
  | int n => .ok (intText n)
  | float x => .ok (x.text .display)
  | str s => .ok s
  | wild codes => .ok (String.ofList (codes.flatMap keyChars))
  | date d => .ok d.text
  | moment t => .ok t.isoText
  | bytes b =>
    match decodeUtf8? b with
    | some s => .ok s
    | none => .error .notUnicode

end Scalar

namespace Value

/-- The plain form of a value in at most so many levels: sets and pairs become lists, and keys
texts. -/
def plain : Nat → Value → Except DumpFault Value
  | _, endless _ => .error .circular
  | 0, _ => .error .tooDeep
  | _ + 1, scalar s => s.plain.map scalar
  | room + 1, list items => (items.mapM (plain room)).map list
  | room + 1, mapping entries => do
    let fields ← entries.mapM fun e => do return (← e.1.plainKey, ← plain room e.2)
    return ofFields (Table.ofEntries fields)
  | room + 1, set members => (members.mapM fun s => plain room (scalar s)).map list
  | room + 1, pair a b => do return list [← plain room a, ← plain room b]

/-- A field of a document that is written only when it was set. -/
def optionalField (name : String) : Option Value → List (String × Value)
  | some v => [(name, v)]
  | none => []

/-- A text or null. -/
def ofText? : Option String → Value
  | some s => str s
  | none => null

end Value

open Value in
/-- The document of a declared variable. -/
def Variable.document (v : Variable) : Except DumpFault Value := do
  let default ← v.default.mapM (plain documentLimit)
  return ofFields ([("description", str v.description), ("type", str v.type.text)] ++
    optionalField "default" default ++ optionalField "required" (v.required.map bool))

open Value in
/-- The document of a step. -/
def Step.document (s : Step) : Except DumpFault Value := do
  let parameters ← s.parameters.mapM fun e => do return (e.1, ← plain documentLimit e.2)
  return ofFields ([("id", str s.id), ("name", str s.name), ("tool", str s.tool),
      ("parameters", ofFields parameters)] ++
    optionalField "condition" (s.condition.map ofText?) ++
    optionalField "output_mapping"
      (s.outputMapping.map fun t => ofFields (t.map fun e => (e.1, str e.2))) ++
    optionalField "on_error" (s.onError.map fun p => str p.text))

open Value in
/-- The document of a definition. -/
def Definition.document (d : Definition) : Except DumpFault Value := do
  let declarations ← d.declarations.mapM fun t => t.mapM fun e => do return (e.1, ← e.2.document)
  let steps ← d.steps.mapM Step.document
  return ofFields ([("name", str d.name), ("description", str d.description)] ++
    optionalField "version" (d.version.map ofText?) ++
    optionalField "variables" (declarations.map ofFields) ++
    [("steps", list steps)])

end Runbook
