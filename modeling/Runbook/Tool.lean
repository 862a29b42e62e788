import Runbook.Table
import Runbook.Value.Display

/-!
# Tools

The boundary to the tools that steps call. A tool is a function of its own state, its name and the
parameters; its answer is read as a response made of text blocks.
-/

namespace Runbook

/-- One text block of a response. -/
structure TextBlock where
  text : String
  kind : String
  deriving DecidableEq, Repr

/-- What a tool answers. -/
structure Response where
  content : List TextBlock
  isError : Bool
  deriving DecidableEq, Repr

namespace Response

/-- The texts of all blocks, one per line. -/
def text (r : Response) : String :=
  "\n".intercalate (r.content.map TextBlock.text)

/-- Success with one text. -/
def ok (text : String) : Response := ⟨[⟨text, "text"⟩], false⟩

/-- Failure with one text. -/
def error (text : String) : Response := ⟨[⟨text, "text"⟩], true⟩

end Response

/-- What a tool returns: a response, or a value that has to be read as one. -/
inductive Returned
  | response (r : Response)
  | value (v : Value)

/-- Why a returned value is no response. -/
inductive Malformed
  /-- The value is not a mapping. -/
  | result (kind : String)
  /-- The content has no items. -/
  | content (kind : String)
  /-- A block of the content is not a mapping. -/
  | block (kind : String)
  /-- A member of a block has no display. -/
  | member (f : Fault)
  deriving DecidableEq, Repr

/-- The wording of a malformed response. -/
def Malformed.message : Malformed → String
  | result kind => "Tool executor returned unsupported result type " ++ kind
  | content kind => "'" ++ kind ++ "' object is not iterable"
  | block kind => "'" ++ kind ++ "' object has no attribute 'get'"
  | member f => f.message

/-- Whether a value counts as given: nothing, false, zero and whatever is empty do not. -/
def Value.isGiven : Value → Bool
  | null => false
  | bool b => b
  | int n => n ≠ 0
  | float x => x.place? ≠ some 0
  | str s => s ≠ ""
  | scalar (.bytes b) => !b.isEmpty
  | list items => !items.isEmpty
  | mapping entries => !entries.isEmpty
  | set members => !members.isEmpty
  | _ => true

namespace Response

/-- The items of a content: those of a list, the characters of a text, the keys of a mapping. -/
def items : Value → Except Malformed (List Value)
  | .list items => .ok items
  | .str s => .ok (s.toList.map fun c => .str (String.ofList [c]))
  | .scalar (.wild codes) => .ok (codes.map fun n => .scalar (.ofText (.ofCodes [n])))
  | .mapping entries => .ok (entries.map fun e => .scalar e.1)
  | .set members => .ok (members.map .scalar)
  | .pair a b => .ok [a, b]
  | v => .error (.content v.kind)

/-- The display of a member of a block, with a default if it is missing. -/
def member (entries : List (Scalar × Value)) (key preset : String) : Except Malformed String :=
  match Value.lookup entries key with
  | some v => (v.displayWithin (some numeralLimit)).mapError .member
  | none => .ok preset

/-- Read a block of a content. -/
def block : Value → Except Malformed TextBlock
  | .mapping entries => do
    return ⟨← member entries "text" "", ← member entries "type" "text"⟩
  | v => .error (.block v.kind)

/-- Read a value as a response: the blocks of its `content`, and whether `isError`, or without it
`is_error`, is given. -/
def ofValue : Value → Except Malformed Response
  | .mapping entries => do
    let content := (Value.lookup entries "content").getD .null
    let blocks ← if content.isGiven then items content >>= List.mapM block else .ok []
    let flag := ((Value.lookup entries "isError").or (Value.lookup entries "is_error")).getD
      (.bool false)
    return ⟨blocks, flag.isGiven⟩
  | v => .error (.result v.kind)

/-- The response that a tool returned. -/
def ofReturned : Returned → Except Malformed Response
  | .response r => .ok r
  | .value v => ofValue v

end Response

/-- How a tool call ends. -/
inductive Outcome
  | returned (r : Returned)
  /-- An ordinary exception, raised by the call or while its answer is read: the name of its kind,
  and its text. Making the text runs code of the exception, which can raise another exception in
  turn; then the name of the kind of that one stands for the text. An exception that is no ordinary
  one, such as a request to end the program, counts as one that raises itself there. -/
  | raised (kind : String) (text : Except String String)
  /-- The call is cancelled, and the run is not. If making the text of the cancellation raises an
  exception, that exception is `raised`. -/
  | cancelled (message : String)
  /-- The run itself is cancelled during the call. -/
  | interrupted

/-- A tool executor with a state: called with a tool name and parameters. -/
abbrev Tools (σ : Type) := σ → String → Table String Value → Outcome × σ

end Runbook
