import Runbook.Json.Reader

/-!
# Messages of the JSON reader

The wording of each cause, followed by the line, the column and the offset of its place.
-/

namespace Runbook
namespace Json

/-- The wording of a cause. -/
def Cause.text : Cause → String
  | value => "Expecting value"
  | comma => "Expecting ',' delimiter"
  | colon => "Expecting ':' delimiter"
  | key => "Expecting property name enclosed in double quotes"
  | extra => "Extra data"
  | unterminated => "Unterminated string starting at"
  | control => "Invalid control character at"
  | escape => "Invalid \\escape"
  | unicodeEscape => "Invalid \\uXXXX escape"
  | byteOrderMark => "Unexpected UTF-8 BOM (decode using utf-8-sig)"
  | longInteger digits =>
    "Exceeds the limit (4300 digits) for integer string conversion: value has " ++
      padLeft 1 digits ++ " digits; use sys.set_int_max_str_digits() to increase the limit"
  | constant => "Not a number of JSON"
  | tooDeep => Fault.bottomless.message

/-- Whether the wording of a cause ends with its place. -/
def Cause.isPlaced : Cause → Bool
  | longInteger _ => false
  | tooDeep => false
  | _ => true

/-- The line, from 1, of what follows a list of characters. -/
def lineAfter (cs : List Char) : Nat :=
  cs.count '\n' + 1

/-- The column, from 1, of what follows a list of characters. -/
def columnAfter (cs : List Char) : Nat :=
  (cs.reverse.takeWhile (· ≠ '\n')).length + 1

/-- The message for a text that stops being JSON. -/
def Stop.message (cs : List Char) (e : Stop) : String :=
  if e.cause.isPlaced then
    let offset := cs.length - e.remaining
    let before := cs.take offset
    e.cause.text ++ ": line " ++ padLeft 1 (lineAfter before) ++ " column " ++
      padLeft 1 (columnAfter before) ++ " (char " ++ padLeft 1 offset ++ ")"
  else e.cause.text

end Json
end Runbook
