import Runbook.Value.Display

/-!
# JSON text

Writing of values as JSON text. A style fixes the separators, whether characters beyond ASCII are
escaped, and what becomes of values that JSON does not have.
-/

namespace Runbook
namespace Json

/-- The decisions of a JSON text. -/
structure Style where
  itemSeparator : String
  keySeparator : String
  /-- Whether characters beyond printable ASCII are escaped. -/
  asciiOnly : Bool
  /-- Whether values that JSON lacks are written as their display; otherwise they are refused. -/
  showsForeign : Bool
  /-- The greatest number of digits of an integer, if there is one. -/
  digitLimit : Option Nat

namespace Style

/-- The text of collections in placeholders and comparisons. -/
def compact : Style := ⟨",", ":", false, true, some numeralLimit⟩

/-- The text of parameters in plans. -/
def spaced : Style := ⟨", ", ": ", false, false, some numeralLimit⟩

/-- Text in ASCII. -/
def ascii : Style := ⟨", ", ": ", true, false, some numeralLimit⟩

/-- Text that keeps every value apart, however long its integers. -/
def full : Style := ⟨",", ":", false, true, none⟩

end Style

/-- The escape of a UTF-16 unit. -/
def unitEscape (n : Nat) : String :=
  "\\u" ++ hexDigits 4 n

/-- The escape of a character by one or two UTF-16 units. -/
def unicodeEscape (c : Char) : String :=
  let n := c.toNat
  if n < 0x10000 then unitEscape n
  else unitEscape (0xd800 + (n - 0x10000) / 0x400) ++ unitEscape (0xdc00 + (n - 0x10000) % 0x400)

/-- A character inside a JSON string. -/
def stringChar (asciiOnly : Bool) (c : Char) : String :=
  if c = '"' then "\\\""
  else if c = '\\' then "\\\\"
  else if c = '\n' then "\\n"
  else if c = '\r' then "\\r"
  else if c = '\t' then "\\t"
  else if c = '\x08' then "\\b"
  else if c = '\x0c' then "\\f"
  else if c.toNat < 0x20 then unicodeEscape c
  else if asciiOnly && 0x7f ≤ c.toNat then unicodeEscape c
  else String.ofList [c]

/-- A JSON string. -/
def stringText (asciiOnly : Bool) (s : String) : String :=
  (s.toList.foldl (fun acc c => acc ++ stringChar asciiOnly c) "\"").push '"'

/-- The digits of an integer, within the limit of the style. -/
def intText (style : Style) (n : Int) : Except Fault String :=
  let text := Runbook.intText n
  match style.digitLimit with
  | some limit =>
    if limit < (text.toList.filter Char.isDigit).length then .error .tooLong else .ok text
  | none => .ok text

/-- A value that JSON lacks. -/
def foreign (style : Style) (v : Value) : Except Fault String :=
  if style.showsForeign then
    (v.displayWithin style.digitLimit).map (stringText style.asciiOnly)
  else .error (.foreignValue v.kind)

/-- The text of a scalar. -/
def scalarText (style : Style) : Scalar → Except Fault String
  | .null => .ok "null"
  | .bool b => .ok (if b then "true" else "false")
  | .int n => intText style n
  | .float x => .ok (x.text .json)
  | .str s => .ok (stringText style.asciiOnly s)
  | .wild codes => .ok (stringText style.asciiOnly (Text.wild codes).string)
  | s => foreign style (.scalar s)

/-- The text that a key stands for. -/
def keyText (style : Style) : Scalar → Except Fault String
  | .str s => .ok s
  | .wild codes => .ok (Text.wild codes).string
  | .date d => .error (.foreignKey (Value.scalar (.date d)).kind)
  | .moment t => .error (.foreignKey (Value.scalar (.moment t)).kind)
  | .bytes b => .error (.foreignKey (Value.scalar (.bytes b)).kind)
  | k => scalarText style k

mutual

/-- The JSON text of a value. -/
def text (style : Style) : Value → Except Fault String
  | .scalar s => scalarText style s
  | .list items => do return "[" ++ (← itemsText style items) ++ "]"
  | .mapping entries => do return "\x7b" ++ (← entriesText style entries) ++ "\x7d"
  | .set members => foreign style (.set members)
  | .pair a b => do
    let first ← text style a
    let second ← text style b
    return "[" ++ first ++ style.itemSeparator ++ second ++ "]"
  | .endless _ => .error .circular

/-- The texts of items with separators between them. -/
def itemsText (style : Style) : List Value → Except Fault String
  | [] => .ok ""
  | [v] => text style v
  | v :: r => do
    let first ← text style v
    let others ← itemsText style r
    return first ++ style.itemSeparator ++ others

/-- The texts of entries with separators between them. -/
def entriesText (style : Style) : List (Scalar × Value) → Except Fault String
  | [] => .ok ""
  | [(k, v)] => do
    let key ← keyText style k
    let value ← text style v
    return stringText style.asciiOnly key ++ style.keySeparator ++ value
  | (k, v) :: r => do
    let key ← keyText style k
    let value ← text style v
    let others ← entriesText style r
    return stringText style.asciiOnly key ++ style.keySeparator ++ value ++ style.itemSeparator ++
      others

end

end Json
end Runbook
