import Runbook.Binary64.Basic
import Runbook.Text.Digits
import Runbook.Text.Newline
import Runbook.Text.Split

/-!
# Tags

A tag says what kind of value a node stands for. A plain text without a tag gets one by its form:
words for nothing and for truth values, numbers, dates, the marks of merged entries and of a
mapping's own text; any other text stands for itself.
-/

namespace Runbook
namespace Yaml

/-- What a node stands for. -/
inductive Tag
  | null | bool | int | float | str | binary | timestamp
  | seq | map | set | omap | pairs
  /-- The key under which entries of other mappings are taken over. -/
  | merge
  /-- The key under which a mapping has a text of its own. -/
  | value
  /-- Any other tag; no value has it. -/
  | unknown
  deriving DecidableEq, Repr

namespace Tag

/-- The tag of a full name. -/
def ofName (name : String) : Tag :=
  match name with
  | "tag:yaml.org,2002:null" => null
  | "tag:yaml.org,2002:bool" => bool
  | "tag:yaml.org,2002:int" => int
  | "tag:yaml.org,2002:float" => float
  | "tag:yaml.org,2002:str" => str
  | "tag:yaml.org,2002:binary" => binary
  | "tag:yaml.org,2002:timestamp" => timestamp
  | "tag:yaml.org,2002:seq" => seq
  | "tag:yaml.org,2002:map" => map
  | "tag:yaml.org,2002:set" => set
  | "tag:yaml.org,2002:omap" => omap
  | "tag:yaml.org,2002:pairs" => pairs
  | "tag:yaml.org,2002:merge" => merge
  | "tag:yaml.org,2002:value" => value
  | _ => unknown

/-- Whether values of a tag have parts. -/
def isCollection : Tag → Bool
  | seq | map | set | omap | pairs => true
  | _ => false

end Tag

/-! ### Forms of plain texts -/

namespace Form

/-- Whether a character is a digit or an underscore. -/
def isDigitOrLow (c : Char) : Bool := c.isDigit || c = '_'

/-- A text without its sign. -/
def unsigned : List Char → List Char
  | c :: r => if c = '+' || c = '-' then r else c :: r
  | [] => []

/-- A digit and then digits and underscores. -/
def isDigits : List Char → Bool
  | c :: r => c.isDigit && r.all isDigitOrLow
  | [] => false

/-- A number below sixty of one or two digits. -/
def isSixtieth : List Char → Bool
  | [d] => d.isDigit
  | [t, d] => '0' ≤ t && t ≤ '5' && d.isDigit
  | _ => false

/-- Whether a text is a word for a truth value. -/
def isTruthWord (cs : List Char) : Bool :=
  ["yes", "Yes", "YES", "no", "No", "NO", "true", "True", "TRUE", "false", "False", "FALSE",
    "on", "On", "ON", "off", "Off", "OFF"].contains (String.ofList cs)

/-- Whether a text is a word for nothing. -/
def isNullWord (cs : List Char) : Bool :=
  ["~", "null", "Null", "NULL"].contains (String.ofList cs)

/-- Whether an exponent may end a number: it has a sign and digits. -/
def isExponent : List Char → Bool
  | [] => true
  | e :: s :: d :: r =>
    (e = 'e' || e = 'E') && (s = '+' || s = '-') && d.isDigit && r.all Char.isDigit
  | _ => false

/-- Whether a text is a number with a point: decimal, in sixtieths, infinite or none. -/
def isFloat (cs : List Char) : Bool :=
  let u := unsigned cs
  match u.takeWhile (· ≠ '.'), u.dropWhile (· ≠ '.') with
  | [], '.' :: fraction =>
    ["inf", "Inf", "INF"].contains (String.ofList fraction) ||
      (u.length = cs.length &&
        (["nan", "NaN", "NAN"].contains (String.ofList fraction) ||
          (fraction.head?.any Char.isDigit && isExponent (fraction.dropWhile isDigitOrLow))))
  | whole, '.' :: fraction =>
    match pieces ':' whole with
    | [digits] => isDigits digits && isExponent (fraction.dropWhile isDigitOrLow)
    | digits :: others => isDigits digits && others.all isSixtieth && fraction.all isDigitOrLow
    | [] => false
  | _, _ => false

/-- Whether a text is an integer: binary, octal, decimal, hexadecimal or in sixtieths. -/
def isInt (cs : List Char) : Bool :=
  match unsigned cs with
  | ['0'] => true
  | '0' :: 'b' :: r => !r.isEmpty && r.all fun c => c = '0' || c = '1' || c = '_'
  | '0' :: 'x' :: r => !r.isEmpty && r.all fun c => (hexValue? c).isSome || c = '_'
  | '0' :: r => r.all fun c => ('0' ≤ c && c ≤ '7') || c = '_'
  | u =>
    match pieces ':' u with
    | digits :: others => isDigits digits && others.all isSixtieth
    | [] => false

end Form

/-! ### Timestamps -/

/-- The parts of a date, possibly with a time of day. -/
structure Timestamp where
  year : Nat
  month : Nat
  day : Nat
  time : Option (Nat × Nat × Nat)
  /-- The digits of the fraction of a second. -/
  fraction : List Char
  /-- The offset from UTC in minutes; none without a zone. -/
  offset : Option Int
  deriving DecidableEq, Repr

namespace Timestamp

/-- One or two digits that a list starts with. -/
def short? : List Char → Option (Nat × List Char)
  | a :: r =>
    if !a.isDigit then none
    else match r with
      | b :: rest =>
        if b.isDigit then some (natOfDigits [a, b], rest) else some (natOfDigits [a], r)
      | [] => some (natOfDigits [a], [])
  | [] => none

/-- As many digits that a list starts with. -/
def digits? (n : Nat) (cs : List Char) : Option (Nat × List Char) :=
  let ds := cs.take n
  if ds.length = n && ds.all Char.isDigit then some (natOfDigits ds, cs.drop n) else none

/-- A character that a list starts with. -/
def mark? (c : Char) : List Char → Option (List Char)
  | d :: r => if d = c then some r else none
  | [] => none

/-- Whether a character is a space or a tab. -/
def isGap (c : Char) : Bool := c = ' ' || c = '\t'

/-- A zone that takes up a whole list: nothing, a `Z`, or a sign with hours and possibly minutes. -/
def zone? (cs : List Char) : Option (Option Int) :=
  match cs, cs.dropWhile isGap with
  | [], _ => some none
  | _, ['Z'] => some (some 0)
  | _, sign :: r =>
    if sign ≠ '+' && sign ≠ '-' then none
    else do
      let (hours, r) ← short? r
      let minutes ← if r.isEmpty then some 0 else do
        let (minutes, r) ← (mark? ':' r).bind (digits? 2)
        if r.isEmpty then some minutes else none
      return some (signed (sign = '-') (hours * 60 + minutes))
  | _, [] => none

/-- A time of day and a zone that take up a whole list. -/
def timeOf? (day : Timestamp) (cs : List Char) : Option Timestamp := do
  let (hour, r) ← short? cs
  let (minute, r) ← (mark? ':' r).bind (digits? 2)
  let (second, r) ← (mark? ':' r).bind (digits? 2)
  let (fraction, r) := match r with
    | '.' :: r => spanDigits r
    | r => ([], r)
  let offset ← zone? r
  return { day with time := some (hour, minute, second), fraction := fraction, offset := offset }

/-- Read a whole list as a date, or as a date and a time with a `T` or a gap between them. -/
def ofChars? (cs : List Char) : Option Timestamp := do
  let (year, r) ← digits? 4 cs
  let (month, r) ← (mark? '-' r).bind short?
  let (day, r) ← (mark? '-' r).bind short?
  let date : Timestamp := ⟨year, month, day, none, [], none⟩
  match r with
  | [] => some date
  | c :: r =>
    if c = 'T' || c = 't' then timeOf? date r
    else if isGap c then timeOf? date (r.dropWhile isGap)
    else none

end Timestamp

/-- Whether a text is a timestamp by its form; a date alone has ten characters. -/
def Form.isTimestamp (cs : List Char) : Bool :=
  (Timestamp.ofChars? cs).any fun t => t.time.isSome || cs.length = 10

/-- The tag of a plain text by its form. -/
def Tag.ofPlain (text : String) : Tag :=
  let cs := dropLineEnd text.toList
  if text = "" then null
  else if Form.isTruthWord cs then bool
  else if Form.isFloat cs then float
  else if Form.isInt cs then int
  else if cs = ['<', '<'] then merge
  else if Form.isNullWord cs then null
  else if Form.isTimestamp cs then timestamp
  else if cs = ['='] then value
  else if cs = ['!'] || cs = ['&'] || cs = ['*'] then unknown
  else str

end Yaml
end Runbook
