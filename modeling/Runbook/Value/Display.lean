import Runbook.Decimal.Layout
import Runbook.Text.Quoted
import Runbook.Value.Basic
import Runbook.Value.Fault

/-!
# Displayed values

The display of a value for a human reader: a text is shown bare on its own and in quotes inside a
collection; numbers, truth values and nothing have words of their own. An integer of too many digits
cannot be displayed.
-/

namespace Runbook
namespace Scalar

/-- The display of a date as a constructor call. -/
def dateCall (d : Date) : String :=
  "datetime.date(" ++ ", ".intercalate ([d.year, d.month, d.day].map (padLeft 1)) ++ ")"

/-- The display of an offset as a constructor call; negative offsets are normalised to a day and
seconds after it. -/
def offsetCall (o : Int) : String :=
  if o = 0 then "datetime.timezone.utc"
  else
    let seconds := "seconds=" ++ intText ((o % 1440) * 60)
    "datetime.timezone(datetime.timedelta(" ++
      (if o < 0 then "days=-1, " ++ seconds else seconds) ++ "))"

/-- The display of a moment as a constructor call; seconds and microseconds are left out when they
are zero with all that follows. -/
def momentCall (t : Moment) : String :=
  let parts := [t.date.year, t.date.month, t.date.day, t.hour, t.minute] ++
    (if t.microsecond ≠ 0 then [t.second, t.microsecond]
      else if t.second ≠ 0 then [t.second] else [])
  let zone := match t.offset with
    | none => ""
    | some o => ", tzinfo=" ++ offsetCall o
  "datetime.datetime(" ++ ", ".intercalate (parts.map (padLeft 1)) ++ zone ++ ")"

/-- The display of a scalar inside a collection. -/
def quoted : Scalar → String
  | null => "None"
  | bool b => if b then "True" else "False"
  | int n => intText n
  | float x => x.text .display
  | str s => Runbook.quoted s
  | wild codes => Runbook.quoted (Text.wild codes).string
  | date d => dateCall d
  | moment t => momentCall t
  | bytes b => quotedBytes b

/-- The display of a scalar on its own. -/
def display : Scalar → String
  | str s => s
  | wild codes => (Text.wild codes).string
  | date d => d.text
  | moment t => t.text
  | s => s.quoted

/-- Whether a scalar is an integer of more digits than a limit. -/
def exceeds (limit : Nat) : Scalar → Bool
  | int n => limit < digitCount n.natAbs
  | _ => false

end Scalar

namespace Value

mutual

/-- The display of a value inside a collection. -/
def quoted : Value → String
  | scalar s => s.quoted
  | list items => "[" ++ quotedItems items ++ "]"
  | mapping entries => "\x7b" ++ quotedEntries entries ++ "\x7d"
  | set [] => "set()"
  | set members => "\x7b" ++ ", ".intercalate (members.map Scalar.quoted) ++ "\x7d"
  | pair a b => "(" ++ quoted a ++ ", " ++ quoted b ++ ")"
  | endless true => "\x7b...\x7d"
  | endless false => "[...]"

/-- The displays of items, separated by commas. -/
def quotedItems : List Value → String
  | [] => ""
  | [v] => quoted v
  | v :: r => quoted v ++ ", " ++ quotedItems r

/-- The displays of entries, separated by commas. -/
def quotedEntries : List (Scalar × Value) → String
  | [] => ""
  | [(k, v)] => k.quoted ++ ": " ++ quoted v
  | (k, v) :: r => k.quoted ++ ": " ++ quoted v ++ ", " ++ quotedEntries r

end

/-- The display of a value on its own. -/
def display : Value → String
  | scalar s => s.display
  | v => v.quoted

mutual

/-- Whether an integer of more digits than a limit is part of a value. -/
def exceeds (limit : Nat) : Value → Bool
  | scalar s => s.exceeds limit
  | list items => itemsExceed limit items
  | mapping entries => entriesExceed limit entries
  | set members => members.any (Scalar.exceeds limit)
  | pair a b => exceeds limit a || exceeds limit b
  | endless _ => false

/-- Whether an integer of more digits than a limit is part of an item. -/
def itemsExceed (limit : Nat) : List Value → Bool
  | [] => false
  | v :: r => exceeds limit v || itemsExceed limit r

/-- Whether an integer of more digits than a limit is part of a key or of its value. -/
def entriesExceed (limit : Nat) : List (Scalar × Value) → Bool
  | [] => false
  | (k, v) :: r => k.exceeds limit || exceeds limit v || entriesExceed limit r

end

/-- The display of a value on its own, unless it has an integer of more digits than the limit, if
there is one. -/
def displayWithin (limit : Option Nat) (v : Value) : Except Fault String :=
  if limit.any (v.exceeds ·) then .error .tooLong else .ok v.display

/-- The word for the kind of a value. -/
def kind : Value → String
  | scalar .null => "NoneType"
  | scalar (.bool _) => "bool"
  | scalar (.int _) => "int"
  | scalar (.float _) => "float"
  | scalar (.str _) | scalar (.wild _) => "str"
  | scalar (.date _) => "date"
  | scalar (.moment _) => "datetime"
  | scalar (.bytes _) => "bytes"
  | list _ => "list"
  | mapping _ => "dict"
  | set _ => "set"
  | pair _ _ => "tuple"
  | endless isMapping => if isMapping then "dict" else "list"

end Value
end Runbook
