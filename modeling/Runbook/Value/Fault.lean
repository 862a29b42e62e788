/-!
# Faults

The causes for which reading a value as a number, a truth value or a text can fail.
-/

namespace Runbook

/-- The greatest number of digits that an integer may have to be read from text or written to it. -/
def numeralLimit : Nat := 4300

/-- A reason why a value has no number, truth value or text. -/
inductive Fault
  /-- An integer beyond every binary64 number has no truth value. -/
  | tooLarge
  /-- An integer that is written in full has more digits than `numeralLimit`. -/
  | tooLong
  /-- A collection that holds itself has no text. -/
  | circular
  /-- A collection that holds itself cannot be walked through. -/
  | bottomless
  /-- A value nests deeper than the stack has room for. -/
  | tooDeep
  /-- A value of this kind has no JSON text. -/
  | foreignValue (kind : String)
  /-- A key of this kind has no JSON text. -/
  | foreignKey (kind : String)
  deriving DecidableEq, Repr

/-- The wording of a fault. -/
def Fault.message : Fault → String
  | tooLarge => "int too large to convert to float"
  | tooLong => "Exceeds the limit (4300 digits) for integer string conversion; " ++
      "use sys.set_int_max_str_digits() to increase the limit"
  | circular => "Circular reference detected"
  | bottomless | tooDeep => "maximum recursion depth exceeded"
  | foreignValue kind => "Object of type " ++ kind ++ " is not JSON serializable"
  | foreignKey kind => "keys must be str, int, float, bool or None, not " ++ kind

end Runbook
