import Runbook.Files.Path
import Runbook.Run.Log
import Runbook.Settings.EnvFile
import Runbook.Text.Case
import Runbook.Text.Newline
import Runbook.Value.Basic

/-!
# Settings

The settings of the engine. Each comes from the arguments of the caller, the environment, the
environment file or its default, in this order; a name of the environment may be written in any
case, and the full name of a setting wins over its short name.
-/

namespace Runbook

/-- The settings. -/
structure Settings where
  customDir : Option FilePath
  saveDir : FilePath
  summaryLength : Nat
  logLevel : LogLevel
  deriving Repr

namespace Settings

/-- What is wrong with a setting. -/
inductive Complaint
  | notPath
  | notInteger
  | fractional
  | notFinite
  | unreadableInteger
  | oversizedInteger
  | notPositive
  | notText
  | unknownLevel (text : String)
  deriving DecidableEq, Repr

/-- The wording of a complaint. -/
def Complaint.text : Complaint → String
  | notPath => "Input is not a valid path for <class 'pathlib.Path'>"
  | notInteger => "Input should be a valid integer"
  | fractional => "Input should be a valid integer, got a number with a fractional part"
  | notFinite => "Input should be a finite number"
  | unreadableInteger => "Input should be a valid integer, unable to parse string as an integer"
  | oversizedInteger => "Unable to parse input string as an integer, exceeded maximum size"
  | notPositive => "Value error, output_summary_length must be positive"
  | notText => "Input should be a valid string"
  | unknownLevel text => "Value error, Unknown log level: " ++ text

/-- A complaint and the name under which the setting was given. -/
structure Problem where
  name : String
  complaint : Complaint
  deriving DecidableEq, Repr

/-! ### Reading of single settings -/

/-- A path. -/
def path : Value → Except Complaint FilePath
  | .str s => .ok (.ofText s)
  | _ => .error .notPath

/-- A path or null. -/
def optionalPath : Value → Except Complaint (Option FilePath)
  | .null => .ok none
  | v => (path v).map some

/-- The rest of a numeral from its first digit that is not a leading zero; the last character stays,
and so does a zero before a point. -/
def dropZeros : List Char → Option (List Char)
  | [] => none
  | '0' :: r =>
    match r with
    | [] => some ['0']
    | '.' :: rest => some ('0' :: '.' :: rest)
    | '_' :: r => afterUnderscore r
    | c :: rest => if c.isDigit then dropZeros (c :: rest) else none
  | c :: r => if c.isDigit then some (c :: r) else none
where
  /-- The same after an underscore. -/
  afterUnderscore : List Char → Option (List Char)
    | [] => some ['_']
    | '.' :: rest => some ('_' :: '.' :: rest)
    | '_' :: r => afterUnderscore r
    | c :: rest => if c.isDigit then dropZeros (c :: rest) else none

/-- A numeral without a fraction of zeros. -/
def dropZeroFraction (cs : List Char) : List Char :=
  match cs.dropWhile (· ≠ '.') with
  | '.' :: zeros => if zeros.all (· = '0') then cs.takeWhile (· ≠ '.') else cs
  | _ => cs

/-- Whether underscores stand only between other characters. -/
def underscoresInside : List Char → Bool
  | [] => true
  | ['_'] => false
  | '_' :: '_' :: _ => false
  | _ :: r => underscoresInside r

/-- The digits of an integer in canonical form. -/
def digits? (negative : Bool) : List Char → Option Int
  | [] => none
  | '0' :: _ :: _ => none
  | ds => if ds.all Char.isDigit then some (signed negative (natOfDigits ds)) else none

/-- Read an integer: white space around it, a plus sign, leading zeros, a fraction of zeros and
single underscores between digits are allowed. -/
def integerText (s : String) : Except Complaint Int :=
  let cs := trimBy isWhiteSpace s.toList
  let cleaned := match cs with
    | '-' :: r => some ('-' :: r)
    | '+' :: r => dropZeros r
    | r => dropZeros r
  match cleaned.map dropZeroFraction with
  | none => .error .unreadableInteger
  | some cs =>
    if cs.head? = some '_' || !underscoresInside cs then .error .unreadableInteger
    else
      let cs := cs.filter (· ≠ '_')
      if 4300 < cs.length then .error .oversizedInteger
      else
        match (match cs with
          | '-' :: ds => digits? true ds
          | ds => digits? false ds) with
        | some n => .ok n
        | none => .error .unreadableInteger

/-- An integer. -/
def integer : Value → Except Complaint Int
  | .bool b => .ok (if b then 1 else 0)
  | .int n => .ok n
  | .float x =>
    if !x.isFinite then .error .notFinite
    else match x.toInt? with
      | some n => .ok n
      | none => .error .fractional
  | .str s => integerText s
  | _ => .error .notInteger

/-- A positive integer. -/
def positive (v : Value) : Except Complaint Nat := do
  let n ← integer v
  if n ≤ 0 then throw .notPositive else return n.toNat

/-- The name of a level, in any case and with blanks around it. -/
def level : Value → Except Complaint LogLevel
  | .str s =>
    match LogLevel.ofText? (upperCase (trim s)) with
    | some l => .ok l
    | none => .error (.unknownLevel s)
  | _ => .error .notText

/-! ### Sources -/

/-- Where settings come from: the arguments of the caller, the environment in order, and the text of
the environment file if there is one. -/
structure Sources where
  arguments : Table String Value
  environment : Table String String
  envFile : Option String

/-- The last value of a variable whose name is a given one in lower case. -/
def valueOf {α : Type} (table : Table String α) (name : String) : Option α :=
  (table.reverse.find? fun e => lowerCase e.1 = name).map Prod.snd

/-- The variables of the environment file. -/
def Sources.fileVariables (s : Sources) : Table String (Option String) :=
  match s.envFile with
  | some text => EnvFile.read s.environment (String.ofList (unifyLineEnds text.toList))
  | none => []

/-- The value of a setting, with the name under which it was found. -/
def Sources.find? (s : Sources) (file : Table String (Option String)) (full short : String) :
    Option (String × Value) :=
  let argument (name : String) := (s.arguments.get? name).map fun v => (name, v)
  let fromEnvironment (name : String) :=
    ((valueOf s.environment (lowerCase name)).or (valueOf file (lowerCase name)).join).map fun v =>
      (name, Value.str v)
  (argument full).or ((argument short).or ((fromEnvironment full).or (fromEnvironment short)))

/-- Read one setting. -/
def Sources.read {α : Type} (s : Sources) (file : Table String (Option String))
    (full short : String) (default : α) (parse : Value → Except Complaint α) :
    α × List Problem :=
  match s.find? file full short with
  | none => (default, [])
  | some (name, v) =>
    match parse v with
    | .ok a => (a, [])
    | .error c => (default, [⟨name, c⟩])

/-- Load the settings, or list everything that is wrong with them. -/
def load (s : Sources) : Except (List Problem) Settings :=
  let file := s.fileVariables
  let (customDir, p1) := s.read file "WORKFLOWS_CUSTOM_DIR" "custom_dir" none optionalPath
  let (saveDir, p2) := s.read file "WORKFLOWS_SAVE_DIR" "save_dir" (.ofText "workflows") path
  let (summaryLength, p3) :=
    s.read file "WORKFLOWS_OUTPUT_SUMMARY_LENGTH" "output_summary_length" 500 positive
  let (logLevel, p4) := s.read file "WORKFLOWS_LOG_LEVEL" "log_level" .info level
  match p1 ++ p2 ++ p3 ++ p4 with
  | [] => .ok ⟨customDir, saveDir, summaryLength, logLevel⟩
  | problems => .error problems

end Settings
end Runbook
