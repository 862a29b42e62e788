import Runbook.Table
import Runbook.Text.Blank

/-!
# Environment files

A file of lines `NAME=value`. Names and values may be quoted, `export` may stand in front, a number
sign starts a comment, and a value may refer to other variables as `$` and a name in braces, with a
default after `:-`. A line that cannot be read is skipped.
-/

namespace Runbook
namespace EnvFile

/-- Whether a character ends a line. -/
def isLineEnd (c : Char) : Bool :=
  c = '\n' || c = '\r'

/-- Whether a character is blank and ends no line. -/
def isInlineBlank (c : Char) : Bool :=
  isBlank c && !isLineEnd c

/-- The text in quotes that a list starts with, after its opening quote, and the rest. A quote after
a backslash belongs to the text, unless no other quote follows. -/
def untilQuote? (quote : Char) : List Char → Option (List Char × List Char)
  | [] => none
  | c :: r =>
    if c = quote then some ([], r)
    else if c = '\\' then
      match r with
      | [] => none
      | d :: r' =>
        if d = quote then
          match untilQuote? quote r' with
          | some (inside, rest) => some (c :: d :: inside, rest)
          | none => some ([c], r')
        else (untilQuote? quote (d :: r')).map fun p => (c :: p.1, p.2)
    else (untilQuote? quote r).map fun p => (c :: p.1, p.2)
termination_by cs => cs.length

/-- The escapes of double quotes. -/
def doubleEscape? : Char → Option Char
  | '\\' => some '\\'
  | '\'' => some '\''
  | '"' => some '"'
  | 'a' => some '\x07'
  | 'b' => some '\x08'
  | 'f' => some '\x0c'
  | 'n' => some '\n'
  | 'r' => some '\r'
  | 't' => some '\t'
  | 'v' => some '\x0b'
  | _ => none

/-- The escapes of single quotes. -/
def singleEscape? : Char → Option Char
  | '\\' => some '\\'
  | '\'' => some '\''
  | _ => none

/-- Replace escapes; a backslash before anything else stands for itself. -/
def unescape (escape? : Char → Option Char) : List Char → List Char
  | [] => []
  | [c] => [c]
  | c :: d :: r =>
    if c = '\\' then
      match escape? d with
      | some e => e :: unescape escape? r
      | none => c :: unescape escape? (d :: r)
    else c :: unescape escape? (d :: r)

/-- A line without the comment that a number sign after blanks starts. -/
def dropComment : List Char → List Char
  | [] => []
  | c :: r =>
    if isBlank c && (r.dropWhile isBlank).head? = some '#' then [] else c :: dropComment r

/-- Read a value after its equals sign: in quotes, or the rest of the line without comment and
without blanks at its end. -/
def value? (cs : List Char) : Option (List Char × List Char) :=
  match cs with
  | '\'' :: r => (untilQuote? '\'' r).map fun p => (unescape singleEscape? p.1, p.2)
  | '"' :: r => (untilQuote? '"' r).map fun p => (unescape doubleEscape? p.1, p.2)
  | _ =>
    let line := cs.takeWhile fun c => !isLineEnd c
    some (((dropComment line).reverse.dropWhile isBlank).reverse, cs.drop line.length)

/-- The rest after the word `export` and blanks, if a list starts with them. -/
def dropExport (cs : List Char) : List Char :=
  match cs with
  | 'e' :: 'x' :: 'p' :: 'o' :: 'r' :: 't' :: c :: r =>
    if isInlineBlank c then r.dropWhile isInlineBlank else cs
  | _ => cs

/-- Read a name: none before a comment, in single quotes, or up to a blank, an equals sign or a
number sign. -/
def name? (cs : List Char) : Option (Option (List Char) × List Char) :=
  match cs with
  | '#' :: _ => some (none, cs)
  | '\'' :: r =>
    match r.takeWhile (· ≠ '\''), r.dropWhile (· ≠ '\'') with
    | [], _ => none
    | _, [] => none
    | inside, _ :: rest => some (some inside, rest)
  | _ =>
    let stops (c : Char) : Bool := c = '=' || c = '#' || isBlank c
    match cs.takeWhile (!stops ·) with
    | [] => none
    | inside => some (some inside, cs.dropWhile (!stops ·))

/-- The rest after a comment, if one starts here. -/
def skipComment (cs : List Char) : List Char :=
  match cs.dropWhile isInlineBlank with
  | '#' :: r => r.dropWhile fun c => !isLineEnd c
  | _ => cs

/-- The rest after blanks and the end of the line. -/
def lineEnd? (cs : List Char) : Option (List Char) :=
  match cs.dropWhile isInlineBlank with
  | [] => some []
  | '\r' :: '\n' :: r => some r
  | c :: r => if isLineEnd c then some r else none

/-- The rest after the line. -/
def skipLine (cs : List Char) : List Char :=
  match cs.dropWhile fun c => !isLineEnd c with
  | _ :: r => r
  | [] => []

/-- A line that was read: the name and value if it has any, and the rest. A line that cannot be read
is skipped from where reading stopped. -/
def line (cs : List Char) : Option (String × Option String) × List Char :=
  let cs := dropExport cs
  match name? cs with
  | none => (none, skipLine cs)
  | some (name, r) =>
    let r := r.dropWhile isInlineBlank
    let value := match r with
      | '=' :: r => (r.dropWhile isInlineBlank, true)
      | _ => (r, false)
    match (if value.2 then (value? value.1).map fun p => (some (String.ofList p.1), p.2)
      else some (none, value.1)) with
    | none => (none, skipLine value.1)
    | some (v, r) =>
      let r := skipComment r
      match lineEnd? r with
      | some rest => (name.map fun n => (String.ofList n, v), rest)
      | none => (none, skipLine r)

/-- Read the lines of a file; every line is shorter than what is left. -/
def lines (cs : List Char) : List (String × Option String) :=
  match cs.dropWhile isBlank with
  | [] => []
  | c :: r =>
    let (binding, rest) := line (c :: r)
    let others := if rest.length < cs.length then lines rest else []
    match binding with
    | some b => b :: others
    | none => others
termination_by cs.length

/-- The variable reference that a list starts with: its name, its default and the rest. -/
def reference? : List Char → Option (List Char × Option (List Char) × List Char)
  | '$' :: '{' :: r =>
    let name := r.takeWhile fun c => c ≠ '}' && c ≠ ':'
    match r.dropWhile fun c => c ≠ '}' && c ≠ ':' with
    | '}' :: rest => some (name, none, rest)
    | ':' :: '-' :: r =>
      match r.dropWhile (· ≠ '}') with
      | _ :: rest => some (name, some (r.takeWhile (· ≠ '}')), rest)
      | [] => none
    | _ => none
  | _ => none

/-- Replace the references of a value. A variable without value counts as empty, one that is unknown
as its default. -/
def expand (lookup : String → Option (Option String)) (cs : List Char) : List Char :=
  match cs with
  | [] => []
  | c :: r =>
    match reference? (c :: r) with
    | some (name, default, rest) =>
      let value := match lookup (String.ofList name) with
        | some (some v) => v.toList
        | some none => []
        | none => default.getD []
      if _h : rest.length < (c :: r).length then value ++ expand lookup rest else []
    | none => c :: expand lookup r
termination_by cs.length
decreasing_by
  · assumption
  · exact Nat.lt_succ_self _

/-- Replace the references in the values of a file, line by line; a variable of the file wins over
one of the environment. -/
def expandAll (env : Table String String) :
    Table String (Option String) → List (String × Option String) → Table String (Option String)
  | done, [] => done
  | done, (name, value) :: r =>
    let lookup (n : String) : Option (Option String) :=
      (done.get? n).or ((env.get? n).map some)
    let value := value.map fun v => String.ofList (expand lookup v.toList)
    expandAll env (done.set name value) r

/-- Read a file; a line without equals sign gives a variable without value. -/
def read (env : Table String String) (text : String) : Table String (Option String) :=
  expandAll env [] (lines text.toList)

end EnvFile
end Runbook
