import Runbook.Decimal.Literal
import Runbook.Stack
import Runbook.Table
import Runbook.Value.Fault

/-!
# Reading JSON

A reader of JSON text as a machine with a stack of open collections: every step consumes at least
one character, and an error names its cause and the place where the text stops being JSON.
-/

namespace Runbook
namespace Json

/-- What becomes of an integer with more than `numeralLimit` digits. -/
inductive LongIntegers
  | refused
  | asFloats
  | exact
  deriving DecidableEq

/-- The liberties of a reader. -/
structure Dialect where
  /-- Whether the words `NaN`, `Infinity` and `-Infinity` are numbers. -/
  constants : Bool
  longIntegers : LongIntegers
  /-- Whether texts keep unpaired surrogates; otherwise strings stand for them. -/
  surrogates : Bool
  /-- The greatest number of collections open at once. -/
  depth : Nat

/-- The dialect of definition files. -/
def Dialect.document [Stack] : Dialect := ⟨true, .refused, true, Stack.document⟩

/-- The dialect of tool outputs. -/
def Dialect.output [Stack] : Dialect := ⟨false, .asFloats, false, Stack.output⟩

/-- The value of a text. -/
def Dialect.scalar (dialect : Dialect) (t : Text) : Scalar :=
  if dialect.surrogates then .ofText t else .str t.string

@[simp] theorem Dialect.scalar_str (dialect : Dialect) (s : String) :
    dialect.scalar (.str s) = .str s :=
  ite_id _

/-- Why a text is not JSON. -/
inductive Cause
  | value
  | comma
  | colon
  | key
  | extra
  | unterminated
  | control
  | escape
  | unicodeEscape
  | byteOrderMark
  | longInteger (digits : Nat)
  | constant
  | tooDeep
  deriving DecidableEq, Repr

/-- A cause and the number of characters from its place to the end of the text. -/
structure Stop where
  cause : Cause
  remaining : Nat
  deriving DecidableEq, Repr

/-- The character of a one-letter escape. -/
def escaped? : Char → Option Char
  | '"' => some '"'
  | '\\' => some '\\'
  | '/' => some '/'
  | 'b' => some '\x08'
  | 'f' => some '\x0c'
  | 'n' => some '\n'
  | 'r' => some '\r'
  | 't' => some '\t'
  | _ => none

/-- Whether a UTF-16 unit is the first of a pair. -/
def isHighUnit (n : Nat) : Bool := 0xd800 ≤ n && n < 0xdc00

/-- Whether a UTF-16 unit is the second of a pair. -/
def isLowUnit (n : Nat) : Bool := 0xdc00 ≤ n && n < 0xe000

/-- The code point of a pair of UTF-16 units. -/
def joinUnits (high low : Nat) : Nat :=
  0x10000 + (high - 0xd800) * 0x400 + (low - 0xdc00)

/-- The UTF-16 unit of the four hexadecimal digits that a list starts with; more has to follow. -/
def unit? : List Char → Option (Nat × List Char)
  | a :: b :: c :: d :: e :: r => (hexNumber? [a, b, c, d]).map fun n => (n, e :: r)
  | _ => none

/-- The escape of the second unit of a pair that a list starts with. -/
def lowUnit? : List Char → Option (Nat × List Char)
  | '\\' :: 'u' :: r => (unit? r).filter fun x => isLowUnit x.1
  | _ => none

/-- Read the code point of an escape after its backslash. -/
def escape : List Char → Except Cause (Nat × List Char)
  | [] => .error .unterminated
  | 'u' :: r =>
    match unit? r with
    | none => .error .unicodeEscape
    | some (n, r) =>
      match (if isHighUnit n then lowUnit? r else none) with
      | some (m, r) => .ok (joinUnits n m, r)
      | none => .ok (n, r)
  | c :: r =>
    match escaped? c with
    | some e => .ok (e.toNat, r)
    | none => .error .escape

theorem length_of_unit? {cs r : List Char} {n : Nat} (h : unit? cs = some (n, r)) :
    r.length < cs.length := by
  unfold unit? at h
  split at h
  · simp only [Option.map_eq_some_iff, Prod.mk.injEq] at h
    obtain ⟨_, _, _, rfl⟩ := h
    simp only [List.length_cons]; omega
  · simp at h

theorem length_of_lowUnit? {cs r : List Char} {n : Nat} (h : lowUnit? cs = some (n, r)) :
    r.length < cs.length := by
  unfold lowUnit? at h
  split at h
  · have := length_of_unit? (Option.filter_eq_some_iff.1 h).1
    simp only [List.length_cons]; omega
  · simp at h

theorem length_of_escape {cs r : List Char} {n : Nat} (h : escape cs = .ok (n, r)) :
    r.length < cs.length := by
  unfold escape at h
  split at h
  · simp at h
  · split at h
    · simp at h
    · next hu =>
      have h1 := length_of_unit? hu
      split at h
      · next hl =>
        split at hl
        · have h2 := length_of_lowUnit? hl
          simp only [Except.ok.injEq, Prod.mk.injEq] at h
          rw [← h.2, List.length_cons]; omega
        · simp at hl
      · simp only [Except.ok.injEq, Prod.mk.injEq] at h
        rw [← h.2, List.length_cons]; omega
  · split at h
    · simp only [Except.ok.injEq, Prod.mk.injEq] at h
      rw [← h.2, List.length_cons]; omega
    · simp at h

/-- Where an escape goes wrong: a string without end is named at its opening quote, a unit at its
letter, any other escape at its backslash. -/
def escapeStop (start : Nat) (rest : List Char) (cause : Cause) : Stop :=
  ⟨cause, match cause with
    | .unterminated => start
    | .unicodeEscape => rest.length
    | _ => rest.length + 1⟩

/-- Read a string after its opening quote. The code points read so far are in reverse, and `start`
is the number of characters from the opening quote on. -/
def string (start : Nat) (acc : List Nat) (cs : List Char) : Except Stop (Text × List Char) :=
  match cs with
  | [] => .error ⟨.unterminated, start⟩
  | c :: r =>
    if c = '"' then .ok (.ofCodes acc.reverse, r)
    else if c = '\\' then
      match h : escape r with
      | .ok (n, rest) =>
        have := length_of_escape h
        string start (n :: acc) rest
      | .error cause => .error (escapeStop start r cause)
    else if c.toNat < 0x20 then .error ⟨.control, r.length + 1⟩
    else string start (c.toNat :: acc) r
termination_by cs.length

/-- A string leaves less than it was given. -/
theorem length_of_string {start : Nat} {acc : List Nat} {cs r : List Char} {t : Text}
    (h : string start acc cs = .ok (t, r)) : r.length < cs.length := by
  fun_induction string start acc cs with
  | case1 => simp at h
  | case2 =>
    simp only [Except.ok.injEq, Prod.mk.injEq] at h
    rw [← h.2, List.length_cons]; omega
  | case3 =>
    rename_i hl ih
    have := ih h
    simp only [List.length_cons]; omega
  | case4 => simp at h
  | case5 => simp at h
  | case6 =>
    rename_i ih
    have := ih h
    simp only [List.length_cons]; omega

/-- The integer digits that a number starts with: a zero alone, or digits without leading zero. -/
def wholeDigits : List Char → List Char × List Char
  | '0' :: r => (['0'], r)
  | cs => spanDigits cs

/-- The fraction that a list starts with, with its point; a point without digits is none. -/
def fraction : List Char → List Char × List Char
  | '.' :: c :: r => if c.isDigit then let (ds, r) := spanDigits (c :: r); ('.' :: ds, r)
    else ([], '.' :: c :: r)
  | cs => ([], cs)

/-- The sign that a list starts with, if there is one. -/
def spanSign : List Char → List Char × List Char
  | '+' :: r => (['+'], r)
  | '-' :: r => (['-'], r)
  | cs => ([], cs)

/-- The exponent that a list starts with; a letter without digits is none. -/
def exponent : List Char → List Char × List Char
  | [] => ([], [])
  | e :: r =>
    if e = 'e' ∨ e = 'E' then
      let (sign, ds) := spanSign r
      let (digits, rest) := spanDigits ds
      if digits.isEmpty then ([], e :: r) else (e :: sign ++ digits, rest)
    else ([], e :: r)

/-- The number of a numeral without its sign. -/
def number (dialect : Dialect) (negative : Bool) (whole fraction exponent : List Char) :
    Except Cause Scalar :=
  let float := match Decimal.ofChars? (whole ++ fraction ++ exponent) with
    | some x => Scalar.float (x.toBinary64 negative)
    | none => .float .nan
  if fraction.isEmpty && exponent.isEmpty then
    if whole.length ≤ numeralLimit then .ok (.int (signed negative (natOfDigits whole)))
    else match dialect.longIntegers with
      | .refused => .error (.longInteger whole.length)
      | .asFloats => .ok float
      | .exact => .ok (.int (signed negative (natOfDigits whole)))
  else .ok float

/-- Read a numeral without its sign. -/
def numeral (dialect : Dialect) (negative : Bool) (cs : List Char) :
    Except Cause (Scalar × List Char) :=
  let (whole, r) := wholeDigits cs
  if whole.isEmpty then .error .value
  else
    let (frac, r) := fraction r
    let (exp, r) := exponent r
    (number dialect negative whole frac exp).map fun x => (x, r)

/-- A number that is a word. -/
def constant (dialect : Dialect) (x : Binary64) (rest : List Char) :
    Except Cause (Scalar × List Char) :=
  if dialect.constants then .ok (.float x, rest) else .error .constant

/-- Read a word or a number. -/
def atom (dialect : Dialect) : List Char → Except Cause (Scalar × List Char)
  | 'n' :: 'u' :: 'l' :: 'l' :: r => .ok (.null, r)
  | 't' :: 'r' :: 'u' :: 'e' :: r => .ok (.bool true, r)
  | 'f' :: 'a' :: 'l' :: 's' :: 'e' :: r => .ok (.bool false, r)
  | 'N' :: 'a' :: 'N' :: r => constant dialect .nan r
  | 'I' :: 'n' :: 'f' :: 'i' :: 'n' :: 'i' :: 't' :: 'y' :: r =>
    constant dialect (.infinity false) r
  | '-' :: 'I' :: 'n' :: 'f' :: 'i' :: 'n' :: 'i' :: 't' :: 'y' :: r =>
    constant dialect (.infinity true) r
  | '-' :: r => numeral dialect true r
  | cs => numeral dialect false cs

theorem length_spanDigits_lt {cs : List Char} (h : (spanDigits cs).1 ≠ []) :
    (spanDigits cs).2.length < cs.length := by
  cases cs with
  | nil => simp [spanDigits] at h
  | cons c r =>
    by_cases hc : c.isDigit
    · have := (List.dropWhile_sublist Char.isDigit (l := r)).length_le
      simp [spanDigits, hc]; omega
    · simp [spanDigits, hc] at h

theorem length_wholeDigits {cs : List Char} (h : (wholeDigits cs).1 ≠ []) :
    (wholeDigits cs).2.length < cs.length := by
  revert h
  unfold wholeDigits
  split
  · simp
  · exact length_spanDigits_lt

theorem length_fraction (cs : List Char) : (fraction cs).2.length ≤ cs.length := by
  unfold fraction
  split
  · split
    · simp only [spanDigits]
      exact Nat.le_succ_of_le (List.dropWhile_sublist Char.isDigit).length_le
    · exact Nat.le_refl _
  · exact Nat.le_refl _

theorem length_spanSign (cs : List Char) : (spanSign cs).2.length ≤ cs.length := by
  unfold spanSign
  split <;> simp

theorem length_exponent (cs : List Char) : (exponent cs).2.length ≤ cs.length := by
  cases cs with
  | nil => simp [exponent]
  | cons e r =>
    have h1 := length_spanSign r
    have h2 := (List.dropWhile_sublist Char.isDigit (l := (spanSign r).2)).length_le
    simp only [exponent]
    split
    · split
      · exact Nat.le_refl _
      · simp only [spanDigits, List.length_cons]; omega
    · exact Nat.le_refl _

theorem length_of_numeral {dialect : Dialect} {negative : Bool} {cs r : List Char} {x : Scalar}
    (h : numeral dialect negative cs = .ok (x, r)) : r.length < cs.length := by
  unfold numeral at h
  have h1 := length_fraction (wholeDigits cs).2
  have h2 := length_exponent (fraction (wholeDigits cs).2).2
  by_cases hw : (wholeDigits cs).1 = []
  · simp [hw] at h
  · have h0 := length_wholeDigits hw
    simp only [List.isEmpty_iff, hw, if_false] at h
    cases hn : number dialect negative (wholeDigits cs).1 (fraction (wholeDigits cs).2).1
        (exponent (fraction (wholeDigits cs).2).2).1 with
    | error e => simp [hn, Except.map] at h
    | ok y =>
      simp only [hn, Except.map, Except.ok.injEq, Prod.mk.injEq] at h
      rw [← h.2]; omega

/-- A word or number leaves less than it was given. -/
theorem length_of_atom {dialect : Dialect} {cs r : List Char} {x : Scalar}
    (h : atom dialect cs = .ok (x, r)) : r.length < cs.length := by
  unfold atom at h
  split at h
  all_goals first
    | (simp only [constant] at h; split at h <;> simp_all; omega)
    | (have hl := length_of_numeral h; simp only [List.length_cons]; omega)
    | exact length_of_numeral h
    | (simp only [Except.ok.injEq, Prod.mk.injEq] at h
       rw [← h.2]; simp only [List.length_cons]; omega)

/-- An open collection: the items read so far, in reverse, or the members read so far with the key
whose value is being read. -/
inductive Frame
  | items (done : List Value)
  | members (done : List (Scalar × Value)) (key : Scalar)

/-- What the text has to go on with. -/
inductive Goal
  | value
  | firstItem
  | firstKey (entries : List (Scalar × Value))
  | key (entries : List (Scalar × Value))
  | colon (entries : List (Scalar × Value)) (key : Scalar)
  | after (v : Value)

/-- Whether a character is white space between tokens. -/
def isSpace (c : Char) : Bool :=
  c = ' ' || c = '\t' || c = '\n' || c = '\r'

/-- Run the machine over a text. -/
def run (dialect : Dialect) (goal : Goal) (frames : List Frame) (cs : List Char) :
    Except Stop Value :=
  match cs with
  | [] =>
    match goal, frames with
    | .after v, [] => .ok v
    | .after _, _ => .error ⟨.comma, 0⟩
    | .colon _ _, _ => .error ⟨.colon, 0⟩
    | .firstKey _, _ => .error ⟨.key, 0⟩
    | .key _, _ => .error ⟨.key, 0⟩
    | _, _ => .error ⟨.value, 0⟩
  | c :: r =>
    if isSpace c then run dialect goal frames r
    else
      match goal with
      | .after v =>
        match frames with
        | [] => .error ⟨.extra, r.length + 1⟩
        | .items done :: frames =>
          if c = ',' then run dialect .value (.items (v :: done) :: frames) r
          else if c = ']' then run dialect (.after (.list (v :: done).reverse)) frames r
          else .error ⟨.comma, r.length + 1⟩
        | .members done key :: frames =>
          let entries := Table.set done key v
          if c = ',' then run dialect (.key entries) frames r
          else if c = '}' then run dialect (.after (.mapping entries)) frames r
          else .error ⟨.comma, r.length + 1⟩
      | .colon entries key =>
        if c = ':' then run dialect .value (.members entries key :: frames) r
        else .error ⟨.colon, r.length + 1⟩
      | .firstKey entries =>
        if c = '}' then run dialect (.after (.mapping entries)) frames r
        else if c = '"' then
          match h : string (r.length + 1) [] r with
          | .ok (key, rest) =>
            have := length_of_string h
            run dialect (.colon entries (dialect.scalar key)) frames rest
          | .error e => .error e
        else .error ⟨.key, r.length + 1⟩
      | .key entries =>
        if c = '"' then
          match h : string (r.length + 1) [] r with
          | .ok (key, rest) =>
            have := length_of_string h
            run dialect (.colon entries (dialect.scalar key)) frames rest
          | .error e => .error e
        else .error ⟨.key, r.length + 1⟩
      | goal =>
        if c = '"' then
          match h : string (r.length + 1) [] r with
          | .ok (t, rest) =>
            have := length_of_string h
            run dialect (.after (.scalar (dialect.scalar t))) frames rest
          | .error e => .error e
        else if c = '[' then
          if frames.length < dialect.depth then run dialect .firstItem (.items [] :: frames) r
          else .error ⟨.tooDeep, r.length + 1⟩
        else if c = '{' then
          if frames.length < dialect.depth then run dialect (.firstKey []) frames r
          else .error ⟨.tooDeep, r.length + 1⟩
        else
          match goal, frames with
          | .firstItem, .items [] :: frames =>
            if c = ']' then run dialect (.after (.list [])) frames r
            else
              match h : atom dialect (c :: r) with
              | .ok (x, rest) =>
                have := length_of_atom h
                run dialect (.after (.scalar x)) (.items [] :: frames) rest
              | .error cause => .error ⟨cause, r.length + 1⟩
          | _, frames =>
            match h : atom dialect (c :: r) with
            | .ok (x, rest) =>
              have := length_of_atom h
              run dialect (.after (.scalar x)) frames rest
            | .error cause => .error ⟨cause, r.length + 1⟩
termination_by cs.length
decreasing_by
  all_goals
    simp only [List.length_cons] at *
    omega

/-- Read a whole text. -/
def read (dialect : Dialect) (cs : List Char) : Except Stop Value :=
  match cs with
  | '\uFEFF' :: _ => .error ⟨.byteOrderMark, cs.length⟩
  | _ => run dialect .value [] cs

end Json
end Runbook
