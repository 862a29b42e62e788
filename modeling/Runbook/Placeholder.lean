import Runbook.Context
import Runbook.Value.Coercion
import Runbook.Value.Depth

/-!
# Placeholders

A placeholder is a dollar sign and a path in braces. Substitution replaces every placeholder in the
texts of a value, in one pass from left to right, by the text of the value at its path, or by
nothing when the path leads nowhere. Whether the stack has room for this is asked first, so that of
two faults it is the one that is told.
-/

namespace Runbook
namespace Placeholder

/-- A part of a text. -/
inductive Piece
  /-- A character that stands for itself. -/
  | char (c : Char)
  /-- A placeholder with what stands between its braces. -/
  | path (inside : List Char)
  deriving DecidableEq, Repr

/-- What stands between the braces when a list starts with a placeholder, and the rest. An opening
without a closing brace, or with nothing inside, is no placeholder. -/
def opening? : List Char → Option (List Char × List Char)
  | '$' :: '{' :: r =>
    let inside := r.takeWhile (· ≠ '}')
    match r.dropWhile (· ≠ '}') with
    | _ :: rest => if inside.isEmpty then none else some (inside, rest)
    | [] => none
  | _ => none

theorem length_of_opening? {cs inside rest : List Char} (h : opening? cs = some (inside, rest)) :
    rest.length < cs.length := by
  unfold opening? at h
  split at h
  · next r =>
    have hle := (List.dropWhile_sublist (· ≠ '}') (l := r)).length_le
    dsimp only at h
    split at h
    · next hd =>
      rw [hd] at hle
      split at h
      · simp at h
      · simp only [Option.some.injEq, Prod.mk.injEq] at h
        rw [← h.2]
        simp only [List.length_cons] at hle ⊢
        omega
    · simp at h
  · simp at h

/-- Split a text into its characters and placeholders. -/
def pieces (cs : List Char) : List Piece :=
  match cs with
  | [] => []
  | c :: r =>
    match h : opening? (c :: r) with
    | some (inside, rest) =>
      have := length_of_opening? h
      .path inside :: pieces rest
    | none => .char c :: pieces r
termination_by cs.length
decreasing_by
  · assumption
  · exact Nat.lt_succ_self _

/-- The text that a piece becomes. -/
def Piece.fill (tree : Value) : Piece → Except Fault String
  | char c => .ok (String.ofList [c])
  | path inside =>
    match tree.resolve (String.ofList (trimBy isBlank inside)) with
    | some v => v.stringify
    | none => .ok ""

/-- The text that pieces become, after a text. -/
def fill (tree : Value) : String → List Piece → Except Fault String
  | acc, [] => .ok acc
  | acc, p :: r => do fill tree (acc ++ (← p.fill tree)) r

end Placeholder

/-- Replace the placeholders of a text. -/
def substituteText (tree : Value) (s : String) : Except Fault String :=
  Placeholder.fill tree "" (Placeholder.pieces s.toList)

namespace Value

mutual

/-- Replace the placeholders in all texts of a value, keys excepted. -/
def substitute (tree : Value) : Value → Except Fault Value
  | scalar s =>
    match s.text? with
    | some t => (substituteText tree t).map str
    | none => .ok (scalar s)
  | list items => (substituteItems tree items).map list
  | mapping entries => (substituteEntries tree entries).map mapping
  | set members => .ok (set members)
  | pair a b => .ok (pair a b)
  | endless _ => .error .bottomless

/-- Replace the placeholders in items. -/
def substituteItems (tree : Value) : List Value → Except Fault (List Value)
  | [] => .ok []
  | v :: r => do
    let first ← substitute tree v
    let others ← substituteItems tree r
    return first :: others

/-- Replace the placeholders in the values of entries. -/
def substituteEntries (tree : Value) :
    List (Scalar × Value) → Except Fault (List (Scalar × Value))
  | [] => .ok []
  | (k, v) :: r => do
    let first ← substitute tree v
    let others ← substituteEntries tree r
    return (k, first) :: others

end

end Value

/-! ### Room -/

/-- Whether the stack has room for the text that a piece becomes, inside of so many collections. -/
def Placeholder.Piece.fits [Stack] (tree : Value) (depth : Nat) : Piece → Bool
  | char _ => true
  | path inside =>
    match tree.resolve (String.ofList (trimBy isBlank inside)) with
    | some v => v.depth ≤ Stack.text depth
    | none => true

namespace Value

mutual

/-- Whether the stack has room to replace the placeholders of a value inside of so many
collections. -/
def fits [Stack] (tree : Value) (depth : Nat) : Value → Bool
  | scalar s =>
    match s.text? with
    | some t => (Placeholder.pieces t.toList).all (Placeholder.Piece.fits tree depth)
    | none => true
  | list items => depth < Stack.walk && itemsFit tree (depth + 1) items
  | mapping entries => depth < Stack.walk && entriesFit tree (depth + 1) entries
  | _ => true

/-- Whether the stack has room for items. -/
def itemsFit [Stack] (tree : Value) (depth : Nat) : List Value → Bool
  | [] => true
  | v :: r => fits tree depth v && itemsFit tree depth r

/-- Whether the stack has room for the values of entries. -/
def entriesFit [Stack] (tree : Value) (depth : Nat) : List (Scalar × Value) → Bool
  | [] => true
  | (_, v) :: r => fits tree depth v && entriesFit tree depth r

end

end Value

namespace Context

/-- Replace the placeholders in all texts of a value. -/
def substitute (c : Context) (v : Value) : Except Fault Value :=
  Value.substitute c.tree v

/-- Replace the placeholders in all texts of a value, if the stack has room. -/
def fill [Stack] (c : Context) (v : Value) : Except Fault Value :=
  if c.tree.fits 0 v then c.substitute v else .error .tooDeep

end Context
end Runbook
