import Runbook.Text.Case
import Runbook.Value.Basic
import Runbook.Yaml.Bytes
import Runbook.Yaml.Graph
import Runbook.Yaml.Number
import Runbook.Yaml.Token.Stream

/-!
# The meaning of nodes

The value that a node stands for. The value of a collection is there before its parts are: these are
built when the parts of all collections are that began before, and a mapping takes over entries just
then. So the first flaw is the one nearest to the top, and a collection can be part of itself.
-/

namespace Runbook
namespace Yaml

/-! ### Scalars -/

/-- The moment or the date of a timestamp. -/
def Timestamp.scalar (t : Timestamp) : Except Error Scalar :=
  let date : Date := ⟨t.year, t.month, t.day⟩
  match t.time with
  | none => if date.Valid then .ok (.date date) else .error .malformed
  | some (hour, minute, second) =>
    let digits := t.fraction.take 6
    let microsecond := natOfDigits (digits ++ List.replicate (6 - digits.length) '0')
    let moment : Moment := ⟨date, hour, minute, second, microsecond, t.offset⟩
    if moment.Valid then .ok (.moment moment) else .error .malformed

/-- The truth value of a word, in any case. -/
def truthOf (text : String) : Except Error Bool :=
  match lowerCase text with
  | "yes" | "true" | "on" => .ok true
  | "no" | "false" | "off" => .ok false
  | _ => .error .badTruthWord

/-- The value of a text with a tag. -/
def scalarOf (tag : Tag) (text : Text) : Except Error Scalar :=
  match tag with
  | .null => .ok .null
  | .bool => (truthOf text.string).map .bool
  | .int => (integerOf text.string).map .int
  | .float => (decimalOf text.string).map .float
  | .str => .ok (.ofText text)
  | .binary => (bytesOf text.string).map .bytes
  | .timestamp =>
    match Timestamp.ofChars? (dropLineEnd text.string.toList) with
    | some t => t.scalar
    | none => .error .badTimestamp
  | _ => .error .malformed

/-! ### Entries -/

/-- Write an entry: in place under a key that is there, else at the end. -/
def putEntry (key : Scalar) (v : Value) : List (Scalar × Value) → List (Scalar × Value)
  | [] => [(key, v)]
  | (k, w) :: r => if k.sameKey key then (k, v) :: r else (k, w) :: putEntry key v r

/-- The mapping that a list of entries writes. -/
def entriesOf (entries : List (Scalar × Value)) : List (Scalar × Value) :=
  entries.foldl (fun acc e => putEntry e.1 e.2 acc) []

/-! ### Building values -/

/-- The value of the node at a place, which is to be a scalar. -/
def Graph.scalar [Stack] (g : Graph) (i : Nat) : Except Error Scalar :=
  match g.cell i with
  | .scalar tag text => scalarOf tag text
  | .sequence _ _ => .error .malformed
  | .mapping tag _ =>
    match tag with
    | .merge | .value | .unknown => .error .malformed
    | tag => do
      let text ← g.text Stack.chain i
      if tag = .timestamp then throw .nestedTimestamp else scalarOf tag text

/-- The building of values: the graph, the places of the nodes that have a value, those of the
collections whose parts have none yet, and the values of mappings that are scalars. -/
structure Site where
  graph : Graph
  built : List Nat
  waiting : List Nat
  scalars : Table Nat Scalar

namespace Site

/-- Build the value of the node at a place, without the parts of a collection. -/
def build [Stack] (s : Site) (i : Nat) : Except Error Site := do
  if s.built.contains i then return s
  let s := { s with built := i :: s.built }
  if (s.graph.tag i).isCollection then return { s with waiting := s.waiting ++ [i] }
  let x ← s.graph.scalar i
  if (s.graph.cell i).isMapping then return { s with scalars := s.scalars.set i x } else return s

/-- Build the key of an entry, which has to be a scalar, and the value. -/
def buildEntry [Stack] (s : Site) (e : Nat × Nat) : Except Error Site := do
  let s ← s.build e.1
  if (s.graph.tag e.1).isCollection then throw .malformed
  s.build e.2

/-- Build the parts of a mapping that has one entry. -/
def buildPair [Stack] (s : Site) (i : Nat) : Except Error Site :=
  match s.graph.cell i with
  | .mapping _ [e] => do (← s.build e.1).build e.2
  | _ => .error .malformed

/-- Build the parts of the collection at a place. -/
def fill [Stack] (s : Site) (i : Nat) : Except Error Site :=
  match s.graph.cell i with
  | .sequence .seq items => items.foldlM build s
  | .sequence .omap items | .sequence .pairs items => items.foldlM buildPair s
  | .mapping .map _ | .mapping .set _ => do
    let g ← s.graph.merge Stack.chain i
    (g.entries i).foldlM buildEntry { s with graph := g }
  | _ => .error .malformed

/-- Build the parts of the collections that wait, and of those among the parts, each in its turn. -/
def fillAll [Stack] : Nat → Site → Except Error Site
  | 0, s => .ok s
  | fuel + 1, s =>
    match s.waiting with
    | [] => .ok s
    | i :: rest => do fillAll fuel (← { s with waiting := rest }.fill i)

/-- The scalar at a place. -/
def scalarAt (s : Site) (i : Nat) : Scalar :=
  match s.scalars.get? i, s.graph.cell i with
  | some x, _ => x
  | none, .scalar tag text => (scalarOf tag text).toOption.getD .null
  | none, _ => .null

/-- The value at a place inside of the collections at other places. -/
def value (s : Site) : Nat → List Nat → Nat → Value
  | 0, _, i => .endless (s.graph.cell i).isMapping
  | fuel + 1, above, i =>
    if above.contains i then .endless (s.graph.cell i).isMapping
    else
      let part := value s fuel (i :: above)
      match s.graph.cell i with
      | .sequence .seq items => .list (items.map part)
      | .sequence .omap items | .sequence .pairs items =>
        .list (items.map fun j => match s.graph.entries j with
          | [(k, v)] => .pair (part k) (part v)
          | _ => .null)
      | .mapping .map entries =>
        .mapping (entriesOf (entries.map fun e => (s.scalarAt e.1, part e.2)))
      | .mapping .set entries =>
        .set ((entriesOf (entries.map fun e => (s.scalarAt e.1, .null))).map Prod.fst)
      | _ => .scalar (s.scalarAt i)

end Site

/-- The value of the node at the place 0 of a graph. -/
def Graph.value [Stack] (g : Graph) : Except Error Value := do
  let s ← Site.build ⟨g, [], [], []⟩ 0
  let s ← s.fillAll g.length
  return s.value (g.length + 1) [] 0

/-- The value of a YAML text: nothing if it holds no document. -/
def read [Stack] (cs : List Char) : Except Error Value := do
  if !cs.all isAllowed then throw .malformed
  match ← Node.ofTokens (tokensOf cs) with
  | some node => node.graph.value
  | none => return .null

end Yaml
end Runbook
