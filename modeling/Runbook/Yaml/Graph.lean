import Runbook.Yaml.Node

/-!
# Graphs of nodes

The nodes of a document in the order in which they begin, each with the places of its parts. An
alias is the place of the node that it means, so a node can be part of several others, and of
itself.

A mapping takes over the entries of others under keys for that; the mapping is changed then, and so
are the others, which take over entries first. Under another key a mapping has a text of its own.
-/

namespace Runbook
namespace Yaml

/-- A node whose parts are given by their places. -/
inductive Cell
  | scalar (tag : Tag) (text : Text)
  | sequence (tag : Tag) (items : List Nat)
  | mapping (tag : Tag) (entries : List (Nat × Nat))

namespace Cell

/-- The tag of a node. -/
def tag : Cell → Tag
  | scalar tag _ => tag
  | sequence tag _ => tag
  | mapping tag _ => tag

/-- The node with another tag. -/
def withTag (tag : Tag) : Cell → Cell
  | scalar _ text => scalar tag text
  | sequence _ items => sequence tag items
  | mapping _ entries => mapping tag entries

/-- The entries of a mapping; other nodes have none. -/
def entries : Cell → List (Nat × Nat)
  | mapping _ entries => entries
  | _ => []

/-- Whether a node is a mapping. -/
def isMapping : Cell → Bool
  | mapping _ _ => true
  | _ => false

end Cell

/-- The nodes of a document by their places. -/
abbrev Graph := List Cell

namespace Node

mutual

/-- The place of a node whose part of the graph begins somewhere, the nodes of that part, and the
places of names. -/
def lay (start : Nat) (names : Table String Nat) : Node → Nat × List Cell × Table String Nat
  | scalar tag text => (start, [.scalar tag text], names)
  | sequence tag items =>
    let (places, cells, names) := layItems (start + 1) names items
    (start, .sequence tag places :: cells, names)
  | mapping tag entries =>
    let (places, cells, names) := layEntries (start + 1) names entries
    (start, .mapping tag places :: cells, names)
  | named name node => lay start (names.set name start) node
  | .alias name => ((names.get? name).getD start, [], names)

/-- The same for the items of a sequence. -/
def layItems (start : Nat) (names : Table String Nat) :
    List Node → List Nat × List Cell × Table String Nat
  | [] => ([], [], names)
  | n :: r =>
    let (place, cells, names) := lay start names n
    let (places, more, names) := layItems (start + cells.length) names r
    (place :: places, cells ++ more, names)

/-- The same for the entries of a mapping. -/
def layEntries (start : Nat) (names : Table String Nat) :
    List (Node × Node) → List (Nat × Nat) × List Cell × Table String Nat
  | [] => ([], [], names)
  | (k, v) :: r =>
    let (key, cells, names) := lay start names k
    let (value, more, names) := lay (start + cells.length) names v
    let (places, others, names) := layEntries (start + cells.length + more.length) names r
    ((key, value) :: places, cells ++ (more ++ others), names)

end

/-- The graph of a node, which itself is at the place 0. -/
def graph (n : Node) : Graph :=
  (n.lay 0 []).2.1

end Node

namespace Graph

/-- The node at a place. -/
def cell (g : Graph) (i : Nat) : Cell :=
  g.getD i (.scalar .null (.str ""))

/-- The tag of the node at a place. -/
def tag (g : Graph) (i : Nat) : Tag :=
  (g.cell i).tag

/-- The entries of the mapping at a place. -/
def entries (g : Graph) (i : Nat) : List (Nat × Nat) :=
  (g.cell i).entries

/-- Give the mapping at a place other entries. -/
def setEntries (g : Graph) (i : Nat) (entries : List (Nat × Nat)) : Graph :=
  g.set i (.mapping (g.tag i) entries)

/-- Whether entries of other mappings are to be taken over in place of an entry. -/
def isMerge (g : Graph) (e : Nat × Nat) : Bool :=
  g.tag e.1 = .merge

/-- Whether an entry is the text of its mapping. -/
def isText (g : Graph) (e : Nat × Nat) : Bool :=
  g.tag e.1 = .value

/-- The text of the node at a place: that of a scalar, or of a mapping the text under the first of
its own keys for it. -/
def text (g : Graph) (room i : Nat) : Except Error Text :=
  match g.cell i with
  | .scalar _ text => .ok text
  | .sequence _ _ => .error .malformed
  | .mapping _ entries =>
    match entries.find? g.isText with
    | none => .error .malformed
    | some e =>
      match room with
      | 0 => .error .tooDeep
      | room + 1 => text g room e.2
termination_by structural room

/-! ### Taking over entries -/

/-- Make the key of an entry one that is no more than a text, if it stands for the text of its
mapping. -/
def settleKey (g : Graph) (e : Nat × Nat) : Graph :=
  if g.isText e then g.set e.1 ((g.cell e.1).withTag .str) else g

/-- The entries of the mappings at some places, the last ones first, when they have taken over
entries. -/
def takeAll (merged : Nat → Graph → Except Error Graph) (g : Graph) (items : List Nat) :
    Except Error (List (Nat × Nat) × Graph) :=
  items.foldlM (fun (taken, g) i =>
    if (g.cell i).isMapping then do
      let g ← merged i g
      return (g.entries i ++ taken, g)
    else .error .malformed) ([], g)

/-- Take over entries in place of the first entry of a mapping that is there for it: those of a
mapping, or of a sequence of mappings, of which the first wins. -/
def takeNext (merged : Nat → Graph → Except Error Graph) (i : Nat)
    (s : List (Nat × Nat) × Graph) : Except Error (List (Nat × Nat) × Graph) :=
  let (taken, g) := s
  match (g.entries i).find? g.isMerge with
  | none => .ok s
  | some e => do
    let g := g.setEntries i ((g.entries i).eraseP g.isMerge)
    let (more, g) ← match g.cell e.2 with
      | .mapping _ _ => takeAll merged g [e.2]
      | .sequence _ items => takeAll merged g items
      | .scalar _ _ => .error .malformed
    return (taken ++ more, g)

/-- Let the mapping at a place take over entries. Taken ones come first, so that its own win. -/
def mergeWith (merged : Nat → Graph → Except Error Graph) (i : Nat) (g : Graph) :
    Except Error Graph := do
  let (taken, g) ← (g.entries i).foldlM (fun s _ => takeNext merged i s) ([], g)
  let g := (g.entries i).foldl settleKey g
  return if taken.isEmpty then g else g.setEntries i (taken ++ g.entries i)

/-- Let the mapping at a place take over entries, in so much room for steps from one mapping to the
next. -/
def merge : Nat → Nat → Graph → Except Error Graph
  | 0 => mergeWith fun _ _ => .error .tooDeep
  | room + 1 => mergeWith (merge room)

end Graph
end Yaml
end Runbook
