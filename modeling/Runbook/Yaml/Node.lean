import Runbook.Stack
import Runbook.Table
import Runbook.Yaml.Tag
import Runbook.Yaml.Token

/-!
# Nodes

What the tokens of a text say: scalars, sequences and mappings, each with its tag. A node may have a
name, by which it is meant again where an alias stands.
-/

namespace Runbook
namespace Yaml

/-- A node. -/
inductive Node
  | scalar (tag : Tag) (text : Text)
  | sequence (tag : Tag) (items : List Node)
  | mapping (tag : Tag) (entries : List (Node × Node))
  /-- A node with a name. -/
  | named (name : String) (node : Node)
  /-- The node that has a name. It may be a collection that the alias is part of. -/
  | alias (name : String)
  deriving Inhabited

namespace Node

/-- The node where nothing is written. -/
def empty : Node := scalar .null (.str "")

/-- A node with a name, if there is one. -/
def withName (node : Node) : Option String → Node
  | some name => named name node
  | none => node

end Node

/-- The tokens that are left, the names that nodes have so far, and the meaning of tag handles. -/
structure Remaining where
  tokens : List Token
  names : List String
  handles : Table String String

/-- The meaning of tag handles without directives. -/
def standardHandles : Table String String :=
  [("!", "!"), ("!!", "tag:yaml.org,2002:")]

namespace Remaining

/-- The next token. -/
def peek (s : Remaining) : Token :=
  s.tokens.headD .textEnd

/-- All but the next token. -/
def advance (s : Remaining) : Remaining :=
  { s with tokens := s.tokens.tail }

/-- The error at the next token, which is not one of those that could follow. -/
def refused (s : Remaining) : Error :=
  match s.peek with
  | .fault e => e
  | _ => .malformed

/-- Take a token that has to follow. -/
def expect (s : Remaining) (t : Token) : Except Error Remaining :=
  if s.peek = t then .ok s.advance else .error s.refused

/-- What may stand before a node: a name, and a tag with its handle resolved. -/
structure Properties where
  anchor : Option String
  tag : Option String

/-- The full name of a tag. -/
def tagName (s : Remaining) (handle : Option String) (suffix : String) : Except Error String :=
  match handle with
  | none => .ok suffix
  | some handle =>
    match s.handles.get? handle with
    | some start => .ok (start ++ suffix)
    | none => .error .malformed

/-- Take the properties of a node, in either order. A fault among them comes before an unknown
handle. -/
def properties (s : Remaining) : Except Error (Properties × Remaining) := do
  let (anchor, tag, s) := match s.peek with
    | .anchor name =>
      match s.advance.peek with
      | .tag handle suffix => (some name, some (handle, suffix), s.advance.advance)
      | _ => (some name, none, s.advance)
    | .tag handle suffix =>
      match s.advance.peek with
      | .anchor name => (some name, some (handle, suffix), s.advance.advance)
      | _ => (none, some (handle, suffix), s.advance)
    | _ => (none, none, s)
  match tag, s.peek with
  | some _, .fault e => throw e
  | some (handle, suffix), _ => return (⟨anchor, some (← s.tagName handle suffix)⟩, s)
  | none, _ => return (⟨anchor, none⟩, s)

/-- The tag of a collection. -/
def Properties.collectionTag (p : Properties) (standard : Tag) : Tag :=
  match p.tag with
  | none | some "!" => standard
  | some name => .ofName name

/-- The tag of a scalar. -/
def Properties.scalarTag (p : Properties) (text : String) (plain : Bool) : Tag :=
  match p.tag with
  | none => if plain then .ofPlain text else .str
  | some "!" => .ofPlain text
  | some name => .ofName name

/-- Begin a node with properties: its name has to be new, if it has one. -/
def begin (s : Remaining) (p : Properties) : Except Error Remaining :=
  match p.anchor with
  | some name =>
    if s.names.contains name then .error .malformed
    else .ok { s with names := name :: s.names }
  | none => .ok s

/-- Where a node stands: block collections may begin only in block style, and the items of a
sequence without indentation of its own only below a mapping. -/
inductive Position
  | block | belowMapping | flow
  deriving DecidableEq

/-- Whether the next token is one of some. -/
def sees (s : Remaining) (ends : List Token) : Bool :=
  ends.contains s.peek

/-- The room inside of a collection, of the room outside. -/
def inside : Nat → Except Error Nat
  | 0 => .error .tooDeep
  | room + 1 => .ok room

mutual

/-- Take a node. There is room for so many collections that are open at once. -/
def node (position : Position) (room : Nat) : Nat → Remaining → Except Error (Node × Remaining)
  | 0, _ => .error .malformed
  | fuel + 1, s =>
    match s.peek with
    | .alias name =>
      if s.names.contains name then .ok (.alias name, s.advance) else .error .malformed
    | _ => do
      let (p, s) ← s.properties
      let tag := p.collectionTag
      match s.peek with
      | .scalar text plain =>
        let s ← s.begin p
        return (Node.withName (.scalar (p.scalarTag text.string plain) text) p.anchor, s.advance)
      | .bracketOpen =>
        let s ← s.begin p
        let (items, s) ← flowItems (← inside room) true fuel s.advance
        return (Node.withName (.sequence (tag .seq) items) p.anchor, s)
      | .braceOpen =>
        let s ← s.begin p
        let (entries, s) ← flowEntries (← inside room) true fuel s.advance
        return (Node.withName (.mapping (tag .map) entries) p.anchor, s)
      | .sequenceStart =>
        if position = .flow then emptyNode p s
        else
          let s ← s.begin p
          let (items, s) ← blockItems (← inside room) true fuel s.advance
          return (Node.withName (.sequence (tag .seq) items) p.anchor, s)
      | .mappingStart =>
        if position = .flow then emptyNode p s
        else
          let s ← s.begin p
          let (entries, s) ← blockEntries (← inside room) fuel s.advance
          return (Node.withName (.mapping (tag .map) entries) p.anchor, s)
      | .item =>
        if position ≠ .belowMapping then emptyNode p s
        else
          let s ← s.begin p
          let (items, s) ← blockItems (← inside room) false fuel s
          return (Node.withName (.sequence (tag .seq) items) p.anchor, s)
      | _ => emptyNode p s
termination_by structural fuel => fuel

/-- The node of properties without content. -/
def emptyNode (p : Properties) (s : Remaining) : Except Error (Node × Remaining) :=
  if p.anchor.isNone && p.tag.isNone then .error s.refused
  else match s.peek with
    | .fault e => .error e
    | _ => do
      let s ← s.begin p
      return (Node.withName (.scalar (p.scalarTag "" true) (.str "")) p.anchor, s)

/-- Take a node, or none if what follows ends the place for it. -/
def nodeUnless (ends : List Token) (position : Position) (room : Nat) :
    Nat → Remaining → Except Error (Node × Remaining)
  | 0, _ => .error .malformed
  | fuel + 1, s => if s.sees ends then .ok (.empty, s) else node position room fuel s
termination_by structural fuel => fuel

/-- Take the items of a sequence in block style. If it is indented, an end follows. -/
def blockItems (room : Nat) (indented : Bool) :
    Nat → Remaining → Except Error (List Node × Remaining)
  | 0, _ => .error .malformed
  | fuel + 1, s =>
    if s.peek = .item then do
      let ends := if indented then [.item, .blockEnd] else [.item, .key, .value, .blockEnd]
      let (first, s) ← nodeUnless ends .block room fuel s.advance
      let (others, s) ← blockItems room indented fuel s
      return (first :: others, s)
    else if indented then do return ([], ← s.expect .blockEnd)
    else match s.peek with
      | .fault e => .error e
      | _ => .ok ([], s)
termination_by structural fuel => fuel

/-- Take the entries of a mapping in block style and its end. -/
def blockEntries (room : Nat) : Nat → Remaining → Except Error (List (Node × Node) × Remaining)
  | 0, _ => .error .malformed
  | fuel + 1, s => do
    let ends := [Token.key, .value, .blockEnd]
    if s.peek = .key then
      let (k, s) ← nodeUnless ends .belowMapping room fuel s.advance
      let (v, s) ← valueAfter ends .belowMapping room fuel s
      let (others, s) ← blockEntries room fuel s
      return ((k, v) :: others, s)
    else return ([], ← s.expect .blockEnd)
termination_by structural fuel => fuel

/-- Take the value of an entry after its key, with the colon before it. -/
def valueAfter (ends : List Token) (position : Position) (room : Nat) :
    Nat → Remaining → Except Error (Node × Remaining)
  | 0, _ => .error .malformed
  | fuel + 1, s =>
    match s.peek with
    | .value => nodeUnless ends position room fuel s.advance
    | .fault e => .error e
    | _ => .ok (.empty, s)
termination_by structural fuel => fuel

/-- Take the items of a sequence in flow style and its end. An entry alone is a mapping. -/
def flowItems (room : Nat) (first : Bool) : Nat → Remaining → Except Error (List Node × Remaining)
  | 0, _ => .error .malformed
  | fuel + 1, s => do
    if s.peek = .bracketClose then return ([], s.advance)
    let s ← if first then pure s else s.expect .comma
    if s.peek = .key then
      let within ← inside room
      let (k, s) ← nodeUnless [.value, .comma, .bracketClose] .flow within fuel s.advance
      let (v, s) ← valueAfter [.comma, .bracketClose] .flow within fuel s
      let (others, s) ← flowItems room false fuel s
      return (.mapping .map [(k, v)] :: others, s)
    else if s.peek = .bracketClose then return ([], s.advance)
    else
      let (item, s) ← node .flow room fuel s
      let (others, s) ← flowItems room false fuel s
      return (item :: others, s)
termination_by structural fuel => fuel

/-- Take the entries of a mapping in flow style and its end. -/
def flowEntries (room : Nat) (first : Bool) :
    Nat → Remaining → Except Error (List (Node × Node) × Remaining)
  | 0, _ => .error .malformed
  | fuel + 1, s => do
    if s.peek = .braceClose then return ([], s.advance)
    let s ← if first then pure s else s.expect .comma
    if s.peek = .key then
      let (k, s) ← nodeUnless [.value, .comma, .braceClose] .flow room fuel s.advance
      let (v, s) ← valueAfter [.comma, .braceClose] .flow room fuel s
      let (others, s) ← flowEntries room false fuel s
      return ((k, v) :: others, s)
    else if s.peek = .braceClose then return ([], s.advance)
    else
      let (k, s) ← node .flow room fuel s
      let (others, s) ← flowEntries room false fuel s
      return ((k, .empty) :: others, s)
termination_by structural fuel => fuel

end

/-! ### Documents -/

/-- Take directives. At most one names a version, which begins with 1, and none repeats a handle. -/
def directives (version : Bool) : Nat → Remaining → Except Error Remaining
  | 0, s => .ok s
  | fuel + 1, s =>
    match s.peek with
    | .versionDirective major =>
      if version || major ≠ 1 then .error .malformed else directives true fuel s.advance
    | .tagDirective handle start =>
      if s.handles.has handle then .error .malformed
      else directives version fuel { s.advance with handles := s.handles.set handle start }
    | .otherDirective => directives version fuel s.advance
    | _ => .ok s

/-- The place after marks that end documents. -/
def skipEnds (s : Remaining) : Remaining :=
  { s with tokens := s.tokens.dropWhile (· = .documentEnd) }

/-- Take a document: an explicit one begins with its mark, before which directives may stand. -/
def document (room fuel : Nat) (s : Remaining) : Except Error (Node × Remaining) := do
  match s.peek with
  | .versionDirective _ | .tagDirective _ _ | .otherDirective | .documentStart =>
    let s ← directives false fuel s
    let s ← s.expect .documentStart
    let handles := Table.update standardHandles s.handles
    nodeUnless [.documentStart, .documentEnd, .textEnd] .block room fuel
      { s with handles := handles }
  | _ => node .block room fuel { s with handles := standardHandles }

end Remaining

/-- The node that tokens form: none if they form no document. More than one is an error. -/
def Node.ofTokens [Stack] (tokens : List Token) : Except Error (Option Node) := do
  let s : Remaining := ⟨tokens, [], []⟩
  if s.peek = .textEnd then return none
  let (node, s) ← s.document Stack.yaml (4 * tokens.length + 4)
  let s := s.skipEnds
  if s.peek = .textEnd then return some node else throw s.refused

end Yaml
end Runbook
