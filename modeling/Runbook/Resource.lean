import Runbook.Text.Blank

/-!
# Resources

Addresses found in the output of a step. An address starts with `http://` or `https://` and ends
before the next blank, closing parenthesis, closing angle bracket or double quote.
-/

namespace Runbook

/-- The kinds of resources. -/
inductive ResourceKind
  | dashboard | slo | alertRule | other
  deriving DecidableEq, Repr

namespace ResourceKind

/-- The word for a kind. -/
def text : ResourceKind → String
  | dashboard => "dashboard"
  | slo => "slo"
  | alertRule => "alert_rule"
  | other => "other"

/-- Whether a pattern occurs in a list. -/
def occurs (pattern : List Char) : List Char → Bool
  | [] => pattern.isEmpty
  | c :: r => pattern.isPrefixOf (c :: r) || occurs pattern r

/-- The markers of the kinds, in order of priority. -/
def markers : List (List String × ResourceKind) :=
  [(["/dashboard"], dashboard), (["/slo"], slo), (["/alert", "/rule"], alertRule)]

/-- The kind of the resource at an address: that of the first marker group which occurs in it. -/
def ofUrl (url : List Char) : ResourceKind :=
  match markers.find? fun m => m.1.any fun text => occurs text.toList url with
  | some (_, kind) => kind
  | none => other

end ResourceKind

/-- A resource. The identifier is absent when it has to be generated. -/
structure Resource where
  kind : ResourceKind
  id : Option String
  name : String
  url : String
  deriving DecidableEq, Repr

namespace Resource

/-- Whether a character belongs to an address. -/
def isUrlChar (c : Char) : Bool :=
  !isBlank c && c ≠ ')' && c ≠ '>' && c ≠ '"'

/-- The rest of a list after `http://` or `https://`. -/
def afterScheme? : List Char → Option (List Char)
  | 'h' :: 't' :: 't' :: 'p' :: 's' :: ':' :: '/' :: '/' :: r => some r
  | 'h' :: 't' :: 't' :: 'p' :: ':' :: '/' :: '/' :: r => some r
  | _ => none

/-- The address that a list starts with: a scheme and at least one more character. -/
def urlAt? (cs : List Char) : Option (List Char) :=
  match afterScheme? cs with
  | some (c :: _) => if isUrlChar c then some (cs.takeWhile isUrlChar) else none
  | _ => none

/-- The addresses of a text, in order. The number says how many characters still belong to the last
address. -/
def urlsFrom : Nat → List Char → List (List Char)
  | _, [] => []
  | skip + 1, _ :: r => urlsFrom skip r
  | 0, c :: r =>
    match urlAt? (c :: r) with
    | some url => url :: urlsFrom (url.length - 1) r
    | none => urlsFrom 0 r

/-- The text after the last slash. -/
def lastSegment (url : List Char) : List Char :=
  (url.reverse.takeWhile (· ≠ '/')).reverse

/-- The resource at an address. -/
def ofUrl (url : List Char) : Resource :=
  let kind := ResourceKind.ofUrl url
  let id := lastSegment url
  ⟨kind, if id.isEmpty then none else some (String.ofList id), kind.text ++ " resource",
    String.ofList url⟩

end Resource

/-- The resources that a text refers to, one for each address, in order. -/
def resourcesOf (text : String) : List Resource :=
  (Resource.urlsFrom 0 text.toList).map Resource.ofUrl

end Runbook
