import Runbook.Text.Split

/-!
# File paths

A path is a root and the names on the way. Doubled slashes, single dots and slashes at the end do
not count; two leading slashes are a root of their own. Two dots are a name like any other.
-/

namespace Runbook

/-- A path; `root` is the number of leading slashes that count: none, one or two. -/
structure FilePath where
  root : Nat
  names : List String
  deriving DecidableEq, Repr, Inhabited

namespace FilePath

/-- The leading slashes that count. -/
def rootOf : List Char → Nat
  | '/' :: '/' :: '/' :: _ => 1
  | '/' :: '/' :: _ => 2
  | '/' :: _ => 1
  | _ => 0

/-- Read a path. -/
def ofText (s : String) : FilePath :=
  ⟨rootOf s.toList,
    ((pieces '/' s.toList).filter fun n => n ≠ [] && n ≠ ['.']).map String.ofList⟩

/-- Write a path. -/
def text (p : FilePath) : String :=
  let body := String.ofList (List.replicate p.root '/') ++ "/".intercalate p.names
  if body = "" then "." else body

/-- The path of something inside a directory; an absolute path stands for itself. -/
def join (directory p : FilePath) : FilePath :=
  if p.root ≠ 0 then p else ⟨directory.root, directory.names ++ p.names⟩

/-- The path of a file directly inside a directory. -/
def child (directory : FilePath) (name : String) : FilePath :=
  ⟨directory.root, directory.names ++ [name]⟩

/-- The last name. -/
def name (p : FilePath) : String :=
  p.names.getLast?.getD ""

/-- The extension of a list of characters from its last dot on; a dot at either end begins none. -/
def extensionOf (name : List Char) : List Char :=
  let after := name.reverse.takeWhile (· ≠ '.')
  let before := name.length - after.length - 1
  if after.isEmpty || before = 0 || name.length ≤ after.length then [] else '.' :: after.reverse

/-- The extension of the last name, with its dot. -/
def extension (p : FilePath) : String :=
  String.ofList (extensionOf p.name.toList)

end FilePath
end Runbook
