import Runbook.Files.Path
import Runbook.Table

/-!
# File trees

Files and directories around a working directory. A path is walked name by name: every name but the
last has to be that of a directory, and two dots lead back. What lies outside of the working
directory is there as empty directories only.
-/

namespace Runbook

/-- What stands at a place. -/
inductive FileNode
  | file (bytes : List UInt8)
  | directory
  deriving DecidableEq, Repr

/-- Why a file operation fails. -/
inductive FileError
  | missing
  | present
  | notDirectory
  | isDirectory
  | nameTooLong
  /-- The path holds a null character. -/
  | nullCharacter
  deriving DecidableEq, Repr

/-- The wording of a file error. -/
def FileError.text : FileError → String
  | missing => "[Errno 2] No such file or directory"
  | present => "[Errno 17] File exists"
  | notDirectory => "[Errno 20] Not a directory"
  | isDirectory => "[Errno 21] Is a directory"
  | nameTooLong => "[Errno 36] File name too long"
  | nullCharacter => "embedded null byte"

/-- The names on the way to a place, the last one first; the working directory has none. -/
abbrev Place := List String

/-- The place around a place; outside of the working directory names are dots. -/
def Place.up : Place → Place
  | [] => [".."]
  | ".." :: r => ".." :: ".." :: r
  | ["/"] => ["/"]
  | _ :: r => r

/-- Whether a place is a directory from the start: the working directory and those around it. -/
def Place.isGiven (p : Place) : Bool :=
  p.all (· = "..") || p = ["/"]

/-- Files and directories. -/
structure FileTree where
  nodes : Table Place FileNode

namespace FileTree

/-- The tree of an empty working directory. -/
def empty : FileTree := ⟨[]⟩

/-- What stands at a place. -/
def node? (t : FileTree) (p : Place) : Option FileNode :=
  if p.isGiven then some .directory else t.nodes.get? p

/-- Put something at a place. -/
def put (t : FileTree) (p : Place) (n : FileNode) : FileTree :=
  ⟨t.nodes.set p n⟩

/-- The greatest length of a name, in bytes. -/
def nameLimit : Nat := 255

/-- The length that a path stays below, in bytes. -/
def pathLimit : Nat := 4096

/-- Follow names from a place. -/
def walk (t : FileTree) : Place → List String → Except FileError Place
  | p, [] => .ok p
  | p, name :: r =>
    match t.node? p with
    | none => .error .missing
    | some (.file _) => .error .notDirectory
    | some .directory =>
      if nameLimit < name.utf8ByteSize then .error .nameTooLong
      else t.walk (if name = ".." then Place.up p else name :: p) r

/-- The place of a path; there need not be anything. -/
def locate (t : FileTree) (p : FilePath) : Except FileError Place :=
  if p.text.toList.contains '\x00' then .error .nullCharacter
  else if pathLimit ≤ p.text.utf8ByteSize then .error .nameTooLong
  else t.walk (if p.root = 0 then [] else ["/"]) p.names

/-- What is at a path. -/
def find? (t : FileTree) (p : FilePath) : Except FileError (Option FileNode) :=
  (t.locate p).map t.node?

/-- The bytes of a file. -/
def read (t : FileTree) (p : FilePath) : Except FileError (List UInt8) := do
  match ← t.find? p with
  | some (.file bytes) => return bytes
  | some .directory => throw .isDirectory
  | none => throw .missing

/-- Write a file in a directory that is there. -/
def write (t : FileTree) (p : FilePath) (bytes : List UInt8) : Except FileError FileTree := do
  let place ← t.locate p
  if t.node? place = some .directory then throw .isDirectory
  return t.put place (.file bytes)

/-- Remove a file. -/
def remove (t : FileTree) (p : FilePath) : Except FileError FileTree := do
  let place ← t.locate p
  match t.node? place with
  | some (.file _) => return ⟨t.nodes.erase place⟩
  | some .directory => throw .isDirectory
  | none => throw .missing

/-- Whether there is a directory at a path. A path that cannot be looked up for its length is an
error. -/
def isDirectory (t : FileTree) (p : FilePath) : Except FileError Bool :=
  match t.find? p with
  | .ok n => .ok (n = some .directory)
  | .error .nameTooLong => .error .nameTooLong
  | .error _ => .ok false

/-- Whether there is a file at a path. A path that cannot be looked up for its length is an error.
-/
def isFile (t : FileTree) (p : FilePath) : Except FileError Bool :=
  match t.find? p with
  | .ok (some (.file _)) => .ok true
  | .error .nameTooLong => .error .nameTooLong
  | _ => .ok false

/-- Make a directory in one that is there. -/
def makeDirectory (t : FileTree) (p : FilePath) : Except FileError FileTree := do
  let place ← t.locate p
  if (t.node? place).isSome then throw .present
  return t.put place .directory

/-- Make a directory, or leave it if it is there. -/
def ensureDirectory (t : FileTree) (p : FilePath) : Except FileError FileTree :=
  match t.makeDirectory p with
  | .ok t => .ok t
  | .error e => if (t.find? p).toOption = some (some .directory) then .ok t else .error e

/-- Make a directory given by its names, the last one first, and the directories around it that are
missing. The tree holds what was made before an error. -/
def makeNames (t : FileTree) (root : Nat) : List String → FileTree × Except FileError Unit
  | [] =>
    match t.ensureDirectory ⟨root, []⟩ with
    | .ok t => (t, .ok ())
    | .error e => (t, .error e)
  | name :: around =>
    let p : FilePath := ⟨root, (name :: around).reverse⟩
    match t.ensureDirectory p with
    | .ok t => (t, .ok ())
    | .error .missing =>
      match t.makeNames root around with
      | (t, .ok ()) =>
        match t.ensureDirectory p with
        | .ok t => (t, .ok ())
        | .error e => (t, .error e)
      | failed => failed
    | .error e => (t, .error e)

/-- Make a directory and the directories around it that are missing. -/
def makeDirectories (t : FileTree) (p : FilePath) : FileTree × Except FileError Unit :=
  t.makeNames p.root p.names.reverse

/-- What is directly inside a directory, by name in order. -/
def children (t : FileTree) (directory : Place) : List (String × FileNode) :=
  (t.nodes.filterMap fun (p, n) => match p with
    | name :: around => if around = directory then some (name, n) else none
    | [] => none).mergeSort fun a b => a.1 ≤ b.1

/-- The paths of all files in the working directory, in order. -/
def files (t : FileTree) : List String :=
  (t.nodes.filterMap fun (p, n) =>
    if n = .directory || p.any (fun name => name = ".." || name = "/") then none
    else some ("/".intercalate p.reverse)).mergeSort fun a b => a ≤ b

end FileTree
end Runbook
