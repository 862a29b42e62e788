import Runbook.Catalog
import Runbook.Files.Tree
import Runbook.Schema.Document
import Runbook.Settings.Load
import Runbook.Source
import Runbook.Text.Quoted
import Runbook.Yaml.Writer

/-!
# Registries

The workflows that can be run: the built-in ones, and those in the files of a directory. A built-in
workflow shadows a custom one of its name; files that hold no definition are passed over.
-/

namespace Runbook

/-! ### Loading -/

/-- Why a file holds no definition that can be used. -/
inductive LoadError
  /-- The extension names no format. -/
  | extension (found : String)
  /-- The directory, or the place of a file in it, cannot be looked up. -/
  | directory (error : FileError)
  /-- The file cannot be read. -/
  | file (path : FilePath) (error : FileError)
  /-- The bytes of the file are no text. -/
  | notText
  | source (error : SourceError)
  deriving DecidableEq, Repr

namespace LoadError

/-- The wording of an error that says what is wrong with the file. -/
def message : LoadError → String
  | extension found =>
    "Unsupported workflow file extension \"" ++ found ++ "\". Use .yaml, .yml, or .json"
  | file path error =>
    "Failed to read workflow file " ++ path.text ++ ": " ++ error.text ++ ": " ++ quoted path.text
  | source error => error.message
  | directory _ | notText => ""

/-- Whether an error says that the file is at fault; a listing passes over such files. -/
def isVerdict : LoadError → Bool
  | extension _ => true
  | file _ error => error ≠ .nullCharacter
  | source error => error.isVerdict
  | directory _ | notText => false

end LoadError

/-- The format of files with an extension. -/
def formatOf? : String → Option String
  | ".yaml" | ".yml" => some yamlFormat
  | ".json" => some "json"
  | _ => none

/-- The extension of a path in lower case. -/
def FilePath.lowerExtension (p : FilePath) : String :=
  lowerCase p.extension

/-- Load the definition in a file. -/
def FileTree.load [Stack] (t : FileTree) (p : FilePath) : Except LoadError Definition := do
  let some format := formatOf? p.lowerExtension | throw (.extension p.lowerExtension)
  let bytes ← (t.read p).mapError (LoadError.file p)
  let some text := decodeUtf8? bytes | throw .notText
  (Definition.ofText format (String.ofList (unifyLineEnds text.toList))).mapError .source

/-! ### Listing and looking up -/

/-- Where a workflow comes from. -/
inductive Origin
  | builtIn | custom
  deriving DecidableEq, Repr

/-- The word for an origin. -/
def Origin.text : Origin → String
  | builtIn => "built-in"
  | custom => "custom"

/-- An entry of a listing. -/
structure Summary where
  name : String
  description : String
  version : Option String
  origin : Origin
  stepCount : Nat
  deriving DecidableEq, Repr

/-- The entry of a definition. -/
def Definition.summary (d : Definition) (origin : Origin) : Summary :=
  ⟨d.name, d.description, d.version.join, origin, d.steps.length⟩

/-- Where custom workflows are, and where workflows are saved without such a directory. -/
structure Registry where
  customDir : Option FilePath
  saveDir : FilePath
  deriving Repr

namespace Registry

variable [Stack]

/-- The registry that settings describe. -/
def ofSettings (s : Settings) : Registry :=
  ⟨s.customDir, s.saveDir⟩

/-- Keep the definition in a file unless the file is at fault. -/
def keep : Except LoadError Definition → Except LoadError (Option Definition)
  | .ok d => .ok (some d)
  | .error e => if e.isVerdict then .ok none else .error e

/-- The paths of what is directly inside a directory and has a known extension, in the order of
their names. -/
def pathsIn (t : FileTree) (directory : FilePath) (place : Place) : List FilePath :=
  ((t.children place).map fun e => directory.child e.1).filter fun p =>
    (formatOf? p.lowerExtension).isSome

/-- The definition at a path; none if there is no file, or one that is at fault. -/
def definitionAt (t : FileTree) (p : FilePath) : Except LoadError (Option Definition) := do
  if ← (t.isFile p).mapError .directory then keep (t.load p) else return none

/-- The definitions in the files of a directory with a known extension, in the order of their
names. -/
def definitionsIn (t : FileTree) (directory : FilePath) : Except LoadError (List Definition) := do
  let place ← (t.locate directory).mapError .directory
  let definitions ← (pathsIn t directory place).mapM (definitionAt t)
  return definitions.filterMap id

/-- The custom workflows; none without a directory. -/
def customs (r : Registry) (t : FileTree) : Except LoadError (List Definition) :=
  match r.customDir with
  | none => .ok []
  | some directory => do
    if ← (t.isDirectory directory).mapError .directory then definitionsIn t directory
    else return []

/-- All workflows, built-in ones first. -/
def list (r : Registry) (t : FileTree) : Except LoadError (List Summary) := do
  let customs ← r.customs t
  return Catalog.builtIns.map (·.summary .builtIn) ++ customs.map (·.summary .custom)

/-- The workflow of a name, a built-in one before any other. -/
def find? (r : Registry) (t : FileTree) (name : String) : Except LoadError (Option Definition) :=
  match Catalog.builtIns.find? fun d => d.name = name with
  | some d => .ok (some d)
  | none => (r.customs t).map (·.find? fun d => d.name = name)

end Registry

/-- Why a name stands for no workflow. -/
inductive LookupError
  | notFound (name : String)
  | load (error : LoadError)
  deriving DecidableEq, Repr

/-- The wording of an error that says that there is no workflow, or no usable one. -/
def LookupError.message : LookupError → String
  | notFound name =>
    "Workflow \"" ++ name ++ "\" not found. Use list_workflows to see available workflows."
  | load error => error.message

/-- The workflow of a name, which there has to be. -/
def Registry.require [Stack] (r : Registry) (t : FileTree) (name : String) :
    Except LookupError Definition := do
  match ← (r.find? t name).mapError .load with
  | some d => return d
  | none => throw (.notFound name)

/-! ### Saving -/

/-- Why a workflow was not saved. -/
inductive SaveError
  | invalid (problems : List Schema.Problem)
  | file (error : FileError)
  | dump (fault : DumpFault)
  /-- An integer has too many digits to be written. -/
  | longInteger
  deriving DecidableEq, Repr

/-- The problem of a name under which nothing can be saved. -/
def Schema.Problem.ofFileName (name : String) : Schema.Problem :=
  ⟨[.key "name"], .badFileName name⟩

namespace Registry

/-- The directory that a workflow is saved in unless another one is given. -/
def target (r : Registry) (directory : Option FilePath) : FilePath :=
  directory.getD (r.customDir.getD r.saveDir)

/-- The file of a name in a directory. -/
def fileIn (directory : FilePath) (name : String) : FilePath :=
  directory.child (name ++ ".yaml")

/-- Write a definition as YAML into a directory, which is made if need be. -/
def writeIn (t : FileTree) (directory : FilePath) (name : String) (d : Definition) :
    FileTree × Except SaveError FilePath :=
  match t.makeDirectories directory with
  | (t, .error e) => (t, .error (.file e))
  | (t, .ok ()) =>
    match d.document with
    | .error f => (t, .error (.dump f))
    | .ok document =>
      if !Yaml.isWritable document then (t, .error .longInteger)
      else match t.write (fileIn directory name) (encodeUtf8 (Yaml.write document)) with
        | .error e => (t, .error (.file e))
        | .ok t => (t, .ok (fileIn directory name))

/-- Whether something can be saved under a name: that of a workflow, possibly with a line feed after
it. -/
def isFileName (name : String) : Bool :=
  Schema.isWorkflowName (dropLineEnd name.toList)

/-- Save what is given as a definition under a name. The name is checked before the definition. -/
def save (r : Registry) (t : FileTree) (name : String)
    (given : Except (List Schema.Problem) Definition) (directory : Option FilePath) :
    FileTree × Except SaveError FilePath :=
  if !isFileName name then (t, .error (.invalid [.ofFileName name]))
  else
    match given with
    | .error problems => (t, .error (.invalid problems))
    | .ok d => writeIn t (r.target directory) name d

end Registry
end Runbook
