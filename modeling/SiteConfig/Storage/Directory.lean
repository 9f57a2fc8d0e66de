import SiteConfig.FileTree.Basic
import SiteConfig.Storage.Basic

/-!
# Documents in a directory

Each document is a file of the directory, named by the document's name and the
suffix `.yml`. A document is written to a temporary file first, which then takes the
place of the old one; the directory is made when it is missing.

Writing accepts only proper names. Everything else is lenient, so that files with
bad names can be listed and reported, but refuses names that could lead out of the
directory.
-/

namespace SiteConfig.Storage

variable {σ : Type}

/-- A directory of documents: its path, and the place that relative paths are seen
from. -/
structure Directory where
  path : String
  workingDir : Place

namespace Directory

/-- The suffix of the files. -/
def suffix : String := ".yml"

/-- The path of the file of a document. -/
def filePath (d : Directory) (name : String) : String := Path.join d.path (name ++ suffix)

/-- The path of the file that a document is written to first. -/
def draftPath (d : Directory) (name : String) : String :=
  Path.join d.path ("." ++ name ++ suffix ++ ".tmp")

/-- Refuses a name that could lead out of the directory. -/
def checkEntry (name : String) : Except ConfigError Unit :=
  if name.isEmpty then .error (.ofNameDefect name .blank)
  else
    match name.toList.find? fun c => c = '/' || c = '\\' with
    | some c => .error (.ofNameDefect name (.illegal c))
    | none => .ok ()

/-- Whether there is a file for a document. -/
def has (d : Directory) (t : FileTree) (name : String) : Except ConfigError Bool := do
  checkEntry name
  return t.isFile d.workingDir (d.filePath name)

/-- Reads the file of a document. -/
def read (d : Directory) (t : FileTree) (name : String) : Except ConfigError Document := do
  checkEntry name
  match t.content d.workingDir (d.filePath name) with
  | .ok c =>
    match c.text? with
    | some text => Document.ofYaml name text
    | none => .error (.os .invalidText)
  | .error .notFound => .error (.notFound name)
  | .error e => .error (.os e)

/-- Writes the file of a document. What was done before a failure stays done. -/
def write (d : Directory) (name : String) (data : Yaml.Mapping) :
    Attempt FileTree ConfigError Unit := do
  Attempt.ofExcept (validateName name)
  let attempt (f : FileTree → Except OsError FileTree) (seen : OsError → ConfigError) :
      Attempt FileTree ConfigError Unit := fun t =>
    match f t with
    | .ok t => (.ok (), t)
    | .error e => (.error (seen e), t)
  attempt (fun t => t.makeDirectories d.workingDir d.path) .os
  let text ← Attempt.ofExcept ((Yaml.write data).mapError .yaml)
  let refused (e : OsError) : ConfigError := .write name e.message
  attempt (fun t => t.writeFile d.workingDir (d.draftPath name) (.text text)) refused
  attempt (fun t => t.renameFile d.workingDir (d.draftPath name) (d.filePath name)) refused

/-- Removes the file of a document. -/
def delete (d : Directory) (name : String) : Attempt FileTree ConfigError Unit := do
  Attempt.ofExcept (checkEntry name)
  fun t =>
    match t.removeFile d.workingDir (d.filePath name) with
    | .ok t => (.ok (), t)
    | .error .notFound => (.error (.notFound name), t)
    | .error e => (.error (.write name e.message), t)

/-- The document of a file, unless the file is hidden or has another suffix. -/
def documentOf? (file : String) : Option String :=
  if file.toList.head? = some '.' then none
  else if file.endsWith suffix then some (file.dropEnd suffix.length).toString
  else none

/-- The names of the documents that begin with a text, in order. -/
def list (d : Directory) (t : FileTree) (start : String) : Except ConfigError (List String) :=
  if !t.isDirectory d.workingDir d.path then .ok []
  else
    match t.list d.workingDir d.path with
    | .error e => .error (.os e)
    | .ok children =>
      let names := children.entries.filterMap fun e =>
        match e.2 with
        | .file _ => documentOf? e.1
        | .directory => none
      -- files are in the order of their names, which a suffix can change
      .ok ((names.filter (beginsWith start)).mergeSort (fun a b => !(b < a : Bool)))

end Directory

/-- **The storage of the files in a directory.** -/
def directory (d : Directory) (cell : Cell σ FileTree) : Storage σ :=
  ofBasics {
    label := s!"file:{d.path}"
    has := fun name => do Attempt.ofExcept (d.has (← cell.read) name)
    read := fun name => do Attempt.ofExcept (d.read (← cell.read) name)
    write := fun name data => cell.zoom (d.write name data)
    delete := fun name => cell.zoom (d.delete name)
    list := fun start => do Attempt.ofExcept (d.list (← cell.read) start) }

end SiteConfig.Storage
