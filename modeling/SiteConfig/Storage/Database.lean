import SiteConfig.FileTree.Basic
import SiteConfig.Storage.Memory

/-!
# Documents in a database

A database keeps the texts of documents as records under their names. So a document must
have a text to be written, and it is read as what its text says.

The records are kept in one file of a directory (`SiteConfig.Storage.Records`).
-/

namespace SiteConfig.Storage

variable {σ : Type}

/-- The texts of documents, by their names. -/
abbrev Texts := NameMap String

/-- Reads the text of a document of some. -/
def readText (texts : Texts) (name : String) : Except ConfigError Document :=
  match texts.get? name with
  | some text => Document.ofYaml name text
  | none => .error (.notFound name)

/-- **The storage of the records in a cell**, called by where they are kept. -/
def database (place : String) (cell : Cell σ Texts) : Storage σ :=
  ofBasics {
    label := s!"database:{place}"
    has := fun name => do return (← cell.read).contains name
    read := fun name => do Attempt.ofExcept (readText (← cell.read) name)
    write := fun name data => do
      Attempt.ofExcept (validateName name)
      let text ← Attempt.ofExcept ((Yaml.write data).mapError .yaml)
      cell.modify (·.insert name text)
    delete := fun name => do
      if (← cell.read).contains name then cell.modify (·.erase name)
      else Attempt.fail (.notFound name)
    list := fun start => do return namesFrom (← cell.read) start }

/-! ### Where the records are -/

/-- The directory of a database. -/
structure Records where
  path : String
  workingDir : Place

namespace Records

/-- The file that holds the records. It has no suffix, so that it is no document of the
directory. -/
def filePath (r : Records) : String := Path.join r.path "db"

/-- The records of a text. -/
def ofText? (text : String) : Option Texts :=
  match Yaml.read text with
  | .ok (.mapping m) =>
    (m.mapM fun e =>
      match e with
      | (Yaml.Value.string name, Yaml.Value.string text) => some (name, text)
      | _ => none).map .ofList
  | _ => none

/-- The records of a file; a file without records holds none. -/
def ofContent (c : FileContent) : Texts :=
  match c with
  | .records m => m
  | c => (c.text?.bind ofText?).getD .empty

/-- The records of a database. -/
def load (r : Records) (t : FileTree) : Texts :=
  match t.content r.workingDir r.filePath with
  | .ok c => ofContent c
  | .error _ => .empty

/-- Replaces the records of a database, which must have been opened. -/
def save (r : Records) (texts : Texts) (t : FileTree) : FileTree :=
  (t.writeFile r.workingDir r.filePath (.records texts)).toOption.getD t

/-- The records as a part of a file tree. -/
def cell (r : Records) : Cell FileTree Texts := ⟨r.load, r.save⟩

/-- Opens a database, making its directory when it is missing. -/
def prepare (r : Records) : Attempt FileTree ConfigError Unit := fun t =>
  match t.makeDirectories r.workingDir r.path with
  | .ok t => (.ok (), r.save (r.load t) t)
  | .error e => (.error (.database e.message), t)

end Records

end SiteConfig.Storage
