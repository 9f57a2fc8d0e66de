import SiteConfig.Document
import SiteConfig.FileTree.Path
import SiteConfig.NameMap

/-!
# Trees of files

A **file tree** is the part of a file system that the program can see: which
places hold a directory and which hold a file. A place is the list of names that
leads to it from the root, so that a place has exactly one form; a path is
followed to its place step by step (`SiteConfig.FileTree.resolve`), as every
directory on the way has to be there.

A file holds a text, or bytes that are none. The records of a database are kept as
such until somebody looks at the text of the file (`SiteConfig.FileContent.text?`).
-/

namespace SiteConfig

/-- What a file holds. -/
inductive FileContent where
  | text (s : String)
  /-- Bytes that are no text. -/
  | binary
  /-- The records of a database, which are texts, by name. -/
  | records (m : NameMap String)

/-- The text of a file. -/
def FileContent.text? : FileContent → Option String
  | .text s => some s
  | .binary => none
  | .records m => (Yaml.write (m.entries.map fun e => (.string e.1, .string e.2))).toOption

/-- A place in the tree: the names that lead to it from the root. -/
abbrev Place := List String

/-- What stands at a place. -/
inductive FileNode where
  | directory
  | file (content : FileContent)

/-- The directories and files at the places other than the root. -/
structure FileTree where
  nodes : List (Place × FileNode)

namespace FileTree

/-- The tree with nothing but its root. -/
def empty : FileTree := ⟨[]⟩

instance : Inhabited FileTree := ⟨empty⟩

/-- What stands at a place; the root is a directory. -/
def get? (t : FileTree) (p : Place) : Option FileNode :=
  if p.isEmpty then some .directory else t.nodes.lookup p

/-- Puts a node at a place, replacing what stood there. -/
def put (t : FileTree) (p : Place) (n : FileNode) : FileTree :=
  if t.nodes.any (·.1 == p) then
    ⟨t.nodes.map fun e => if e.1 == p then (p, n) else e⟩
  else ⟨t.nodes ++ [(p, n)]⟩

/-- Takes away what stands at a place. -/
def erase (t : FileTree) (p : Place) : FileTree := ⟨t.nodes.filter (·.1 != p)⟩

/-- Whether a place holds a directory. -/
def isDirectoryAt (t : FileTree) (p : Place) : Bool :=
  match t.get? p with
  | some .directory => true
  | _ => false

/-- The longest name of a file, in bytes. -/
def maxFileName : Nat := 255

/-! ### From paths to places -/

/-- Takes one step from a directory. -/
def step (t : FileTree) (p : Place) (name : String) : Except OsError Place :=
  match t.get? p with
  | none => .error .notFound
  | some (.file _) => .error .notDirectory
  | some .directory =>
    if name.isEmpty ∨ name = "." then .ok p
    else if name = ".." then .ok p.dropLast
    else if maxFileName < name.utf8ByteSize then .error .nameTooLong
    else .ok (p ++ [name])

/-- The place of a path, seen from a working directory. All but the last name must
lead to directories; the place itself may be empty. -/
def resolve (t : FileTree) (workingDir : Place) (path : String) : Except OsError Place :=
  if path.isEmpty then .error .notFound
  else if path.toList.contains '\x00' then .error .nulByte
  else
    let start := if Path.isRelative path then workingDir else []
    ((Path.parts path).map String.ofList).foldlM t.step start

/-- What stands at a path. -/
def node? (t : FileTree) (workingDir : Place) (path : String) : Except OsError FileNode := do
  let p ← t.resolve workingDir path
  match t.get? p with
  | some n => .ok n
  | none => .error .notFound

/-- Whether a path leads to a file. -/
def isFile (t : FileTree) (workingDir : Place) (path : String) : Bool :=
  match t.node? workingDir path with
  | .ok (.file _) => true
  | _ => false

/-- Whether a path leads to a directory. -/
def isDirectory (t : FileTree) (workingDir : Place) (path : String) : Bool :=
  match t.node? workingDir path with
  | .ok .directory => true
  | _ => false

/-- Whether a path leads to anything. -/
def exists? (t : FileTree) (workingDir : Place) (path : String) : Bool :=
  (t.node? workingDir path).isOk

/-! ### Reading and writing -/

/-- What the file at a path holds. -/
def content (t : FileTree) (workingDir : Place) (path : String) : Except OsError FileContent := do
  match ← t.node? workingDir path with
  | .file c => .ok c
  | .directory => .error .isDirectory

/-- The text of the file at a path. -/
def readText (t : FileTree) (workingDir : Place) (path : String) : Except OsError String := do
  match (← t.content workingDir path).text? with
  | some s => .ok s
  | none => .error .invalidText

/-- Writes a file, in a directory that is there. -/
def writeFile (t : FileTree) (workingDir : Place) (path : String) (c : FileContent) :
    Except OsError FileTree := do
  let p ← t.resolve workingDir path
  match t.get? p with
  | some .directory => .error .isDirectory
  | some (.file _) => .ok (t.put p (.file c))
  | none =>
    match t.get? p.dropLast with
    | some .directory => .ok (t.put p (.file c))
    | some (.file _) => .error .notDirectory
    | none => .error .notFound

/-- Removes a file. -/
def removeFile (t : FileTree) (workingDir : Place) (path : String) : Except OsError FileTree := do
  let p ← t.resolve workingDir path
  match t.get? p with
  | some .directory => .error .isDirectory
  | some (.file _) => .ok (t.erase p)
  | none => .error .notFound

/-- Moves a file over another one, or to an empty place. -/
def renameFile (t : FileTree) (workingDir : Place) (source target : String) :
    Except OsError FileTree := do
  let p ← t.resolve workingDir source
  let q ← t.resolve workingDir target
  match t.get? p, t.get? q with
  | none, _ => .error .notFound
  | some _, some .directory => .error .isDirectory
  | some n, _ => if p = q then .ok t else .ok ((t.erase p).put q n)

/-- Makes a directory at every place on the way to a path that is empty. -/
def makeDirectories (t : FileTree) (workingDir : Place) (path : String) :
    Except OsError FileTree := do
  if path.isEmpty then return t
  if path.toList.contains '\x00' then throw .nulByte
  let start := if Path.isRelative path then workingDir else []
  let names := (Path.parts path).map String.ofList
  let walk (acc : FileTree × Place) (name : String) : Except OsError (FileTree × Place) := do
    let (t, p) := acc
    let q ← t.step p name
    match t.get? q with
    | some _ => return (t, q)
    | none => return (t.put q .directory, q)
  let (t, p) ← names.foldlM walk (t, start)
  match t.get? p with
  | some (.file _) => throw .exists
  | _ => return t

/-- The names in a directory with what they hold, in the order of the names. -/
def children (t : FileTree) (p : Place) : NameMap FileNode :=
  .ofList (t.nodes.filterMap fun e =>
    match e.1.getLast? with
    | some name => if e.1.dropLast == p then some (name, e.2) else none
    | none => none)

/-- The names in the directory at a path with what they hold. -/
def list (t : FileTree) (workingDir : Place) (path : String) :
    Except OsError (NameMap FileNode) := do
  let p ← t.resolve workingDir path
  match t.get? p with
  | some .directory => .ok (t.children p)
  | some (.file _) => .error .notDirectory
  | none => .error .notFound

end FileTree

end SiteConfig
