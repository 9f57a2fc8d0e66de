import SiteConfig.Ledger.Basic
import SiteConfig.Lifecycle.Recorded
import SiteConfig.Lifecycle.Scripted
import SiteConfig.Lock
import SiteConfig.Storage.Cached
import SiteConfig.Storage.Database
import SiteConfig.Storage.Directory
import SiteConfig.Uuid

/-!
# The world of a program

Storages, lifecycles and locks are operations on some state. The **world** is one
state that holds what all of them keep, each in a part of its own: the file tree,
documents in memory, caches, counts, the installed extensions, and the locks that are
held. It also knows the time and where the next identifier comes from.
-/

namespace SiteConfig

/-- Everything that storages, lifecycles and locks keep. -/
structure World where
  files : FileTree
  /-- Documents in memory, by the names of what they belong to. -/
  documents : NameMap Storage.Documents
  caches : NameMap Storage.Cache
  counts : NameMap Nat
  manifest : Manifest
  script : Lifecycle.ScriptState
  held : LockTable.Held
  now : Timestamp
  /-- The number of the next identifier. -/
  nextId : Nat

namespace World

/-- The world of a file tree. -/
def ofFiles (files : FileTree) (now : Timestamp) (nextId : Nat) : World :=
  { files, documents := .empty, caches := .empty, counts := .empty, manifest := .empty
    script := .start [], held := [], now, nextId }

/-! ### The parts -/

/-- What a name is bound to, or else something to begin with. -/
def bindingCell {α : Type} (start : α) (name : String) : Cell (NameMap α) α :=
  ⟨fun m => (m.get? name).getD start, fun a m => m.insert name a⟩

/-- The file tree. -/
def fileCell : Cell World FileTree := ⟨(·.files), fun t w => { w with files := t }⟩

/-- The documents in memory under a name. -/
def documentCell (name : String) : Cell World Storage.Documents :=
  Cell.within ⟨(·.documents), fun m w => { w with documents := m }⟩ (bindingCell .empty name)

/-- The cache under a name. -/
def cacheCell (name : String) : Cell World Storage.Cache :=
  Cell.within ⟨(·.caches), fun m w => { w with caches := m }⟩ (bindingCell .empty name)

/-- The count under a name. -/
def countCell (name : String) : Cell World Nat :=
  Cell.within ⟨(·.counts), fun m w => { w with counts := m }⟩ (bindingCell 0 name)

/-- The installed extensions of a manifest. -/
def manifestCell : Cell World Manifest := ⟨(·.manifest), fun m w => { w with manifest := m }⟩

/-- The state of a scripted lifecycle. -/
def scriptCell : Cell World Lifecycle.ScriptState := ⟨(·.script), fun s w => { w with script := s }⟩

/-- The locks that are held. -/
def heldCell : Cell World LockTable.Held := ⟨(·.held), fun h w => { w with held := h }⟩

/-! ### What lives in it -/

/-- A new identifier. -/
def freshId : StateM World String := fun w =>
  (Uuid.text w.nextId, { w with nextId := w.nextId + 1 })

/-- The storage of a directory. -/
def directory (d : Storage.Directory) : Storage World := .directory d fileCell

/-- The storage of a database, under a label of its own. -/
def database (label : String) (r : Storage.Records) : Storage World :=
  .database label (fileCell.within r.cell)

/-- The lifecycle of a manifest. -/
def recorded (r : Lifecycle.Registry) : Lifecycle World := .recorded r manifestCell fileCell

/-- Opens the manifest of a registry: what is installed is what it lists. -/
def openManifest (r : Lifecycle.Registry) : Attempt World Failure Unit := fun w =>
  match r.load w.files with
  | .ok m => (.ok (), { w with manifest := m })
  | .error e => (.error e, w)

/-- Records an event of a run in a ledger. -/
def record (l : Ledger) (run : String) (e : Event) : Attempt World Failure Unit := do
  let id ← Attempt.always freshId
  let w ← Attempt.state
  fileCell.zoom (l.append { id, time := w.now, run, version := programVersion, event := e })

end World

end SiteConfig
