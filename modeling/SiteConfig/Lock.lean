import SiteConfig.FileTree.Basic
import SiteConfig.ImportError
import SiteConfig.Attempt

/-!
# Locks

At most one import may change a target at a time. Whoever changes it takes a lock
first; taking a lock never waits, and a lock that is held is reported as such.

A **lock table** is a source of locks over a state: in memory, or as files of a
directory, one to a key.
-/

namespace SiteConfig

/-- A source of locks over a state. -/
structure LockTable (σ : Type) where
  /-- Takes a lock and says whether that was possible. -/
  acquire : String → Attempt σ ImportError Bool
  /-- Gives a lock back. -/
  release : String → StateM σ Unit
  /-- Whether somebody holds a lock. -/
  isLocked : String → Attempt σ ImportError Bool

namespace LockTable

variable {σ : Type}

/-- The keys that are held. -/
abbrev Held := List String

/-- Takes a key that is free. -/
def take (held : Cell σ Held) (key : String) : Attempt σ ImportError Bool := do
  if (← held.read).contains key then return false
  else do
    held.modify (key :: ·)
    return true

/-- Gives a key back. -/
def giveBack (held : Cell σ Held) (key : String) : StateM σ Unit := fun s =>
  ((), held.set ((held.get s).filter (· != key)) s)

/-- **Locks in memory.** -/
def memory (held : Cell σ Held) : LockTable σ :=
  { acquire := take held
    release := giveBack held
    isLocked := fun key => do return (← held.read).contains key }

/-- A directory of lock files. -/
structure Directory where
  path : String
  workingDir : Place

namespace Directory

/-- The file of a lock. -/
def filePath (d : Directory) (key : String) : String := Path.join d.path (key ++ ".lock")

/-- What a lock file is known by while it is held. -/
def holdKey (d : Directory) (t : FileTree) (key : String) : String :=
  match t.resolve d.workingDir (d.filePath key) with
  | .ok p => "/".intercalate p
  | .error _ => d.filePath key

/-- Opens a lock file, making it and its directory when they are missing. -/
def openFile (d : Directory) (key : String) : Attempt FileTree ImportError Unit := do
  let attempt (f : FileTree → Except OsError FileTree) : Attempt FileTree ImportError Unit :=
    fun t =>
      match f t with
      | .ok t => (.ok (), t)
      | .error e => (.error (.lock key e.message), t)
  attempt fun t => t.makeDirectories d.workingDir d.path
  attempt fun t =>
    if t.isFile d.workingDir (d.filePath key) then .ok t
    else t.writeFile d.workingDir (d.filePath key) (.text "")

end Directory

/-- **Locks in files.** A file stays when its lock is given back. -/
def files (d : Directory) (tree : Cell σ FileTree) (held : Cell σ Held) : LockTable σ :=
  let acquire (key : String) : Attempt σ ImportError Bool := do
    tree.zoom (d.openFile key)
    take held (d.holdKey (← tree.read) key)
  let release (key : String) : StateM σ Unit := fun s =>
    giveBack held (d.holdKey (tree.get s) key) s
  { acquire, release
    isLocked := fun key => do
      if !(← tree.read).exists? d.workingDir (d.filePath key) then return false
      else if ← acquire key then
        Attempt.always (release key)
        return false
      else return true }

end LockTable

end SiteConfig
