import SiteConfig.Attempt
import SiteConfig.Document

/-!
# Storages

A **storage** is a flat collection of named documents. It is given by what it can
do, each operation an attempt on the state that holds the documents, so that
storages can be put on top of one another and several of them can share one state.

Six operations determine the others (`SiteConfig.Storage.ofBasics`): several
documents are read one by one, a document is renamed by writing the new one and
deleting the old one, and many documents are deleted one by one.
-/

namespace SiteConfig

/-- A collection of named documents over a state. -/
structure Storage (σ : Type) where
  /-- A short description, shown in messages. -/
  label : String
  has : String → Attempt σ ConfigError Bool
  /-- Fails with `ConfigError.notFound` when there is no such document. -/
  read : String → Attempt σ ConfigError Document
  /-- The documents among some names; missing ones are left out. -/
  readMany : List String → Attempt σ ConfigError (List Document)
  /-- Replaces the whole of a document. -/
  write : String → Yaml.Mapping → Attempt σ ConfigError Unit
  /-- Fails with `ConfigError.notFound` when there is no such document. -/
  delete : String → Attempt σ ConfigError Unit
  rename : String → String → Attempt σ ConfigError Unit
  /-- The names that begin with a text, in order. -/
  list : String → Attempt σ ConfigError (List String)
  /-- Deletes the documents whose names begin with a text, and counts them. -/
  deleteAll : String → Attempt σ ConfigError Nat

/-- Whether a name begins with a text. -/
def beginsWith (start name : String) : Bool := start.toList.isPrefixOf name.toList

namespace Storage

variable {σ : Type}

/-- The operations that determine the others. -/
structure Basics (σ : Type) where
  label : String
  has : String → Attempt σ ConfigError Bool
  read : String → Attempt σ ConfigError Document
  write : String → Yaml.Mapping → Attempt σ ConfigError Unit
  delete : String → Attempt σ ConfigError Unit
  list : String → Attempt σ ConfigError (List String)

/-- Reads documents one by one, leaving out missing ones. -/
def readEach (read : String → Attempt σ ConfigError Document) :
    List String → Attempt σ ConfigError (List Document)
  | [] => pure []
  | n :: r => do
    let d ← (read n >>= fun d => pure (some d) : Attempt σ ConfigError (Option Document)).recover
      fun e => if e.isNotFound then pure none else Attempt.fail e
    let ds ← readEach read r
    return d.toList ++ ds

/-- Deletes documents one by one. -/
def deleteEach (delete : String → Attempt σ ConfigError Unit) :
    List String → Attempt σ ConfigError Unit
  | [] => pure ()
  | n :: r => do
    delete n
    deleteEach delete r

/-- The storage that some operations determine. -/
def ofBasics (b : Basics σ) : Storage σ :=
  { label := b.label
    has := b.has
    read := b.read
    readMany := readEach b.read
    write := b.write
    delete := b.delete
    rename := fun source target => do
      let d ← b.read source
      b.write target d.data
      b.delete source
    list := b.list
    deleteAll := fun start => do
      let names ← b.list start
      deleteEach b.delete names
      return names.length }

/-- Writes the documents of one storage into another one, one by one. -/
def copyEach (source target : Storage σ) : List String → Attempt σ ConfigError Unit
  | [] => pure ()
  | n :: r => do
    let d ← source.read n
    target.write n d.data
    copyEach source target r

/-- Halves a window of sorted names until at most one is left: the name that is
looked for, if it is among them. The base tells where the window begins, and the count
bounds the halvings. -/
def narrow (n : String) : Nat → Nat → List String → Nat × List String
  | 0, base, window => (base, window)
  | count + 1, base, window =>
    if window.length ≤ 1 then (base, window)
    else
      let half := window.length / 2
      let upper := window.drop half
      if upper.head?.any (n < ·) then narrow n count base (window.take (window.length - half))
      else narrow n count (base + half) upper

/-- **Binary search**: the place of a name among sorted names, or, if it is not there, the
place where it would have to be put. -/
def searchSorted (names : List String) (n : String) : Except Nat Nat :=
  match narrow n names.length 0 names with
  | (base, []) => .error base
  | (base, m :: _) => if n = m then .ok base else .error (if m < n then base + 1 else base)

/-- **Makes one storage hold what another one holds**: what the other one does not
have is deleted, then everything is written. Counts the documents copied. -/
def copyAll (source target : Storage σ) : Attempt σ ConfigError Nat := do
  let names ← source.list ""
  let old ← target.list ""
  deleteEach target.delete (old.filter fun n => !(searchSorted names n).isOk)
  copyEach source target names
  return names.length

end Storage

end SiteConfig
