import SiteConfig.Extension

/-!
# What has to change

A **snapshot** is the set of documents that a storage holds at one moment. The
**changelist** of two snapshots says what would make the target equal to the
source: documents to create, update, delete and rename
(`SiteConfig.Changelist.between`).

A rename is a pair of a document that only the target has and one that only the
source has, with the same identifier. Of several candidates the first names are
paired.
-/

namespace SiteConfig

/-- The documents of a storage at one moment, by their names. -/
abbrev Snapshot := NameMap Document

namespace Snapshot

/-- The snapshot of some documents. -/
def ofDocuments (docs : List Document) : Snapshot :=
  .ofList (docs.map fun d => (d.name, d))

/-- Whether two lists of documents agree one by one. -/
def sameDocuments : List (String × Document) → List (String × Document) → Bool
  | [], [] => true
  | (n, d) :: r, (m, e) :: s => n == m && d.same e && sameDocuments r s
  | _, _ => false

/-- Whether two snapshots hold the same names with the same contents. -/
def same (a b : Snapshot) : Bool := sameDocuments a.entries b.entries

end Snapshot

/-- A document that moves to a new name. -/
structure Rename where
  source : String
  target : String
  /-- Whether the content differs, too. -/
  contentChanged : Bool
  deriving DecidableEq, Repr

/-- The pending changes of documents. -/
structure Changelist where
  create : List String
  update : List String
  delete : List String
  rename : List Rename
  deriving DecidableEq, Repr

namespace Changelist

/-- No changes. -/
def empty : Changelist := ⟨[], [], [], []⟩

instance : Inhabited Changelist := ⟨empty⟩

/-- Whether anything changes. -/
def hasChanges (c : Changelist) : Bool :=
  !(c.create.isEmpty && c.update.isEmpty && c.delete.isEmpty && c.rename.isEmpty)

/-- The number of changes. -/
def size (c : Changelist) : Nat :=
  c.create.length + c.update.length + c.delete.length + c.rename.length

/-- The names under which source content is written. -/
def writtenNames (c : Changelist) : List String :=
  c.create ++ c.update ++ c.rename.map (·.target)

/-! ### Comparing snapshots -/

/-- The documents whose names the other snapshot does not know, in order. -/
def onlyIn (a b : Snapshot) : List Document :=
  a.values.filter fun d => !b.contains d.name

/-- Takes the first document with an identifier out of a list. -/
def takeByUuid (uuid : String) : List Document → Option (Document × List Document)
  | [] => none
  | d :: r =>
    if d.uuid? = some uuid then
      -- later documents with this identifier can no longer be paired
      some (d, r.filter fun e => e.uuid? ≠ some uuid)
    else (takeByUuid uuid r).map fun (e, r) => (e, d :: r)

/-- Pairs documents that only the source has with those that only the target has:
gives the documents to create and those to rename. -/
def pair : List Document → List Document → List String × List Rename
  | [], _ => ([], [])
  | d :: r, old =>
    match d.uuid?.bind fun u => takeByUuid u old with
    | some (e, old) =>
      let (create, rename) := pair r old
      (create, ⟨e.name, d.name, !d.sameContent e⟩ :: rename)
    | none =>
      let (create, rename) := pair r old
      (d.name :: create, rename)

/-- The common documents whose contents differ. -/
def differing (source target : Snapshot) : List String :=
  (target.values.filter fun d =>
    match source.get? d.name with
    | some s => !s.sameContent d
    | none => false).map (·.name)

/-- **The changes that make the target equal to the source.** -/
def between (source target : Snapshot) : Changelist :=
  let old := onlyIn target source
  let (create, rename) := pair (onlyIn source target) old
  { create, rename
    update := differing source target
    delete := (old.map (·.name)).filter fun n => !rename.any (·.source == n) }

end Changelist

/-- The pending changes of extensions, each list in order. -/
structure ExtensionChanges where
  install : List Extension
  uninstall : List Extension
  deriving DecidableEq, Repr

namespace ExtensionChanges

/-- No changes. -/
def empty : ExtensionChanges := ⟨[], []⟩

instance : Inhabited ExtensionChanges := ⟨empty⟩

/-- Whether nothing changes. -/
def isEmpty (c : ExtensionChanges) : Bool := c.install.isEmpty && c.uninstall.isEmpty

/-- What leads from the installed extensions to the wanted ones. -/
def between (wanted installed : List Extension) : ExtensionChanges :=
  { install := wanted.filter fun e => !installed.contains e
    uninstall := installed.filter fun e => !wanted.contains e }

end ExtensionChanges

end SiteConfig
