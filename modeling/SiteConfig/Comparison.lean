import SiteConfig.Changelist
import SiteConfig.ImportError
import SiteConfig.Lifecycle.Basic
import SiteConfig.Storage.Basic
import SiteConfig.Transform

/-!
# Comparing two storages

A **comparer** takes snapshots of a source and of a target storage and derives the
changelist that would make the target equal to the source. The documents of the
source pass through the transforms first.

What was seen last is a `SiteConfig.Comparison`. It is plain data: as long as
nobody compares again it does not change, however much the storages do, and
`SiteConfig.Comparer.isStale` tells whether they have.
-/

namespace SiteConfig

/-! ### What was seen -/

/-- The last snapshots of a source and a target, and what has to change. -/
structure Comparison where
  source : Snapshot
  target : Snapshot
  changelist : Changelist
  /-- Whether the changelist may still be used. -/
  calculated : Bool

namespace Comparison

/-- Nothing has been compared yet. -/
def initial : Comparison := ⟨.empty, .empty, .empty, false⟩

instance : Inhabited Comparison := ⟨initial⟩

/-- The comparison of two snapshots. -/
def between (source target : Snapshot) : Comparison :=
  ⟨source, target, .between source target, true⟩

/-- The same comparison, no longer to be used. -/
def invalidate (c : Comparison) : Comparison := { c with calculated := false }

/-- What the document `core.extension` of a snapshot states, if there is one. -/
def extensionsIn (s : Snapshot) : Except ConfigError (Option CoreExtension) :=
  match s.get? coreExtensionName with
  | some d => (CoreExtension.ofDocument d).map some
  | none => .ok none

/-- The extensions that the source wants, if it says so. -/
def sourceExtensions (c : Comparison) : Except ConfigError (Option CoreExtension) :=
  extensionsIn c.source

/-- The extensions that the target states, if it does. -/
def targetExtensions (c : Comparison) : Except ConfigError (Option CoreExtension) :=
  extensionsIn c.target

/-- **The pending changes of extensions.** A source that does not list extensions
changes none. -/
def extensionChanges {σ : Type} (c : Comparison) (l : Lifecycle σ) :
    Attempt σ ImportError ExtensionChanges := do
  match ← Attempt.ofExcept (c.sourceExtensions.mapError .storage) with
  | none => return .empty
  | some wanted =>
    let installed ← l.installed.mapError fun f => .lifecycle f.text
    return .between wanted.extensions installed

end Comparison

/-! ### Looking -/

/-- Two storages to compare. -/
structure Comparer (σ : Type) where
  source : Storage σ
  target : Storage σ
  transforms : List Transform

/-- The documents that a storage holds, transformed; dropped ones are left out. -/
def Snapshot.load {σ : Type} (s : Storage σ) (transforms : List Transform) :
    Attempt σ ConfigError Snapshot := do
  let names ← s.list ""
  let docs ← s.readMany names
  return .ofDocuments (docs.filterMap (Transform.applyAll transforms))

namespace Comparer

variable {σ : Type}

/-- What the source holds now. -/
def loadSource (c : Comparer σ) : Attempt σ ConfigError Snapshot :=
  Snapshot.load c.source c.transforms

/-- What the target holds now. -/
def loadTarget (c : Comparer σ) : Attempt σ ConfigError Snapshot := Snapshot.load c.target []

/-- **Compares the storages afresh.** A source that could be read is kept even when
the target could not. -/
def refresh (c : Comparer σ) : Attempt (Comparison × σ) ConfigError Unit := do
  let source ← Cell.second.zoom c.loadSource
  Cell.first.modify fun (k : Comparison) => { k with source }
  let target ← Cell.second.zoom c.loadTarget
  Cell.first.modify fun (_ : Comparison) => .between source target

/-- **Whether the storages no longer hold what was seen.** A comparison that may not
be used is stale. -/
def isStale (c : Comparer σ) (k : Comparison) : Attempt σ ConfigError Bool := do
  if !k.calculated then return true
  else
    let source ← c.loadSource
    if !source.same k.source then return true
    else
      let target ← c.loadTarget
      return !target.same k.target

end Comparer

end SiteConfig
