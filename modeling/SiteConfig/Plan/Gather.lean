import SiteConfig.Comparison
import SiteConfig.Plan

/-!
# What pending items require

Before a comparison is planned, the dependencies of everything that it changes are
gathered: those of documents to be written from the source, those of documents to be
deleted from the target, and those of extensions from the lifecycle.
-/

namespace SiteConfig.Requirements

/-- The dependencies of a document; ones that are not well formed do not count here. -/
def dependenciesOf (d : Document) : Dependencies := d.dependencies.toOption.getD .none

/-- The dependencies of some documents of a snapshot. -/
def ofNames (s : Snapshot) (names : List String) : NameMap Dependencies :=
  .ofList (names.filterMap fun n => (s.get? n).map fun d => (n, dependenciesOf d))

/-- What the lifecycle says that some extensions depend on. -/
def gatherExtensions {σ : Type} (l : Lifecycle σ) :
    List Extension → Requirements → Attempt σ ImportError Requirements
  | [], r => pure r
  | e :: rest, r => do
    let info ← (l.info e).mapError fun f => .lifecycle f.text
    gatherExtensions l rest <|
      match info with
      | some i => r.withExtension e i.dependencies
      | Option.none => r

/-- **The requirements of a comparison** and of the extensions that change with it. -/
def gather {σ : Type} (c : Comparison) (x : ExtensionChanges) (l : Option (Lifecycle σ)) :
    Attempt σ ImportError Requirements :=
  let r : Requirements :=
    ⟨ofNames c.source c.changelist.writtenNames, ofNames c.target c.changelist.delete, []⟩
  match l with
  | some l => gatherExtensions l (x.install ++ x.uninstall) r
  | Option.none => pure r

end SiteConfig.Requirements
