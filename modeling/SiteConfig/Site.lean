import SiteConfig.Check.Standard
import SiteConfig.Import.Run
import SiteConfig.Ledger.Run
import SiteConfig.Schema.Embedded
import SiteConfig.Settings.Load
import SiteConfig.World

/-!
# Sites

A site is what its settings describe: an active storage, a storage of proposed
configuration, and a directory for the state of imports. All that an import works with
is put together from it.
-/

namespace SiteConfig

/-- Where the program runs. -/
structure Environment where
  workingDir : String
  /-- The home directory of the user, if there is one. -/
  home : Option String
  /-- The variables that state settings, with their values. -/
  overrides : List (String × String)

/-- What settings are looked up in. -/
def Environment.surroundings (e : Environment) (files : FileTree) : Settings.Surroundings :=
  { files, workingDir := e.workingDir, globalDir := e.home.map fun h => Path.join h ".cfgsync"
    overrides := e.overrides }

/-- A site. -/
structure Site where
  settings : Settings
  workingDir : Place
  active : Storage World
  /-- The proposed configuration. -/
  proposed : Storage World

/-- The failure that an error amounts to. -/
def ConfigError.failure (e : ConfigError) : Failure := ⟨e.message, e.chain.drop 1⟩

/-- The failure that an error amounts to. -/
def ImportError.failure : ImportError → Failure
  | .storage e => e.failure
  | e => .simple e.message

namespace Site

/-- Opens the active storage. A database is read through a cache. -/
def openActive (s : Settings) (workingDir : Place) : Attempt World ConfigError (Storage World) :=
  match s.backend with
  | .file => pure (World.directory ⟨s.activePath, workingDir⟩)
  | .database => do
    let records : Storage.Records := ⟨s.activePath, workingDir⟩
    World.fileCell.zoom records.prepare
    return .cached (World.database s.activePath records) (World.cacheCell s.activePath)

/-- The storage of the proposed configuration. -/
def openProposed (s : Settings) (workingDir : Place) : Storage World :=
  World.directory ⟨s.syncPath, workingDir⟩

/-- **Loads a site** by its settings. -/
def load (e : Environment) (explicit : Option String) : Attempt World Failure Site := do
  let around := e.surroundings (← World.fileCell.read)
  let settings ← Attempt.ofExcept
    ((Settings.load around explicit).mapError fun e =>
      e.failure.within "Failed to load cfgsync settings")
  let workingDir := around.workingPlace
  let active ← (openActive settings workingDir).mapError fun e =>
    e.failure.within "Failed to open active storage"
  return { settings, workingDir, active, proposed := openProposed settings workingDir }

/-- The files of a directory with their texts. -/
def textFiles (t : FileTree) (workingDir : Place) (path : String) :
    List (String × Except OsError String) :=
  match t.list workingDir path with
  | .error _ => []
  | .ok children => children.entries.map fun e =>
      (e.1, match e.2 with
        | .directory => .error .isDirectory
        | .file c =>
          match c.text? with
          | some text => .ok text
          | none => .error .invalidText)

/-- The schemas of the site: those of its schema directory, or else the built-in ones. -/
def schemas (s : Site) : Attempt World Failure SchemaCatalog := do
  let files ← World.fileCell.read
  let catalog ← match s.settings.schemaDir with
    | some dir =>
      let found := SchemaCatalog.ofFiles dir (textFiles files s.workingDir dir)
      Attempt.ofExcept (found.mapError fun e =>
        e.failure.within s!"Failed to load schemas from {dir}")
    | none => pure .embedded
  return catalog.withStrict s.settings.strict

/-- The lifecycle of the site. A manifest that is missing is made from what the active
configuration lists, so that a site does not look as if nothing were installed. -/
def lifecycle (s : Site) : Attempt World Failure (Lifecycle World) := do
  let files ← World.fileCell.read
  let catalog ← match s.settings.catalog with
    | some path => Attempt.ofExcept ((Lifecycle.loadCatalog files s.workingDir path).map some)
    | none => pure none
  let registry : Lifecycle.Registry := ⟨s.settings.manifestPath, s.workingDir, catalog⟩
  World.openManifest registry
  if ← (s.active.has coreExtensionName).mapError (·.failure) then
    let d ← (s.active.read coreExtensionName).mapError (·.failure)
    let core ← Attempt.ofExcept ((CoreExtension.ofDocument d).mapError (·.failure))
    let _ ← registry.seedIfMissing World.manifestCell World.fileCell core
  return World.recorded registry

/-- The locks of the site. -/
def lock (s : Site) : LockTable World :=
  .files ⟨s.settings.stateDir, s.workingDir⟩ World.fileCell World.heldCell

/-- The ledger of the site. -/
def ledger (s : Site) : Ledger := ⟨s.settings.ledgerPath, s.workingDir⟩

/-- Compares the proposed configuration with the active one. -/
def comparer (s : Site) : Comparer World :=
  { source := s.proposed
    target := s.active
    transforms := if s.settings.stripKeys.isEmpty then [] else [.stripKeys s.settings.stripKeys] }

/-- An import into the active storage, as yet without extensions. Its events are
recorded under a new identifier. -/
def importerOf (s : Site) (comparer : Comparer World) : Attempt World Failure (Importer World) := do
  let run ← Attempt.always World.freshId
  return {
    comparer
    lock := s.lock
    lockKey := s.settings.lockKey
    schemas := some (← s.schemas)
    lifecycle := none
    checks := Check.standard
    journal := some (World.record s.ledger run)
    clock := World.now }

/-- **The import of the proposed configuration.** -/
def importer (s : Site) : Attempt World Failure (Importer World) := do
  let i ← s.importerOf s.comparer
  return { i with lifecycle := some (← s.lifecycle) }

end Site

end SiteConfig
