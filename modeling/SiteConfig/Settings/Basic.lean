import SiteConfig.FileTree.Path
import SiteConfig.Json.Value
import SiteConfig.Text.Lowercase
import SiteConfig.Yaml.Decode

/-!
# Settings

The settings of a site say where its active and its proposed configuration live,
where the state of imports is kept, which schemas and extensions are known, and how
imports behave. Every setting has a default, so that a mapping needs to name only
those that differ (`SiteConfig.Settings.decode`).
-/

namespace SiteConfig

open Yaml

/-- How the active configuration is stored. -/
inductive Backend where
  | file
  | database
  deriving DecidableEq, Repr

namespace Backend

/-- The word for a backend. -/
def text : Backend → String
  | .file => "file"
  | .database => "database"

/-- The backend of a word, in letters of either case; the database has a short name,
too. What is refused is the word in small letters. -/
def parse (s : String) : Except String Backend :=
  match Text.lowercase s with
  | "file" => .ok .file
  | "database" => .ok .database
  | "db" => .ok .database
  | other => .error other

/-- The wording for a word that is no backend. -/
def refusal (word : String) : String :=
  s!"unknown storage backend '{word}', expected 'file' or 'database'"

end Backend

/-- A kind of documents that are identified by a key of their own. -/
structure EntityType where
  id : String
  label : String
  /-- What the names of the documents begin with. -/
  configPrefix : String
  /-- The key that holds the identifier. -/
  idKey : String
  deriving DecidableEq, Repr

namespace EntityType

/-- The name of the document with an identifier. -/
def documentName (t : EntityType) (id : String) : String := s!"{t.configPrefix}.{id}"

end EntityType

/-- The settings of a site. -/
structure Settings where
  backend : Backend
  activePath : String
  syncPath : String
  stateDir : String
  catalog : Option String
  schemaDir : Option String
  /-- Whether documents without a schema are refused. -/
  strict : Bool
  lockKey : String
  stripKeys : List String
  entityTypes : List EntityType
  deriving DecidableEq, Repr

namespace Settings

/-- The settings when nothing is set. -/
def default : Settings :=
  { backend := .file
    activePath := "config/active"
    syncPath := "config/sync"
    stateDir := ".cfgsync"
    catalog := none
    schemaDir := none
    strict := false
    lockKey := "config_importer"
    stripKeys := []
    entityTypes := [] }

instance : Inhabited Settings := ⟨default⟩

/-- The file of the import log. -/
def ledgerPath (s : Settings) : String := Path.join s.stateDir "import_log.jsonl"

/-- The file that lists the installed extensions. -/
def manifestPath (s : Settings) : String := Path.join s.stateDir "extensions.yaml"

/-- The entity type of an identifier. -/
def entityType? (s : Settings) (id : String) : Option EntityType :=
  s.entityTypes.find? (·.id == id)

/-- The settings with every relative path seen from a directory. -/
def resolvePaths (s : Settings) (base : String) : Settings :=
  { s with
    activePath := Path.join base s.activePath
    syncPath := Path.join base s.syncPath
    stateDir := Path.join base s.stateDir
    catalog := s.catalog.map (Path.join base)
    schemaDir := s.schemaDir.map (Path.join base) }

/-! ### Reading a mapping -/

/-- The section of the active configuration. -/
def decodeActive (s : Settings) : Decoder Settings :=
  Decode.record "ActiveStorageSettings" ["backend", "path"]
    { s with backend := default.backend, activePath := default.activePath } fun s key v =>
      if key = "backend" then
        return { s with backend := ← Decode.oneOf [("file", .file), ("database", .database)] v }
      else return { s with activePath := ← Decode.path v }

/-- The section of the proposed configuration. -/
def decodeSync (s : Settings) : Decoder Settings :=
  Decode.record "SyncStorageSettings" ["path"] { s with syncPath := default.syncPath }
    fun s _ v => return { s with syncPath := ← Decode.path v }

/-- The section of the extensions. -/
def decodeExtensions (s : Settings) : Decoder Settings :=
  Decode.record "ExtensionSettings" ["catalog"] { s with catalog := none }
    fun s _ v => return { s with catalog := ← Decode.optional Decode.path v }

/-- The section of the schemas. -/
def decodeSchema (s : Settings) : Decoder Settings :=
  Decode.record "SchemaSettings" ["dir", "strict"] { s with schemaDir := none, strict := false }
    fun s key v =>
      if key = "dir" then return { s with schemaDir := ← Decode.optional Decode.path v }
      else return { s with strict := ← Decode.bool v }

/-- The section of imports. -/
def decodeImport (s : Settings) : Decoder Settings :=
  Decode.record "ImportSettings" ["lock-key", "strip-keys"]
    { s with lockKey := default.lockKey, stripKeys := [] } fun s key v =>
      if key = "lock-key" then return { s with lockKey := ← Decode.string v }
      else return { s with stripKeys := ← Decode.list Decode.string v }

/-- The parts of an entity type read so far. -/
structure PartialType where
  id : Option String
  label : Option String
  configPrefix : Option String
  idKey : Option String

/-- A part that must be there. -/
def PartialType.need (name : String) (part : Option String) : Except Mismatch String :=
  match part with
  | some s => .ok s
  | none => .error (.missingField name)

/-- An entity type. Its key is `id` unless it says otherwise. -/
def decodeEntityType : Decoder EntityType := fun v => do
  let p ← Decode.record "EntityTypeDefinition" ["id", "label", "config-prefix", "id-key"]
    (⟨none, none, none, none⟩ : PartialType) (fun p key v => do
      let s ← Decode.string v
      if key = "id" then return { p with id := some s }
      else if key = "label" then return { p with label := some s }
      else if key = "config-prefix" then return { p with configPrefix := some s }
      else return { p with idKey := some s }) v
  return {
    id := ← PartialType.need "id" p.id
    label := ← PartialType.need "label" p.label
    configPrefix := ← PartialType.need "config-prefix" p.configPrefix
    idKey := p.idKey.getD "id" }

/-- **The settings that a mapping states.** -/
def decode : Decoder Settings :=
  Decode.record "CfgsyncSettings"
    ["active", "sync", "state-dir", "extensions", "schema", "import", "entity-types"] default
    fun s key v =>
      if key = "active" then decodeActive s v
      else if key = "sync" then decodeSync s v
      else if key = "state-dir" then return { s with stateDir := ← Decode.path v }
      else if key = "extensions" then decodeExtensions s v
      else if key = "schema" then decodeSchema s v
      else if key = "import" then decodeImport s v
      else return { s with entityTypes := ← Decode.list decodeEntityType v }

/-! ### Showing the settings -/

/-- A text that may be absent. -/
def textOrNull : Option String → Json
  | some s => .string s
  | none => .null

/-- The settings as a record. -/
def toJson (s : Settings) : Json :=
  .object [
    ("active", .object [("backend", .string s.backend.text), ("path", .string s.activePath)]),
    ("sync", .object [("path", .string s.syncPath)]),
    ("state-dir", .string s.stateDir),
    ("extensions", .object [("catalog", textOrNull s.catalog)]),
    ("schema", .object [("dir", textOrNull s.schemaDir), ("strict", .bool s.strict)]),
    ("import", .object [("lock-key", .string s.lockKey),
      ("strip-keys", .array (s.stripKeys.map .string))]),
    ("entity-types", .array (s.entityTypes.map fun t =>
      .object [("id", .string t.id), ("label", .string t.label),
        ("config-prefix", .string t.configPrefix), ("id-key", .string t.idKey)]))]

end Settings

end SiteConfig
