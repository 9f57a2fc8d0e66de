import SiteConfig.Error
import SiteConfig.FileTree.Basic
import SiteConfig.Settings.Basic
import SiteConfig.Settings.Layers
import SiteConfig.Text.Blank

/-!
# Where settings come from

Four layers make up the settings of a project, each over the ones before it: the
built-in defaults, the settings of the user, those of the project, and environment
variables. The files are merged as YAML before anything is read from them, so a file
needs to name only what it changes.

Relative paths are seen from the directory of the project's settings file, or from
the working directory when there is none.
-/

namespace SiteConfig.Settings

open Yaml

/-- The built-in defaults. -/
def builtIn : Value :=
  let text (k s : String) : Value × Value := (.string k, .string s)
  let entity (id label start key : String) : Value :=
    .mapping [text "id" id, text "label" label, text "config-prefix" start, text "id-key" key]
  .mapping [
    (.string "active", .mapping [text "backend" "file", text "path" "config/active"]),
    (.string "sync", .mapping [text "path" "config/sync"]),
    text "state-dir" ".cfgsync",
    (.string "schema", .mapping [(.string "strict", .bool false)]),
    (.string "import", .mapping [text "lock-key" "config_importer",
      (.string "strip-keys", .sequence [])]),
    (.string "entity-types", .sequence [
      entity "image_style" "Image style" "image.style" "name",
      entity "node_type" "Content type" "node.type" "type",
      entity "menu" "Menu" "system.menu" "id"])]

/-- What settings are looked up in. -/
structure Surroundings where
  files : FileTree
  workingDir : String
  /-- The directory of the user's settings, if there is one. -/
  globalDir : Option String
  /-- The variables that state settings, with their values. -/
  overrides : List (String × String)

namespace Surroundings

/-- The place that relative paths are seen from. -/
def workingPlace (s : Surroundings) : Place :=
  ((Path.parts s.workingDir).map String.ofList).filter (!·.isEmpty)

/-- Whether a path leads to a file. -/
def isFile (s : Surroundings) (path : String) : Bool := s.files.isFile s.workingPlace path

/-- The value of a settings file. -/
def layer (s : Surroundings) (path : String) : Except ConfigError Value := do
  let text ← (s.files.readText s.workingPlace path).mapError .os
  (Yaml.read text).mapError fun e => .invalidSettings s!"Failed to parse {path}: {e.message}"

/-- The names of the settings file of a project, the first one found counts. -/
def projectFileNames : List String := ["cfgsync.yaml", "cfgsync.yml"]

/-- The settings file of the project: the one that was asked for, which must be there,
or one in the working directory. -/
def projectFile? (s : Surroundings) (explicit : Option String) :
    Except ConfigError (Option String) :=
  match explicit with
  | some path => if s.isFile path then .ok (some path) else .error (.settingsNotFound path)
  | none => .ok ((projectFileNames.map (Path.join s.workingDir)).find? s.isFile)

/-- The directory that the relative paths of a project are seen from. -/
def baseDir (s : Surroundings) (project : Option String) : String :=
  match project.bind Path.parent? with
  | some dir => if dir.isEmpty then s.workingDir else dir
  | none => s.workingDir

/-- The value of a variable. -/
def valueOf? (s : Surroundings) (name : String) : Option String := s.overrides.lookup name

end Surroundings

/-- Yes or no, in one of the usual words. -/
def readSwitch? (s : String) : Option Bool :=
  let word := Text.lowercase (Text.trim s)
  if ["1", "true", "yes", "on"].contains word then some true
  else if ["0", "false", "no", "off"].contains word then some false
  else none

/-- The settings with those that variables state. -/
def applyVariables (s : Settings) (around : Surroundings) : Except ConfigError Settings := do
  let s := match around.valueOf? "CFGSYNC_ACTIVE_DIR" with
    | some v => { s with activePath := v }
    | none => s
  let s ← match around.valueOf? "CFGSYNC_ACTIVE_BACKEND" with
    | some v =>
      match Backend.parse v with
      | .ok b => pure { s with backend := b }
      | .error word =>
        throw (.invalidSettings s!"CFGSYNC_ACTIVE_BACKEND: {Backend.refusal word}")
    | none => pure s
  let s := match around.valueOf? "CFGSYNC_SYNC_DIR" with
    | some v => { s with syncPath := v }
    | none => s
  let s := match around.valueOf? "CFGSYNC_STATE_DIR" with
    | some v => { s with stateDir := v }
    | none => s
  match around.valueOf? "CFGSYNC_STRICT_SCHEMA" with
  | some v =>
    match readSwitch? v with
    | some b => return { s with strict := b }
    | none => throw (.invalidSettings "CFGSYNC_STRICT_SCHEMA must be true or false")
  | none => return s

/-- The user's layer, if there is one. -/
def globalLayer (around : Surroundings) : Except ConfigError Value :=
  match around.globalDir with
  | some dir =>
    let path := Path.join dir "config.yaml"
    if around.isFile path then around.layer path else .ok .null
  | none => .ok .null

/-- The settings that a value states. -/
def ofValue (v : Value) : Except ConfigError Settings :=
  (decode v).mapError fun e => .invalidSettings s!"Failed to parse settings: {e.message}"

/-- **Loads the settings of a project**, from the file asked for or else from the
working directory. -/
def load (around : Surroundings) (explicit : Option String) : Except ConfigError Settings := do
  let user ← globalLayer around
  let file ← around.projectFile? explicit
  let project ← match file with
    | some path => around.layer path
    | none => pure .null
  let s ← ofValue (builtIn.overlayAll [user, project])
  let s ← s.applyVariables around
  return s.resolvePaths (around.baseDir file)

end SiteConfig.Settings
