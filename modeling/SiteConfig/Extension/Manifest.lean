import SiteConfig.Extension
import SiteConfig.Timestamp
import SiteConfig.Yaml.Loose

/-!
# Manifests of installed extensions

A manifest is the record of the extensions that are installed. In a file each of
them carries the time at which it was installed; those times must be well formed,
but nothing depends on them.
-/

namespace SiteConfig

open Yaml

/-- The installed extensions. -/
structure Manifest where
  module : NameMap Unit
  theme : NameMap Unit
  deriving DecidableEq

namespace Manifest

/-- No extension. -/
def empty : Manifest := ⟨.empty, .empty⟩

instance : Inhabited Manifest := ⟨empty⟩

/-- The installed extensions of a kind. -/
def names (m : Manifest) : ExtensionKind → NameMap Unit
  | .module => m.module
  | .theme => m.theme

/-- Every installed extension, modules first, each kind in the order of names. -/
def extensions (m : Manifest) : List Extension :=
  m.module.keys.map .module ++ m.theme.keys.map .theme

/-- Whether an extension is installed. -/
def contains (m : Manifest) (e : Extension) : Bool := (m.names e.kind).contains e.name

/-- Records an extension as installed. -/
def insert (m : Manifest) (e : Extension) : Manifest :=
  match e.kind with
  | .module => { m with module := m.module.insert e.name () }
  | .theme => { m with theme := m.theme.insert e.name () }

/-- Records an extension as not installed. -/
def erase (m : Manifest) (e : Extension) : Manifest :=
  match e.kind with
  | .module => { m with module := m.module.erase e.name }
  | .theme => { m with theme := m.theme.erase e.name }

/-! ### Manifests as files -/

/-- Reads a time. -/
def readTime : Loose Timestamp := fun slots n => do
  Timestamp.parse? (← Loose.string slots n)

/-- Reads the record of one extension. -/
def readInstalled : Loose Unit := fun slots n => do
  let ms ← Loose.record ["installed-at"] slots n
  let _ ← Loose.member readTime none slots ms "installed-at"
  return ()

/-- Reads the extensions of a kind. -/
def readNames : Loose (NameMap Unit) := fun slots n =>
  return .ofList (← Loose.bindings readInstalled slots n)

/-- Reads a manifest. -/
def read : Loose Manifest := fun slots n => do
  let ms ← Loose.record ["schema-version", "last-updated", "module", "theme"] slots n
  let _ ← Loose.member Loose.string none slots ms "schema-version"
  let _ ← Loose.member readTime none slots ms "last-updated"
  return {
    module := ← Loose.member readNames (some .empty) slots ms "module"
    theme := ← Loose.member readNames (some .empty) slots ms "theme" }

/-- The manifest of a text. -/
def ofText? (text : String) : Option Manifest := Loose.readText read text

/-- The mapping that a manifest is written as; all times are the same. -/
def toMapping (m : Manifest) : Mapping :=
  let time : Value := .string (default : Timestamp).text
  let installed (names : NameMap Unit) : Value :=
    .mapping (names.keys.map fun n =>
      (.string n, .mapping [(.string "installed-at", time)]))
  [(.string "schema-version", .string "1.0"), (.string "last-updated", time),
   (.string "module", installed m.module), (.string "theme", installed m.theme)]

end Manifest

end SiteConfig
