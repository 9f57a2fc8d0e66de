import SiteConfig.Extension
import SiteConfig.Yaml.Loose

/-!
# Catalogs of extensions

A catalog lists the extensions that may be installed, with what each of them needs:
modules, and for a theme the theme that it extends. Some extensions are required
and can never be uninstalled.
-/

namespace SiteConfig

open Yaml

/-- What is known about an extension that may be installed. -/
structure ExtensionInfo where
  extension : Extension
  label : Option String
  dependencies : List Extension
  required : Bool
  deriving DecidableEq, Repr

/-- An extension of which nothing is known. -/
def ExtensionInfo.bare (e : Extension) : ExtensionInfo := ⟨e, none, [], false⟩

/-- An entry of a catalog. -/
structure CatalogEntry where
  label : Option String
  /-- The modules that the extension needs. -/
  dependencies : List String
  /-- The theme that a theme extends. -/
  baseTheme : Option String
  required : Bool
  deriving DecidableEq, Repr

/-- The extensions that may be installed. -/
structure ExtensionCatalog where
  module : NameMap CatalogEntry
  theme : NameMap CatalogEntry

namespace ExtensionCatalog

/-- The entries of a kind. -/
def entries (c : ExtensionCatalog) : ExtensionKind → NameMap CatalogEntry
  | .module => c.module
  | .theme => c.theme

/-- What the catalog knows about an extension, if it lists it. -/
def info? (c : ExtensionCatalog) (e : Extension) : Option ExtensionInfo :=
  ((c.entries e.kind).get? e.name).map fun entry =>
    { extension := e
      label := entry.label
      dependencies := entry.dependencies.map .module ++ (entry.baseTheme.map Extension.theme).toList
      required := entry.required }

/-! ### Reading a catalog -/

/-- Reads an entry. -/
def readEntry : Loose CatalogEntry := fun slots n => do
  let ms ← Loose.record ["label", "dependencies", "base-theme", "required"] slots n
  return {
    label := ← Loose.member (Loose.optional Loose.string) (some none) slots ms "label"
    dependencies := ← Loose.member (Loose.list Loose.string) (some []) slots ms "dependencies"
    baseTheme := ← Loose.member (Loose.optional Loose.string) (some none) slots ms "base-theme"
    required := ← Loose.member Loose.bool (some false) slots ms "required" }

/-- Reads the entries of a kind. -/
def readEntries : Loose (NameMap CatalogEntry) := fun slots n =>
  return .ofList (← Loose.bindings readEntry slots n)

/-- Reads a catalog. -/
def read : Loose ExtensionCatalog := fun slots n => do
  let ms ← Loose.record ["module", "theme"] slots n
  return {
    module := ← Loose.member readEntries (some .empty) slots ms "module"
    theme := ← Loose.member readEntries (some .empty) slots ms "theme" }

/-- The catalog of a text. -/
def ofText? (text : String) : Option ExtensionCatalog := Loose.readText read text

end ExtensionCatalog

end SiteConfig
