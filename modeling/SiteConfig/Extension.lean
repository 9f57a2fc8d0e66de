import SiteConfig.Document
import SiteConfig.NameMap

/-!
# Extensions

A site runs a set of extensions: modules and themes. Which of them are installed
is stated by the document `core.extension`, with a weight for each
(`SiteConfig.CoreExtension`).
-/

namespace SiteConfig

open Yaml

/-- The name of the document that lists the installed extensions. -/
def coreExtensionName : String := "core.extension"

/-- The name of the document that identifies the site. -/
def siteName : String := "system.site"

/-- The kinds of extensions. -/
inductive ExtensionKind where
  | module
  | theme
  deriving DecidableEq, Repr

/-- The word for a kind. -/
def ExtensionKind.text : ExtensionKind → String
  | .module => "module"
  | .theme => "theme"

/-- The kind of a word. -/
def ExtensionKind.ofText? : String → Option ExtensionKind
  | "module" => some .module
  | "theme" => some .theme
  | _ => none

/-- An extension, by kind and name. -/
structure Extension where
  kind : ExtensionKind
  name : String
  deriving DecidableEq, Repr

namespace Extension

/-- The module of a name. -/
def module (name : String) : Extension := ⟨.module, name⟩

/-- The theme of a name. -/
def theme (name : String) : Extension := ⟨.theme, name⟩

/-- Kind and name. -/
def text (e : Extension) : String := e.kind.text ++ " " ++ e.name

/-- Modules come before themes, and each kind in the order of its names. -/
def before (a b : Extension) : Bool :=
  match a.kind, b.kind with
  | .module, .theme => true
  | .theme, .module => false
  | _, _ => a.name < b.name

end Extension

/-- What the document `core.extension` states. -/
structure CoreExtension where
  /-- The installed modules with their weights. -/
  module : NameMap Int
  /-- The installed themes with their weights. -/
  theme : NameMap Int
  profile : Option String

namespace CoreExtension

/-- No extension at all. -/
def empty : CoreExtension := ⟨.empty, .empty, none⟩

instance : Inhabited CoreExtension := ⟨empty⟩

/-- Reads the statement of a mapping. -/
def decode : Decoder CoreExtension :=
  Decode.record "CoreExtension" ["module", "theme", "profile"] empty fun c key v =>
    if key = "module" then
      return { c with module := .ofList (← Decode.bindings Decode.int64 v) }
    else if key = "theme" then
      return { c with theme := .ofList (← Decode.bindings Decode.int64 v) }
    else return { c with profile := ← Decode.optional Decode.string v }

/-- The statement of a document; a `_core` entry does not count. -/
def ofDocument (d : Document) : Except ConfigError CoreExtension :=
  (decode (.mapping (d.remove "_core").data)).mapError fun e => .invalidData d.name e.message

/-- The weights as a mapping. -/
def weights (m : NameMap Int) : Value :=
  .mapping (m.entries.map fun e => (.string e.1, .number (.int e.2)))

/-- The statement as a mapping. -/
def toMapping (c : CoreExtension) : Mapping :=
  [(.string "module", weights c.module), (.string "theme", weights c.theme)] ++
    match c.profile with
    | some p => [(.string "profile", .string p)]
    | none => []

/-- Every installed extension, modules first. -/
def extensions (c : CoreExtension) : List Extension :=
  c.module.keys.map .module ++ c.theme.keys.map .theme

/-- Whether an extension is installed. -/
def contains (c : CoreExtension) (e : Extension) : Bool :=
  match e.kind with
  | .module => c.module.contains e.name
  | .theme => c.theme.contains e.name

end CoreExtension

end SiteConfig
