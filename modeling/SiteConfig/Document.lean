import SiteConfig.Dependencies
import SiteConfig.Error
import SiteConfig.Yaml.AsJson
import SiteConfig.Yaml.Writer

/-!
# Configuration documents

A document is a name and a mapping. Two documents have **the same content** when
their mappings bind the same keys to the same values; the order of the keys and
the formatting of the text do not count (`SiteConfig.Document.sameContent`).

Three keys mean something to every document: `uuid`, `_schema` and `dependencies`.
-/

namespace SiteConfig

open Yaml

/-- A named configuration document. -/
structure Document where
  name : String
  data : Mapping

instance : Inhabited Document := ⟨⟨"", []⟩⟩

namespace Document

/-- The key of the identifier that a document keeps when it is renamed. -/
def uuidKey : String := "uuid"

/-- The key of the dependencies. -/
def dependenciesKey : String := "dependencies"

/-- The key of the schema that a document declares for itself. -/
def schemaKey : String := "_schema"

/-- The document of a text. An empty text is the empty mapping; a text of anything
but a mapping is refused. -/
def ofYaml (name text : String) : Except ConfigError Document :=
  match Yaml.read text with
  | .error e => .error (.yaml e)
  | .ok (.mapping m) => .ok ⟨name, m⟩
  | .ok .null => .ok ⟨name, []⟩
  | .ok v => .error (.invalidData name s!"expected a mapping, found {v.kind}")

/-- The text of the data. -/
def toYaml (d : Document) : Except ConfigError String :=
  (Yaml.write d.data).mapError .yaml

/-- The JSON form of the data. -/
def toJson (d : Document) : Except ConfigError Json :=
  (Value.mapping d.data).toJson.mapError fun e => .invalidData d.name e.message

/-- The same data under another name. -/
def renamed (d : Document) (name : String) : Document := { d with name }

/-- What a key is bound to. -/
def get? (d : Document) (key : String) : Option Value := Mapping.get? d.data key

/-- Binds a key; a key that is there keeps its place. -/
def set (d : Document) (key : String) (v : Value) : Document :=
  { d with data := Mapping.set d.data key v }

/-- Drops a key. -/
def remove (d : Document) (key : String) : Document :=
  { d with data := Mapping.remove d.data key }

/-- Drops some keys. -/
def removeAll (d : Document) (keys : List String) : Document := keys.foldl remove d

/-- The identifier of the document, if it has one. -/
def uuid? (d : Document) : Option String := (d.get? uuidKey).bind Value.asString?

/-- The schema that the document declares, if it does. -/
def schemaName? (d : Document) : Option String := (d.get? schemaKey).bind Value.asString?

/-- Whether two documents have the same content, whatever their names. -/
def sameContent (a b : Document) : Bool := Mapping.same a.data b.data

/-- Whether two documents have the same content but for some keys. -/
def sameContentExcept (keys : List String) (a b : Document) : Bool :=
  (a.removeAll keys).sameContent (b.removeAll keys)

/-- Whether two documents have the same name and the same content. -/
def same (a b : Document) : Bool := a.name == b.name && a.sameContent b

/-- What the document depends on; an absent section, or a null one, is empty. -/
def dependencies (d : Document) : Except ConfigError Dependencies :=
  match d.get? dependenciesKey with
  | none => .ok .none
  | some .null => .ok .none
  | some v =>
    (Dependencies.decode v).mapError fun e =>
      .invalidData d.name s!"invalid dependencies: {e.message}"

@[simp] theorem name_remove (d : Document) (key : String) : (d.remove key).name = d.name := rfl

@[simp] theorem name_removeAll (d : Document) (keys : List String) :
    (d.removeAll keys).name = d.name := by
  unfold removeAll
  induction keys generalizing d with
  | nil => rfl
  | cons k r ih => rw [List.foldl_cons, ih, name_remove]

end Document

end SiteConfig
