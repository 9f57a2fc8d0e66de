import SiteConfig.Extension
import SiteConfig.Json.Decode

/-!
# Steps

An import is a sequence of steps, each of which changes one document or one
extension.
-/

namespace SiteConfig

/-- A step of an import. -/
inductive Step where
  | create (name : String)
  | update (name : String)
  | delete (name : String)
  | rename (source target : String)
  | install (e : Extension)
  | uninstall (e : Extension)
  deriving DecidableEq, Repr

namespace Step

/-- The word for what a step does. -/
def operation : Step → String
  | .create _ => "create"
  | .update _ => "update"
  | .delete _ => "delete"
  | .rename .. => "rename"
  | .install _ => "install"
  | .uninstall _ => "uninstall"

/-- What a step acts on. -/
def subject : Step → String
  | .create name => name
  | .update name => name
  | .delete name => name
  | .rename source target => s!"{source} -> {target}"
  | .install e => e.text
  | .uninstall e => e.text

/-- The name of the document that a step writes or deletes. -/
def documentName? : Step → Option String
  | .create name => some name
  | .update name => some name
  | .delete name => some name
  | .rename _ target => some target
  | .install _ => none
  | .uninstall _ => none

/-- Whether a step acts on an extension. -/
def isExtensionStep (s : Step) : Bool := s.documentName?.isNone

/-- The text of a step. -/
def text (s : Step) : String := s.operation ++ " " ++ s.subject

/-! ### Steps as records -/

/-- An extension as a record. -/
def extensionToJson (e : Extension) : Json :=
  .object [("kind", .string e.kind.text), ("name", .string e.name)]

/-- A step as a record. -/
def toJson (s : Step) : Json :=
  let tag := ("op", Json.string s.operation)
  match s with
  | .create name => .object [tag, ("name", .string name)]
  | .update name => .object [tag, ("name", .string name)]
  | .delete name => .object [tag, ("name", .string name)]
  | .rename source target => .object [tag, ("from", .string source), ("to", .string target)]
  | .install e => .object [tag, ("extension", extensionToJson e)]
  | .uninstall e => .object [tag, ("extension", extensionToJson e)]

/-- The kind of an extension: a word, or an object whose only member has that name
and holds nothing. -/
def kindOfJson? : Json → Option ExtensionKind
  | .string s => ExtensionKind.ofText? s
  | .object [(s, .null)] => ExtensionKind.ofText? s
  | .object [(s, .object [])] => ExtensionKind.ofText? s
  | _ => none

/-- The extension of a record. -/
def extensionOfJson? (v : Json) : Option Extension :=
  match v.fields? ["kind", "name"] with
  | some [kind, name] => return ⟨← kindOfJson? kind, ← name.asString?⟩
  | _ => none

/-- The one string that a record holds. -/
def nameOfJson? (v : Json) : Option String :=
  match v.fields? ["name"] with
  | some [name] => name.asString?
  | _ => none

/-- The one extension that a record holds. -/
def onlyExtension? (v : Json) : Option Extension :=
  match v.fields? ["extension"] with
  | some [e] => extensionOfJson? e
  | _ => none

/-- The step of a record. -/
def ofJson? (v : Json) : Option Step :=
  match v.tagged? "op" with
  | some ("create", r) => (nameOfJson? r).map .create
  | some ("update", r) => (nameOfJson? r).map .update
  | some ("delete", r) => (nameOfJson? r).map .delete
  | some ("rename", r) =>
    match r.fields? ["from", "to"] with
    | some [source, target] => return .rename (← source.asString?) (← target.asString?)
    | _ => none
  | some ("install", r) => (onlyExtension? r).map .install
  | some ("uninstall", r) => (onlyExtension? r).map .uninstall
  | _ => none

end Step

end SiteConfig
