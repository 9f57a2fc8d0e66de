import SiteConfig.Comparison
import SiteConfig.Settings.Basic
import SiteConfig.Storage.Overlay

/-!
# Importing one document

A single document is imported by comparing the active storage with itself, seen with
that document replaced (`SiteConfig.SingleImport.prepare`). What comes out is a
comparison that an ordinary import starts with.

A document of an entity type is named by its identifier, and may replace another one
only if both have the same `uuid`.
-/

namespace SiteConfig

open Yaml

/-- Where a single document goes. -/
inductive SingleTarget where
  /-- To a name. -/
  | document (name : String)
  /-- To the name that its identifier gives it, or a chosen identifier does. -/
  | entity (type : EntityType) (chosenId : Option String)

/-- A single document that is ready to be imported. -/
structure SingleImport (σ : Type) where
  name : String
  /-- Whether the document replaces another one. -/
  replaces : Bool
  comparer : Comparer σ
  comparison : Comparison

namespace SingleImport

variable {σ : Type}

/-- Refuses an import with one message. -/
def refusal (message : String) : ImportError := .validation [message]

/-- Refuses an import whose text is at fault. -/
def badText (reason : String) : ImportError :=
  refusal s!"The import failed with the following message: {reason}"

/-- The mapping of a text; an empty text is the empty mapping. -/
def readData (text : String) : Except ImportError Mapping :=
  match Yaml.read text with
  | .error e => .error (badText e.message)
  | .ok (.mapping m) => .ok m
  | .ok .null => .ok []
  | .ok v => .error (badText s!"expected a mapping, found {v.kind}")

/-- The text of a string, a number or a boolean. -/
def scalarText? : Value → Option String
  | .string s => some s
  | .number n => some n.text
  | .bool b => some (if b then "true" else "false")
  | _ => none

/-- The text that a key is bound to. -/
def textOf? (data : Mapping) (key : String) : Option String :=
  (Mapping.get? data key).bind scalarText?

/-- The data with a chosen identifier; an empty one does not count. -/
def withChosenId (t : EntityType) (chosen : Option String) (data : Mapping) : Mapping :=
  match chosen with
  | some id => if id.isEmpty then data else Mapping.set data t.idKey (.string id)
  | none => data

/-- Refuses a document that replaces one with another `uuid`. -/
def checkReplaced (uuid : Option String) (existing : Document) : Except ImportError Unit :=
  match uuid with
  | none =>
    .error (refusal
      "An entity with this machine name already exists but the import did not specify a UUID.")
  | some uuid =>
    if existing.uuid? = some uuid then .ok ()
    else .error (refusal
      "An entity with this machine name already exists but the UUID does not match.")

/-- Refuses a new document whose `uuid` one of some documents has. -/
def checkUnused (active : Storage σ) (uuid : String) : List String → Attempt σ ImportError Unit
  | [] => pure ()
  | n :: rest => do
    let d ← (active.read n).mapError .storage
    if d.uuid? = some uuid then
      Attempt.fail (refusal
        "An entity with this UUID already exists but the machine name does not match.")
    else checkUnused active uuid rest

/-- Checks a document of an entity type against the others: gives its name and whether
it replaces one. -/
def checkEntity (active : Storage σ) (t : EntityType) (data : Mapping) :
    Attempt σ ImportError (String × Bool) := do
  match textOf? data t.idKey with
  | none =>
    Attempt.fail (refusal s!"Missing ID key \"{t.idKey}\" for this {t.label} import.")
  | some id =>
    let uuid := textOf? data Document.uuidKey
    let name := t.documentName id
    if ← (active.has name).mapError .storage then
      let existing ← (active.read name).mapError .storage
      Attempt.ofExcept (checkReplaced uuid existing)
      return (name, true)
    else
      match uuid with
      | some uuid =>
        let others ← (active.list s!"{t.configPrefix}.").mapError .storage
        checkUnused active uuid others
      | none => pure ()
      return (name, false)

/-- The name that a document goes to, its data, and whether it replaces another one. -/
def locate (active : Storage σ) (target : SingleTarget) (data : Mapping) :
    Attempt σ ImportError (String × Mapping × Bool) := do
  match target with
  | .document name => return (name, data, ← (active.has name).mapError .storage)
  | .entity t chosen =>
    let data := withChosenId t chosen data
    let (name, replaces) ← checkEntity active t data
    return (name, data, replaces)

/-- Compares a storage with itself, seen with one document replaced. -/
def compareWith (active : Storage σ) (name : String) (data : Mapping) :
    Comparer σ :=
  { source := Storage.overlay active (.constant (NameMap.empty.insert name data))
    target := active
    transforms := [] }

/-- **Prepares the import of one document** from its text. There must be something to
change. -/
def prepare (active : Storage σ) (target : SingleTarget) (text : String) :
    Attempt σ ImportError (SingleImport σ) := do
  let data ← Attempt.ofExcept (readData text)
  let (name, data, replaces) ← locate active target data
  Attempt.ofExcept ((validateName name).mapError fun e => refusal e.message)
  let comparer := compareWith active name data
  let comparison ← fun s =>
    match comparer.refresh (.initial, s) with
    | (.ok (), (c, s)) => (.ok c, s)
    | (.error e, (_, s)) => (.error (.storage e), s)
  if comparison.changelist.hasChanges then return { name, replaces, comparer, comparison }
  else Attempt.fail (refusal "There are no changes to import.")

end SingleImport

end SiteConfig
