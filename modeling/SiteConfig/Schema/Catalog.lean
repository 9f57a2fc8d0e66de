import SiteConfig.Document
import SiteConfig.Json.Reader
import SiteConfig.Schema.Glob
import SiteConfig.Schema.Violation

/-!
# Which schema a document is held to

A **schema catalog** is a list of named schemas. A schema covers the document of
its own name or, when it states a pattern, all documents whose names match it. A
document may declare its schema itself; otherwise the schema of its name counts
and, failing that, of the patterns that match the one with the longest literal
beginning (`SiteConfig.SchemaCatalog.schemaFor?`).

Every object schema also allows what every document may carry: an identifier, a
language, the name of its schema, a section of its own and its dependencies.
-/

namespace SiteConfig

/-- The key of the pattern that a schema covers. -/
def patternKey : String := "x-config-pattern"

/-- The documents that a schema covers. -/
inductive Coverage where
  | exact (name : String)
  | pattern (glob : Glob) (literalPrefix : Nat)

/-- A schema with its name and the documents that it covers. -/
structure NamedSchema where
  name : String
  coverage : Coverage
  schema : Schema

/-- A collection of schemas, in the order of their names. A strict one refuses
documents that no schema covers. -/
structure SchemaCatalog where
  schemas : List NamedSchema
  strict : Bool

/-! ### What every document may carry -/

namespace Schema

/-- The schema of values of one type. -/
def typed (t : JsonType) : Json := .object [("type", .string t.text)]

/-- The schema of the four lists of dependencies. -/
def dependencyLists : List (String × Json) :=
  let list : Json := .object [("items", typed .string), ("type", .string "array")]
  Dependencies.listKeys.map (·, list)

/-- The schema of an object with some members and no others. -/
def closed (members : List (String × Json)) : Json :=
  .object [("additionalProperties", .bool false), ("properties", .ofMembers members),
    ("type", .string "object")]

/-- What every document may carry. -/
def baseMembers : List (String × Json) :=
  [(Document.uuidKey, typed .string), ("langcode", typed .string),
   (Document.schemaKey, typed .string), ("_core", typed .object),
   (Document.dependenciesKey, closed (("enforced", closed dependencyLists) :: dependencyLists))]

/-- Adds members to a list of them; those that are there already stay. -/
def addMembers (members extra : List (String × Json)) : List (String × Json) :=
  extra.foldl (fun acc m =>
    if acc.any (·.1 == m.1) then acc else Json.insertMember m.1 m.2 acc) members

/-- An object schema that also allows what every document may carry; any other value
is unchanged. -/
def withBaseMembers (v : Json) : Json :=
  match v with
  | .object members =>
    match v.member? "type", v.member? "properties" with
    | some (.string "object"), some (.object listed) =>
      .object (Json.insertMember "properties" (.object (addMembers listed baseMembers)) members)
    | some (.string "object"), none =>
      .object (Json.insertMember "properties" (.object (addMembers [] baseMembers)) members)
    | _, _ => v
  | _ => v

end Schema

/-! ### Building a catalog -/

namespace NamedSchema

/-- What a schema covers, by the pattern that it states. -/
def coverageOf (name : String) (source : Json) : Except ConfigError Coverage :=
  match (source.member? patternKey).bind Json.asString? with
  | none => .ok (.exact name)
  | some text =>
    match Glob.parse text with
    | .ok glob => .ok (.pattern glob (Glob.literalPrefix text))
    | .error e => .error (.invalidSettings
        s!"Invalid pattern in schema {name}: error parsing glob '{text}': {e.reason}")

/-- The schema of a JSON value. -/
def ofJson (name : String) (source : Json) : Except ConfigError NamedSchema := do
  let source := source.sorted
  let coverage ← coverageOf name source
  match Schema.ofJson (Schema.withBaseMembers source) with
  | .ok schema => return { name, coverage, schema }
  | .error e => throw (.invalidSettings s!"Failed to compile schema {name}: {e.message}")

/-- The length of the literal beginning of the pattern that covers a document. -/
def patternLength? (s : NamedSchema) (document : String) : Option Nat :=
  match s.coverage with
  | .pattern glob n => if glob.matchesName document then some n else none
  | .exact _ => none

/-- Whether a schema covers one document only, and this is it. -/
def coversExactly (s : NamedSchema) (document : String) : Bool :=
  match s.coverage with
  | .exact n => n == document
  | .pattern .. => false

end NamedSchema

/-- What is wrong with a document. -/
inductive SchemaProblem where
  | unknownSchema (document declared : String)
  | uncovered (document : String)
  | noJson (cause : ConfigError)
  | violation (document : String) (v : Schema.Violation)

/-- The wording of a problem. -/
def SchemaProblem.message : SchemaProblem → String
  | .unknownSchema document declared => s!"{document}: declares unknown schema '{declared}'"
  | .uncovered document => s!"{document}: no schema is defined for this configuration"
  | .noJson cause => cause.message
  | .violation document v => s!"{document}: {v.message}"

namespace SchemaCatalog

/-- The catalog of some schemas. -/
def ofSchemas (sources : List (String × Json)) : Except ConfigError SchemaCatalog := do
  let schemas ← sources.mapM fun s => NamedSchema.ofJson s.1 s.2
  return { schemas := schemas.mergeSort (fun a b => !(b.name < a.name : Bool)), strict := false }

/-- The suffix of the names of schema files. -/
def fileSuffix : String := ".schema.json"

/-- The name of the schema in a file, unless the file holds none. -/
def schemaNameOf? (file : String) : Option String :=
  if file.endsWith fileSuffix then some (file.dropEnd fileSuffix.length).toString else none

/-- The catalog of the schema files of a directory. -/
def ofFiles (directory : String) (files : List (String × Except OsError String)) :
    Except ConfigError SchemaCatalog := do
  let sources ← files.filterMapM fun f =>
    match schemaNameOf? f.1 with
    | none => pure none
    | some name =>
      match f.2 with
      | .error e => throw (.os e)
      | .ok text =>
        match Json.read? text with
        | some j => pure (some (name, j))
        | none => throw .json
  if sources.isEmpty then
    throw (.schemaNotFound s!"No schemas found in {Text.quote directory}")
  ofSchemas sources

/-- The same schemas, refusing or accepting documents that none of them covers. -/
def withStrict (c : SchemaCatalog) (strict : Bool) : SchemaCatalog := { c with strict }

/-- The names of the schemas, in order. -/
def names (c : SchemaCatalog) : List String := c.schemas.map (·.name)

/-- The schema of a name. -/
def find? (c : SchemaCatalog) (name : String) : Option NamedSchema :=
  c.schemas.find? (·.name == name)

/-- The longer of two literal beginnings; of two as long, the later one. -/
def longer (best : Option (NamedSchema × Nat)) (s : NamedSchema × Nat) :
    Option (NamedSchema × Nat) :=
  match best with
  | some b => if b.2 ≤ s.2 then some s else some b
  | none => some s

/-- The schema whose pattern covers a document best. -/
def bestPattern? (c : SchemaCatalog) (document : String) : Option NamedSchema :=
  let covering := c.schemas.filterMap fun s => (s.patternLength? document).map (s, ·)
  (covering.foldl longer none).map (·.1)

/-- **The schema that covers a document**, by its name or else by the best pattern. -/
def schemaFor? (c : SchemaCatalog) (document : String) : Option NamedSchema :=
  match c.schemas.find? (·.coversExactly document) with
  | some s => some s
  | none => c.bestPattern? document

/-- What a document violates of the schema of a name. -/
def violationsUnder (c : SchemaCatalog) (d : Document) (schema : String) : List SchemaProblem :=
  match d.toJson with
  | .error e => [.noJson e]
  | .ok v =>
    match c.find? schema with
    | some s => (s.schema.violations [] v).map (.violation d.name)
    | none => []

/-- **Everything that is wrong with a document**; it is accepted when there is nothing. -/
def problems (c : SchemaCatalog) (d : Document) : List SchemaProblem :=
  match d.schemaName? with
  | some declared =>
    if (c.find? declared).isSome then c.violationsUnder d declared
    else [.unknownSchema d.name declared]
  | none =>
    match c.schemaFor? d.name with
    | some s => c.violationsUnder d s.name
    | none => if c.strict then [.uncovered d.name] else []

/-- Holds a JSON value to the schema of a name. -/
def validate (c : SchemaCatalog) (schema : String) (v : Json) : Except ConfigError Unit :=
  match c.find? schema with
  | none => .error (.schemaNotFound schema)
  | some s =>
    match s.schema.violations [] v with
    | [] => .ok ()
    | vs => .error (.schemaViolations (vs.map (·.message)))

end SchemaCatalog

end SiteConfig
