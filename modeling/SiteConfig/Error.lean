import SiteConfig.Name
import SiteConfig.Yaml.Reader

/-!
# Why an operation on configuration fails

One type holds the causes that storages, documents, schemas and settings share.
Each constructor is a cause with what its message names; the wording is in
`SiteConfig.ConfigError.message` alone. What a reader of a text format finds fault
with is not told apart: such a text is malformed.
-/

namespace SiteConfig

/-- Why an operation of the file system fails. -/
inductive OsError where
  | notFound
  | exists
  | notDirectory
  | isDirectory
  | directoryNotEmpty
  | nameTooLong
  | invalidText
  | nulByte
  deriving DecidableEq, Repr

/-- The wording of an error of the file system. -/
def OsError.message : OsError → String
  | .notFound => "No such file or directory (os error 2)"
  | .exists => "File exists (os error 17)"
  | .notDirectory => "Not a directory (os error 20)"
  | .isDirectory => "Is a directory (os error 21)"
  | .directoryNotEmpty => "Directory not empty (os error 39)"
  | .nameTooLong => "File name too long (os error 36)"
  | .invalidText => "stream did not contain valid UTF-8"
  | .nulByte => "file name contained an unexpected NUL byte"

/-- Why an operation on configuration fails. -/
inductive ConfigError where
  | settingsNotFound (path : String)
  | invalidSettings (reason : String)
  | notFound (name : String)
  | invalidName (name reason : String)
  | invalidData (name reason : String)
  | write (name reason : String)
  | readOnly (storage : String)
  | yaml (cause : Yaml.Error)
  | json
  | schemaViolations (violations : List String)
  | schemaNotFound (name : String)
  | database (reason : String)
  | os (cause : OsError)
  deriving DecidableEq, Repr

namespace ConfigError

/-- The wording of an error. -/
def message : ConfigError → String
  | .settingsNotFound path => s!"Settings file not found: {path}"
  | .invalidSettings reason => s!"Invalid settings: {reason}"
  | .notFound name => s!"Configuration not found: {name}"
  | .invalidName name reason => s!"Invalid configuration name '{name}': {reason}"
  | .invalidData name reason => s!"Invalid configuration data for {name}: {reason}"
  | .write name reason => s!"Failed to write configuration {name}: {reason}"
  | .readOnly storage => s!"Storage is read-only: {storage}"
  | .yaml cause => s!"YAML parsing error: {cause.message}"
  | .json => s!"JSON parsing error: {Yaml.Error.malformed.message}"
  | .schemaViolations violations =>
    "Schema validation failed:\n" ++ "\n".intercalate violations
  | .schemaNotFound name => s!"Schema not found: {name}"
  | .database reason => s!"Database error: {reason}"
  | .os cause => s!"IO error: {cause.message}"

/-- The message, followed by that of the error beneath it, if there is one. -/
def chain (e : ConfigError) : List String :=
  match e with
  | .yaml cause => [e.message, cause.message]
  | .json => [e.message, Yaml.Error.malformed.message]
  | .database reason => [e.message, reason]
  | .os cause => [e.message, cause.message]
  | _ => [e.message]

/-- Whether the error says that a document does not exist. -/
def isNotFound : ConfigError → Bool
  | .notFound _ => true
  | _ => false

/-- Refuses a name with a defect. -/
def ofNameDefect (name : String) (d : NameDefect) : ConfigError := .invalidName name d.message

end ConfigError

/-- Accepts a name without defect. -/
def validateName (name : String) : Except ConfigError Unit :=
  (checkName name).mapError (.ofNameDefect name)

end SiteConfig
