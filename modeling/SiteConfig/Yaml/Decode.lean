import SiteConfig.Text.Quoted
import SiteConfig.Yaml.Value

/-!
# Reading values as what they stand for

A section of a document that has a fixed shape is read by a **decoder**, which
either gives what the section says or the first thing in it that does not fit
(`SiteConfig.Yaml.Mismatch`). Decoders look through tags. An empty section is as
good as an absent one: null is read as an empty sequence or mapping.

A record is read entry by entry, in the order of the entries; keys that the record
does not know are passed over, and a known key may occur only once.
-/

namespace SiteConfig.Yaml

/-- The first thing in a value that does not fit. -/
inductive Mismatch where
  | wrongType (found expected : String)
  | wrongValue (found expected : String)
  | missingField (name : String)
  | duplicateField (name : String)
  | unknownVariant (found : String) (known : List String)
  | taggedList
  deriving DecidableEq, Repr

/-- The wording of a mismatch. -/
def Mismatch.message : Mismatch → String
  | .wrongType found expected => s!"invalid type: {found}, expected {expected}"
  | .wrongValue found expected => s!"invalid value: {found}, expected {expected}"
  | .missingField name => "missing field `" ++ name ++ "`"
  | .duplicateField name => "duplicate field `" ++ name ++ "`"
  | .unknownVariant found known =>
    let list := match known with
      | [a, b] => "`" ++ a ++ "` or `" ++ b ++ "`"
      | l => "one of " ++ ", ".intercalate (l.map fun a => "`" ++ a ++ "`")
    "unknown variant `" ++ found ++ "`, expected " ++ list
  | .taggedList => "untagged and internally tagged enums do not support enum input"

/-- How a value is named in a message. -/
def Value.description : Value → String
  | .null => "unit value"
  | .bool b => if b then "boolean `true`" else "boolean `false`"
  | .number (.int i) => "integer `" ++ toString i ++ "`"
  | .number (.float x) => "floating point `" ++ FloatStyle.positional.text x ++ "`"
  | .string s => "string " ++ Text.quote s
  | .sequence _ => "sequence"
  | .mapping _ => "map"
  | .tagged .. => "enum"

/-- A reading of values. -/
abbrev Decoder (α : Type) := Value → Except Mismatch α

namespace Decode

variable {α σ : Type}

/-- A value that is not what is expected. -/
def refuse (v : Value) (expected : String) : Except Mismatch α :=
  .error (.wrongType v.description expected)

/-- A string, called by a name of its own in messages. -/
def stringAs (expected : String) : Decoder String := fun v =>
  match v.untag with
  | .string s => .ok s
  | w => refuse w expected

/-- A string. -/
def string : Decoder String := stringAs "a string"

/-- A path of the file system. -/
def path : Decoder String := stringAs "a UTF-8 path string"

/-- A boolean. -/
def bool : Decoder Bool := fun v =>
  match v.untag with
  | .bool b => .ok b
  | w => refuse w "a boolean"

/-- A signed integer of 64 bits. -/
def int64 : Decoder Int := fun v =>
  match v.untag with
  | .number (.int i) =>
    if i < Nat.pow 2 63 then .ok i
    else .error (.wrongValue (Value.number (.int i)).description "i64")
  | w => refuse w "i64"

/-- A value that may be left out as null. -/
def optional (d : Decoder α) : Decoder (Option α) := fun v =>
  match v with
  | .null => .ok none
  | w => (d w).map some

/-- A sequence; null is the empty one. -/
def list (d : Decoder α) : Decoder (List α) := fun v =>
  match v.untag with
  | .sequence items => items.mapM d
  | .null => .ok []
  | w => refuse w "a sequence"

/-- The entries of a mapping; null has none. -/
def entries (expected : String) : Decoder Mapping := fun v =>
  match v.untag with
  | .mapping m => .ok m
  | .null => .ok []
  | w => refuse w expected

/-- The bindings of a mapping from strings, in order. -/
def bindings (d : Decoder α) : Decoder (List (String × α)) := fun v => do
  (← entries "a map" v).mapM fun e => do
    let k ← string e.1
    return (k, ← d e.2)

/-- A record: what `take` makes of the entries with a known key, one by one. -/
def record (name : String) (known : List String) (start : σ)
    (take : σ → String → Value → Except Mismatch σ) : Decoder σ := fun v => do
  let m ← entries ("struct " ++ name) v
  let step (acc : List String × σ) (e : Value × Value) : Except Mismatch (List String × σ) := do
    let key ← stringAs "field identifier" e.1
    if !known.contains key then return acc
    else if acc.1.contains key then throw (.duplicateField key)
    else return (key :: acc.1, ← take acc.2 key e.2)
  return (← m.foldlM step ([], start)).2

/-- One of some names; also the name of a tag on nothing. -/
def oneOf (known : List (String × α)) : Decoder α := fun v =>
  let pick (s : String) : Except Mismatch α :=
    match known.lookup s with
    | some a => .ok a
    | none => .error (.unknownVariant s (known.map (·.1)))
  match v with
  | .string s => pick s
  | .tagged tag content => do
    let a ← pick tag
    match content.untag with
    | .null => return a
    | w => refuse w "unit"
  | w => refuse w "a Value::Tagged enum"

end Decode

end SiteConfig.Yaml
