import SiteConfig.Json.Value
import SiteConfig.Yaml.Value

/-!
# YAML data as JSON

The keys of JSON objects are strings, so a mapping has a JSON form only when its
keys are strings, booleans, integers or finite floats; they stand in the order of
their texts, and the last of two with the same text counts. Numbers that are not
finite have no JSON form and become null. A tagged value becomes an object of one
member named by the tag.
-/

namespace SiteConfig.Yaml

/-- Why a mapping has no JSON form. -/
inductive KeyDefect where
  | notString
  | notFinite
  deriving DecidableEq, Repr

/-- The wording of a defect. -/
def KeyDefect.message : KeyDefect → String
  | .notString => "key must be a string"
  | .notFinite => "float key must be finite (got NaN or +/-inf)"

namespace Value

/-- The text of a key. -/
def keyText : Value → Except KeyDefect String
  | .string s => .ok s
  | .bool b => .ok (if b then "true" else "false")
  | .number (.int i) => .ok (toString i)
  | .number (.float x) => if x.isFinite then .ok (Json.floatStyle.text x) else .error .notFinite
  | _ => .error .notString

mutual
/-- The JSON form of a value. -/
def toJson : Value → Except KeyDefect Json
  | .null => .ok .null
  | .bool b => .ok (.bool b)
  | .number (.int i) => .ok (.int i)
  | .number (.float x) => .ok (if x.isFinite then .float x else .null)
  | .string s => .ok (.string s)
  | .sequence items => return .array (← itemsToJson items)
  | .mapping m => return .ofMembers (← entriesToJson m)
  | .tagged tag v => return .object [("!" ++ tag, ← toJson v)]

/-- The JSON forms of some values. -/
def itemsToJson : List Value → Except KeyDefect (List Json)
  | [] => .ok []
  | v :: r => return (← toJson v) :: (← itemsToJson r)

/-- The members that some entries become, in the order of the entries. -/
def entriesToJson : List (Value × Value) → Except KeyDefect (List (String × Json))
  | [] => .ok []
  | (k, v) :: r => do
    let key ← keyText k
    let value ← toJson v
    return (key, value) :: (← entriesToJson r)
end

end Value

end SiteConfig.Yaml
