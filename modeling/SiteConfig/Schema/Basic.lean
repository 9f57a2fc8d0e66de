import SiteConfig.Json.Value

/-!
# Schemas of JSON values

A schema restricts a value by its type, a list of allowed values, a least number,
and, for objects and arrays, by schemas for their members and items. Two schemas
need no rules: the one that accepts everything and the one that accepts nothing.

A schema is itself given as a JSON value (`SiteConfig.Schema.ofJson`). Seven of its
members are rules: `type`, `enum`, `minimum`, `required`, `properties`,
`additionalProperties` and `items`. These are the ones that the schemas of
`SiteConfig.Schema.Embedded` use. JSON Schema has more of them, on patterns, lengths
and ranges, on alternatives, and on references to other schemas; they are left out
here, and a member of a schema that is none of the seven does not count, as a note
does not.
-/

namespace SiteConfig

/-- The types of JSON values; a whole number is both an integer and a number. The
order of the constructors is the order in which messages list types. -/
inductive JsonType where
  | array
  | boolean
  | integer
  | null
  | number
  | object
  | string
  deriving DecidableEq, Repr

namespace JsonType

/-- All types, in order. -/
def all : List JsonType := [.array, .boolean, .integer, .null, .number, .object, .string]

/-- The word for a type. -/
def text : JsonType → String
  | .array => "array"
  | .boolean => "boolean"
  | .integer => "integer"
  | .null => "null"
  | .number => "number"
  | .object => "object"
  | .string => "string"

/-- The type of a word. -/
def ofText? (s : String) : Option JsonType := all.find? (·.text == s)

/-- Whether a value has a type. -/
def holds (t : JsonType) (v : Json) : Bool :=
  match t, v with
  | .array, .array _ => true
  | .boolean, .bool _ => true
  | .integer, .int _ => true
  | .integer, .float x => x.toInt?.isSome
  | .null, .null => true
  | .number, .int _ => true
  | .number, .float _ => true
  | .object, .object _ => true
  | .string, .string _ => true
  | _, _ => false

end JsonType

/-- A schema. -/
inductive Schema where
  | always (accepts : Bool)
  | rules (types : Option (List JsonType)) (choices : Option (List Json))
      (minimum : Option Json) (required : List String)
      (properties : Option (List (String × Schema))) (others : Option Schema)
      (items : Option Schema)

namespace Schema

/-- Why a JSON value is no schema. -/
inductive Defect where
  | wrongType (v : Json) (types : List JsonType)
  | noAlternative (v : Json)
  | repeated (v : Json)

/-- How a message lists types. -/
def typeList (types : List JsonType) : String :=
  match types with
  | [t] => "type \"" ++ t.text ++ "\""
  | l => "types " ++ ", ".intercalate (l.map fun t => "\"" ++ t.text ++ "\"")

/-- The wording of a defect. -/
def Defect.message : Defect → String
  | .wrongType v types => v.compact ++ " is not of " ++ typeList types
  | .noAlternative v =>
    v.compact ++ " is not valid under any of the schemas listed in the 'anyOf' keyword"
  | .repeated v => v.compact ++ " has non-unique elements"

/-! ### Reading the rules -/

/-- Whether a string occurs twice. -/
def hasRepetition : List String → Bool
  | [] => false
  | s :: r => r.contains s || hasRepetition r

/-- The types that a rule names: one word, or a list of different ones. -/
def readTypes (v : Json) : Except Defect (List JsonType) :=
  match v with
  | .string s =>
    match JsonType.ofText? s with
    | some t => .ok [t]
    | none => .error (.noAlternative v)
  | .array items =>
    match items.mapM fun i => i.asString?.bind JsonType.ofText? with
    | some types =>
      if types.isEmpty ∨ hasRepetition (types.map (·.text)) then .error (.noAlternative v)
      else .ok (JsonType.all.filter types.contains)
    | none => .error (.noAlternative v)
  | v => .error (.noAlternative v)

/-- The values that a rule allows. -/
def readChoices : Json → Except Defect (List Json)
  | .array items => .ok items
  | v => .error (.wrongType v [.array])

/-- The least number that a rule allows. -/
def readMinimum (v : Json) : Except Defect Json :=
  if JsonType.number.holds v then .ok v else .error (.wrongType v [.number])

/-- The names that a rule requires. -/
def readRequired (v : Json) : Except Defect (List String) :=
  match v with
  | .array items => do
    let names ← items.mapM fun i =>
      match i with
      | .string s => Except.ok s
      | i => .error (.wrongType i [.string])
    if hasRepetition names then .error (.repeated v) else .ok names
  | v => .error (.wrongType v [.array])

/-- What a reading of one rule gives, if the rule is there. -/
def rule? {α : Type} (members : List (String × Json)) (name : String)
    (read : Json → Except Defect α) : Except Defect (Option α) :=
  match members.find? (·.1 == name) with
  | some m => (read m.2).map some
  | none => .ok none

/-- The rules whose values are schemas, as far as they have been read. -/
structure Parts where
  properties : Option (List (String × Schema))
  others : Option Schema
  items : Option Schema

mutual
/-- **The schema of a JSON value.** The rules for members and items are looked at
first. -/
def ofJson : Json → Except Defect Schema
  | .bool b => .ok (.always b)
  | .object members => do
    let parts ← readParts ⟨none, none, none⟩ members
    let choices ← rule? members "enum" readChoices
    let minimum ← rule? members "minimum" readMinimum
    let required ← rule? members "required" readRequired
    let types ← rule? members "type" readTypes
    return .rules types choices minimum (required.getD []) parts.properties parts.others
      parts.items
  | v => .error (.wrongType v [.boolean, .object])

/-- Reads the rules whose values are schemas, in the order of the members. -/
def readParts (parts : Parts) : List (String × Json) → Except Defect Parts
  | [] => .ok parts
  | (k, v) :: r => do
    if k = "additionalProperties" then readParts { parts with others := some (← ofJson v) } r
    else if k = "items" then readParts { parts with items := some (← ofJson v) } r
    else if k = "properties" then
      readParts { parts with properties := some (← readProperties v) } r
    else readParts parts r

/-- The schemas of an object's members. -/
def readProperties : Json → Except Defect (List (String × Schema))
  | .object members => readEach members
  | v => .error (.wrongType v [.object])

/-- The schemas of some members. -/
def readEach : List (String × Json) → Except Defect (List (String × Schema))
  | [] => .ok []
  | (k, v) :: r => do
    let s ← ofJson v
    return (k, s) :: (← readEach r)
end

end Schema

end SiteConfig
