import SiteConfig.Json.Value

/-!
# Reading records from JSON

A record is an object with a member for each of its fields, or an array of its
fields in order. A known field occurs once; other members do not count. A record of
one of several shapes names its shape by a **tag**, a member of the object or the
first item of the array.
-/

namespace SiteConfig.Json

/-- Whether no listed name occurs twice among some members. -/
def onceEach (names : List String) (members : List (String × Json)) : Bool :=
  names.all fun n => (members.filter (·.1 == n)).length ≤ 1

/-- The fields of a record, in the order of their names. -/
def fields? (names : List String) : Json → Option (List Json)
  | .object members =>
    if onceEach names members then names.mapM fun n => members.lookup n else none
  | .array items => if items.length = names.length then some items else none
  | _ => none

/-- The tag of a record, and the record without it. -/
def tagged? (tag : String) : Json → Option (String × Json)
  | .object members =>
    match members.filter (·.1 == tag) with
    | [(_, .string s)] => some (s, .object (members.filter (·.1 != tag)))
    | _ => none
  | .array (.string s :: r) => some (s, .array r)
  | _ => none

/-- A natural number of at most 64 bits. -/
def nat64? : Json → Option Nat
  | .int i => if 0 ≤ i ∧ i < Nat.pow 2 64 then some i.toNat else none
  | _ => none

/-- A list of strings. -/
def strings? : Json → Option (List String)
  | .array items => items.mapM asString?
  | _ => none

end SiteConfig.Json
