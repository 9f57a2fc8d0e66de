import SiteConfig.Schema.Basic

/-!
# What a value violates

`SiteConfig.Schema.violations` lists everything in a value that a schema does not
allow; a value is accepted when the list is empty. At one place the order is: type,
allowed values, least number, required members, then the members in order, members
that nothing allows, and the items. A closed object with a single required member
names that member last.
-/

namespace SiteConfig

namespace Schema

/-- What is wrong with a value. -/
inductive Fault where
  | wrongType (v : Json) (types : List JsonType)
  | noChoice (v : Json) (choices : List Json)
  | tooSmall (v minimum : Json)
  | missing (key : String)
  | unexpected (keys : List String)
  | forbidden (v : Json)

/-- A fault, and the keys and positions that lead to it. -/
structure Violation where
  place : List String
  fault : Fault

/-- How a message lists the allowed values: all of them up to three. -/
def choiceList (choices : List Json) : String :=
  match choices with
  | [] => ""
  | [a] => a.compact
  | [a, b] => a.compact ++ " or " ++ b.compact
  | [a, b, c] => a.compact ++ ", " ++ b.compact ++ " or " ++ c.compact
  | a :: b :: r => a.compact ++ ", " ++ b.compact ++ " or " ++ toString r.length ++ " other candidates"

/-- The wording of a fault. -/
def Fault.message : Fault → String
  | .wrongType v types => v.compact ++ " is not of " ++ typeList types
  | .noChoice v choices => v.compact ++ " is not one of " ++ choiceList choices
  | .tooSmall v minimum => v.compact ++ " is less than the minimum of " ++ minimum.compact
  | .missing key => Json.quote key ++ " is a required property"
  | .unexpected keys =>
    let list := ", ".intercalate (keys.map fun k => "'" ++ k ++ "'")
    "Additional properties are not allowed (" ++ list ++
      (if keys.length = 1 then " was unexpected)" else " were unexpected)")
  | .forbidden v => "False schema does not allow " ++ v.compact

/-- A key in the text of a place. -/
def escapeStep (key : String) : String :=
  String.ofList (key.toList.flatMap fun c =>
    if c = '~' then ['~', '0'] else if c = '/' then ['~', '1'] else [c])

/-- The wording of a violation, with its place unless that is the whole value. -/
def Violation.message (v : Violation) : String :=
  if v.place.isEmpty then v.fault.message
  else String.join (v.place.map fun k => "/" ++ escapeStep k) ++ ": " ++ v.fault.message

/-! ### Numbers and equality -/

/-- A number as a double without a bound on its significand. -/
def exact : Json → Binary64
  | .int i => .finite (i < 0) i.natAbs 0
  | .float x => x
  | _ => .nan

/-- Whether two numbers have the same value. -/
def sameNumber (a b : Json) : Bool := !(exact a).lt (exact b) && !(exact b).lt (exact a)

mutual
/-- Whether two values are equal as data: numbers by their value, objects by their
members. -/
def equal : Json → Json → Bool
  | .null, .null => true
  | .bool a, .bool b => a == b
  | .string s, .string t => s == t
  | .array xs, .array ys => equalItems xs ys
  | .object xs, .object ys => xs.length == ys.length && equalMembers xs ys
  | .int i, w => JsonType.number.holds w && sameNumber (.int i) w
  | .float x, w => JsonType.number.holds w && sameNumber (.float x) w
  | _, _ => false

def equalItems : List Json → List Json → Bool
  | [], [] => true
  | x :: xs, y :: ys => equal x y && equalItems xs ys
  | _, _ => false

def equalMembers : List (String × Json) → List (String × Json) → Bool
  | [], _ => true
  | (k, v) :: r, ys => ys.any (fun m => m.1 == k && equal v m.2) && equalMembers r ys
end

/-! ### The rules one by one -/

/-- The rule on types. -/
def typeFaults (types : Option (List JsonType)) (v : Json) : List Fault :=
  match types with
  | some ts => if ts.any (·.holds v) then [] else [.wrongType v ts]
  | none => []

/-- The rule on allowed values. -/
def choiceFaults (choices : Option (List Json)) (v : Json) : List Fault :=
  match choices with
  | some cs => if cs.any (equal v) then [] else [.noChoice v cs]
  | none => []

/-- The rule on the least number. -/
def minimumFaults (minimum : Option Json) (v : Json) : List Fault :=
  match minimum with
  | some m =>
    if JsonType.number.holds v && (exact v).lt (exact m) then [.tooSmall v m] else []
  | none => []

/-- The rule on required members. -/
def requiredFaults (required : List String) (v : Json) : List Fault :=
  match v with
  | .object members =>
    (required.filter fun k => !members.any (·.1 == k)).map .missing
  | _ => []

/-- Whether a rule allows no member that is not listed. -/
def forbidsOthers : Option Schema → Bool
  | some (.always false) => true
  | _ => false

/-- The members that a closed object does not expect. -/
def unexpectedFaults (properties : Option (List (String × Schema))) (others : Option Schema)
    (v : Json) : List Fault :=
  match properties, others, v with
  | some ps, some (.always false), .object members =>
    let keys := (members.map (·.1)).filter fun k => !ps.any (·.1 == k)
    if keys.isEmpty then [] else [.unexpected keys]
  | none, some (.always false), .object (m :: _) => [.forbidden m.2]
  | _, _, _ => []

/-- Puts faults at a place. -/
def located (place : List String) (faults : List Fault) : List Violation := faults.map (⟨place, ·⟩)

mutual
/-- **Everything in a value that a schema does not allow.** A member is judged by the
schema listed for it, or else by the one for all others; members that are not allowed
at all are named by the closing rule. -/
def violations (place : List String) (v : Json) : Schema → List Violation
  | .always true => []
  | .always false => [⟨place, .forbidden v⟩]
  | .rules types choices minimum required properties others items =>
    let missing := located place (requiredFaults required v)
    let lateMissing := properties.isSome && forbidsOthers others && required.length == 1
    let inner := match v with
      | .object ms => ms.flatMap fun m =>
        (listedViolations? (place ++ [m.1]) m.1 m.2 properties).getD
          (if forbidsOthers others then [] else partViolations (place ++ [m.1]) m.2 others)
      | _ => []
    let elements := match v with
      | .array vs =>
        (vs.zip (List.range vs.length)).flatMap fun e =>
          partViolations (place ++ [toString e.2]) e.1 items
      | _ => []
    located place (typeFaults types v) ++ located place (choiceFaults choices v) ++
      located place (minimumFaults minimum v) ++ (if lateMissing then [] else missing) ++ inner ++
      located place (unexpectedFaults properties others v) ++
      (if lateMissing then missing else []) ++ elements

/-- What a member violates by the schema listed for it, if members are listed and it
is one of them. -/
def listedViolations? (place : List String) (key : String) (v : Json) :
    Option (List (String × Schema)) → Option (List Violation)
  | none => none
  | some listed => memberViolations? place key v listed

/-- What a member violates by the schema of its name. -/
def memberViolations? (place : List String) (key : String) (v : Json) :
    List (String × Schema) → Option (List Violation)
  | [] => none
  | (k, s) :: r => if k = key then some (violations place v s) else memberViolations? place key v r

/-- What a part of a value violates by a schema that may be absent. -/
def partViolations (place : List String) (v : Json) : Option Schema → List Violation
  | none => []
  | some s => violations place v s
end

end Schema

end SiteConfig
