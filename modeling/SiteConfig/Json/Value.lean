import SiteConfig.Number.Shortest

/-!
# JSON values

A JSON value keeps the members of an object in order. The members of an object
that was put together from unordered data are sorted by name, a later one of two
with the same name taking its place (`SiteConfig.Json.ofMembers`).

There are two texts of a value: one without blanks, one indented by two columns to
a level.
-/

namespace SiteConfig

/-- A JSON value. Integers are those of at most 64 bits; all other numbers are
doubles. -/
inductive Json where
  | null
  | bool (b : Bool)
  | int (i : Int)
  | float (x : Binary64)
  | string (s : String)
  | array (items : List Json)
  | object (members : List (String × Json))
  deriving Inhabited

namespace Json

/-! ### Members -/

/-- Puts a member at its place in a sorted list, replacing one of its name. -/
def insertMember (k : String) (v : Json) : List (String × Json) → List (String × Json)
  | [] => [(k, v)]
  | (k', v') :: r =>
    if k < k' then (k, v) :: (k', v') :: r
    else if k = k' then (k, v) :: r
    else (k', v') :: insertMember k v r

/-- The object with some members, sorted by name. -/
def ofMembers (members : List (String × Json)) : Json :=
  .object (members.foldl (fun acc m => insertMember m.1 m.2 acc) [])

mutual
/-- The value with the members of every object sorted. -/
def sorted : Json → Json
  | .array items => .array (sortedItems items)
  | .object members => ofMembers (sortedMembers members)
  | v => v

def sortedItems : List Json → List Json
  | [] => []
  | v :: r => sorted v :: sortedItems r

def sortedMembers : List (String × Json) → List (String × Json)
  | [] => []
  | (k, v) :: r => (k, sorted v) :: sortedMembers r
end

/-- The last member of a given name. -/
def member? (k : String) : Json → Option Json
  | .object members => (members.reverse.find? (·.1 == k)).map (·.2)
  | _ => none

/-- The string that a value is. -/
def asString? : Json → Option String
  | .string s => some s
  | _ => none

mutual
/-- Whether two values are equal; integers differ from floats. -/
def same : Json → Json → Bool
  | .null, .null => true
  | .bool a, .bool b => a == b
  | .int i, .int j => i == j
  | .float x, .float y => x.same y
  | .string s, .string t => s == t
  | .array xs, .array ys => sameItems xs ys
  | .object xs, .object ys => sameMembers xs ys
  | _, _ => false

def sameItems : List Json → List Json → Bool
  | [], [] => true
  | x :: xs, y :: ys => same x y && sameItems xs ys
  | _, _ => false

def sameMembers : List (String × Json) → List (String × Json) → Bool
  | [], [] => true
  | (k, v) :: xs, (l, w) :: ys => k == l && same v w && sameMembers xs ys
  | _, _ => false
end

/-! ### Texts -/

/-- How floats are written in JSON: as in YAML, but with a plus sign before an
exponent that is not negative. -/
def floatStyle : FloatStyle :=
  { maxWhole := 16, maxLeading := 4, plus := "+", nan := "null", infinity := "null" }

/-- A digit of a four-digit escape. -/
def hexDigit (n : Nat) : Char := Nat.digitChar n

/-- A character inside a string. -/
def escape (c : Char) : List Char :=
  match c with
  | '"' => ['\\', '"']
  | '\\' => ['\\', '\\']
  | '\n' => ['\\', 'n']
  | '\r' => ['\\', 'r']
  | '\t' => ['\\', 't']
  | '\x08' => ['\\', 'b']
  | '\x0c' => ['\\', 'f']
  | c =>
    if c.toNat < 0x20 then
      ['\\', 'u', '0', '0', hexDigit (c.toNat / 16), hexDigit (c.toNat % 16)]
    else [c]

/-- A string with its quotes. -/
def quote (s : String) : String :=
  String.ofList ('"' :: s.toList.flatMap escape ++ ['"'])

/-- The text of a value that has no parts. -/
def atomText : Json → String
  | .null => "null"
  | .bool b => if b then "true" else "false"
  | .int i => toString i
  | .float x => if x.isFinite then floatStyle.text x else "null"
  | .string s => quote s
  | _ => ""

mutual
/-- The pieces of the text without blanks, put in front of others. -/
def compactOnto (rest : List String) : Json → List String
  | .array items => "[" :: compactItems ("]" :: rest) true items
  | .object members => "\x7b" :: compactMembers ("\x7d" :: rest) true members
  | v => atomText v :: rest

def compactItems (rest : List String) (first : Bool) : List Json → List String
  | [] => rest
  | v :: r =>
    let tail := compactOnto (compactItems rest false r) v
    if first then tail else "," :: tail

def compactMembers (rest : List String) (first : Bool) : List (String × Json) → List String
  | [] => rest
  | (k, v) :: r =>
    let tail := quote k :: ":" :: compactOnto (compactMembers rest false r) v
    if first then tail else "," :: tail
end

/-- The text without blanks. -/
def compact (v : Json) : String := String.join (compactOnto [] v)

/-- A line break and the indentation of a level. -/
def lineAt (level : Nat) : String := "\n" ++ String.ofList (List.replicate (2 * level) ' ')

mutual
/-- The indented text at a level. -/
def prettyAt (level : Nat) : Json → String
  | .array [] => "[]"
  | .array (v :: r) => "[" ++ prettyItems (level + 1) true (v :: r) ++ lineAt level ++ "]"
  | .object [] => "\x7b\x7d"
  | .object (m :: r) =>
    "\x7b" ++ prettyMembers (level + 1) true (m :: r) ++ lineAt level ++ "\x7d"
  | v => atomText v

def prettyItems (level : Nat) (first : Bool) : List Json → String
  | [] => ""
  | v :: r =>
    (if first then "" else ",") ++ lineAt level ++ prettyAt level v ++ prettyItems level false r

def prettyMembers (level : Nat) (first : Bool) : List (String × Json) → String
  | [] => ""
  | (k, v) :: r =>
    (if first then "" else ",") ++ lineAt level ++ quote k ++ ": " ++ prettyAt level v ++
      prettyMembers level false r
end

/-- The indented text. -/
def pretty (v : Json) : String := prettyAt 0 v

end Json

end SiteConfig
