import SiteConfig.Number.Shortest

/-!
# YAML values

The data of a configuration document is a tree of scalars, sequences and
mappings. A mapping keeps its entries in the order in which they were written,
but two mappings are **the same** when they bind the same keys to the same
values, in whatever order (`SiteConfig.Yaml.Value.same`).

A tag is kept without its leading exclamation mark. Reading a value as a string,
a sequence or a mapping looks through tags (`SiteConfig.Yaml.Value.untag`).
-/

namespace SiteConfig.Yaml

/-- A number: an integer of at most 64 bits, or a double. -/
inductive Number where
  | int (i : Int)
  | float (x : Binary64)
  deriving DecidableEq, Repr

/-- A value; the entries of a mapping are in the order of writing. -/
inductive Value where
  | null
  | bool (b : Bool)
  | number (n : Number)
  | string (s : String)
  | sequence (items : List Value)
  | mapping (entries : List (Value × Value))
  | tagged (tag : String) (content : Value)
  deriving Inhabited

/-- The entries of a mapping, in order. -/
abbrev Mapping := List (Value × Value)

/-! ### Numbers -/

namespace Number

/-- Integers equal integers, floats floats. -/
def same : Number → Number → Bool
  | .int i, .int j => i == j
  | .float x, .float y => x.same y
  | _, _ => false

/-- How floats are written in YAML: with a point up to sixteen digits before it and
four zeros after it, with an exponent beyond. -/
def floatStyle : FloatStyle :=
  { maxWhole := 16, maxLeading := 4, plus := "", nan := ".nan", infinity := ".inf" }

/-- The text of a number. -/
def text : Number → String
  | .int i => toString i
  | .float x => floatStyle.text x

end Number

/-! ### Equality -/

namespace Value

mutual
/-- Whether two values are the same, the order of mapping entries aside. Keys are
distinct in every mapping that was read, so an entry of the one side has at most
one partner on the other. -/
def same : Value → Value → Bool
  | .null, .null => true
  | .bool a, .bool b => a == b
  | .number a, .number b => a.same b
  | .string a, .string b => a == b
  | .sequence xs, .sequence ys => sameItems xs ys
  | .mapping xs, .mapping ys => xs.length == ys.length && sameEntries xs ys
  | .tagged s v, .tagged t w => s == t && same v w
  | _, _ => false

/-- Item by item, in order. -/
def sameItems : List Value → List Value → Bool
  | [], [] => true
  | x :: xs, y :: ys => same x y && sameItems xs ys
  | _, _ => false

/-- Each entry of the first list has a partner in the second. -/
def sameEntries : Mapping → Mapping → Bool
  | [], _ => true
  | (k, v) :: xs, ys => ys.any (fun p => same k p.1 && same v p.2) && sameEntries xs ys
end

/-! ### Views -/

/-- The content beneath all tags. -/
def untag : Value → Value
  | .tagged _ v => untag v
  | v => v

/-- The string that a value is, tags aside. -/
def asString? (v : Value) : Option String :=
  match v.untag with
  | .string s => some s
  | _ => none

/-- The word for what a value is. -/
def kind : Value → String
  | .null => "null"
  | .bool _ => "boolean"
  | .number (.float _) => "float"
  | .number (.int _) => "integer"
  | .string _ => "string"
  | .sequence _ => "sequence"
  | .mapping _ => "mapping"
  | .tagged .. => "tagged value"

end Value

/-! ### Mappings -/

namespace Mapping

/-- Whether an entry has a given string as its key. -/
def hasKey (key : String) (e : Value × Value) : Bool :=
  match e.1 with
  | .string s => s == key
  | _ => false

/-- What a string key is bound to. -/
def get? (m : Mapping) (key : String) : Option Value :=
  (m.find? (hasKey key)).map (·.2)

/-- Binds a string key: in its place when it is there, else at the end. -/
def set (m : Mapping) (key : String) (v : Value) : Mapping :=
  if m.any (hasKey key) then m.map (fun e => if hasKey key e then (e.1, v) else e)
  else m ++ [(.string key, v)]

/-- Drops the entry of a string key; the others keep their order. -/
def remove (m : Mapping) (key : String) : Mapping :=
  m.filter (fun e => !hasKey key e)

/-- Whether two mappings bind the same keys to the same values. -/
def same (a b : Mapping) : Bool := a.length == b.length && Value.sameEntries a b

/-- The position of a key that may be any value. -/
def findKey? (m : Mapping) (key : Value) : Option (Value × Value) :=
  m.find? (fun e => e.1.same key)

/-- Whether some key occurs twice. -/
def hasDuplicate : Mapping → Bool
  | [] => false
  | e :: r => (r.any fun f => e.1.same f.1) || hasDuplicate r

end Mapping

/-! ### Proper values -/

namespace Value

mutual
/-- No mapping within the value repeats a key. -/
def Proper : Value → Prop
  | .sequence items => ProperItems items
  | .mapping m => Mapping.hasDuplicate m = false ∧ ProperEntries m
  | .tagged _ v => Proper v
  | _ => True

/-- All items are proper. -/
def ProperItems : List Value → Prop
  | [] => True
  | v :: r => Proper v ∧ ProperItems r

/-- All keys and values are proper. -/
def ProperEntries : Mapping → Prop
  | [] => True
  | (k, v) :: r => Proper k ∧ Proper v ∧ ProperEntries r
end

end Value

end SiteConfig.Yaml
