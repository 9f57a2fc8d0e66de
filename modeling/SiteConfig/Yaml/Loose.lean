import SiteConfig.Yaml.Node
import SiteConfig.Yaml.Scalar

/-!
# Reading texts of a fixed shape

A file whose shape is fixed says what kind of value stands where, so the spelling
of a scalar need not tell it: where a string is expected, every scalar is one. The
readers below follow a tree of nodes by the shape that is expected of it; a text
that does not fit has no value, and no reason is given.

An empty scalar is the empty sequence or mapping. Members that a record does not
know are passed over, whatever they hold.
-/

namespace SiteConfig.Yaml

/-- A reading of nodes, given what aliases stand for. -/
abbrev Loose (α : Type) := List (Nat × Node) → Node → Option α

namespace Loose

variable {α : Type}

/-- The node that a node stands for. -/
def follow (slots : List (Nat × Node)) : Node → Option Node
  | .alias slot => slots.lookup slot
  | n => some n

/-- Any scalar as a string. -/
def string : Loose String := fun slots n =>
  match follow slots n with
  | some (.scalar _ _ s) => some s
  | _ => none

/-- A boolean. -/
def bool : Loose Bool := fun slots n =>
  match follow slots n with
  | some (.scalar none .plain s) => Scalar.readBool? s
  | some (.scalar (some "tag:yaml.org,2002:bool") _ s) => Scalar.readBool? s
  | _ => none

/-- A value that may be left out as null. -/
def optional (read : Loose α) : Loose (Option α) := fun slots n => do
  let n ← follow slots n
  let absent ← match n with
    | .scalar none style s => some (style = .plain && (s.isEmpty || Scalar.isNullWord s))
    | .scalar (some "tag:yaml.org,2002:null") _ s => if Scalar.isNullWord s then some true else none
    | .scalar (some _) _ s => some s.isEmpty
    | _ => some false
  if absent then return none else return some (← read slots n)

/-- Whether a node is an empty scalar. -/
def isBlank : Node → Bool
  | .scalar _ style s => style = .plain && s.isEmpty
  | _ => false

/-- A sequence. -/
def list (read : Loose α) : Loose (List α) := fun slots n => do
  match ← follow slots n with
  | .sequence _ items => items.mapM (read slots)
  | n => if isBlank n then some [] else none

/-- The entries of a mapping from strings. -/
def entries : Loose (List (String × Node)) := fun slots n => do
  match ← follow slots n with
  | .mapping _ es => es.mapM fun e => return (← string slots e.1, e.2)
  | n => if isBlank n then some [] else none

/-- A mapping from strings; of two entries with one key the later counts. -/
def bindings (read : Loose α) : Loose (List (String × α)) := fun slots n => do
  (← entries slots n).mapM fun e => return (e.1, ← read slots e.2)

/-- The members of a record; a known one occurs at most once. -/
def record (known : List String) : Loose (List (String × Node)) := fun slots n => do
  let es := (← entries slots n).filter fun e => known.contains e.1
  if known.all fun k => (es.filter (·.1 == k)).length ≤ 1 then some es else none

/-- A member of a record, or what stands for it when it is absent. -/
def member (read : Loose α) (absent : Option α) (slots : List (Nat × Node))
    (members : List (String × Node)) (key : String) : Option α :=
  match members.lookup key with
  | some n => read slots n
  | none => absent

/-- **Reads a text**; an empty one is an empty scalar. -/
def readText (read : Loose α) (text : String) : Option α := do
  match ← tree? text with
  | some t => read t.slots t.root
  | none => read [] Node.blank

end Loose

end SiteConfig.Yaml
