import SiteConfig.Yaml.Node
import SiteConfig.Yaml.Scalar

/-!
# Reading values

`SiteConfig.Yaml.read` gives the value of a text. Aliases are replaced by what they
stand for, plain scalars by what their spelling means, and local tags are kept. A
text has no value when it is not well formed, when a mapping has a key twice, when
collections nest deeper than `SiteConfig.Yaml.maxDepth`, or when following aliases
takes more than a hundred times as many steps as the text has nodes.
-/

namespace SiteConfig.Yaml

/-- The deepest nesting of collections that is read. -/
def maxDepth : Nat := 128

/-- Why a text or a value is refused. -/
inductive Error where
  /-- The text is not the text of one value. -/
  | malformed
  /-- The value has no text: a mapping of one entry whose key is itself tagged or a
  mapping of one entry, at the top of the document. -/
  | unwritableRoot
  /-- The same, inside a document. -/
  | unwritableEntry
  deriving DecidableEq, Repr

/-- The wording of an error. What a text that is refused has wrong with it, and where, is not told
apart: one phrase stands for whatever a parser says of it. -/
def Error.message : Error → String
  | .malformed => "<parse error>"
  | .unwritableRoot => "expected DOCUMENT-START or STREAM-END"
  | .unwritableEntry => "expected SCALAR, SEQUENCE-START, MAPPING-START, or ALIAS"

/-! ### Scalars and tags -/

/-- The local tag that a tag denotes: what follows its exclamation mark. Tags of
other kinds denote none. -/
def localTag? (tag : Option String) : Option String :=
  match tag.map String.toList with
  | some ('!' :: r) => some (String.ofList r)
  | _ => none

/-- A local tag without a second exclamation mark at its front. -/
def plainTag (tag : String) : String :=
  match tag.toList with
  | '!' :: c :: r => String.ofList (c :: r)
  | _ => tag

/-- A plain scalar by its spelling. -/
def plainValue? (s : String) : Option Value :=
  match Scalar.resolve s with
  | .null => some .null
  | .bool b => some (.bool b)
  | .int i => some (.number (.int i))
  | .wideInt => none
  | .float x => some (.number (.float x))
  | .string => some (.string s)

/-- The value of a scalar. The tags of the core types state what the spelling must
mean; any other tag that is not local makes it a string. -/
def scalarValue? (tag : Option String) (style : ScalarStyle) (s : String) : Option Value :=
  match tag with
  | none => if style = .plain then plainValue? s else some (.string s)
  | some "tag:yaml.org,2002:bool" => (Scalar.readBool? s).map .bool
  | some "tag:yaml.org,2002:int" =>
    match Scalar.readInt? s.toList with
    | some (.int i) => some (.number (.int i))
    | _ => none
  | some "tag:yaml.org,2002:float" => (Scalar.readFloat? s.toList).map fun x => .number (.float x)
  | some "tag:yaml.org,2002:null" => if Scalar.isNullWord s then some .null else none
  | some _ => some (.string s)

/-! ### Following aliases -/

/-- Following aliases counts the steps taken; none when there is no value. -/
abbrev Expansion (α : Type) := StateT Nat Option α

/-- Takes one step, if any is left. -/
def Expansion.step (limit : Nat) : Expansion Unit := do
  let n ← get
  if limit ≤ n then failure else set (n + 1)

/-- Puts a local tag around a value. -/
def withTag (tag : Option String) (v : Value) : Option Value :=
  match localTag? tag with
  | none => some v
  | some "" => none
  | some t => some (.tagged (plainTag t) v)

namespace Node

/-- The value of a node that is no alias, given those of its parts. -/
def scalarNode? (tag : Option String) (style : ScalarStyle) (s : String) : Option Value :=
  match localTag? tag with
  | some _ =>
    (if style = .plain then plainValue? s else some (.string s)).bind (withTag tag)
  | none => scalarValue? tag style s

/-- What a node stands for: an alias for another node, which is no alias itself. -/
def follow (slots : List (Nat × Node)) (limit : Nat) (n : Node) : Expansion Node := do
  match n with
  | .alias slot =>
    Expansion.step limit
    match slots.find? (·.1 == slot) with
    | some (_, .alias _) => failure
    | some (_, target) => return target
    | none => failure
  | n => return n

/-- The value of a node, within a depth of nesting. -/
def value (slots : List (Nat × Node)) (limit depth : Nat) (n : Node) : Expansion Value := do
  match ← follow slots limit n, depth with
  | .scalar tag style s, _ => StateT.lift (scalarNode? tag style s)
  | .sequence tag items, depth + 1 =>
    let items ← items.mapM (value slots limit depth)
    StateT.lift (withTag tag (.sequence items))
  | .mapping tag entries, depth + 1 =>
    let entries ← entries.mapM fun e => do
      let k ← value slots limit depth e.1
      let v ← value slots limit depth e.2
      return (k, v)
    if Mapping.hasDuplicate entries then failure
    else StateT.lift (withTag tag (.mapping entries))
  | _, _ => failure
termination_by structural depth

end Node

/-- How many aliases may be followed in a tree. -/
def Tree.limit (t : Tree) : Nat := 100 * t.root.weight

/-- The value of a tree. -/
def Tree.value? (t : Tree) : Option Value :=
  ((t.root.value t.slots t.limit maxDepth).run 0).map (·.1)

/-- **The value of a text**; an empty text is null. -/
def read (text : String) : Except Error Value :=
  match tree? text with
  | none => .error .malformed
  | some none => .ok .null
  | some (some t) =>
    match t.value? with
    | some v => .ok v
    | none => .error .malformed

end SiteConfig.Yaml
