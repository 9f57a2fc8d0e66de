import SiteConfig.Yaml.Token.Lexer

/-!
# The tree of a YAML text

The tokens of a text are grouped into a tree of nodes: scalars with their style and
tag, sequences, mappings, and aliases, which stand for a node met elsewhere. The
functions below are the grammar: one for a node, one for the entries of each kind
of collection.

An alias refers to a **slot**. The slot of an anchor is the number of different
anchor names met before, and a slot holds the last node that was given it; so a
name that is used again takes the slot that the next new name will take too.
-/

namespace SiteConfig.Yaml

/-- A node of the tree. -/
inductive Node where
  | scalar (tag : Option String) (style : ScalarStyle) (text : String)
  | sequence (tag : Option String) (items : List Node)
  | mapping (tag : Option String) (entries : List (Node × Node))
  | alias (slot : Nat)
  deriving Inhabited

/-- A tree with the nodes that aliases stand for. -/
structure Tree where
  root : Node
  slots : List (Nat × Node)

namespace Node

/-- The scalar where the text has nothing. -/
def blank : Node := .scalar none .plain ""

mutual
/-- How many marks an account of the tree takes: one for a scalar or an alias, two
for the ends of a collection. -/
def weight : Node → Nat
  | .scalar .. => 1
  | .alias _ => 1
  | .sequence _ items => 2 + weightItems items
  | .mapping _ entries => 2 + weightEntries entries

def weightItems : List Node → Nat
  | [] => 0
  | x :: r => weight x + weightItems r

def weightEntries : List (Node × Node) → Nat
  | [] => 0
  | (k, v) :: r => weight k + weight v + weightEntries r
end

end Node

/-! ### The state of the grammar -/

/-- The unread tokens, what the tag handles stand for, and the anchors. -/
structure Grammar where
  rest : List Token
  handles : List (String × String)
  /-- The slot of each anchor name. -/
  names : List (String × Nat)
  /-- The node that a slot was given last, by its number in the order of starting. -/
  owners : List (Nat × Nat)
  slots : List (Nat × Node)
  /-- How many anchored nodes have started. -/
  started : Nat

/-- A step of the grammar; none at a text that is not well formed. -/
abbrev Parse (α : Type) := StateT Grammar Option α

namespace Parse

/-- The next token, which stays. -/
def peek : Parse (Option Token) := return (← get).rest.head?

/-- Passes one token. -/
def advance : Parse Unit := modify fun s => { s with rest := s.rest.drop 1 }

/-- Binds an anchor at the start of its node; the result identifies the node. -/
def openAnchor (name : String) : Parse (Nat × Nat) := do
  let s ← get
  let slot := s.names.length
  let serial := s.started
  set { s with
    names := (name, slot) :: s.names.filter (·.1 != name)
    owners := (slot, serial) :: s.owners.filter (·.1 != slot)
    started := serial + 1 }
  return (slot, serial)

/-- Files an anchored node at its end, unless a node that started later has taken
its slot. -/
def closeAnchor (anchor : Option (Nat × Nat)) (n : Node) : Parse Node := do
  match anchor with
  | none => return n
  | some (slot, serial) =>
    modify fun s =>
      if s.owners.contains (slot, serial) then
        { s with slots := (slot, n) :: s.slots.filter (·.1 != slot) }
      else s
    return n

/-- What a tag stands for: its handle expanded. -/
def expandTag (handle suffix : String) : Parse String := do
  if handle.isEmpty then return suffix
  else
    match (← get).handles.find? (·.1 == handle) with
    | some (_, expansion) => return expansion ++ suffix
    | none => failure

/-- The tag and the anchor before a node, in either order, each at most once. -/
def properties : Parse (Option String × Option String) := do
  match ← peek with
  | some (.anchor a) =>
    advance
    match ← peek with
    | some (.tag h s) => advance; return (some (← expandTag h s), some a)
    | _ => return (none, some a)
  | some (.tag h s) =>
    advance
    match ← peek with
    | some (.anchor a) => advance; return (some (← expandTag h s), some a)
    | _ => return (some (← expandTag h s), none)
  | _ => return (none, none)

/-! ### The grammar -/

/-- Whether a token ends the place of a node in a block mapping. -/
def endsBlockNode : Option Token → Bool
  | some .key | some .value | some .blockEnd => true
  | _ => false

/-- Whether a token ends the place of a value in a flow collection. -/
def endsFlowNode (close : Token) : Option Token → Bool
  | some .flowEntry => true
  | some t => t == close
  | none => false

mutual

/-- A node. `inBlock` tells whether block collections may start here, `indentless`
whether the items of a sequence may stand in the column of the key. The counts in
this group of functions bound the depth of the tree by the number of tokens. -/
def node (fuel : Nat) (inBlock indentless : Bool) : Parse Node := do
  match fuel with
  | 0 => failure
  | fuel + 1 =>
    if let some (.alias name) ← peek then
      advance
      match (← get).names.find? (·.1 == name) with
      | some (_, slot) => return .alias slot
      | none => failure
    else
      let (tag, anchor) ← properties
      let mark ← match anchor with
        | none => pure none
        | some a => some <$> openAnchor a
      let next ← peek
      match next with
      | some (.scalar style text) =>
        advance
        -- the tag `!` alone only asks for the usual reading
        let tag := if tag == some "!" then none else tag
        closeAnchor mark (.scalar tag style text)
      | some .flowSequenceStart =>
        advance
        closeAnchor mark (.sequence tag (← flowItems fuel true))
      | some .flowMappingStart =>
        advance
        closeAnchor mark (.mapping tag (← flowEntries fuel true))
      | some .blockSequenceStart =>
        if inBlock then
          advance
          closeAnchor mark (.sequence tag (← blockItems fuel))
        else if tag.isSome || mark.isSome then closeAnchor mark (.scalar tag .plain "")
        else failure
      | some .blockMappingStart =>
        if inBlock then
          advance
          closeAnchor mark (.mapping tag (← blockEntries fuel))
        else if tag.isSome || mark.isSome then closeAnchor mark (.scalar tag .plain "")
        else failure
      | some .blockEntry =>
        if indentless then closeAnchor mark (.sequence tag (← bareItems fuel))
        else if tag.isSome || mark.isSome then closeAnchor mark (.scalar tag .plain "")
        else failure
      | _ =>
        if tag.isSome || mark.isSome then closeAnchor mark (.scalar tag .plain "")
        else failure

/-- The items of a block sequence, up to its end. -/
def blockItems (fuel : Nat) : Parse (List Node) := do
  match fuel with
  | 0 => failure
  | fuel + 1 =>
    match ← peek with
    | some .blockEntry =>
      advance
      let item ← match ← peek with
        | some .blockEntry | some .blockEnd => pure Node.blank
        | _ => node fuel true false
      return item :: (← blockItems fuel)
    | some .blockEnd => advance; return []
    | _ => failure

/-- The items of a sequence in the column of its key; whatever is no item ends it. -/
def bareItems (fuel : Nat) : Parse (List Node) := do
  match fuel with
  | 0 => failure
  | fuel + 1 =>
    match ← peek with
    | some .blockEntry =>
      advance
      let next ← peek
      let item ←
        if next == some .blockEntry || endsBlockNode next then pure Node.blank
        else node fuel true false
      return item :: (← bareItems fuel)
    | _ => return []

/-- The entries of a block mapping, up to its end. -/
def blockEntries (fuel : Nat) : Parse (List (Node × Node)) := do
  match fuel with
  | 0 => failure
  | fuel + 1 =>
    match ← peek with
    | some .key =>
      advance
      let k ← if endsBlockNode (← peek) then pure Node.blank else node fuel true true
      let v ← match ← peek with
        | some .value =>
          advance
          if endsBlockNode (← peek) then pure Node.blank else node fuel true true
        | _ => pure Node.blank
      return (k, v) :: (← blockEntries fuel)
    | some .blockEnd => advance; return []
    | _ => failure

/-- The items of a flow sequence, up to its bracket. An item with a key is a mapping
of one entry. -/
def flowItems (fuel : Nat) (first : Bool) : Parse (List Node) := do
  match fuel with
  | 0 => failure
  | fuel + 1 =>
    match ← peek with
    | some .flowSequenceEnd => advance; return []
    | next =>
      if !first then
        if next == some .flowEntry then advance else failure
      match ← peek with
      | some .key =>
        advance
        let next ← peek
        let k ←
          if next == some .value || endsFlowNode .flowSequenceEnd next then
            -- the token that shows the key to be empty is passed with it
            advance; pure Node.blank
          else node fuel false false
        let v ← match ← peek with
          | some .value =>
            advance
            if endsFlowNode .flowSequenceEnd (← peek) then pure Node.blank
            else node fuel false false
          | _ => pure Node.blank
        return .mapping none [(k, v)] :: (← flowItems fuel false)
      | some .flowSequenceEnd => advance; return []
      | _ =>
        let item ← node fuel false false
        return item :: (← flowItems fuel false)

/-- The entries of a flow mapping, up to its brace. An entry without a colon has an
empty value. -/
def flowEntries (fuel : Nat) (first : Bool) : Parse (List (Node × Node)) := do
  match fuel with
  | 0 => failure
  | fuel + 1 =>
    match ← peek with
    | some .flowMappingEnd => advance; return []
    | next =>
      if !first then
        if next == some .flowEntry then advance else failure
      match ← peek with
      | some .key =>
        advance
        let next ← peek
        let k ←
          if next == some .value || endsFlowNode .flowMappingEnd next then pure Node.blank
          else node fuel false false
        let v ← match ← peek with
          | some .value =>
            advance
            if endsFlowNode .flowMappingEnd (← peek) then pure Node.blank
            else node fuel false false
          | _ => pure Node.blank
        return (k, v) :: (← flowEntries fuel false)
      | some .flowMappingEnd => advance; return []
      | _ =>
        let k ← node fuel false false
        return (k, .blank) :: (← flowEntries fuel false)

end

/-! ### Documents -/

/-- The directives before a document: at most one version, of major number 1 and
minor number 1 or 2, and no handle twice. -/
def directives : Nat → Bool → List (String × String) → Parse (List (String × String))
  | 0, _, _ => failure
  | n + 1, versioned, handles => do
    match ← peek with
    | some (.versionDirective major minor) =>
      advance
      if versioned || major != 1 || !(minor == 1 || minor == 2) then failure
      else directives n true handles
    | some (.tagDirective handle expansion) =>
      advance
      if handles.any (·.1 == handle) then failure
      else directives n versioned ((handle, expansion) :: handles)
    | _ => return handles

/-- The handles that need no directive. -/
def defaultHandles : List (String × String) := [("!", "!"), ("!!", "tag:yaml.org,2002:")]

/-- The one document of a text, if it has any: its root, or none when the text is
empty. A second document is an error, as is anything that cannot start one. -/
def document : Parse (Option Node) := do
  let fuel := 4 * (← get).rest.length + 16
  match ← peek with
  | none => return none
  | some first =>
    let explicit := match first with
      | .versionDirective .. | .tagDirective .. | .documentStart => true
      | _ => false
    let handles ← directives fuel false []
    modify fun s => { s with handles := handles ++ defaultHandles }
    if explicit then
      if (← peek) != some .documentStart then failure
      advance
    let root ← match explicit, ← peek with
      | true, none | true, some (.versionDirective ..) | true, some (.tagDirective ..)
      | true, some .documentStart | true, some .documentEnd => pure Node.blank
      | _, _ => node fuel true false
    modify fun s => { s with rest := s.rest.dropWhile (· == .documentEnd) }
    if (← get).rest.isEmpty then return some root else failure

end Parse

/-- The tree of the one document of a text. An empty text has a tree without root. -/
def tree? (text : String) : Option (Option Tree) := do
  let tokens ← tokens? text
  let start : Grammar := ⟨tokens, [], [], [], [], 0⟩
  let (root, s) ← Parse.document.run start
  some (root.map fun r => ⟨r, s.slots⟩)

end SiteConfig.Yaml
