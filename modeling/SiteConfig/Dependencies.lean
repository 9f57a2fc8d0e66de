import SiteConfig.Yaml.Decode

/-!
# What a document depends on

The `dependencies` section of a document lists the modules, themes, configuration
documents and contents that it needs. A subsection `enforced` of the same shape
adds to the four lists what they do not hold yet.

The plain lists are strict: none of them may be null or carry a tag. The enforced
ones are read like any other record.
-/

namespace SiteConfig

/-- What a dependency points at. -/
inductive DependencyKind where
  | module
  | theme
  | config
  | content
  deriving DecidableEq, Repr

/-- The word for a kind. -/
def DependencyKind.text : DependencyKind → String
  | .module => "module"
  | .theme => "theme"
  | .config => "configuration"
  | .content => "content"

/-- Declared dependencies. -/
structure Dependencies where
  module : List String
  theme : List String
  config : List String
  content : List String
  deriving DecidableEq, Repr

namespace Dependencies

/-- No dependencies. -/
def none : Dependencies := ⟨[], [], [], []⟩

instance : Inhabited Dependencies := ⟨none⟩

/-- Whether there are no dependencies. -/
def isEmpty (d : Dependencies) : Bool :=
  d.module.isEmpty && d.theme.isEmpty && d.config.isEmpty && d.content.isEmpty

/-- Every dependency with its kind, in the order of the kinds. -/
def toList (d : Dependencies) : List (DependencyKind × String) :=
  d.module.map (.module, ·) ++ d.theme.map (.theme, ·) ++ d.config.map (.config, ·) ++
    d.content.map (.content, ·)

/-- The list followed by the names of another one that are not there yet. -/
def mergeNames (names extra : List String) : List String :=
  extra.foldl (fun acc n => if acc.contains n then acc else acc ++ [n]) names

/-- The lists followed by what other ones add to them. -/
def merge (d e : Dependencies) : Dependencies :=
  { module := mergeNames d.module e.module
    theme := mergeNames d.theme e.theme
    config := mergeNames d.config e.config
    content := mergeNames d.content e.content }

/-! ### Reading the section -/

open Yaml

/-- The keys of the four lists. -/
def listKeys : List String := ["module", "theme", "config", "content"]

/-- The dependencies with the list of a key replaced. -/
def setList (d : Dependencies) (key : String) (names : List String) : Dependencies :=
  if key = "module" then { d with module := names }
  else if key = "theme" then { d with theme := names }
  else if key = "config" then { d with config := names }
  else { d with content := names }

/-- The four lists as a record of their own. -/
def decodeLists : Decoder Dependencies :=
  Decode.record "DependencyLists" listKeys none fun d key v =>
    return d.setList key (← Decode.list Decode.string v)

mutual
/-- Whether a tag occurs anywhere in a value. -/
def hasTag : Value → Bool
  | .tagged .. => true
  | .sequence items => anyTag items
  | .mapping m => anyEntryTag m
  | _ => false

def anyTag : List Value → Bool
  | [] => false
  | v :: r => hasTag v || anyTag r

def anyEntryTag : List (Value × Value) → Bool
  | [] => false
  | (k, v) :: r => hasTag k || hasTag v || anyEntryTag r
end

/-- A list of strings that must be given as a sequence. -/
def strictList : Decoder (List String)
  | .sequence items => items.mapM Decode.string
  | v => Decode.refuse v "a sequence"

/-- The section read so far: the entries other than `enforced`, and what that one says. -/
structure Section where
  plain : List (String × Value)
  enforced : Option (Option Dependencies)

/-- Takes one entry of the section. -/
def Section.take (s : Section) (e : Value × Value) : Except Mismatch Section := do
  let key ← Decode.stringAs "field identifier" e.1
  if key = "enforced" then
    if s.enforced.isSome then throw (.duplicateField key)
    else return { s with enforced := some (← Decode.optional decodeLists e.2) }
  else if hasTag e.2 then throw .taggedList
  else return { s with plain := s.plain ++ [(key, e.2)] }

/-- Reads the plain lists, in the order of the section. -/
def decodePlain (entries : List (String × Value)) : Except Mismatch Dependencies := do
  let step (acc : List String × Dependencies) (e : String × Value) :
      Except Mismatch (List String × Dependencies) := do
    if !listKeys.contains e.1 then return acc
    else if acc.1.contains e.1 then throw (.duplicateField e.1)
    else return (e.1 :: acc.1, acc.2.setList e.1 (← strictList e.2))
  return (← entries.foldlM step ([], none)).2

/-- The dependencies that a section declares. -/
def decode : Decoder Dependencies := fun v => do
  let m ← Decode.entries "struct DependencySection" v
  let s ← m.foldlM Section.take ⟨[], .none⟩
  let plain ← decodePlain s.plain
  match s.enforced with
  | some (some extra) => return plain.merge extra
  | _ => return plain

end Dependencies

end SiteConfig
