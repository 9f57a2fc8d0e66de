import SiteConfig.Storage.Memory

/-!
# Storages with replacements

An overlay is a view of a storage in which some documents are replaced. It cannot
be written to. It serves to compare a storage with itself after a change.
-/

namespace SiteConfig.Storage

variable {σ : Type}

/-- Puts a name into sorted names at its place, unless it is there. -/
def insertName (name : String) (names : List String) : List String :=
  match searchSorted names name with
  | .ok _ => names
  | .error place => names.insertIdx place name

/-- Replaces a document in the view. -/
def replaceData (cell : Cell σ Documents) (name : String) (data : Yaml.Mapping) :
    Attempt σ ConfigError Unit := do
  Attempt.ofExcept (validateName name)
  cell.modify (·.insert name data)

/-- **A storage seen with the replacements in a cell.** -/
def overlay (inner : Storage σ) (cell : Cell σ Documents) : Storage σ :=
  let label := s!"replace({inner.label})"
  ofBasics {
    label
    has := fun name => do
      if (← cell.read).contains name then return true else inner.has name
    read := fun name => do
      match (← cell.read).get? name with
      | some data => return ⟨name, data⟩
      | none => inner.read name
    write := fun _ _ => Attempt.fail (.readOnly label)
    delete := fun _ => Attempt.fail (.readOnly label)
    list := fun start => do
      let names ← inner.list start
      let replaced := namesFrom (← cell.read) start
      return replaced.foldl (fun acc n => insertName n acc) names }

end SiteConfig.Storage
