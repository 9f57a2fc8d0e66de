import SiteConfig.NameMap
import SiteConfig.Storage.Basic

/-!
# Documents in memory

The storage that is a finite map, and nothing else. Only writing checks names.
-/

namespace SiteConfig.Storage

variable {σ : Type}

/-- The documents of a storage. -/
abbrev Documents := NameMap Yaml.Mapping

/-- The names in a finite map that begin with a text. -/
def namesFrom {α : Type} (docs : NameMap α) (start : String) : List String :=
  docs.keys.filter (beginsWith start)

/-- Reads a document of some. -/
def readFrom (docs : Documents) (name : String) : Except ConfigError Document :=
  match docs.get? name with
  | some data => .ok ⟨name, data⟩
  | none => .error (.notFound name)

/-- **The storage of the documents in a cell.** -/
def memory (cell : Cell σ Documents) : Storage σ :=
  ofBasics {
    label := "memory"
    has := fun name => do return (← cell.read).contains name
    read := fun name => do Attempt.ofExcept (readFrom (← cell.read) name)
    write := fun name data => do
      Attempt.ofExcept (validateName name)
      cell.modify (·.insert name data)
    delete := fun name => do
      if (← cell.read).contains name then cell.modify (·.erase name)
      else Attempt.fail (.notFound name)
    list := fun start => do return namesFrom (← cell.read) start }

end SiteConfig.Storage
