import SiteConfig.NameMap
import SiteConfig.Storage.Basic

/-!
# Cached storages

A cache remembers what was read, missing documents included. Before and after a
document is changed it forgets the document; names are always listed afresh.
-/

namespace SiteConfig.Storage

variable {σ : Type}

/-- What is remembered: a document's data, or that there is no such document. -/
abbrev Cache := NameMap (Option Yaml.Mapping)

/-- Forgets a document. -/
def forget (cell : Cell σ Cache) (name : String) : Attempt σ ConfigError Unit :=
  cell.modify (·.erase name)

/-- What is known about a document; what is not remembered is read and remembered. -/
def lookUp (inner : Storage σ) (cell : Cell σ Cache) (name : String) :
    Attempt σ ConfigError (Option Yaml.Mapping) := do
  match (← cell.read).get? name with
  | some known => return known
  | none =>
    let found ← (inner.read name >>= fun d => pure (some d.data) :
        Attempt σ ConfigError (Option Yaml.Mapping)).recover
      fun e => if e.isNotFound then pure none else Attempt.fail e
    cell.modify (·.insert name found)
    return found

/-- Changes documents, forgetting them before and after, whether that fails or not. -/
def forgetting (cell : Cell σ Cache) (names : List String) (x : Attempt σ ConfigError Unit) :
    Attempt σ ConfigError Unit := do
  names.forM (forget cell)
  x.recover fun e => do
    names.forM (forget cell)
    Attempt.fail e
  names.forM (forget cell)

/-- **A storage whose documents are remembered in a cell.** -/
def cached (inner : Storage σ) (cell : Cell σ Cache) : Storage σ :=
  { ofBasics {
      label := s!"cached({inner.label})"
      has := fun name => do return (← lookUp inner cell name).isSome
      read := fun name => do
        match ← lookUp inner cell name with
        | some data => return ⟨name, data⟩
        | none => Attempt.fail (.notFound name)
      write := fun name data => forgetting cell [name] (inner.write name data)
      delete := fun name => forgetting cell [name] (inner.delete name)
      list := inner.list } with
    rename := fun source target =>
      forgetting cell [source, target] (inner.rename source target) }

end SiteConfig.Storage
