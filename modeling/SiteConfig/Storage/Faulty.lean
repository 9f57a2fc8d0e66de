import SiteConfig.Storage.Basic

/-!
# Faulty storages

A faulty storage passes everything on to another one, but fails at stated places:
at the change of one name, at the change with one number, or at the reading of one
name. It shows how the rest of the library copes with failures.
-/

namespace SiteConfig.Storage

variable {σ : Type}

/-- Where a storage fails. -/
structure Faults where
  /-- The name that cannot be changed. -/
  name : Option String
  /-- The number, counted from one, of the change that fails. -/
  number : Option Nat
  /-- The name that cannot be read. -/
  reading : Option String

/-- Counts a change, and fails where the faults say so. -/
def countChange (faults : Faults) (cell : Cell σ Nat) (name : String) :
    Attempt σ ConfigError Unit := do
  cell.modify (· + 1)
  let n ← cell.read
  if faults.name = some name ∨ faults.number = some n then
    Attempt.fail (.write name "simulated storage failure")
  else return ()

/-- **A storage that fails at stated places**, with the count of changes in a cell. -/
def faulty (inner : Storage σ) (faults : Faults) (cell : Cell σ Nat) : Storage σ :=
  ofBasics {
    label := "failing"
    has := inner.has
    read := fun name =>
      if faults.reading = some name then
        Attempt.fail (.invalidData name "simulated read failure")
      else inner.read name
    write := fun name data => do
      countChange faults cell name
      inner.write name data
    delete := fun name => do
      countChange faults cell name
      inner.delete name
    list := inner.list }

end SiteConfig.Storage
