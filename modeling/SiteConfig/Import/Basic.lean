import SiteConfig.Check.Basic
import SiteConfig.Comparison
import SiteConfig.Ledger.Event
import SiteConfig.Lock

/-!
# Imports

An import makes a target storage and the installed extensions equal to a source. It
goes through a fixed sequence of states (`SiteConfig.ImportState`): its changelist is
validated, then it takes the lock and plans its steps, then it carries out one step
after the other, until all are done or one fails.

What an import works with is an `SiteConfig.Importer`; how far it has come is an
`SiteConfig.ImportRun`, which is plain data.
-/

namespace SiteConfig

/-! ### How far an import has come -/

/-- The state of an import. -/
inductive ImportState where
  | idle
  | validating
  | validated
  | initialized
  | processing (completed total : Nat)
  | completed
  | failed
  deriving DecidableEq, Repr

namespace ImportState

/-- The words for a state. -/
def text : ImportState → String
  | .idle => "idle"
  | .validating => "validating"
  | .validated => "validated"
  | .initialized => "initialized"
  | .processing n total => s!"processing ({n}/{total})"
  | .completed => "completed"
  | .failed => "failed"

/-- Whether an import is over. -/
def isTerminal : ImportState → Bool
  | .completed => true
  | .failed => true
  | _ => false

/-- Whether steps may be carried out. -/
def isActive : ImportState → Bool
  | .initialized => true
  | .processing .. => true
  | _ => false

end ImportState

/-- How an import ended. -/
inductive ImportStatus where
  | noChanges
  | validationFailed (problems : List String)
  | completed (steps : Nat)
  /-- A step failed after `completed` others had been carried out. -/
  | failedMidway (completed total : Nat) (step reason : String)
  deriving DecidableEq, Repr

/-- How far an import has come. -/
structure ImportRun where
  comparison : Comparison
  state : ImportState
  /-- What was found wrong, or why a step failed. -/
  errors : List String
  extensionChanges : ExtensionChanges
  steps : List Step
  /-- The number of steps that have been carried out. -/
  position : Nat
  /-- Whether the import holds its lock. -/
  guarded : Bool
  /-- When the steps were planned. -/
  started : Option Timestamp

namespace ImportRun

/-- An import that starts with a comparison. -/
def ofComparison (c : Comparison) : ImportRun :=
  { comparison := c, state := .idle, errors := [], extensionChanges := .empty, steps := []
    position := 0, guarded := false, started := none }

/-- An import that has not begun. -/
def initial : ImportRun := ofComparison .initial

instance : Inhabited ImportRun := ⟨initial⟩

/-- The pending changes of documents. -/
def changelist (r : ImportRun) : Changelist := r.comparison.changelist

/-- Whether anything changes. -/
def hasChanges (r : ImportRun) : Bool :=
  r.changelist.hasChanges || !r.extensionChanges.isEmpty

/-- The number of the last step carried out, counted from one. -/
def lastCompleted? (r : ImportRun) : Option Nat :=
  if 0 < r.position then some r.position else none

/-- The step to be carried out next. -/
def nextStep? (r : ImportRun) : Option Step :=
  if r.state.isActive then r.steps[r.position]? else none

/-- **How the import ended**, once it has. -/
def status? (r : ImportRun) : Option ImportStatus :=
  match r.state with
  | .completed =>
    some (if r.steps.isEmpty then .noChanges else .completed r.steps.length)
  | .failed =>
    some (if r.steps.isEmpty then .validationFailed r.errors
      else .failedMidway r.position r.steps.length
        ((r.steps[r.position]?.map Step.text).getD "") (r.errors.getLast?.getD ""))
  | _ => none

end ImportRun

/-! ### What an import works with -/

/-- What an import works with. -/
structure Importer (σ : Type) where
  comparer : Comparer σ
  lock : LockTable σ
  lockKey : String
  schemas : Option SchemaCatalog
  lifecycle : Option (Lifecycle σ)
  checks : List (Check σ)
  /-- Where events are recorded. -/
  journal : Option (Event → Attempt σ Failure Unit)
  /-- The time. -/
  clock : σ → Timestamp

/-- An operation of an import. -/
abbrev ImportOperation (σ α : Type) : Type := Attempt (ImportRun × σ) ImportError α

namespace ImportOperation

variable {σ α : Type}

/-- How far the import has come. -/
def current : ImportOperation σ ImportRun := Cell.first.read

/-- Changes how far the import has come. -/
def update (f : ImportRun → ImportRun) : ImportOperation σ Unit := Cell.first.modify f

/-- What does not concern the import's own progress. -/
def outside (x : Attempt σ ImportError α) : ImportOperation σ α := Cell.second.zoom x

/-- Compares, or asks about a comparison. -/
def comparing (x : Attempt (Comparison × σ) ConfigError α) : ImportOperation σ α :=
  fun (r, s) =>
    match x (r.comparison, s) with
    | (.ok a, (c, s)) => (.ok a, ({ r with comparison := c }, s))
    | (.error e, (c, s)) => (.error (.storage e), ({ r with comparison := c }, s))

end ImportOperation

end SiteConfig
