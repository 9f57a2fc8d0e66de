import SiteConfig.Ledger.Basic

/-!
# Runs

A run is one import from its first event to its last. Its summary is gathered from
its events in order, whatever events of other runs stand between them.
-/

namespace SiteConfig

/-- How a run ended, as far as the ledger knows. -/
inductive RunOutcome where
  | inProgress
  | completed
  | failed
  | validationFailed
  deriving DecidableEq, Repr

namespace RunOutcome

/-- The words for an outcome. -/
def text : RunOutcome → String
  | .inProgress => "in progress"
  | .completed => "completed"
  | .failed => "failed"
  | .validationFailed => "validation failed"

/-- The outcome in a record. -/
def key : RunOutcome → String
  | .inProgress => "in_progress"
  | .completed => "completed"
  | .failed => "failed"
  | .validationFailed => "validation_failed"

end RunOutcome

/-- The summary of a run. -/
structure Run where
  id : String
  started : Timestamp
  finished : Option Timestamp
  outcome : RunOutcome
  completedSteps : Nat
  totalSteps : Option Nat
  error : Option String
  deriving DecidableEq, Repr

namespace Run

/-- A run of which nothing is known but its first envelope. -/
def start (e : Envelope) : Run :=
  { id := e.run, started := e.time, finished := none, outcome := .inProgress
    completedSteps := 0, totalSteps := none, error := none }

/-- What an envelope adds to a summary. -/
def apply (r : Run) (e : Envelope) : Run :=
  match e.event with
  | .validationFailed problems =>
    { r with outcome := .validationFailed, finished := some e.time, error := problems.head? }
  | .importStarted _ _ total => { r with totalSteps := some total }
  | .stepCompleted number _ => { r with completedSteps := number }
  | .stepFailed _ _ reason => { r with error := some reason }
  | .importCompleted steps _ =>
    { r with outcome := .completed, completedSteps := steps, finished := some e.time }
  | .importFailed completed _ reason _ =>
    { r with outcome := .failed, completedSteps := completed, finished := some e.time
             error := some reason }

/-- Adds an envelope to the summary of its run, or begins one at the end. -/
def record (runs : List Run) (e : Envelope) : List Run :=
  match runs with
  | [] => [(start e).apply e]
  | r :: rest => if r.id = e.run then r.apply e :: rest else r :: record rest e

/-- The runs of some events, in the order in which they began to be recorded. -/
def gather (es : List Envelope) : List Run := es.foldl record []

/-- Runs by the time of their first event; those of one time keep their order. -/
def byStart (runs : List Run) : List Run :=
  runs.mergeSort fun a b => !b.started.before a.started

/-- A summary as a record. -/
def toJson (r : Run) : Json :=
  let orNull {α : Type} (f : α → Json) : Option α → Json
    | some a => f a
    | none => .null
  .object [("run_id", .string r.id), ("started_at", .string r.started.text),
    ("finished_at", orNull (fun t => .string t.text) r.finished),
    ("outcome", .string r.outcome.key), ("completed_steps", .int r.completedSteps),
    ("total_steps", orNull (fun n : Nat => .int n) r.totalSteps),
    ("error", orNull .string r.error)]

end Run

/-- **The runs of a ledger**, by the time of their first events. -/
def Ledger.runs (l : Ledger) (t : FileTree) : Except Failure (List Run) :=
  (l.events t).map fun es => Run.byStart (Run.gather es)

end SiteConfig
