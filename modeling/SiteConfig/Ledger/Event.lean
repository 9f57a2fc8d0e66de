import SiteConfig.Json.Decode
import SiteConfig.Timestamp

/-!
# Events of an import

What happens during an import is told as a sequence of events. Each is recorded in
an **envelope** that says when it happened and to which run it belongs.
-/

namespace SiteConfig

/-- Something that happens during an import. -/
inductive Event where
  | validationFailed (problems : List String)
  | importStarted (source target : String) (totalSteps : Nat)
  | stepCompleted (number : Nat) (step : String)
  | stepFailed (number : Nat) (step reason : String)
  | importCompleted (steps duration : Nat)
  | importFailed (completed total : Nat) (reason : String) (duration : Nat)
  deriving DecidableEq, Repr

namespace Event

/-- The word for a kind of event. -/
def kind : Event → String
  | .validationFailed _ => "validation_failed"
  | .importStarted .. => "import_started"
  | .stepCompleted .. => "step_completed"
  | .stepFailed .. => "step_failed"
  | .importCompleted .. => "import_completed"
  | .importFailed .. => "import_failed"

/-- An event in one line. -/
def summary : Event → String
  | .validationFailed problems => s!"validation failed with {problems.length} error(s)"
  | .importStarted source target total => s!"{total} steps from {source} to {target}"
  | .stepCompleted number step => s!"#{number} {step}"
  | .stepFailed number step reason => s!"#{number} {step}: {reason}"
  | .importCompleted steps duration => s!"{steps} steps in {duration} ms"
  | .importFailed completed total reason _ => s!"{completed} of {total} steps applied: {reason}"

/-- A natural number. -/
def natToJson (n : Nat) : Json := .int n

/-- An event as a record. -/
def toJson (e : Event) : Json :=
  let tag := ("type", Json.string e.kind)
  match e with
  | .validationFailed problems => .object [tag, ("errors", .array (problems.map .string))]
  | .importStarted source target total =>
    .object [tag, ("source", .string source), ("target", .string target),
      ("total_steps", natToJson total)]
  | .stepCompleted number step =>
    .object [tag, ("number", natToJson number), ("step", .string step)]
  | .stepFailed number step reason =>
    .object [tag, ("number", natToJson number), ("step", .string step),
      ("error_message", .string reason)]
  | .importCompleted steps duration =>
    .object [tag, ("steps", natToJson steps), ("duration_ms", natToJson duration)]
  | .importFailed completed total reason duration =>
    .object [tag, ("completed_steps", natToJson completed), ("total_steps", natToJson total),
      ("error_message", .string reason), ("duration_ms", natToJson duration)]

/-- The event of a record. -/
def ofJson? (v : Json) : Option Event := do
  let (kind, r) ← v.tagged? "type"
  match kind with
  | "validation_failed" =>
    match ← r.fields? ["errors"] with
    | [problems] => return .validationFailed (← problems.strings?)
    | _ => none
  | "import_started" =>
    match ← r.fields? ["source", "target", "total_steps"] with
    | [source, target, total] =>
      return .importStarted (← source.asString?) (← target.asString?) (← total.nat64?)
    | _ => none
  | "step_completed" =>
    match ← r.fields? ["number", "step"] with
    | [number, step] => return .stepCompleted (← number.nat64?) (← step.asString?)
    | _ => none
  | "step_failed" =>
    match ← r.fields? ["number", "step", "error_message"] with
    | [number, step, reason] =>
      return .stepFailed (← number.nat64?) (← step.asString?) (← reason.asString?)
    | _ => none
  | "import_completed" =>
    match ← r.fields? ["steps", "duration_ms"] with
    | [steps, duration] => return .importCompleted (← steps.nat64?) (← duration.nat64?)
    | _ => none
  | "import_failed" =>
    match ← r.fields? ["completed_steps", "total_steps", "error_message", "duration_ms"] with
    | [completed, total, reason, duration] =>
      return .importFailed (← completed.nat64?) (← total.nat64?) (← reason.asString?)
        (← duration.nat64?)
    | _ => none
  | _ => none

end Event

/-- The version of this program. -/
def programVersion : String := "0.4.0"

/-- An event with its circumstances. -/
structure Envelope where
  id : String
  time : Timestamp
  run : String
  /-- The version of the program that recorded the event. -/
  version : String
  event : Event
  deriving DecidableEq, Repr

namespace Envelope

/-- An envelope as a record. -/
def toJson (e : Envelope) : Json :=
  .object [("event_id", .string e.id), ("timestamp", .string e.time.text),
    ("run_id", .string e.run), ("cli_version", .string e.version), ("event", e.event.toJson)]

/-- The envelope of a record. -/
def ofJson? (v : Json) : Option Envelope := do
  match ← v.fields? ["event_id", "timestamp", "run_id", "cli_version", "event"] with
  | [id, time, run, version, event] =>
    return {
      id := ← id.asString?
      time := ← Timestamp.parse? (← time.asString?)
      run := ← run.asString?
      version := ← version.asString?
      event := ← Event.ofJson? event }
  | _ => none

end Envelope

end SiteConfig
