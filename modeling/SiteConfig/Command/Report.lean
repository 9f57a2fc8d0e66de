import SiteConfig.Command.Console
import SiteConfig.Site
import SiteConfig.Text.Table

/-!
# Commands that show something

Previewing an import, showing a document, the state of the site and the log. None of
them changes a document; exporting, which does, replaces the proposed configuration
by the active one.
-/

namespace SiteConfig.Site

open SiteConfig.Action

/-! ### Previews -/

/-- A list of names as a record. -/
def namesJson (l : List String) : Json := .array (l.map .string)

/-- The changes of documents as a record. -/
def changelistJson (c : Changelist) : Json :=
  .object [("create", namesJson c.create), ("update", namesJson c.update),
    ("delete", namesJson c.delete),
    ("rename", .array (c.rename.map fun r =>
      .object [("from", .string r.source), ("to", .string r.target),
        ("content_changed", .bool r.contentChanged)]))]

/-- The changes of extensions as a record. -/
def extensionChangesJson (x : ExtensionChanges) : Json :=
  .object [("install", .array (x.install.map Step.extensionToJson)),
    ("uninstall", .array (x.uninstall.map Step.extensionToJson))]

/-- A preview as a record. Without an order there are no steps. -/
def previewJson (c : Changelist) (x : ExtensionChanges)
    (steps : Except (List (List String)) (List Step)) : Json :=
  .object [("changelist", changelistJson c), ("extensions", extensionChangesJson x),
    ("steps", match steps with
      | .ok steps => .array (steps.map Step.toJson)
      | .error _ => .null)]

/-- Shows how many documents would change. -/
def showCounts (c : Changelist) : Action Unit := do
  count "Create" c.create.length
  count "Update" c.update.length
  count "Delete" c.delete.length
  count "Rename" c.rename.length

/-- The rows of the steps. -/
def stepRows (steps : List Step) : List (List String) :=
  steps.zipIdx.map fun (s, n) => [toString (n + 1), s.operation, s.subject]

/-- Compares the storages of the site. -/
def compare (site : Site) : Attempt World Failure Comparison := fun w =>
  match site.comparer.refresh (.initial, w) with
  | (.ok (), (c, w)) => (.ok c, w)
  | (.error e, (_, w)) => (.error (e.failure.within "Failed to compare storages"), w)

/-- **Shows what an import would change**, in the order of its steps. -/
def preview (site : Site) (json : Bool) : Action Nat := do
  let l ← onWorld site.lifecycle
  let c ← onWorld (compare site)
  let x ← onWorld ((c.extensionChanges l).mapError (·.failure))
  let requirements ← onWorld ((Requirements.gather c x (some l)).mapError (·.failure))
  let steps := requirements.plan c.changelist x
  if json then
    line (previewJson c.changelist x steps).pretty
  else if !c.changelist.hasChanges && x.isEmpty then
    success "There are no changes to import"
  else
    header s!"Changes from {site.proposed.label} to {site.active.label}"
    showCounts c.changelist
    count "Install" x.install.length
    count "Uninstall" x.uninstall.length
    line ""
    match steps with
    | .ok steps => line (Text.table ["#", "operation", "subject"] (stepRows steps))
    | .error cycles =>
      errorList "The changes cannot be ordered" (ImportError.dependencyCycle cycles).messages
  return 0

/-! ### Documents -/

/-- Shows a document, active or proposed. -/
def showDocument (site : Site) (name : String) (proposed : Bool) : Action Nat := do
  let storage := if proposed then site.proposed else site.active
  let d ← onWorld ((storage.read name).mapError fun e =>
    e.failure.within s!"Failed to read {name} from {storage.label}")
  let text ← onWorld (Attempt.ofExcept (d.toYaml.mapError (·.failure)))
  write text
  return 0

/-- Replaces the proposed configuration by the active one. -/
def exportAll (site : Site) (confirmed : Bool) : Action Nat := do
  if !confirmed then
    warning s!"This will overwrite {site.proposed.label} with {site.active.label}"
    confirm
  let n ← onWorld ((Storage.copyAll site.active site.proposed).mapError fun e =>
    e.failure.within "Failed to export configuration")
  success s!"Exported {n} configuration(s) to {site.proposed.label}"
  return 0

/-! ### The state of the site -/

/-- How many steps of a run have been carried out. -/
def stepsText (r : Run) (unknown : String) : String :=
  match r.totalSteps with
  | some total => s!"{r.completedSteps}/{total}"
  | none => unknown

/-- A point in time up to the second. -/
def timeText (t : Timestamp) : String := t.dateTimeText " "

/-- The runs in the ledger of the site. -/
def readRuns (site : Site) : Attempt World Failure (List Run) := do
  let files ← World.fileCell.read
  Attempt.ofExcept ((site.ledger.runs files).mapError (·.within "Failed to read import log"))

/-- Shows the last run. -/
def showLastRun (runs : List Run) : Action Unit :=
  match runs.getLast? with
  | none => entry "Last run" "never"
  | some r => do
    entry "Last run" (timeText r.started ++ " UTC")
    entry "Outcome" r.outcome.text
    entry "Steps" (stepsText r (toString r.completedSteps))
    match r.error with
    | some reason => entry "Error" reason
    | none => pure ()

/-- **Shows the storages, what is pending, and the last import.** -/
def status (site : Site) : Action Nat := do
  header "Storages"
  entry "Active" site.active.label
  let active ← onWorld ((site.active.list "").mapError (·.failure))
  count "Active documents" active.length
  entry "Sync" site.proposed.label
  let proposed ← onWorld ((site.proposed.list "").mapError (·.failure))
  count "Sync documents" proposed.length
  entry "State directory" site.settings.stateDir
  let c ← onWorld (compare site)
  header "Pending changes"
  if c.changelist.hasChanges then showCounts c.changelist else line "  none"
  header "Import"
  let locked ← onWorld ((site.lock.isLocked site.settings.lockKey).mapError (·.failure))
  entry "Lock" (if locked then "held" else "free")
  let runs ← onWorld (readRuns site)
  showLastRun runs
  return 0

/-! ### The log -/

/-- The beginning of the identifier of a run. -/
def shortId (id : String) : String := String.ofList (id.toList.take 8)

/-- The row of a run. -/
def runRow (r : Run) : List String :=
  [shortId r.id, timeText r.started, r.outcome.text, stepsText r "-", r.error.getD "-"]

/-- The row of an event. -/
def eventRow (e : Envelope) : List String :=
  [timeText e.time, shortId e.run, e.event.kind, e.event.summary]

/-- Shows some entries of the log, as records or as a table. -/
def showEntries (json : Bool) (records : List Json) (head : List String)
    (rows : List (List String)) : Action Unit :=
  if json then records.forM fun r => line r.compact
  else if rows.isEmpty then info "No imports recorded"
  else line (Text.table head rows)

/-- **Shows the last events, or the last runs.** -/
def log (site : Site) (limit : Nat) (runs json : Bool) : Action Nat := do
  if runs then
    let all ← onWorld (readRuns site)
    let shown := all.drop (all.length - limit)
    showEntries json (shown.map Run.toJson) ["run", "started", "outcome", "steps", "error"]
      (shown.map runRow)
  else
    let files ← onWorld World.fileCell.read
    let found := (site.ledger.history files (some limit)).mapError
      (·.within "Failed to read import log")
    let shown ← onWorld (Attempt.ofExcept found)
    showEntries json (shown.map Envelope.toJson) ["time", "run", "event", "details"]
      (shown.map eventRow)
  return 0

end SiteConfig.Site
