import SiteConfig.Import.Basic

/-!
# Carrying out an import

`SiteConfig.Importer.validate` compares the storages and runs the checks; it changes
no storage. `SiteConfig.Importer.start` takes the lock, makes sure that nothing
has changed since, and plans the steps. `SiteConfig.Importer.processStep` carries out
exactly one step. `SiteConfig.Importer.run` does all of this in turn.

The lock is given back when the last step is done, when a step fails, on every error
while planning, and when the import is abandoned. Steps that have been carried out
are not undone.
-/

namespace SiteConfig.Importer

open ImportOperation

variable {σ : Type}

/-! ### The journal and the lock -/

/-- Records an event. That it cannot be recorded does not stop an import. -/
def record (i : Importer σ) (e : Event) : ImportOperation σ Unit :=
  match i.journal with
  | some journal => fun (r, s) => (.ok (), (r, (journal e s).2))
  | none => pure ()

/-- Gives the lock back. -/
def release (i : Importer σ) : ImportOperation σ Unit := do
  outside (Attempt.always (i.lock.release i.lockKey))
  update fun r => { r with guarded := false }

/-- Gives the lock back if an operation fails. -/
def releasingOnFailure {α : Type} (i : Importer σ) (x : ImportOperation σ α) :
    ImportOperation σ α :=
  x.recover fun e => do
    i.release
    Attempt.fail e

/-- **Gives up an import**: it no longer holds its lock. -/
def abandon (i : Importer σ) : ImportOperation σ Unit := do
  if (← current).guarded then i.release

/-- Whether another import is at work. -/
def alreadyImporting (i : Importer σ) : ImportOperation σ Bool := do
  if (← current).guarded then return false
  else outside (i.lock.isLocked i.lockKey)

/-- The milliseconds since the steps were planned. -/
def elapsed (i : Importer σ) : ImportOperation σ Nat := fun (r, s) =>
  let ms := match r.started with
    | some t => ((i.clock s).since t / 1000000).toNat
    | none => 0
  (.ok ms, (r, s))

/-! ### Validation -/

/-- Compares unless that has been done, gathers what the checks look at, and runs
them. -/
def review (i : Importer σ) : ImportOperation σ (List Problem) := do
  if !(← current).comparison.calculated then comparing i.comparer.refresh
  let comparison := (← current).comparison
  let changes ← match i.lifecycle with
    | some l => outside (comparison.extensionChanges l)
    | none => pure .empty
  update fun r => { r with extensionChanges := changes }
  let requirements ← outside (Requirements.gather comparison changes i.lifecycle)
  let review : Review σ :=
    { comparison, extensionChanges := changes, lifecycle := i.lifecycle, schemas := i.schemas
      requirements }
  outside (Attempt.always (Check.runAll i.checks review))

/-- Ends an import before its first step. -/
def refuse (problems : List String) : ImportOperation σ Unit :=
  update fun r => { r with errors := problems, state := .failed }

/-- **Validates the import.** It may be validated again as long as it has not been
planned. -/
def validate (i : Importer σ) : ImportOperation σ Unit := do
  let state := (← current).state
  if state ≠ .idle ∧ state ≠ .validated then
    Attempt.fail (.invalidState "validate" state.text)
  else do
    update fun r => { r with state := .validating }
    let problems ← i.review.recover fun e => do
      refuse e.messages
      Attempt.fail e
    if problems.isEmpty then update fun r => { r with state := .validated }
    else do
      let messages := problems.map (·.message)
      refuse messages
      i.record (.validationFailed messages)
      Attempt.fail (.validation messages)

/-! ### Planning -/

/-- Makes sure that nothing has changed since validation. If something has, the import
is idle again and may be validated afresh. -/
def ensureFresh (i : Importer σ) : ImportOperation σ Unit := do
  let comparison := (← current).comparison
  if ← outside ((i.comparer.isStale comparison).mapError .storage) then
    update fun r => { r with comparison := r.comparison.invalidate, state := .idle }
    Attempt.fail .staleChangelist
  else return ()

/-- The steps of the import. -/
def plan (i : Importer σ) : ImportOperation σ (List Step) := do
  let r ← current
  let requirements ← outside (Requirements.gather r.comparison r.extensionChanges i.lifecycle)
  Attempt.ofExcept
    ((requirements.plan r.changelist r.extensionChanges).mapError .dependencyCycle)

/-- Takes the lock, if it is free. -/
def acquire (i : Importer σ) : ImportOperation σ Unit := do
  if ← outside (i.lock.acquire i.lockKey) then return ()
  else Attempt.fail (.lockContention i.lockKey)

/-- **Takes the lock and plans the steps.** Without steps the import is done. -/
def start (i : Importer σ) : ImportOperation σ (List Step) := do
  let state := (← current).state
  if state ≠ .validated then Attempt.fail (.invalidState "initialize" state.text)
  else do
    i.acquire
    let steps ← i.releasingOnFailure do
      i.ensureFresh
      i.plan
    let (_, s) ← Attempt.state
    update fun r => { r with steps, position := 0, started := some (i.clock s) }
    if steps.isEmpty then
      i.release
      update fun r => { r with state := .completed }
    else
      update fun r => { r with guarded := true, state := .initialized }
      i.record (.importStarted i.comparer.source.label i.comparer.target.label steps.length)
    return steps

/-! ### Steps -/

/-- The document of the source that a step writes. -/
def sourceData (source : Snapshot) (name : String) : Attempt σ String Yaml.Mapping :=
  match source.get? name with
  | some d => pure d.data
  | none => Attempt.fail s!"{name} is missing from the source snapshot"

/-- The lifecycle that a step asks. -/
def lifecycleFor (i : Importer σ) : Attempt σ String (Lifecycle σ) :=
  match i.lifecycle with
  | some l => pure l
  | none => Attempt.fail "no extension lifecycle is configured"

/-- **What a step does**, or why it fails. A document is renamed by writing the new one
and deleting the old one. -/
def execute (i : Importer σ) (source : Snapshot) (step : Step) : Attempt σ String Unit := do
  let target := i.comparer.target
  let writeFrom (name : String) : Attempt σ String Unit := do
    let data ← sourceData source name
    (target.write name data).mapError (·.message)
  match step with
  | .create name => writeFrom name
  | .update name => writeFrom name
  | .delete name => (target.delete name).mapError (·.message)
  | .rename old new =>
    writeFrom new
    (target.delete old).mapError (·.message)
  | .install e =>
    let l ← i.lifecycleFor
    (l.install e.kind [e.name]).mapError (·.text)
  | .uninstall e =>
    let l ← i.lifecycleFor
    (l.uninstall e.kind [e.name]).mapError (·.text)

/-- The step that has to be carried out next. -/
def expectedStep : ImportOperation σ Step := do
  let r ← current
  match r.nextStep? with
  | some s => return s
  | none => Attempt.fail (.invalidState "process a step" r.state.text)

/-- Ends the import after a failed step. -/
def failStep (i : Importer σ) (number : Nat) (step : Step) (reason : String) :
    ImportOperation σ Unit := do
  update fun r => { r with errors := r.errors ++ [reason], state := .failed }
  i.release
  let r ← current
  let total := r.steps.length
  i.record (.stepFailed number step.text reason)
  let duration ← i.elapsed
  i.record (.importFailed r.position total reason duration)
  Attempt.fail (.stepFailed number total step.text r.position reason)

/-- Goes on after a step, or ends the import after the last one. -/
def completeStep (i : Importer σ) (number : Nat) (step : Step) : ImportOperation σ Unit := do
  update fun r => { r with position := number }
  i.record (.stepCompleted number step.text)
  let total := (← current).steps.length
  if number = total then
    update fun r => { r with state := .completed }
    i.release
    let duration ← i.elapsed
    i.record (.importCompleted total duration)
  else update fun r => { r with state := .processing number total }

/-- **Carries out one step**, which must be the next one. -/
def processStep (i : Importer σ) (step : Step) : ImportOperation σ Unit := do
  let expected ← expectedStep
  if expected ≠ step then Attempt.fail (.outOfOrderStep expected.text step.text)
  else do
    let r ← current
    let number := r.position + 1
    match ← Attempt.always (Cell.second.zoom (i.execute r.comparison.source step)).outcome with
    | .error reason => i.failStep number step reason
    | .ok () => i.completeStep number step

/-- Carries out the next step, if there is one. -/
def processNext (i : Importer σ) : ImportOperation σ (Option Step) := do
  match (← current).nextStep? with
  | none => return none
  | some step =>
    i.processStep step
    return some step

/-! ### The whole import -/

/-- A step that has been carried out, its number and the number of all. -/
structure Progress where
  step : Step
  number : Nat
  total : Nat

/-- Carries out some steps one after the other, until one fails. -/
def processAll (i : Importer σ) (total : Nat) :
    List Step → ImportOperation σ (ImportStatus × List Progress)
  | [] => return (.completed total, [])
  | step :: rest => do
    match ← Attempt.always (i.processStep step).outcome with
    | .ok () =>
      let number := (← current).position
      let (status, progress) ← processAll i total rest
      return (status, ⟨step, number, total⟩ :: progress)
    | .error (.stepFailed _ total step completed reason) =>
      return (.failedMidway completed total step reason, [])
    | .error e => Attempt.fail e

/-- **Validates, plans and carries out an import**, and tells how it ended and what
was carried out. -/
def run (i : Importer σ) : ImportOperation σ (ImportStatus × List Progress) := do
  let problems ← if (← current).state = .idle then
      (i.validate >>= fun _ => pure none : ImportOperation σ (Option (List String))).recover
        fun e =>
          match e with
          | .validation problems => pure (some problems)
          | e => Attempt.fail e
    else pure none
  match problems with
  | some problems => return (.validationFailed problems, [])
  | none =>
    let steps ← i.start
    if steps.isEmpty then return (.noChanges, [])
    else i.processAll steps.length steps

end SiteConfig.Importer
