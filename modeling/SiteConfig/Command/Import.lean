import SiteConfig.Command.Console
import SiteConfig.Site
import SiteConfig.SingleImport

/-!
# Commands that import

Importing the proposed configuration and importing a single document differ in what
they compare; from there on both do the same (`SiteConfig.Site.carryOut`).
-/

namespace SiteConfig.Site

open SiteConfig.Action

/-- The exit code of an import that was refused. -/
def refusedCode : Nat := 2

/-- The exit code of an import that another one keeps from beginning. -/
def lockedCode : Nat := 3

/-- The exit code of an import that failed after it had begun. -/
def failedMidwayCode : Nat := 4

/-- An import at work. -/
abbrev ImportAction (α : Type) : Type := Attempt (ImportRun × World × Screen) Failure α

/-- An operation of the import, with its outcome. -/
def operation {α : Type} (x : ImportOperation World α) : ImportAction (Except ImportError α) :=
  fun (r, w, s) =>
    let (a, (r, w)) := x (r, w)
    (.ok a, (r, w, s))

/-- Something beside the import. -/
def beside {α : Type} (x : Action α) : ImportAction α := Cell.second.zoom x

/-- Tells what an import would change. -/
def tellChanges (r : ImportRun) : Action Unit :=
  let c := r.changelist
  let x := r.extensionChanges
  info <|
    s!"This will create {c.create.length}, update {c.update.length}, " ++
      s!"delete {c.delete.length} and rename {c.rename.length} configuration(s), " ++
      s!"install {x.install.length} and uninstall {x.uninstall.length} extension(s)"

/-- Tells how far an import came. -/
def tellLastStep (r : ImportRun) : Action Unit :=
  match r.lastCompleted? with
  | some n =>
    let step := (r.steps[n - 1]?.map Step.text).getD ""
    info s!"Last completed step: #{n} ({step})"
  | none => info "No steps were applied"

/-- Carries out planned steps one after the other, and tells how that ended. -/
def carryOutSteps (i : Importer World) (total : Nat) : List Step → ImportAction Nat
  | [] => do
    beside (success s!"Imported {total} step(s)")
    return 0
  | step :: rest => do
    match ← operation (i.processStep step) with
    | .ok () => carryOutSteps i total rest
    | .error e =>
      match e with
      | .stepFailed .. => do
        beside (error e.message)
        let r ← Cell.first.read
        beside (tellLastStep r)
        return failedMidwayCode
      | e => Attempt.fail e.failure

/-- Plans an import and carries it out. -/
def planAndCarryOut (i : Importer World) : ImportAction Nat := do
  match ← operation i.start with
  | .ok steps => carryOutSteps i steps.length steps
  | .error (.lockContention _) => do
    beside (error "Another request may be importing configuration already")
    return lockedCode
  | .error e => Attempt.fail e.failure

/-- The title above what is wrong with an import. -/
def refusalTitle : String := "There were errors validating the configuration:"

/-- **Validates an import, asks whether to go on, and carries it out.** -/
def carryOut (i : Importer World) (confirmed : Bool) : ImportAction Nat := do
  match ← operation i.validate with
  | .error (.validation problems) => do
    beside (errorList refusalTitle problems)
    return refusedCode
  | .error e => Attempt.fail e.failure
  | .ok () => do
    let r ← Cell.first.read
    if !ImportRun.hasChanges r then
      beside (success "There are no changes to import")
      return 0
    else do
      if !confirmed then
        beside (tellChanges r)
        beside confirm
      planAndCarryOut i

/-- Runs an import that starts with a comparison. -/
def runImport {α : Type} (c : Comparison) (x : ImportAction α) : Action α := fun (w, s) =>
  let (a, (_, w, s)) := x (.ofComparison c, w, s)
  (a, (w, s))

/-- Imports the proposed configuration. -/
def importAll (site : Site) (confirmed : Bool) : Action Nat := do
  let i ← onWorld site.importer
  runImport .initial (carryOut i confirmed)

/-- Validates the import of the proposed configuration. -/
def validate (site : Site) : Action Nat := do
  let i ← onWorld site.importer
  runImport .initial do
    match ← operation i.validate with
    | .error (.validation problems) => do
      beside (errorList refusalTitle problems)
      return refusedCode
    | .error e => Attempt.fail e.failure
    | .ok () => do
      let r ← Cell.first.read
      let x := ImportRun.extensionChanges r
      let changes := r.changelist.size + x.install.length + x.uninstall.length
      beside <|
        if r.hasChanges then success s!"{changes} pending change(s) are valid"
        else success "There are no changes to import"
      return 0

/-! ### A single document -/

/-- Where a single document goes: to a name, or as an entity of a type that the
settings know. -/
def singleTarget (s : Settings) (name type id : Option String) : Except Failure SingleTarget :=
  match name, type with
  | some name, _ => .ok (.document name)
  | none, some type =>
    match s.entityType? type with
    | some t => .ok (.entity t id)
    | none => .error (.simple
        s!"Unknown entity type '{type}'; declare it under entity-types in cfgsync.yaml")
  | none, none => .error (.simple "Either --name or --type is required")

/-- The text of a file. -/
def readFile (site : Site) (path : String) : Attempt World Failure String := do
  let files ← World.fileCell.read
  Attempt.ofExcept ((files.readText site.workingDir path).mapError fun e =>
    (Failure.simple e.message).within s!"Failed to read {path}")

/-- Imports a single document from a file. -/
def importSingle (site : Site) (file : String) (name type id : Option String)
    (confirmed : Bool) : Action Nat := do
  let text ← onWorld (readFile site file)
  let target ← onWorld (Attempt.ofExcept (singleTarget site.settings name type id))
  let prepared ← onWorld (Attempt.always (SingleImport.prepare site.active target text).outcome)
  match prepared with
  | .error (.validation problems) => do
    errorList "The configuration cannot be imported:" problems
    return refusedCode
  | .error e => Attempt.fail e.failure
  | .ok p => do
    let fate := if p.replaces then "replaced" else "created"
    info s!"{p.name} will be {fate}"
    let i ← onWorld (site.importerOf p.comparer)
    runImport p.comparison (carryOut i confirmed)

end SiteConfig.Site
