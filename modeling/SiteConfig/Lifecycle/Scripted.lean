import SiteConfig.Lifecycle.Basic

/-!
# Scripted lifecycles

A scripted lifecycle keeps the installed extensions as a list and records every
call. It fails at stated places, so that one can see how an import copes.
-/

namespace SiteConfig.Lifecycle

variable {σ : Type}

/-- An extension that a script knows. -/
structure ScriptEntry where
  extension : Extension
  dependencies : List Extension
  required : Bool

/-- What a script knows, and where it fails. -/
structure Script where
  /-- The known extensions; without a list every extension is known. -/
  known : Option (List ScriptEntry)
  /-- The extension that can be neither installed nor uninstalled. -/
  failOn : Option Extension
  /-- The extension that cannot be looked up. -/
  failInfo : Option Extension
  /-- How often that one can be looked up before it fails. -/
  failInfoAfter : Nat
  /-- Whether the installed extensions cannot be listed. -/
  failList : Bool

/-- The state of a scripted lifecycle. -/
structure ScriptState where
  installed : List Extension
  calls : List String
  /-- How often the extension that will fail has been looked up. -/
  lookups : Nat

/-- The beginning. -/
def ScriptState.start (installed : List Extension) : ScriptState :=
  ⟨inOrder installed, [], 0⟩

/-- Changes extensions one by one, recording each call. -/
def perform (script : Script) (cell : Cell σ ScriptState) (word : String) (kind : ExtensionKind)
    (change : Extension → List Extension → List Extension) :
    List String → Attempt σ Failure Unit
  | [] => pure ()
  | name :: r => do
    let e : Extension := ⟨kind, name⟩
    cell.modify fun s => { s with calls := s.calls ++ [s!"{word} {e.text}"] }
    if script.failOn = some e then
      Attempt.fail ((Failure.simple "simulated failure").within s!"cannot {word} {e.text}")
    else do
      cell.modify fun s => { s with installed := change e s.installed }
      perform script cell word kind change r

/-- What the script knows about an extension. -/
def Script.info? (script : Script) (e : Extension) : Option ExtensionInfo :=
  match script.known with
  | none => some (.bare e)
  | some entries =>
    (entries.find? (·.extension == e)).map fun k =>
      { ExtensionInfo.bare e with dependencies := k.dependencies, required := k.required }

/-- **The lifecycle of a script**, with its state in a cell. -/
def scripted (script : Script) (cell : Cell σ ScriptState) : Lifecycle σ :=
  { install := fun kind names => perform script cell "install" kind insertExtension names
    uninstall := fun kind names =>
      perform script cell "uninstall" kind (fun e l => l.filter (· != e)) names
    installed := do
      if script.failList then Attempt.fail (.simple "simulated list failure")
      else return (← cell.read).installed
    info := fun e => do
      if script.failInfo = some e then
        if script.failInfoAfter ≤ (← cell.read).lookups then
          Attempt.fail (.simple "simulated info failure")
        else cell.modify fun s => { s with lookups := s.lookups + 1 }
      return script.info? e }

end SiteConfig.Lifecycle
