import SiteConfig.Extension.Manifest
import SiteConfig.FileTree.Basic
import SiteConfig.Lifecycle.Basic

/-!
# Lifecycles with a manifest

The installed extensions are recorded in a manifest, which is kept in memory and
saved to a file after every change. What may be installed is listed in a catalog;
without one everything may.
-/

namespace SiteConfig.Lifecycle

variable {σ : Type}

/-- Where a manifest is kept, and what may be installed. -/
structure Registry where
  path : String
  workingDir : Place
  catalog : Option ExtensionCatalog

/-- A failure of the file system. -/
def osFailure (e : OsError) : Failure := .simple e.message

/-- A text that is not well formed. -/
def malformed : Failure := .simple Yaml.Error.malformed.message

/-- Loads a catalog from a file. -/
def loadCatalog (t : FileTree) (workingDir : Place) (path : String) :
    Except Failure ExtensionCatalog :=
  match t.readText workingDir path with
  | .error e => .error ((osFailure e).within s!"Failed to read extension catalog {path}")
  | .ok text =>
    match ExtensionCatalog.ofText? text with
    | some c => .ok c
    | none => .error (malformed.within s!"Failed to parse extension catalog {path}")

namespace Registry

/-- The manifest in the file; a missing file stands for an empty manifest. -/
def load (r : Registry) (t : FileTree) : Except Failure Manifest :=
  if !t.exists? r.workingDir r.path then .ok .empty
  else
    match t.readText r.workingDir r.path with
    | .error e => .error ((osFailure e).within s!"Failed to read manifest {r.path}")
    | .ok text =>
      match Manifest.ofText? text with
      | some m => .ok m
      | none => .error (malformed.within s!"Failed to parse manifest {r.path}")

/-- Saves a manifest to the file, making its directory. -/
def save (r : Registry) (m : Manifest) : Attempt FileTree Failure Unit := do
  let dir? := Path.parent? r.path
  match dir? with
  | some dir => fun t =>
    match t.makeDirectories r.workingDir dir with
    | .ok t => (.ok (), t)
    | .error e => (.error ((osFailure e).within s!"Failed to create {dir}"), t)
  | none => pure ()
  let text ← Attempt.ofExcept ((Yaml.write m.toMapping).mapError fun e => .simple e.message)
  fun t =>
    match t.writeFile r.workingDir r.path (.text text) with
    | .ok t => (.ok (), t)
    | .error e => (.error ((osFailure e).within s!"Failed to write manifest {r.path}"), t)

/-- What is known about an extension. -/
def info? (r : Registry) (e : Extension) : Option ExtensionInfo :=
  match r.catalog with
  | some c => c.info? e
  | none => some (.bare e)

/-- Records extensions as installed, one by one; each must be known. -/
def installEach (r : Registry) (kind : ExtensionKind) :
    List String → Attempt Manifest Failure Unit
  | [] => pure ()
  | name :: rest => do
    let e : Extension := ⟨kind, name⟩
    if (r.info? e).isNone then
      Attempt.fail (.simple s!"The {e.text} is not available in the extension catalog")
    else do
      Attempt.change fun m => Manifest.insert m e
      installEach r kind rest

/-- Records extensions as not installed, one by one; each must have been installed. -/
def uninstallEach (kind : ExtensionKind) : List String → Attempt Manifest Failure Unit
  | [] => pure ()
  | name :: rest => do
    let e : Extension := ⟨kind, name⟩
    if !(← Attempt.state).contains e then
      Attempt.fail (.simple s!"The {kind.text} {name} is not installed")
    else do
      Attempt.change fun m => Manifest.erase m e
      uninstallEach kind rest

/-- Changes the manifest in memory, then saves it. -/
def changing (r : Registry) (memory : Cell σ Manifest) (files : Cell σ FileTree)
    (x : Attempt Manifest Failure Unit) : Attempt σ Failure Unit := do
  memory.zoom x
  files.zoom (r.save (← memory.read))

/-- Records the extensions of a site that has no manifest file yet; says whether that
was so. -/
def seedIfMissing (r : Registry) (memory : Cell σ Manifest) (files : Cell σ FileTree)
    (c : CoreExtension) : Attempt σ Failure Bool := do
  if (← files.read).exists? r.workingDir r.path then return false
  else do
    r.changing memory files (Attempt.change fun m => c.extensions.foldl Manifest.insert m)
    return true

end Registry

/-- **The lifecycle of a manifest**, kept in memory and in a file. -/
def recorded (r : Registry) (memory : Cell σ Manifest) (files : Cell σ FileTree) : Lifecycle σ :=
  { install := fun kind names => r.changing memory files (r.installEach kind names)
    uninstall := fun kind names => r.changing memory files (Registry.uninstallEach kind names)
    installed := do return (← memory.read).extensions
    info := fun e => return r.info? e }

end SiteConfig.Lifecycle
