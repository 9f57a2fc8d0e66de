import SiteConfig.Check.Problem
import SiteConfig.Comparison
import SiteConfig.Plan.Gather

/-!
# Checks of a pending import

A **check** looks at a pending import and lists what is wrong with it. It changes no
storage; it may ask the lifecycle, which is why it runs on a state. All checks run,
and every problem is collected, so that all of them can be mended at once
(`SiteConfig.Check.runAll`).
-/

namespace SiteConfig

/-- A pending import under review. -/
structure Review (σ : Type) where
  comparison : Comparison
  extensionChanges : ExtensionChanges
  lifecycle : Option (Lifecycle σ)
  schemas : Option SchemaCatalog
  requirements : Requirements

namespace Review

variable {σ : Type}

/-- The pending changes of documents. -/
def changelist (r : Review σ) : Changelist := r.comparison.changelist

/-- The source document of a name. -/
def sourceDocument? (r : Review σ) (name : String) : Option Document :=
  r.comparison.source.get? name

/-- The target document of a name. -/
def targetDocument? (r : Review σ) (name : String) : Option Document :=
  r.comparison.target.get? name

/-- **The extensions that will be installed after the import**, as far as that is
known: those that the source lists, or else those that are installed now. -/
def extensionsAfter (r : Review σ) : Attempt σ Problem (Option (List Extension)) :=
  match r.comparison.sourceExtensions with
  | .ok (some core) => pure (some core.extensions)
  | .error e => Attempt.fail (.config e)
  | .ok none =>
    match r.lifecycle with
    | some l => do return some (← l.installed.mapError fun f => .listing f.text)
    | none => pure none

end Review

/-- A named way to look for problems. -/
structure Check (σ : Type) where
  name : String
  run : Review σ → StateM σ (List Problem)

namespace Check

variable {σ : Type}

/-- A check that asks nobody. -/
def silent (name : String) (problems : Review σ → List Problem) : Check σ :=
  ⟨name, fun r s => (problems r, s)⟩

/-- **Every problem that some checks find**, in the order of the checks. -/
def runAll : List (Check σ) → Review σ → StateM σ (List Problem)
  | [], _ => fun s => ([], s)
  | c :: rest, r => fun s =>
    let (found, s) := c.run r s
    let (more, s) := runAll rest r s
    (found ++ more, s)

end Check

end SiteConfig
