import SiteConfig.Error

/-!
# Why an import fails

The causes that comparing, planning, validating and importing share. The errors of
a storage pass through as they are.
-/

namespace SiteConfig

/-- Why an import fails. -/
inductive ImportError where
  | validation (problems : List String)
  | lockContention (key : String)
  | lock (key reason : String)
  /-- A step failed; the steps before it, `completed` of them, have been applied. -/
  | stepFailed (number total : Nat) (step : String) (completed : Nat) (reason : String)
  | invalidState (action state : String)
  | staleChangelist
  | outOfOrderStep (expected got : String)
  | dependencyCycle (cycles : List (List String))
  | lifecycle (reason : String)
  | storage (cause : ConfigError)
  deriving DecidableEq, Repr

namespace ImportError

/-- How the members of a cycle are listed. -/
def cycleText (members : List String) : String := ", ".intercalate members

/-- The wording of an error. -/
def message : ImportError → String
  | .validation problems =>
    "There were errors validating the configuration:\n" ++ "\n".intercalate problems
  | .lockContention key =>
    s!"Another request may be importing configuration already (lock '{key}' is held)"
  | .lock key reason => s!"Failed to acquire lock '{key}': {reason}"
  | .stepFailed number total step _ reason =>
    s!"Step {number} of {total} ({step}) failed: {reason}"
  | .invalidState action state => s!"Cannot {action} while the importer is {state}"
  | .staleChangelist => "The configuration changed after it was validated; validate it again"
  | .outOfOrderStep expected got =>
    s!"Expected step '{expected}' but was asked to process '{got}'"
  | .dependencyCycle cycles =>
    "Dependency cycle detected: " ++ "; ".intercalate (cycles.map cycleText)
  | .lifecycle reason => s!"Extension lifecycle error: {reason}"
  | .storage cause => cause.message

/-- Every message that an error is reported by. -/
def messages : ImportError → List String
  | .validation problems => problems
  | .dependencyCycle cycles =>
    cycles.map fun c => s!"Dependency cycle detected among: {cycleText c}"
  | e => [e.message]

end ImportError

end SiteConfig
