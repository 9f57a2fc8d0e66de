import SiteConfig.Command.Arguments
import SiteConfig.Command.Import
import SiteConfig.Command.Report

/-!
# Running a command

From the arguments of the program to its outcome, as a function of the world
(`SiteConfig.Command.run`).
-/

namespace SiteConfig.Command

/-- Performs a command on a site. -/
def perform (site : Site) : Command → Action Nat
  | .preview json => site.preview json
  | .validate => site.validate
  | .importAll confirmed => site.importAll confirmed
  | .importSingle file name type id confirmed => site.importSingle file name type id confirmed
  | .exportAll confirmed => site.exportAll confirmed
  | .showDocument name proposed => site.showDocument name proposed
  | .status => site.status
  | .log limit runs json => site.log limit runs json

/-- How the program is used. -/
def usage : String :=
  "Usage: cfgsync [--quiet] [--config <FILE>] <COMMAND>\n\n" ++
    "Commands: preview, validate, import, import-single, export, show, status, log\n"

/-- The exit code for arguments that make no sense. -/
def misuseCode : Nat := 2

/-- **Runs the program** with some arguments: its outcome, and the world after it. -/
def run (e : Environment) (arguments : List String) (w : World) : Outcome × World :=
  match Arguments.read? arguments with
  | none => (⟨misuseCode, "", usage⟩, w)
  | some .help => (⟨0, usage, ""⟩, w)
  | some (.version program) => (⟨0, s!"{program} {programVersion}\n", ""⟩, w)
  | some (.perform command settings) =>
    Action.outcome (do
      let site ← Action.onWorld (Site.load e settings)
      perform site command) w

end SiteConfig.Command
