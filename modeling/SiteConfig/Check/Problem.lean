import SiteConfig.Extension
import SiteConfig.ImportError
import SiteConfig.Schema.Catalog

/-!
# What can be wrong with a pending import

Each problem that a check finds is a cause with what its message names; the wording
is in `SiteConfig.Problem.message` alone.
-/

namespace SiteConfig

/-- Something that a document needs. -/
inductive Need where
  | extension (e : Extension)
  | document (name : String)
  /-- The extension that a document belongs to by its name. -/
  | owner (name : String)
  deriving DecidableEq, Repr

/-- What is wrong with a pending import. -/
inductive Problem where
  /-- A document or a storage is at fault by itself. -/
  | config (cause : ConfigError)
  | otherSite
  | changedUuid (name source target : String)
  | sharedUuid (uuid : String) (names : List String)
  | schema (cause : SchemaProblem)
  | changedProfile (current : String) (wanted : Option String)
  | unknownExtension (e : Extension)
  | lacksRequirement (e needed : Extension)
  | requiredExtension (e : Extension)
  | stillNeeded (e dependent : Extension)
  /-- The lifecycle could not tell what is known about an extension. -/
  | lookup (e : Extension) (reason : String)
  /-- The lifecycle could not tell what is installed. -/
  | listing (reason : String)
  /-- A document needs what will not be there. -/
  | unmet (name : String) (need : Need)
  | cycle (members : List String)
  /-- What a check of its own finds. -/
  | custom (text : String)

namespace Problem

/-- The wording of a problem. -/
def message : Problem → String
  | .config cause => cause.message
  | .otherSite => "Site UUID in source storage does not match the target storage."
  | .changedUuid name source target =>
    s!"Configuration {name} has a different UUID in the source storage ({source}) than in the " ++
      s!"target storage ({target})."
  | .sharedUuid uuid names =>
    s!"UUID {uuid} is used by more than one configuration: " ++ ", ".intercalate names ++ "."
  | .schema cause => cause.message
  | .changedProfile current wanted =>
    let wanted := wanted.getD "none"
    s!"Cannot change the install profile from '{current}' to '{wanted}' during configuration " ++
      "import."
  | .unknownExtension e => s!"Unable to install the {e.text} since it does not exist."
  | .lacksRequirement e needed =>
    s!"Unable to install the {e.text} since it requires the {needed.text}."
  | .requiredExtension e => s!"Unable to uninstall the {e.text} since it is required."
  | .stillNeeded e dependent =>
    s!"Unable to uninstall the {e.text} since the {dependent.text} is installed."
  | .lookup e reason => s!"Unable to look up the {e.text}: {reason}"
  | .listing reason => s!"Unable to list installed extensions: {reason}"
  | .unmet name (.extension e) =>
    s!"Configuration {name} depends on the {e.text} that will not be installed after import."
  | .unmet name (.document other) =>
    s!"Configuration {name} depends on the configuration {other} that will not exist after import."
  | .unmet name (.owner owner) =>
    s!"Configuration {name} depends on the {owner} extension that will not be installed after " ++
      "import."
  | .cycle members => s!"Dependency cycle detected among: {ImportError.cycleText members}"
  | .custom text => text

end Problem

end SiteConfig
