import SiteConfig.Check.Basic

/-!
# The standard checks

Seven checks that every import should pass: names, the identity of the site,
identifiers, schemas, the list of extensions, dependencies, and that the steps can be
put in order. They are independent of one another but for what they look at.
-/

namespace SiteConfig.Check

variable {σ : Type}

/-! ### Names and identifiers -/

/-- Names that are written must be proper. -/
def names : Check σ :=
  .silent "config-names" fun r =>
    r.changelist.writtenNames.filterMap fun n =>
      match validateName n with
      | .ok () => none
      | .error e => some (.config e)

/-- Source and target must be of the same site. -/
def siteIdentity : Check σ :=
  .silent "site-identity" fun r =>
    match (r.sourceDocument? siteName).bind (·.uuid?), (r.targetDocument? siteName).bind (·.uuid?) with
    | some a, some b => if a = b then [] else [.otherSite]
    | _, _ => []

/-- Documents that change their identifier under the same name. The document of the
site has a check of its own. -/
def changedUuids (r : Review σ) : List Problem :=
  (r.changelist.update.filter (· != siteName)).filterMap fun n =>
    match (r.sourceDocument? n).bind (·.uuid?), (r.targetDocument? n).bind (·.uuid?) with
    | some a, some b => if a = b then none else some (.changedUuid n a b)
    | _, _ => none

/-- The names of documents by their identifiers. -/
def namesByUuid (s : Snapshot) : NameMap (List String) :=
  s.values.foldl (fun m d =>
    match d.uuid? with
    | some u => m.insert u ((m.get? u).getD [] ++ [d.name])
    | none => m) .empty

/-- Identifiers that several source documents share. -/
def sharedUuids (r : Review σ) : List Problem :=
  (namesByUuid r.comparison.source).entries.filterMap fun e =>
    if 1 < e.2.length then some (.sharedUuid e.1 e.2) else none

/-- A name keeps its identifier, and an identifier belongs to one name. -/
def uuids : Check σ := .silent "uuid-conflicts" fun r => changedUuids r ++ sharedUuids r

/-! ### Schemas -/

/-- Documents that are written must match their schemas. -/
def schemas : Check σ :=
  .silent "schema" fun r =>
    match r.schemas with
    | none => []
    | some catalog =>
      (r.changelist.writtenNames.filterMap r.sourceDocument?).flatMap fun d =>
        (catalog.problems d).map .schema

/-! ### Extensions -/

/-- The installation profile of the target must stay. -/
def profileProblems (r : Review σ) (wanted : CoreExtension) : List Problem :=
  match r.comparison.targetExtensions with
  | .ok (some current) =>
    match current.profile with
    | some p => if wanted.profile = some p then [] else [.changedProfile p wanted.profile]
    | none => []
  | .ok none => []
  | .error e => [.config e]

/-- Asks what is known about an extension. -/
def lookUp (l : Lifecycle σ) (e : Extension) :
    StateM σ (Except Problem (Option ExtensionInfo)) := fun s =>
  match l.info e s with
  | (.ok info, s) => (.ok info, s)
  | (.error f, s) => (.error (.lookup e f.text), s)

/-- An extension can be installed if it exists and what it requires will be there. -/
def installProblems (l : Lifecycle σ) (after : List Extension) :
    List Extension → StateM σ (List Problem)
  | [] => pure []
  | e :: rest => do
    let found := match ← lookUp l e with
      | .ok (some info) =>
        (info.dependencies.filter fun d => !after.contains d).map (.lacksRequirement e)
      | .ok none => [.unknownExtension e]
      | .error p => [p]
    return found ++ (← installProblems l after rest)

/-- What is known about the extensions that remain, and the problems of finding out. -/
def remaining (l : Lifecycle σ) :
    List Extension → StateM σ (List ExtensionInfo × List Problem)
  | [] => pure ([], [])
  | e :: rest => do
    let known ← lookUp l e
    let (infos, problems) ← remaining l rest
    return match known with
      | .ok (some info) => (info :: infos, problems)
      | .ok none => (infos, problems)
      | .error p => (infos, p :: problems)

/-- An extension can be uninstalled unless it is required or one that remains needs
it. -/
def uninstallEach (l : Lifecycle σ) (infos : List ExtensionInfo) :
    List Extension → StateM σ (List Problem)
  | [] => pure []
  | e :: rest => do
    let found := match ← lookUp l e with
      | .ok (some info) => if info.required then [.requiredExtension e] else []
      | .ok none => []
      | .error p => [p]
    let dependents := infos.filter fun i => i.dependencies.contains e
    return found ++ dependents.map (fun i => .stillNeeded e i.extension) ++
      (← uninstallEach l infos rest)

/-- What prevents some extensions from being uninstalled. -/
def uninstallProblems (l : Lifecycle σ) (after removed : List Extension) :
    StateM σ (List Problem) := do
  if removed.isEmpty then return []
  else
    let (infos, problems) ← remaining l after
    return problems ++ (← uninstallEach l infos removed)

/-- The changes of extensions that `core.extension` asks for must be possible. -/
def extensions : Check σ where
  name := "core-extension"
  run r :=
    match r.comparison.sourceExtensions with
    | .error e => pure [.config e]
    | .ok none => pure []
    | .ok (some wanted) => do
      let profile := profileProblems r wanted
      match r.lifecycle with
      | none => return profile
      | some l =>
        let after := wanted.extensions
        let installs ← installProblems l after r.extensionChanges.install
        let uninstalls ← uninstallProblems l after r.extensionChanges.uninstall
        return profile ++ installs ++ uninstalls

/-! ### Dependencies -/

/-- Whether the extension that a document belongs to will be there. -/
def ownerInstalled (after : List Extension) (owner : String) : Bool :=
  owner == "core" || after.contains (.module owner) || after.contains (.theme owner)

/-- What a document needs that will not be there, given the extensions that will be
installed, if they are known. -/
def unmetNeeds (r : Review σ) (after : Option (List Extension)) (d : Dependencies) : List Need :=
  let missing (e : Extension) : Bool :=
    match after with
    | some l => !l.contains e
    | none => false
  ((d.module.map Extension.module).filter missing).map .extension ++
    ((d.theme.map Extension.theme).filter missing).map .extension ++
    (d.config.filter fun n => (r.sourceDocument? n).isNone).map .document

/-- The problems of one document that is written. The extension that it belongs to
counts only when the source lists extensions. -/
def documentProblems (r : Review σ) (listed : Bool) (after : Option (List Extension))
    (d : Document) : List Problem :=
  let owner := ownerOf d.name
  let owned := match listed, after with
    | true, some l => ownerInstalled l owner
    | _, _ => true
  (if owned then [] else [.unmet d.name (.owner owner)]) ++
    match d.dependencies with
    | .ok needs => (unmetNeeds r after needs).map (.unmet d.name)
    | .error e => [.config e]

/-- What documents that are written depend on must be there after the import. -/
def dependencies : Check σ where
  name := "config-dependencies"
  run r := fun s =>
    let (after, s) := r.extensionsAfter s
    let listed := match r.comparison.sourceExtensions with
      | .ok (some _) => true
      | _ => false
    let written := r.changelist.writtenNames.filterMap r.sourceDocument?
    match after with
    | .ok after => (written.flatMap (documentProblems r listed after), s)
    | .error p => (p :: written.flatMap (documentProblems r listed none), s)

/-- The steps must have an order. -/
def cycles : Check σ :=
  .silent "dependency-cycles" fun r =>
    match r.requirements.plan r.changelist r.extensionChanges with
    | .ok _ => []
    | .error found => found.map .cycle

/-- **The standard checks**, in their order. -/
def standard : List (Check σ) :=
  [names, siteIdentity, uuids, schemas, extensions, dependencies, cycles]

end SiteConfig.Check
