import SiteConfig.Changelist
import SiteConfig.Plan.Graph

/-!
# Plans

A plan is the list of steps that carries out a changelist and the changes of
extensions. First everything is removed that has to go, each item before what it
depends on; then everything is added, each item after what it depends on
(`SiteConfig.Requirements.plan`). Steps that do not depend on each other keep the
order of the lists.
-/

namespace SiteConfig

/-- What the pending items depend on: the documents to be written, those to be
deleted, and the extensions. -/
structure Requirements where
  written : NameMap Dependencies
  deleted : NameMap Dependencies
  extensions : List (Extension × List Extension)

namespace Requirements

/-- No requirements. -/
def none : Requirements := ⟨.empty, .empty, []⟩

instance : Inhabited Requirements := ⟨none⟩

/-- States what an extension depends on, in place of what was stated before. -/
def withExtension (r : Requirements) (e : Extension) (needs : List Extension) : Requirements :=
  { r with extensions := (e, needs) :: r.extensions.filter (·.1 != e) }

/-- The extensions that one depends on. -/
def needs (r : Requirements) (e : Extension) : List Extension :=
  (r.extensions.lookup e).getD []

/-- The items that some dependencies name. -/
def items (d : Option Dependencies) : List Item :=
  match d with
  | some d => d.toList.filterMap fun p => Item.ofDependency? p.1 p.2
  | .none => []

/-- The items that a document to be written depends on. -/
def neededByWritten (r : Requirements) (name : String) : List Item := items (r.written.get? name)

/-- The items that a document to be deleted depends on. -/
def neededByDeleted (r : Requirements) (name : String) : List Item := items (r.deleted.get? name)

/-- The items that an extension depends on. -/
def neededByExtension (r : Requirements) (e : Extension) : List Item :=
  (r.needs e).map .extension

/-- Adds steps under their items. -/
def addAll (g : StepGraph) (steps : List (Item × Step)) : StepGraph :=
  steps.foldl (fun g s => g.add s.1 s.2) g

/-- Lets an item run before some others. -/
def beforeAll (g : StepGraph) (i : Item) (others : List Item) : StepGraph :=
  others.foldl (fun g o => g.before i o) g

/-- Lets an item run after some others. -/
def afterAll (g : StepGraph) (i : Item) (others : List Item) : StepGraph :=
  others.foldl (fun g o => g.before o i) g

/-- The steps that remove something. -/
def removals (c : Changelist) (x : ExtensionChanges) : List (Item × Step) :=
  c.delete.map (fun n => (.document n, .delete n)) ++
    x.uninstall.map (fun e => (.extension e, .uninstall e))

/-- The steps that add or change something; a renamed document is known by its new
name. -/
def additions (c : Changelist) (x : ExtensionChanges) : List (Item × Step) :=
  x.install.map (fun e => (.extension e, .install e)) ++
    c.create.map (fun n => (.document n, .create n)) ++
    c.rename.map (fun r => (.document r.target, .rename r.source r.target)) ++
    c.update.map (fun n => (.document n, .update n))

/-- The removals, each before what it depends on. -/
def removalGraph (r : Requirements) (c : Changelist) (x : ExtensionChanges) : StepGraph :=
  let g := addAll .empty (removals c x)
  let g := c.delete.foldl (fun g n => beforeAll g (.document n) (r.neededByDeleted n)) g
  x.uninstall.foldl (fun g e => beforeAll g (.extension e) (r.neededByExtension e)) g

/-- The additions, each after what it depends on. -/
def additionGraph (r : Requirements) (c : Changelist) (x : ExtensionChanges) : StepGraph :=
  let g := addAll .empty (additions c x)
  let g := x.install.foldl (fun g e => afterAll g (.extension e) (r.neededByExtension e)) g
  c.writtenNames.foldl (fun g n => afterAll g (.document n) (r.neededByWritten n)) g

/-- **The plan**: the ordered removals, then the ordered additions; or the cycles of
both. -/
def plan (r : Requirements) (c : Changelist) (x : ExtensionChanges) :
    Except (List (List String)) (List Step) :=
  let removal := r.removalGraph c x
  let addition := r.additionGraph c x
  match removal.order?, addition.order? with
  | some a, some b => .ok (a ++ b)
  | a, b =>
    .error ((if a.isNone then removal.cycles else []) ++ (if b.isNone then addition.cycles else []))

end Requirements

end SiteConfig
