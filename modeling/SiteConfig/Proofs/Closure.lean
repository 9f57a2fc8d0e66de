import Mathlib
import SiteConfig.Proofs.Course

/-!
# Closed sets of extensions

The installed extensions are **closed** when each of them finds installed what it needs
(`SiteConfig.Extension.Closed`). An import keeps them closed at every point of its course,
also where a step fails (`SiteConfig.Importer.Tries.closed_throughout`).

What keeps them closed is that every extension is changed in time
(`SiteConfig.Step.Timely`): it is installed after all that it needs, and uninstalled after all
that need it. The checks look at the two ends alone: what is wanted needs nothing that is not
wanted, and nothing that stays needs what goes. In between it is the order of the plan that
counts, and it does so for extensions that come and go as well
(`SiteConfig.Proposal.Accepted.needs_of_install`,
`SiteConfig.Proposal.Accepted.unneeded_of_uninstall`).

Extensions of which nothing is known need nothing.
-/

namespace SiteConfig

/-- **A list of extensions is closed** when it holds all that its members need, as far as
anything is known about them. -/
def Extension.Closed (known : Extension → Option ExtensionInfo) (l : List Extension) : Prop :=
  ∀ e ∈ l, ∀ info, known e = some info → ∀ f ∈ info.dependencies, f ∈ l

namespace Step

/-- **An extension is changed in time**: when it is installed all that it needs is installed;
when it is uninstalled no installed extension needs it, and it is not required. -/
def Timely (known : Extension → Option ExtensionInfo) (l : List Extension) : Step → Prop
  | .install e => ∃ info, known e = some info ∧ ∀ f ∈ info.dependencies, f ∈ l
  | .uninstall e => (∀ f ∈ l, ∀ info, known f = some info → e ∉ info.dependencies) ∧
      ∀ info, known e = some info → info.required = false
  | _ => True

variable {known : Extension → Option ExtensionInfo} {l : List Extension} {st : Step}

/-- **Extensions that are changed in time stay closed.** -/
theorem Timely.closed (h : st.Timely known l) (hl : Extension.Closed known l) :
    Extension.Closed known (st.installedAfter l) := by
  cases st with
  | install e =>
    -- what is there stays, so only the needs of the new extension count
    obtain ⟨info, hinfo, hneeds⟩ := h
    intro g hg info' hinfo' f hf
    refine Lifecycle.mem_insertExtension.2 (.inr ?_)
    rcases Lifecycle.mem_insertExtension.1 hg with rfl | hold
    · obtain rfl := Option.some.inj (hinfo.symm.trans hinfo')
      exact hneeds f hf
    · exact hl g hold info' hinfo' f hf
  | uninstall e =>
    -- nobody who stays may need the one that goes
    intro g hg info hinfo f hf
    have hold : g ∈ l := (List.mem_filter.1 hg).1
    have hne : f ≠ e := fun heq => h.1 g hold info hinfo (heq ▸ hf)
    exact List.mem_filter.2 ⟨hl g hold info hinfo f hf, by simpa using hne⟩
  | _ => exact hl

end Step

namespace Importer

open ImportOperation Attempt

variable {σ : Type} {i : Importer σ} {view : σ → Scene} {known : Extension → Option ExtensionInfo}
  {r : ImportRun} {v w : Scene} {st : Step} {rest : List Step}

/-- With a lifecycle, what is known in a proposal is what the lifecycle knows. -/
theorem known_proposal {l : Lifecycle σ} (hl : i.lifecycle = some l) (e : Extension) :
    (i.proposal known v).known e = known e := by
  rw [Proposal.known, proposal, hl]
  rfl

/-- **Every extension is changed in time.** -/
theorem Reached.timely {l : Lifecycle σ} (hl : i.lifecycle = some l)
    (hr : i.Reached known r v (st :: rest)) : st.Timely known v.installed := by
  have hp : (i.proposal known v).WellFormed := wellFormed_proposal hr.sorted
  cases st with
  | install e =>
    obtain ⟨info, hinfo, hneeds⟩ := hr.accepted.needs_of_install hp hr.plan
    exact ⟨info, (known_proposal hl e).symm.trans hinfo, hneeds⟩
  | uninstall e =>
    obtain ⟨hunneeded, hrequired⟩ := hr.accepted.unneeded_of_uninstall hp hr.plan
    exact ⟨fun f hf info hinfo => hunneeded f hf info ((known_proposal hl f).trans hinfo),
      fun info hinfo => hrequired info ((known_proposal hl e).trans hinfo)⟩
  | _ => trivial

/-- A step that is timely keeps the extensions closed, whatever comes of it. -/
theorem closed_of_confined (hclosed : Extension.Closed known v.installed)
    (htimely : st.Timely known v.installed) (hconf : Confined st v w) :
    Extension.Closed known w.installed := by
  rcases hconf.installed with hsame | hafter
  · exact hsame ▸ hclosed
  · exact hafter ▸ htimely.closed hclosed

/-- **The installed extensions are closed throughout.** If they are closed when an import is
validated that has a lifecycle, then at every point of its course

* they are closed, and they stay so after any number of the steps that are left, whatever
  has come of these;
* the next step changes its extension in time;
* if no step is left they are those that the source lists, or those that were there before
  if it lists none. -/
theorem Tries.closed_throughout {fallible : Prop} (hobs : i.Observes view known)
    (h : i.Tries view known fallible) (hchecks : i.checks = Check.standard) {l : Lifecycle σ}
    (hl : i.lifecycle = some l) {p q : ImportRun × σ}
    (hsort : Extension.Sorted (view p.2).installed) (hr : i.Compared known p.1 (view p.2))
    (hclosed : Extension.Closed known (view p.2).installed) {done rest : List Step}
    (hcourse : i.Course p done rest q) :
    (∀ more, more <+: rest →
        Extension.Closed known (view (more.forM i.processStep q).2.2).installed) ∧
      (∀ st later, rest = st :: later → st.Timely known (view q.2).installed) ∧
      (rest = [] →
        (∀ wanted, (i.proposal known (view p.2)).listed = .ok (some wanted) →
            (view q.2).installed = wanted.extensions) ∧
          ((i.proposal known (view p.2)).listed = .ok none →
            (view q.2).installed = (view p.2).installed)) := by
  -- the invariant of the run is that the extensions are closed
  have hkeep : ∀ {r v w st later}, i.Reached known r v (st :: later) → Confined st v w →
      Extension.Closed known v.installed → Extension.Closed known w.installed :=
    fun hreached hconf hv => closed_of_confined hv (hreached.timely hl) hconf
  obtain ⟨hreached, hkeeps, hclosed'⟩ := h.reached_of_course hobs hchecks hsort hr
    (I := fun w => Extension.Closed known w.installed) (fun _ => hclosed) (fun _ => hkeep) hcourse
  refine ⟨fun more hmore => ?_, fun st later hrest => ?_, fun hrest => ?_⟩
  · exact h.along hobs (I := fun w => Extension.Closed known w.installed) hreached hclosed'
      (fun _ => hkeep) hmore
  · subst hrest
    exact hreached.timely hl
  · subst hrest
    have hsettled := hreached.settled hkeeps
    exact ⟨fun wanted hw => hsettled.installed l wanted hl hw,
      fun hnone => hsettled.untouched (.inr hnone)⟩

end Importer

namespace Desk

/-- A module that needs another one gives way to a module that needs another one. -/
def paired : Options where
  transforms := []
  schemas := none
  known := some [⟨.module "blog", [.module "views"], false⟩, ⟨.module "cart", [], false⟩,
    ⟨.module "shop", [.module "cart"], false⟩, ⟨.module "views", [], false⟩]
  key := "import"

/-- A desk where both modules of a pair have to give way to another pair. -/
def exchanging : Desk where
  source := .ofList [("core.extension", [(.string "module", .mapping
    [(.string "blog", .number (.int 0)), (.string "views", .number (.int 0))])])]
  target := .ofList []
  extensions := .start [.module "cart", .module "shop"]
  held := []

end Desk

namespace Importer

/-- Half of a pair has gone; what is left is closed, and the other half can go. -/
theorem closed_throughout_exchanging :
    ∃ q, (Desk.importer Desk.paired).Course (.initial, Desk.exchanging)
        [.uninstall (.module "shop")]
        [.uninstall (.module "cart"), .install (.module "views"), .install (.module "blog"),
          .create "core.extension"] q ∧
      Extension.Closed Desk.paired.script.info? (q.2.scene Desk.paired).installed ∧
      (Step.uninstall (.module "cart")).Timely Desk.paired.script.info?
        (q.2.scene Desk.paired).installed := by
  have hvalid : ((Desk.importer Desk.paired).validate (.initial, Desk.exchanging)).1 = .ok () := by
    rfl
  have hstart : ((Desk.importer Desk.paired).start
      ((Desk.importer Desk.paired).validate (.initial, Desk.exchanging)).2).1
        = .ok ([.uninstall (.module "shop")] ++ [.uninstall (.module "cart"),
          .install (.module "views"), .install (.module "blog"), .create "core.extension"]) := by
    rfl
  have hsort : Extension.Sorted (Desk.exchanging.scene Desk.paired).installed := by
    unfold Extension.Sorted
    decide
  -- the shop requires the cart, which requires nothing
  have hclosed : Extension.Closed Desk.paired.script.info?
      (Desk.exchanging.scene Desk.paired).installed := by
    intro e he info hinfo f hf
    have hin : e = .module "cart" ∨ e = .module "shop" := by simpa using
      (show e ∈ [Extension.module "cart", .module "shop"] from he)
    rcases hin with rfl | rfl
    · cases hinfo
      cases hf
    · cases hinfo
      obtain rfl := List.mem_singleton.1 hf
      exact List.mem_cons_self
  obtain ⟨q, hcourse⟩ := (Desk.sees Desk.paired).exists_course (p := (.initial, Desk.exchanging))
    rfl hsort (compared_initial _ _ _) hvalid hstart
  obtain ⟨hthroughout, htimely, -⟩ := (Desk.sees Desk.paired).tries.closed_throughout
    (Desk.sees Desk.paired).observes rfl rfl (p := (.initial, Desk.exchanging)) hsort
    (compared_initial _ _ _) hclosed hcourse
  exact ⟨q, hcourse, hthroughout [] List.nil_prefix, htimely _ _ rfl⟩

end Importer

end SiteConfig
