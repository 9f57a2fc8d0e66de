import Mathlib
import SiteConfig.Proofs.Advance
import SiteConfig.Proofs.Agreement

/-!
# The first step of a plan

Of an accepted proposal only the first step of its plan is looked at here. Nothing that has
to come before it is still pending, and from this alone follows what the step relies on:

* an installation finds what the extension needs installed
  (`SiteConfig.Proposal.Accepted.needs_of_install`);
* an uninstallation finds no installed extension that needs the one that goes
  (`SiteConfig.Proposal.Accepted.unneeded_of_uninstall`);
* a step that writes a document finds what the document needs: configuration that is in the
  target as it is in the source, and extensions that are installed
  (`SiteConfig.Proposal.Accepted.meets_of_writes`), and no step that is left will touch any
  of it (`SiteConfig.Proposal.Accepted.spares_of_writes`).

What is needed is promised by the checks, but only for the time after the import. The order
of the plan makes it true at the moment of the step, and it says so only about items that
are pending. The argument is always the same: what is needed and not there yet is pending,
and would have come first. As every later step is the first one of a proposal that is
accepted again (`SiteConfig.Proposal.Accepted.advance`), this settles all of them.
-/

namespace SiteConfig

namespace Step

/-- The name under which a step writes a document. -/
def written : Step → List String
  | .create n => [n]
  | .update n => [n]
  | .rename _ n => [n]
  | _ => []

variable {st : Step} {n : String}

theorem mem_names_iff : n ∈ st.names ↔ n ∈ st.written ∨ n ∈ st.removed := by
  cases st <;> simp [names, written, removed, or_comm]

/-- A step is filed under the name that it writes. -/
theorem item_of_mem_written (h : n ∈ st.written) : st.item = .document n := by
  cases st <;> simp_all [written, item]

theorem phase_of_mem_written (h : n ∈ st.written) : st.phase = 3 := by
  cases st <;> simp_all [written, phase]

/-- Steps of the last phase change no extensions. -/
theorem extensions_of_phase (h : 3 ≤ st.phase) : st.extensions = [] := by
  cases st <;> simp_all [phase, extensions]

/-- **A step that spares some dependencies**: it touches none of the documents that they
name, and changes no extensions. -/
structure Spares (st : Step) (needs : Dependencies) : Prop where
  config : ∀ c ∈ needs.config, c ∉ st.names
  extensions : st.extensions = []

/-- Nothing comes before the first step. -/
theorem not_precedes_head {s : Step} {rest : List Step} (hs : s ∈ st :: rest) :
    ¬s.Precedes (st :: rest) st := by
  intro hprec
  obtain ⟨k, hk⟩ := List.mem_iff_getElem?.1 hs
  exact absurd (hprec k 0 hk rfl) (Nat.not_lt_zero k)

end Step

namespace Proposal

/-- **What some dependencies name is there**: documents of the target that are as in the
source and, where anything is known about extensions, installed modules and themes. -/
structure Meets (p : Proposal) (needs : Dependencies) : Prop where
  config : ∀ c ∈ needs.config, ∃ d e, p.source.get? c = some d ∧ p.target.get? c = some e ∧
    d.sameContent e = true
  module : p.catalog.isSome → ∀ m ∈ needs.module, Extension.module m ∈ p.installed
  theme : p.catalog.isSome → ∀ t ∈ needs.theme, Extension.theme t ∈ p.installed

variable {p : Proposal} {st : Step} {rest : List Step}

section First

variable (hp : p.WellFormed) (h : p.plan = .ok (st :: rest))

include hp h in
/-- **An addition that comes first** depends on no addition that is still pending. -/
theorem WellFormed.item_notMem_declares (hst : st.isRemoval = false) {s : Step}
    (hs : s ∈ p.pending) (hadd : s.isRemoval = false) : s.item ∉ p.declares st := by
  intro hdep
  have hmem := hp.mem_pending_of_plan h
  have hdepends : p.requirements.DependsOn st s := by
    rw [Requirements.DependsOn, declared_requirements hmem]
    exact hdep
  exact Step.not_precedes_head ((hp.perm_of_plan h).mem_iff.2 hs)
    (Requirements.precedes_of_addition_dependsOn hp.disjoint_changelist
      hp.disjoint_extensionChanges.distinct h hst hadd hdepends)

include hp h in
/-- **A removal that comes first** is one on which no pending removal depends. -/
theorem WellFormed.item_notMem_declares_of_removal (hst : st.isRemoval = true) {s : Step}
    (hs : s ∈ p.pending) (hremove : s.isRemoval = true) : st.item ∉ p.declares s := by
  intro hdep
  have hdepends : p.requirements.DependsOn s st := by
    rw [Requirements.DependsOn, declared_requirements hs]
    exact hdep
  exact Step.not_precedes_head ((hp.perm_of_plan h).mem_iff.2 hs)
    (Requirements.precedes_of_removal_dependsOn hp.disjoint_changelist
      hp.disjoint_extensionChanges.distinct h hremove hst hdepends)

/-- Extensions that are to be installed are installed already, unless that is pending. -/
theorem mem_installed_of_wanted {k : Extension → Option ExtensionInfo} {wanted : CoreExtension}
    (hk : p.catalog = some k) (hw : p.listed = .ok (some wanted)) {f : Extension}
    (hf : f ∈ wanted.extensions) (hnot : Step.install f ∉ p.pending) : f ∈ p.installed := by
  by_contra hmissing
  refine hnot (mem_installations_iff.2 ?_)
  rw [extensionChanges_of_listed hk hw]
  exact ExtensionChanges.mem_install_iff.2 ⟨hf, hmissing⟩

end First

/-! ### Extensions -/

section Extensions

variable {e : Extension}

/-- **An extension is installed when all that it needs is installed.** -/
theorem Accepted.needs_of_install (ha : p.Accepted) (hp : p.WellFormed)
    (h : p.plan = .ok (.install e :: rest)) :
    ∃ info, p.known e = some info ∧ ∀ f ∈ info.dependencies, f ∈ p.installed := by
  have he := mem_installations_iff.1 (hp.mem_pending_of_plan h)
  obtain ⟨k, wanted, hk, hw⟩ := exists_listed_of_mem (List.mem_append_left _ he)
  obtain ⟨info, hinfo, hdeps⟩ := ha.installs wanted hw e he
  refine ⟨info, hinfo, fun f hf => mem_installed_of_wanted hk hw (hdeps f hf) fun hpending => ?_⟩
  refine hp.item_notMem_declares h rfl hpending rfl ?_
  rw [declares, hinfo]
  exact List.mem_map_of_mem hf

/-- **An extension is uninstalled when nothing that is installed needs it**, and never one
that is required. -/
theorem Accepted.unneeded_of_uninstall (ha : p.Accepted) (hp : p.WellFormed)
    (h : p.plan = .ok (.uninstall e :: rest)) :
    (∀ f ∈ p.installed, ∀ info, p.known f = some info → e ∉ info.dependencies) ∧
      ∀ info, p.known e = some info → info.required = false := by
  have he := mem_uninstallations_iff.1 (hp.mem_pending_of_plan h)
  obtain ⟨k, wanted, hk, hw⟩ := exists_listed_of_mem (List.mem_append_right _ he)
  obtain ⟨hrequired, hneeded⟩ := ha.uninstalls wanted hw e he
  refine ⟨fun f hf info hinfo hdep => ?_, hrequired⟩
  by_cases hstay : f ∈ wanted.extensions
  · -- what stays does not need the extension: this is checked
    exact hneeded f hstay info hinfo hdep
  · -- what goes itself would have gone first
    have hpending : Step.uninstall f ∈ p.pending := by
      rw [mem_uninstallations_iff, extensionChanges_of_listed hk hw]
      exact ExtensionChanges.mem_uninstall_iff.2 ⟨hf, hstay⟩
    refine hp.item_notMem_declares_of_removal h rfl hpending rfl ?_
    rw [declares, hinfo]
    exact List.mem_map_of_mem hdep

end Extensions

/-! ### Documents -/

section Documents

variable {n : String} {needs : Dependencies}

theorem mem_writtenNames_of_pending (hst : st ∈ p.pending) (hn : n ∈ st.written) :
    n ∈ p.changelist.writtenNames := by
  simp only [pending, Requirements.pendingSteps, Requirements.removalSteps,
    Requirements.additionSteps, Changelist.deletions, Changelist.writes,
    ExtensionChanges.installations, ExtensionChanges.uninstallations, List.mem_append,
    List.mem_map] at hst
  rcases hst with (⟨m, hm, rfl⟩ | ⟨e, he, rfl⟩) |
    (⟨e, he, rfl⟩ | (⟨m, hm, rfl⟩ | ⟨m, hm, rfl⟩) | ⟨m, hm, rfl⟩)
  all_goals simp_all [Step.written, Changelist.writtenNames]
  exact .inr (.inr ⟨m, hm, rfl⟩)

/-- **What is written is a document of the source**, and it needs nothing that will not be
there. -/
theorem Accepted.provides_of_written (ha : p.Accepted) (hp : p.WellFormed) (hst : st ∈ p.pending)
    (hn : n ∈ st.written) : ∃ d, p.source.get? n = some d ∧ p.Provides d := by
  have hwritten := mem_writtenNames_of_pending hst hn
  have hthere : ∃ d, p.source.get? n = some d := by
    simp only [Changelist.writtenNames, List.mem_append] at hwritten
    rcases hwritten with (hc | hu) | hr
    · exact ((Changelist.mem_create_iff hp.source).1 hc).1.1
    · obtain ⟨d, -, hd, -⟩ := (Changelist.mem_update_iff hp.target).1 hu
      exact ⟨d, hd⟩
    · exact (Changelist.of_mem_rename_target hp.source hr).1
  obtain ⟨d, hd⟩ := hthere
  exact ⟨d, hd, ha.needs n hwritten d hd⟩

/-- What a step that writes a document declares is what the document needs. -/
theorem mem_declares_of_written (hn : n ∈ st.written) {d : Document}
    (hd : p.source.get? n = some d) (hneeds : d.dependencies = .ok needs) {kind : DependencyKind}
    {m : String} {item : Item} (hm : (kind, m) ∈ needs.toList)
    (hitem : Item.ofDependency? kind m = some item) : item ∈ p.declares st := by
  have hdeclares : p.declares st
      = Requirements.items ((p.source.get? n).map Requirements.dependenciesOf) := by
    cases st <;> simp_all [Step.written, declares]
  rw [hdeclares, hd]
  have hof : Requirements.dependenciesOf d = needs := by rw [Requirements.dependenciesOf, hneeds]; rfl
  rw [Option.map_some, hof]
  exact List.mem_filterMap.2 ⟨(kind, m), hm, hitem⟩

variable {d : Document} (hp : p.WellFormed) (ha : p.Accepted) (h : p.plan = .ok (st :: rest))
  (hn : n ∈ st.written) (hd : p.source.get? n = some d) (hneeds : d.dependencies = .ok needs)

theorem not_isRemoval_of_mem_written (hn : n ∈ st.written) : st.isRemoval = false := by
  rw [Step.isRemoval, Step.phase_of_mem_written hn]
  rfl

include hp ha h hn hd hneeds in
/-- What a document needs is touched by no step from the one on that writes it. -/
theorem Accepted.config_notMem_names {c : String} (hc : c ∈ needs.config) {s : Step}
    (hs : s ∈ p.pending) : c ∉ s.names := by
  intro hname
  obtain ⟨d', hd', -, needs', hneeds', -, hconfig⟩ :=
    ha.provides_of_written hp (hp.mem_pending_of_plan h) hn
  obtain rfl : d = d' := Option.some.inj (hd.symm.trans hd')
  obtain rfl : needs = needs' := Except.ok.inj (hneeds.symm.trans hneeds')
  obtain ⟨e, he⟩ := hconfig c hc
  rcases Step.mem_names_iff.1 hname with hwrites | hremoves
  · -- a step that writes it would have come first
    refine hp.item_notMem_declares h (not_isRemoval_of_mem_written hn) hs
      (not_isRemoval_of_mem_written hwrites) ?_
    rw [Step.item_of_mem_written hwrites]
    have hlists : (DependencyKind.config, c) ∈ needs.toList := by simp [Dependencies.toList, hc]
    exact mem_declares_of_written hn hd hneeds hlists rfl
  · -- what the source has is not removed
    have hnone := Requirements.get?_of_mem_removed hp.target hs hremoves
    rw [he] at hnone
    cases hnone

include hp ha h hn hd hneeds in
/-- **From the step on that writes a document** no step touches what the document needs. -/
theorem Accepted.spares_of_writes {s : Step} (hs : s ∈ st :: rest) : s.Spares needs := by
  refine ⟨fun c hc => ha.config_notMem_names hp h hn hd hneeds hc ((hp.perm_of_plan h).subset hs),
    Step.extensions_of_phase ?_⟩
  have hphases := Requirements.plan_phases hp.disjoint_changelist
    hp.disjoint_extensionChanges.distinct h
  rw [← Step.phase_of_mem_written hn]
  rcases List.mem_cons.1 hs with rfl | hlater
  · exact le_refl _
  · exact (List.pairwise_cons.1 hphases).1 s hlater

include hp ha h hn hd hneeds in
/-- A module or theme that a document needs is installed when the document is written. -/
theorem Accepted.installed_of_needs {kind : DependencyKind} {m : String} {e : Extension}
    (hitem : Item.ofDependency? kind m = some (.extension e)) (hm : (kind, m) ∈ needs.toList)
    {k : Extension → Option ExtensionInfo} (hk : p.catalog = some k)
    (hafter : ∀ after, p.extensionsAfter = some after → e ∈ after) : e ∈ p.installed := by
  obtain ⟨o, ho⟩ := ha.listed
  rcases o with _ | wanted
  · -- without a list the extensions stay as they are
    exact hafter p.installed (by rw [extensionsAfter, ho, hk]; rfl)
  · have hwanted : e ∈ wanted.extensions := hafter _ (by rw [extensionsAfter, ho])
    refine mem_installed_of_wanted hk ho hwanted fun hpending => ?_
    exact hp.item_notMem_declares h (not_isRemoval_of_mem_written hn) hpending rfl
      (mem_declares_of_written hn hd hneeds hm hitem)

include hp ha h hn hd hneeds in
/-- **When a document is written all that it needs is there.** -/
theorem Accepted.meets_of_writes : p.Meets needs := by
  obtain ⟨d', hd', -, needs', hneeds', hextensions, hconfig⟩ :=
    ha.provides_of_written hp (hp.mem_pending_of_plan h) hn
  obtain rfl : d = d' := Option.some.inj (hd.symm.trans hd')
  obtain rfl : needs = needs' := Except.ok.inj (hneeds.symm.trans hneeds')
  constructor
  case config =>
    intro c hc
    obtain ⟨e, he⟩ := hconfig c hc
    -- no step that is left is about this document, and so it agrees already
    have huntouched : p.changelist.Untouched c := Requirements.untouched_of_pendingSteps
      fun s hs => ha.config_notMem_names hp h hn hd hneeds hc hs
    have hagrees := huntouched.agreesAt hp.source hp.target
    obtain ⟨f, hf⟩ := hagrees.1.1 ⟨e, he⟩
    exact ⟨e, f, he, hf, hagrees.2 e f he hf⟩
  case module =>
    intro hcatalog m hm
    obtain ⟨k, hk⟩ := Option.isSome_iff_exists.1 hcatalog
    have hlists : (DependencyKind.module, m) ∈ needs.toList := by simp [Dependencies.toList, hm]
    exact ha.installed_of_needs hp h hn hd hneeds rfl hlists hk fun after hafter =>
      (hextensions after hafter).1 m hm
  case theme =>
    intro hcatalog t ht
    obtain ⟨k, hk⟩ := Option.isSome_iff_exists.1 hcatalog
    have hlists : (DependencyKind.theme, t) ∈ needs.toList := by simp [Dependencies.toList, ht]
    exact ha.installed_of_needs hp h hn hd hneeds rfl hlists hk fun after hafter =>
      (hextensions after hafter).2 t ht

end Documents

end Proposal

end SiteConfig
