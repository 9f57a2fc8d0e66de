import Mathlib
import SiteConfig.Proofs.Proposal

/-!
# A step forward

When the first step of an accepted proposal has been carried out, what is proposed is
accepted again, and its plan is the rest of the plan
(`SiteConfig.Proposal.Accepted.advance`). Nothing of this is remembered: the changelist, the
renames in it, the checks and both schedules are computed afresh from what the target holds
now. They come out the same because the step has made the target agree with the source on
just the names that its entry of the changelist was about.

A proposal with an empty plan is one whose target agrees with its source
(`SiteConfig.Proposal.WellFormed.agrees`).
-/

namespace SiteConfig.Proposal

variable {p p' : Proposal} {st : Step}

/-! ### The changes after a step -/

section Changes

variable (hp : p.WellFormed) (hst : st ∈ p.pending) (hadv : Advance p p' st)

include hp hst in
/-- The names that a pending step touches hold both names of a rename or none. -/
theorem closed_names : p.changelist.Closed st.names := by
  intro m hm
  have hmem : Step.rename m.source m.target ∈ p.pending := by
    simp only [pending, Requirements.pendingSteps, Requirements.additionSteps, Changelist.writes,
      List.mem_append, List.mem_map]
    exact .inr (.inr (.inl (.inr ⟨m, hm, rfl⟩)))
  by_cases hs : Step.rename m.source m.target = st
  · subst hs
    simp [Step.names]
  · have hdis := Requirements.touched_disjoint hp.disjoint_changelist hp.disjoint_extensionChanges
      hmem hst hs
    have hout : ∀ n ∈ [m.source, m.target], n ∉ st.names := fun n hn hn' =>
      hdis (Step.document_mem_touched.2 hn) (Step.document_mem_touched.2 hn')
    exact iff_of_false (hout _ (by simp)) (hout _ (by simp))

include hp hst hadv in
theorem Advance.changelist (hdist : p.source.Distinct) :
    p'.changelist = p.changelist.without st.names := by
  rw [Proposal.changelist, hadv.source]
  exact Changelist.between_eq_without hp.source hp.target hadv.target hdist (closed_names hp hst)

theorem mem_installations_iff {e : Extension} :
    Step.install e ∈ p.pending ↔ e ∈ p.extensionChanges.install := by
  simp [pending, Requirements.pendingSteps, Requirements.removalSteps, Requirements.additionSteps,
    Changelist.deletions, Changelist.writes, ExtensionChanges.installations,
    ExtensionChanges.uninstallations]

theorem mem_uninstallations_iff {e : Extension} :
    Step.uninstall e ∈ p.pending ↔ e ∈ p.extensionChanges.uninstall := by
  simp [pending, Requirements.pendingSteps, Requirements.removalSteps, Requirements.additionSteps,
    Changelist.deletions, Changelist.writes, ExtensionChanges.installations,
    ExtensionChanges.uninstallations]

include hadv in
theorem Advance.listed : p'.listed = p.listed := by rw [Proposal.listed, hadv.source]; rfl

include hadv in
theorem Advance.known (e : Extension) : p'.known e = p.known e := by
  rw [Proposal.known, hadv.catalog]; rfl

include hadv in
/-- A step that changes no extension leaves their changes as they are. -/
theorem Advance.extensionChanges_of_nil (hnil : st.extensions = []) :
    p'.extensionChanges = p.extensionChanges.without st.extensions := by
  have hinst : p'.installed = p.installed := by
    rw [hadv.installed]
    cases st <;> first | rfl | cases hnil
  rw [hnil, ExtensionChanges.without_nil, Proposal.extensionChanges, hadv.catalog, hadv.listed,
    hinst]
  rfl

include hst hadv in
theorem Advance.extensionChanges :
    p'.extensionChanges = p.extensionChanges.without st.extensions := by
  cases st with
  | install e =>
    have he := mem_installations_iff.1 hst
    obtain ⟨k, wanted, hk, hw⟩ := exists_listed_of_mem (List.mem_append_left _ he)
    rw [extensionChanges_of_listed hk hw] at he ⊢
    rw [extensionChanges_of_listed (hadv.catalog.trans hk) (hadv.listed.trans hw), hadv.installed]
    exact ExtensionChanges.between_install (ExtensionChanges.mem_install_iff.1 he).1
  | uninstall e =>
    have he := mem_uninstallations_iff.1 hst
    obtain ⟨k, wanted, hk, hw⟩ := exists_listed_of_mem (List.mem_append_right _ he)
    rw [extensionChanges_of_listed hk hw] at he ⊢
    rw [extensionChanges_of_listed (hadv.catalog.trans hk) (hadv.listed.trans hw), hadv.installed]
    exact ExtensionChanges.between_uninstall (ExtensionChanges.mem_uninstall_iff.1 he).2
  | _ => exact hadv.extensionChanges_of_nil rfl

include hst hadv in
/-- Without a lifecycle, or without a list of extensions, no step changes any. -/
theorem Advance.installed_of_not_listed
    (hl : ∀ k wanted, p.catalog = some k → p.listed ≠ .ok (some wanted)) :
    p'.installed = p.installed := by
  have hnone : ∀ e, e ∉ p.extensionChanges.install ++ p.extensionChanges.uninstall := by
    intro e he
    obtain ⟨k, wanted, hk, hw⟩ := exists_listed_of_mem he
    exact hl k wanted hk hw
  rw [hadv.installed]
  cases st with
  | install e => exact absurd (List.mem_append_left _ (mem_installations_iff.1 hst)) (hnone e)
  | uninstall e => exact absurd (List.mem_append_right _ (mem_uninstallations_iff.1 hst)) (hnone e)
  | _ => rfl

include hp hadv in
theorem Advance.wellFormed : p'.WellFormed where
  source := hadv.source ▸ hp.source
  target := Changelist.Adopts.named hp.source hp.target hadv.target
  installed := hadv.installed ▸ st.sorted_installedAfter hp.installed

end Changes

/-! ### The plan after a step -/

/-- The plan of a well-formed proposal: two complete schedules, one after the other. -/
theorem WellFormed.plan_eq_ok_iff (hp : p.WellFormed) {steps : List Step} :
    p.plan = .ok steps ↔
      (Schedule.Complete p.requirements.removedFirst
          (Requirements.removalSteps p.changelist p.extensionChanges) ∧
        Schedule.Complete p.requirements.addedFirst
          (Requirements.additionSteps p.changelist p.extensionChanges)) ∧
      steps = Schedule.order p.requirements.removedFirst
          (Requirements.removalSteps p.changelist p.extensionChanges)
        ++ Schedule.order p.requirements.addedFirst
          (Requirements.additionSteps p.changelist p.extensionChanges) :=
  Requirements.plan_eq_ok_iff hp.disjoint_changelist hp.disjoint_extensionChanges.distinct

theorem WellFormed.perm_of_plan (hp : p.WellFormed) {steps : List Step}
    (h : p.plan = .ok steps) : steps.Perm p.pending :=
  Requirements.pendingSteps_perm_of_plan hp.disjoint_changelist
    hp.disjoint_extensionChanges.distinct h

theorem WellFormed.mem_pending_of_plan (hp : p.WellFormed) {rest : List Step}
    (h : p.plan = .ok (st :: rest)) : st ∈ p.pending :=
  (hp.perm_of_plan h).subset List.mem_cons_self

section Plan

variable (hp : p.WellFormed) (hdist : p.source.Distinct) (hadv : Advance p p' st)

include hp hdist hadv in
theorem Advance.mem_pending (hst : st ∈ p.pending) {s : Step} :
    s ∈ p'.pending ↔ s ∈ p.pending ∧ s ≠ st := by
  rw [pending, hadv.changelist hp hst hdist, hadv.extensionChanges hst]
  exact Requirements.mem_pendingSteps_without hp.disjoint_changelist hp.disjoint_extensionChanges hst

include hp hdist hadv in
/-- What is still pending depends on what it depended on. -/
theorem Advance.declares (hst : st ∈ p.pending) {s : Step} (hs : s ∈ p'.pending) :
    p'.declares s = p.declares s := by
  obtain ⟨hmem, hne⟩ := (hadv.mem_pending hp hdist hst).1 hs
  cases s with
  | delete n =>
    have hn : n ∉ st.names := fun hn =>
      (Requirements.ne_iff_item_notMem hp.disjoint_changelist hp.disjoint_extensionChanges hmem
        hst).1 hne (Step.document_mem_touched.2 hn)
    rw [Proposal.declares, hadv.target n, if_neg hn]
    rfl
  | create n => rw [Proposal.declares, hadv.source]; rfl
  | update n => rw [Proposal.declares, hadv.source]; rfl
  | rename m n => rw [Proposal.declares, hadv.source]; rfl
  | install e => rw [Proposal.declares, hadv.known]; rfl
  | uninstall e => rw [Proposal.declares, hadv.known]; rfl

include hp hdist hadv in
theorem Advance.declared (hst : st ∈ p.pending) {s : Step} (hs : s ∈ p'.pending) :
    p'.requirements.declared s = p.requirements.declared s := by
  rw [declared_requirements hs, hadv.declares hp hdist hst hs,
    declared_requirements ((hadv.mem_pending hp hdist hst).1 hs).1]

include hp hdist hadv in
/-- **The plan after a step** is the rest of the plan. -/
theorem Advance.plan {rest : List Step} (h : p.plan = .ok (st :: rest)) : p'.plan = .ok rest := by
  have hst := hp.mem_pending_of_plan h
  obtain ⟨⟨hr, ha⟩, hsteps⟩ := hp.plan_eq_ok_iff.1 h
  have hrem : Requirements.removalSteps p'.changelist p'.extensionChanges
      = (Requirements.removalSteps p.changelist p.extensionChanges).erase st := by
    rw [hadv.changelist hp hst hdist, hadv.extensionChanges hst,
      Requirements.removalSteps_without hp.disjoint_changelist hp.disjoint_extensionChanges hst]
  have hadd : Requirements.additionSteps p'.changelist p'.extensionChanges
      = (Requirements.additionSteps p.changelist p.extensionChanges).erase st := by
    rw [hadv.changelist hp hst hdist, hadv.extensionChanges hst,
      Requirements.additionSteps_without hp.disjoint_changelist hp.disjoint_extensionChanges hst]
  have hdis : (Requirements.removalSteps p.changelist p.extensionChanges).Disjoint
      (Requirements.additionSteps p.changelist p.extensionChanges) := fun s hs hs' => by
    have := Requirements.isRemoval_of_mem hs
    rw [Requirements.not_isRemoval_of_mem hs'] at this
    cases this
  obtain ⟨⟨hr', ha'⟩, hrest⟩ := Schedule.order_append_eq_cons hr ha hdis hsteps.symm
  rw [← hrem] at hr' hrest
  rw [← hadd] at ha' hrest
  -- among the steps that are left, what has to come first is what had to
  have hrf : ∀ s ∈ Requirements.removalSteps p'.changelist p'.extensionChanges,
      ∀ t ∈ Requirements.removalSteps p'.changelist p'.extensionChanges,
        p.requirements.removedFirst s t = p'.requirements.removedFirst s t := fun s hs t _ => by
    rw [Requirements.removedFirst, Requirements.removedFirst,
      hadv.declared hp hdist hst (List.mem_append_left _ hs)]
  have haf : ∀ s ∈ Requirements.additionSteps p'.changelist p'.extensionChanges,
      ∀ t ∈ Requirements.additionSteps p'.changelist p'.extensionChanges,
        p.requirements.addedFirst s t = p'.requirements.addedFirst s t := fun s _ t ht => by
    rw [Requirements.addedFirst, Requirements.addedFirst,
      hadv.declared hp hdist hst (List.mem_append_right _ ht)]
  refine (hadv.wellFormed hp).plan_eq_ok_iff.2 ⟨⟨hr'.congr hrf, ha'.congr haf⟩, ?_⟩
  rw [hrest, Schedule.order_congr hrf, Schedule.order_congr haf]

end Plan

/-! ### The checks after a step -/

section Checks

variable (hp : p.WellFormed) (hst : st ∈ p.pending) (hadv : Advance p p' st)

theorem mem_writtenNames_without {c : Changelist} {names : List String} {n : String}
    (h : n ∈ (c.without names).writtenNames) : n ∈ c.writtenNames := by
  simp only [Changelist.writtenNames, List.mem_append, List.mem_map] at h ⊢
  rcases h with (h | h) | ⟨m, h, rfl⟩
  · exact .inl (.inl (Changelist.mem_without_create.1 h).1)
  · exact .inl (.inr (Changelist.mem_without_update.1 h).1)
  · exact .inr ⟨m, (Changelist.mem_without_rename.1 h).1, rfl⟩

include hadv in
/-- The target has what it had under a name, or what the source has. -/
theorem Advance.get?_target (n : String) :
    p'.target.get? n = p.source.get? n ∨ p'.target.get? n = p.target.get? n := by
  rw [hadv.target n]
  split
  · exact .inl rfl
  · exact .inr rfl

include hadv in
theorem Advance.agreeOnUuid {n : String} (h : AgreeOnUuid (p.source.get? n) (p.target.get? n)) :
    AgreeOnUuid (p'.source.get? n) (p'.target.get? n) := by
  rw [hadv.source]
  rcases hadv.get?_target n with ht | ht <;> rw [ht]
  · intro u v hu hv
    exact Option.some.inj (hu.symm.trans hv)
  · exact h

include hadv in
theorem Advance.keepsProfile {wanted : CoreExtension} (hw : p.listed = .ok (some wanted))
    (h : p.KeepsProfile wanted) : p'.KeepsProfile wanted := by
  unfold KeepsProfile Comparison.extensionsIn
  rcases hadv.get?_target coreExtensionName with ht | ht <;> rw [ht]
  · refine ⟨some wanted, hw, fun c hc q hq => ?_⟩
    cases hc
    exact hq
  · exact h

include hst hadv in
/-- Whether or not the source lists them, the same extensions will be installed at last. -/
theorem Advance.extensionsAfter : p'.extensionsAfter = p.extensionsAfter := by
  rw [Proposal.extensionsAfter, Proposal.extensionsAfter, hadv.listed, hadv.catalog]
  rcases hl : p.listed with e | _ | wanted
  · have hinst := hadv.installed_of_not_listed hst (by simp [hl])
    simp only [hinst]
  · have hinst := hadv.installed_of_not_listed hst (by simp [hl])
    simp only [hinst]
  · rfl

include hst hadv in
theorem Advance.provides {d : Document} (h : p.Provides d) : p'.Provides d := by
  unfold Provides
  rw [hadv.listed, hadv.extensionsAfter hst, hadv.source]
  exact h

include hp hadv in
/-- **An accepted proposal is accepted after its first step**, too, with the rest of the
plan. -/
theorem Accepted.advance (ha : p.Accepted) {rest : List Step} (h : p.plan = .ok (st :: rest)) :
    p'.Accepted ∧ p'.plan = .ok rest := by
  have hst := hp.mem_pending_of_plan h
  have hc := hadv.changelist hp hst ha.distinct
  have hx := hadv.extensionChanges hst
  have hwr : ∀ {n}, n ∈ p'.changelist.writtenNames → n ∈ p.changelist.writtenNames :=
    fun hn => mem_writtenNames_without (hc ▸ hn)
  have hplan := hadv.plan hp ha.distinct h
  refine ⟨?_, hplan⟩
  -- every condition is about what is left to do, which is less than before
  constructor
  case listed => exact hadv.listed ▸ ha.listed
  case names => exact fun n hn => ha.names n (hwr hn)
  case site => exact hadv.agreeOnUuid ha.site
  case uuids =>
    intro n hn hsite
    rw [hc, Changelist.mem_without_update] at hn
    exact hadv.agreeOnUuid (ha.uuids n hn.1 hsite)
  case distinct => exact hadv.source ▸ ha.distinct
  case schemas =>
    intro catalog hs n hn d hd
    exact ha.schemas catalog (hadv.schemas ▸ hs) n (hwr hn) d (hadv.source ▸ hd)
  case profile =>
    intro wanted hw
    rw [hadv.listed] at hw
    exact hadv.keepsProfile hw (ha.profile wanted hw)
  case installs =>
    intro wanted hw e he
    rw [hx, ExtensionChanges.without, List.mem_filter] at he
    obtain ⟨i, hi, hdeps⟩ := ha.installs wanted (hadv.listed ▸ hw) e he.1
    exact ⟨i, (hadv.known e).trans hi, hdeps⟩
  case uninstalls =>
    intro wanted hw e he
    rw [hx, ExtensionChanges.without, List.mem_filter] at he
    obtain ⟨hreq, hdeps⟩ := ha.uninstalls wanted (hadv.listed ▸ hw) e he.1
    exact ⟨fun i hi => hreq i ((hadv.known e).symm.trans hi),
      fun f hf i hi => hdeps f hf i ((hadv.known f).symm.trans hi)⟩
  case needs =>
    intro n hn d hd
    exact hadv.provides hst (ha.needs n (hwr hn) d (hadv.source ▸ hd))
  case ordered => exact ⟨rest, hplan⟩

end Checks

/-! ### Nothing left to do -/

theorem pendingSteps_eq_nil_iff {c : Changelist} {x : ExtensionChanges} :
    Requirements.pendingSteps c x = [] ↔ c = .empty ∧ x = .empty := by
  obtain ⟨create, update, delete, rename⟩ := c
  obtain ⟨install, uninstall⟩ := x
  simp only [Requirements.pendingSteps, Requirements.removalSteps, Requirements.additionSteps,
    Changelist.deletions, Changelist.writes, ExtensionChanges.installations,
    ExtensionChanges.uninstallations, List.append_eq_nil_iff, List.map_eq_nil_iff,
    Changelist.empty, Changelist.mk.injEq, ExtensionChanges.empty, ExtensionChanges.mk.injEq]
  grind

/-- A plan is empty when there is nothing to change, and only then. -/
theorem WellFormed.plan_eq_nil_iff (hp : p.WellFormed) {steps : List Step}
    (h : p.plan = .ok steps) :
    steps = [] ↔ p.changelist = .empty ∧ p.extensionChanges = .empty := by
  have hperm := hp.perm_of_plan h
  rw [← pendingSteps_eq_nil_iff]
  constructor
  · rintro rfl
    exact hperm.symm.eq_nil
  · intro hnil
    exact (show p.pending = [] from hnil ▸ rfl) ▸ hperm |>.eq_nil

/-- **With nothing left to do the target agrees with the source.** -/
theorem WellFormed.agrees (hp : p.WellFormed) (h : p.plan = .ok []) : p.source.Agrees p.target :=
  (Changelist.between_eq_empty_iff hp.source hp.target).1 ((hp.plan_eq_nil_iff h).1 rfl).1

/-- **With nothing left to do the installed extensions are those that the source lists.** -/
theorem WellFormed.installed_eq (hp : p.WellFormed) (h : p.plan = .ok [])
    {k : Extension → Option ExtensionInfo} (hk : p.catalog = some k) {wanted : CoreExtension}
    (hw : p.listed = .ok (some wanted)) : p.installed = wanted.extensions := by
  have hx := ((hp.plan_eq_nil_iff h).1 rfl).2
  rw [extensionChanges_of_listed hk hw] at hx
  have hin : ∀ e, e ∉ (ExtensionChanges.between wanted.extensions p.installed).install := by
    simp [hx, ExtensionChanges.empty]
  have hun : ∀ e, e ∉ (ExtensionChanges.between wanted.extensions p.installed).uninstall := by
    simp [hx, ExtensionChanges.empty]
  refine Extension.eq_of_mem_iff hp.installed wanted.extensions_sorted fun e => ?_
  constructor
  · intro he
    by_contra hno
    exact hun e (ExtensionChanges.mem_uninstall_iff.2 ⟨he, hno⟩)
  · intro he
    by_contra hno
    exact hin e (ExtensionChanges.mem_install_iff.2 ⟨he, hno⟩)

end SiteConfig.Proposal
