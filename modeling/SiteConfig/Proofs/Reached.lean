import Mathlib
import SiteConfig.Proofs.Operation

/-!
# Carrying out a plan

Once it has been planned, an import has always **reached** a point
(`SiteConfig.Importer.Reached`): what is proposed in the scene is accepted, the steps that
are left are its plan, and the lock is held as long as there are any. Planning reaches the
first such point (`SiteConfig.Importer.Observes.start_ends`), and every step that succeeds
reaches the next one (`SiteConfig.Importer.Tries.processStep_ends`): that its name is proper,
its document is still there or its extension is known is part of being accepted, and the step
leaves a proposal that is accepted again. Unless changes may fail, every step does succeed
(`SiteConfig.Importer.Sees.processStep_ends`).
-/

namespace SiteConfig.Importer

open ImportOperation Attempt

variable {σ : Type} {i : Importer σ} {view : σ → Scene} {known : Extension → Option ExtensionInfo}
  {r : ImportRun} {s : σ} {v w : Scene} {st : Step} {rest : List Step}

/-! ### What a step does -/

/-- **What a step leaves alone**, whatever it comes to: the source, documents under names
that it does not touch, and extensions other than its own. -/
structure Confined (st : Step) (v w : Scene) : Prop where
  source : w.source = v.source
  target : ∀ n, n ∉ st.names → w.target.get? n = v.target.get? n
  installed : w.installed = v.installed ∨ w.installed = st.installedAfter v.installed

theorem confined_of_equalBut {names : List String} (h : Scene.EqualBut names v w)
    (hsub : names ⊆ st.names) : Confined st v w :=
  ⟨h.source, fun n hn => h.target n fun hmem => hn (hsub hmem), .inl h.installed⟩

/-- The lock is not what a step is about. -/
theorem Confined.withLock (h : Confined st v w) (b : Bool) :
    Confined st v { w with locked := b } := ⟨h.source, h.target, h.installed⟩

/-- **What a step may come to**: it leaves alone what it does not touch; if it succeeds it
makes the target agree with the source on what it touches, and it fails only if changes may
fail. -/
structure Attempts (i : Importer σ) (known : Extension → Option ExtensionInfo) (fallible : Prop)
    (v : Scene) (st : Step) (o : Except String Unit) (w : Scene) : Prop where
  confined : Confined st v w
  locked : w.locked = v.locked
  advance : o = .ok () → Proposal.Advance (i.proposal known v) (i.proposal known w) st
  fails : ∀ e, o = .error e → fallible

theorem Attempts.of_tried {fallible : Prop} {u : Scene} {may : Scene → Prop}
    {o : Except String Unit} (h : Scene.Tried fallible u may o w)
    (hadv : Proposal.Advance (i.proposal known v) (i.proposal known u) st)
    (hu : Confined st v u ∧ u.locked = v.locked)
    (hmay : ∀ w, may w → Confined st v w ∧ w.locked = v.locked) :
    i.Attempts known fallible v st o w := by
  rcases o with e | ⟨⟩
  · obtain ⟨hfails, hw⟩ := h
    exact ⟨(hmay w hw).1, (hmay w hw).2, (fun hok => nomatch hok), fun _ _ => hfails⟩
  · obtain rfl : w = u := h
    exact ⟨hu.1, hu.2, fun _ => hadv, fun e he => nomatch he⟩

section Execute

variable {fallible : Prop} (h : i.Tries view known fallible) (hsort : Extension.Sorted v.installed)
  (hacc : (i.proposal known v).Accepted) (hs : view s = v)

include h hs in
/-- A document of the source is written as it is. -/
theorem Tries.writeFrom_ends {n : String} {d : Document}
    (hd : (i.proposal known v).source.get? n = some d) (hn : validateName n = .ok ()) :
    (sourceData (i.proposal known v).source n >>= fun data =>
        (i.comparer.target.write n data).mapError (·.message)).Ends view s
      (Scene.Tried fallible { v with target := v.target.insert n d.data }
        (Scene.EqualBut [n] v)) := by
  have hdata : (sourceData (i.proposal known v).source n : Attempt σ String Yaml.Mapping)
      = pure d.data := by
    rw [sourceData, hd]
  rw [hdata]
  refine (yields_pure d.data hs).bind_ends fun s₁ h₁ => ?_
  subst h₁
  exact ((h.write s₁ n d.data hn).imp fun o w hw => hw.mapError).mapError

theorem mem_writtenNames_of_mem {c : Changelist} {n : String}
    (h : n ∈ c.create ∨ n ∈ c.update ∨ ∃ m ∈ c.rename, m.target = n) : n ∈ c.writtenNames := by
  simpa [Changelist.writtenNames] using h

/-- Whoever changes extensions has a lifecycle and a list. -/
theorem exists_lifecycle_of_mem {e : Extension}
    (he : e ∈ (i.proposal known v).extensionChanges.install ++
      (i.proposal known v).extensionChanges.uninstall) :
    ∃ l, i.lifecycle = some l ∧ (i.proposal known v).catalog = some known ∧
      ∃ wanted, (i.proposal known v).listed = .ok (some wanted) := by
  obtain ⟨k, wanted, hk, hw⟩ := Proposal.exists_listed_of_mem he
  obtain ⟨l, hl, rfl⟩ := Option.map_eq_some_iff.1 hk
  exact ⟨l, hl, hk, wanted, hw⟩

theorem yields_lifecycleFor {l : Lifecycle σ} (hl : i.lifecycle = some l) (hs : view s = v) :
    i.lifecycleFor.Yields view s (.ok l) v := by
  rw [lifecycleFor, hl]
  exact yields_pure l hs

include h hacc hs in
/-- A document is written under its name. -/
theorem Tries.write_ends {n : String} (hn : n ∈ (i.proposal known v).changelist.writtenNames)
    (hd : ∃ d, (i.proposal known v).source.get? n = some d) (hnames : st.names = [n])
    (hinst : st.installedAfter v.installed = v.installed) :
    (sourceData (i.proposal known v).source n >>= fun data =>
      (i.comparer.target.write n data).mapError (·.message)).Ends view s
        (i.Attempts known fallible v st) := by
  obtain ⟨d, hd⟩ := hd
  have hsub : [n] ⊆ st.names := by rw [hnames]; exact List.Subset.refl _
  have hmay : ∀ w, Scene.EqualBut [n] v w → Confined st v w ∧ w.locked = v.locked :=
    fun w hw => ⟨confined_of_equalBut hw hsub, hw.locked⟩
  refine (h.writeFrom_ends hs hd (hacc.names n hn)).imp fun o w hw => .of_tried hw ?_
    (hmay _ (Scene.equalBut_insert v n d.data)) hmay
  exact ⟨rfl, rfl, rfl, hnames ▸ Storage.adopts_insert (Storage.named_snapshot _ _) hd, hinst.symm⟩

include h hsort hs in
/-- A document that is to be deleted is still there. -/
theorem Tries.delete_ends {n : String} (hn : n ∈ (i.proposal known v).changelist.delete) :
    (i.execute (i.proposal known v).source (.delete n)).Ends view s
      (i.Attempts known fallible v (.delete n)) := by
  obtain ⟨⟨⟨e, he⟩, hno⟩, -⟩ :=
    (Changelist.mem_delete_iff (wellFormed_proposal hsort).target).1 hn
  have hmay : ∀ w, Scene.EqualBut [n] v w → Confined (.delete n) v w ∧ w.locked = v.locked :=
    fun w hw => ⟨confined_of_equalBut hw (List.Subset.refl _), hw.locked⟩
  subst hs
  refine ((h.delete s n (Storage.contains_of_get?_snapshot he)).imp fun o w hw => ?_).mapError
  exact .of_tried hw.mapError ⟨rfl, rfl, rfl, Storage.adopts_erase hno, rfl⟩
    (hmay _ (Scene.equalBut_erase _ n)) hmay

include h hsort hacc hs in
/-- The new document of a rename is written, and then the old one is still there. -/
theorem Tries.rename_ends {m : Rename} (hm : m ∈ (i.proposal known v).changelist.rename) :
    (i.execute (i.proposal known v).source (.rename m.source m.target)).Ends view s
      (i.Attempts known fallible v (.rename m.source m.target)) := by
  have hp : (i.proposal known v).WellFormed := wellFormed_proposal hsort
  have hn : m.target ∈ (i.proposal known v).changelist.writtenNames :=
    mem_writtenNames_of_mem (.inr (.inr ⟨m, hm, rfl⟩))
  obtain ⟨⟨d, hd⟩, -⟩ := Changelist.of_mem_rename_target hp.source (List.mem_map.2 ⟨m, hm, rfl⟩)
  obtain ⟨⟨e, he⟩, hno⟩ := Changelist.of_mem_rename_source hp.target (List.mem_map.2 ⟨m, hm, rfl⟩)
  have hne : m.source ≠ m.target := fun heq => by
    rw [heq, hd] at hno
    cases hno
  have hwrite := Scene.equalBut_insert v m.target d.data
  have hmay : ∀ w, Scene.EqualBut [m.source] { v with target := v.target.insert m.target d.data } w →
      Confined (.rename m.source m.target) v w ∧ w.locked = v.locked :=
    fun w hw => ⟨confined_of_equalBut (hwrite.trans hw) (List.Subset.refl _), hw.locked⟩
  refine (h.writeFrom_ends hs hd (hacc.names _ hn)).bind (fun s₁ _ h₁ => ?_) fun e w hw => ?_
  · -- the new document has been written
    have hview : view s₁ = { v with target := v.target.insert m.target d.data } := h₁
    have hthere : (view s₁).target.contains m.source = true := by
      rw [hview]
      refine Storage.contains_of_get?_snapshot (e := e) ?_
      exact (Storage.adopts_insert hp.source hd m.source).trans
        ((if_neg (by simpa using hne)).trans he)
    have hdelete := h.delete s₁ m.source hthere
    rw [hview] at hdelete
    refine (hdelete.imp fun o w hw => ?_).mapError
    exact .of_tried hw.mapError
      ⟨rfl, rfl, rfl, Storage.adopts_rename hp.source hd hno, rfl⟩
      (hmay _ (Scene.equalBut_erase _ _)) hmay
  · -- it has not been written, and the old one is still there
    exact ⟨confined_of_equalBut hw.2 (by simp [Step.names]), hw.2.locked,
      (fun hok => nomatch hok), fun _ _ => hw.1⟩

include h hacc hs in
/-- An extension that is to be installed is known. -/
theorem Tries.install_ends {e : Extension}
    (he : e ∈ (i.proposal known v).extensionChanges.install) :
    (i.execute (i.proposal known v).source (.install e)).Ends view s
      (i.Attempts known fallible v (.install e)) := by
  obtain ⟨l, hl, hk, wanted, hw⟩ := exists_lifecycle_of_mem (List.mem_append_left _ he)
  obtain ⟨k, hknown, -⟩ := hacc.installs wanted hw e he
  have hsome : (known e).isSome := by
    rw [Proposal.known, hk] at hknown
    exact Option.isSome_iff_exists.2 ⟨k, hknown⟩
  refine (yields_lifecycleFor hl hs).bind_ends fun s₁ h₁ => ?_
  subst h₁
  refine ((h.install l hl s₁ e hsome).imp fun o w hw => ?_).mapError
  refine .of_tried hw.mapError ⟨rfl, rfl, rfl, fun m => rfl, rfl⟩
    ⟨⟨rfl, fun _ _ => rfl, .inr rfl⟩, rfl⟩ fun w hw => ?_
  rcases hw with rfl | rfl
  · exact ⟨⟨rfl, fun _ _ => rfl, .inl rfl⟩, rfl⟩
  · exact ⟨⟨rfl, fun _ _ => rfl, .inr rfl⟩, rfl⟩

include h hs in
/-- An extension that is to be uninstalled is installed. -/
theorem Tries.uninstall_ends {e : Extension}
    (he : e ∈ (i.proposal known v).extensionChanges.uninstall) :
    (i.execute (i.proposal known v).source (.uninstall e)).Ends view s
      (i.Attempts known fallible v (.uninstall e)) := by
  obtain ⟨l, hl, hk, wanted, hw⟩ := exists_lifecycle_of_mem (List.mem_append_right _ he)
  have hin : e ∈ v.installed := by
    rw [Proposal.extensionChanges_of_listed hk hw] at he
    exact (ExtensionChanges.mem_uninstall_iff.1 he).1
  refine (yields_lifecycleFor hl hs).bind_ends fun s₁ h₁ => ?_
  subst h₁
  refine ((h.uninstall l hl s₁ e hin).imp fun o w hw => ?_).mapError
  refine .of_tried hw.mapError ⟨rfl, rfl, rfl, fun m => rfl, rfl⟩
    ⟨⟨rfl, fun _ _ => rfl, .inr rfl⟩, rfl⟩ fun w hw => ?_
  rcases hw with rfl | rfl
  · exact ⟨⟨rfl, fun _ _ => rfl, .inl rfl⟩, rfl⟩
  · exact ⟨⟨rfl, fun _ _ => rfl, .inr rfl⟩, rfl⟩

include h hsort hacc hs in
/-- **A step that is pending in an accepted proposal** fails only if changes may fail. -/
theorem Tries.execute_ends (hst : st ∈ (i.proposal known v).pending) :
    (i.execute (i.proposal known v).source st).Ends view s (i.Attempts known fallible v st) := by
  have hp : (i.proposal known v).WellFormed := wellFormed_proposal hsort
  simp only [Proposal.pending, Requirements.pendingSteps, Requirements.removalSteps,
    Requirements.additionSteps, Changelist.deletions, Changelist.writes,
    ExtensionChanges.installations, ExtensionChanges.uninstallations, List.mem_append,
    List.mem_map] at hst
  rcases hst with (⟨n, hn, rfl⟩ | ⟨e, he, rfl⟩) |
    (⟨e, he, rfl⟩ | (⟨n, hn, rfl⟩ | ⟨m, hm, rfl⟩) | ⟨n, hn, rfl⟩)
  · exact h.delete_ends hsort hs hn
  · exact h.uninstall_ends hs he
  · exact h.install_ends hacc hs he
  · exact h.write_ends hacc hs (mem_writtenNames_of_mem (.inl hn))
      ((Changelist.mem_create_iff hp.source).1 hn).1.1 rfl rfl
  · exact h.rename_ends hsort hacc hs hm
  · obtain ⟨d, -, hd, -⟩ := (Changelist.mem_update_iff hp.target).1 hn
    exact h.write_ends hacc hs (mem_writtenNames_of_mem (.inr (.inl hn))) ⟨d, hd⟩ rfl rfl

end Execute

/-! ### Points of an import -/

/-- **A point of an import** that has been planned. What is still to be done is the plan of
what is proposed in the scene as it is by now; nothing is remembered of the scene in which
the import was planned, but for its source. -/
structure Reached (i : Importer σ) (known : Extension → Option ExtensionInfo) (r : ImportRun)
    (v : Scene) (rest : List Step) : Prop where
  sorted : Extension.Sorted v.installed
  accepted : (i.proposal known v).Accepted
  plan : (i.proposal known v).plan = .ok rest
  source : r.comparison.source = (i.proposal known v).source
  steps : r.steps.drop r.position = rest
  active : rest ≠ [] → r.state.isActive = true ∧ r.guarded = true ∧ v.locked = true
  ended : rest = [] → r.state = .completed ∧ r.guarded = false ∧ v.locked = false

/-- **What an import leaves alone**: the source, and the extensions unless there are a
lifecycle and a list. -/
structure Keeps (i : Importer σ) (known : Extension → Option ExtensionInfo) (v w : Scene) :
    Prop where
  source : w.source = v.source
  installed : (∀ k wanted, (i.proposal known v).catalog = some k →
    (i.proposal known v).listed ≠ .ok (some wanted)) → w.installed = v.installed

theorem Keeps.refl (v : Scene) : i.Keeps known v v := ⟨rfl, fun _ => rfl⟩

/-- The lock is not what an import is about. -/
theorem Keeps.locked (v : Scene) (b : Bool) : i.Keeps known v { v with locked := b } :=
  ⟨rfl, fun _ => rfl⟩

/-- What the source lists is seen in the source alone. -/
theorem listed_of_source_eq (h : w.source = v.source) :
    (i.proposal known w).listed = (i.proposal known v).listed := by
  rw [Proposal.listed, Proposal.listed, proposal, proposal, h]

theorem Keeps.trans {u : Scene} (h₁ : i.Keeps known v w) (h₂ : i.Keeps known w u) :
    i.Keeps known v u where
  source := h₂.source.trans h₁.source
  installed hl := by
    have hl' : ∀ k wanted, (i.proposal known w).catalog = some k →
        (i.proposal known w).listed ≠ .ok (some wanted) := by
      intro k wanted hk
      rw [listed_of_source_eq h₁.source]
      exact hl k wanted hk
    exact (h₂.installed hl').trans (h₁.installed hl)

/-! ### Planning -/

section Start

variable (h : i.Observes view known) (hs : view s = v)

include h hs in
/-- What has just been compared is fresh. -/
theorem Observes.yields_ensureFresh (hr : r.comparison = i.comparisonOf known v) :
    i.ensureFresh.Yields (beside view) (r, s) (.ok ()) (r, v) := by
  unfold ensureFresh
  refine (yields_current r hs).bind fun ⟨r₁, s₁⟩ h₁ => ?_
  obtain ⟨rfl, hv₁⟩ := beside_eq_iff.1 h₁
  refine (yields_outside (x := (i.comparer.isStale r₁.comparison).mapError .storage)
    (o := .ok false) (w := v) ?_ r₁).bind fun p hp => ?_
  · rw [hr]
    exact (h.isStale hv₁).mapError
  · exact yields_pure () hp

include h hs in
/-- What is planned is the plan of what is proposed. -/
theorem Observes.yields_plan (hr : r.comparison = i.comparisonOf known v)
    (hx : r.extensionChanges = (i.proposal known v).extensionChanges) {steps : List Step}
    (hplan : (i.proposal known v).plan = .ok steps) :
    i.plan.Yields (beside view) (r, s) (.ok steps) (r, v) := by
  unfold Importer.plan
  refine (yields_current r hs).bind fun ⟨r₁, s₁⟩ h₁ => ?_
  obtain ⟨rfl, hv₁⟩ := beside_eq_iff.1 h₁
  have hgather := h.yields_gather hv₁
  rw [← hr, ← hx] at hgather
  refine (yields_outside hgather r₁).bind fun p hp => ?_
  have hok : (((i.proposal known v).requirements.plan r₁.changelist
      r₁.extensionChanges).mapError ImportError.dependencyCycle) = .ok steps := by
    rw [ImportRun.changelist, hr, hx]
    exact congrArg (Except.mapError _) hplan
  rw [hok]
  exact yields_ofExcept _ hp

include h hs in
/-- A free lock is taken. -/
theorem Observes.yields_acquire (hlock : v.locked = false) :
    i.acquire.Yields (beside view) (r, s) (.ok ()) (r, { v with locked := true }) := by
  subst hs
  have hfree := h.acquire s
  rw [hlock] at hfree
  exact (yields_outside hfree r).bind fun p hp => yields_pure () hp

include h hs in
/-- **Planning an import that is accepted** gives its plan, and the lock is held if there is
anything to do; nothing else changes. -/
theorem Observes.start_ends (hsort : Extension.Sorted v.installed)
    (hacc : (i.proposal known v).Accepted) (hstate : r.state = .validated)
    (hr : r.comparison = i.comparisonOf known v)
    (hx : r.extensionChanges = (i.proposal known v).extensionChanges)
    (hlock : v.locked = false) {steps : List Step}
    (hplan : (i.proposal known v).plan = .ok steps) :
    i.start.Ends (beside view) (r, s) fun o p =>
      o = .ok steps ∧ i.Reached known p.1 p.2 steps ∧ ∃ b, p.2 = { v with locked := b } := by
  rw [start_eq]
  refine (yields_current r hs).bind_ends fun ⟨r₁, s₁⟩ h₁ => ?_
  obtain ⟨rfl, hv₁⟩ := beside_eq_iff.1 h₁
  rw [if_neg (by simp [hstate])]
  refine (h.yields_acquire hv₁ hlock).bind_ends fun ⟨r₂, s₂⟩ h₂ => ?_
  obtain ⟨rfl, hv₂⟩ := beside_eq_iff.1 h₂
  -- nothing has changed since validation, and so what is planned is the plan
  have hsteps : (i.ensureFresh >>= fun _ => i.plan).Yields (beside view) (r₂, s₂) (.ok steps)
      (r₂, { v with locked := true }) := by
    refine (h.yields_ensureFresh hv₂ hr).bind fun ⟨r₃, s₃⟩ h₃ => ?_
    obtain ⟨rfl, hv₃⟩ := beside_eq_iff.1 h₃
    exact h.yields_plan hv₃ hr hx hplan
  refine hsteps.recover.bind_ends fun ⟨r₃, s₃⟩ h₃ => ?_
  obtain ⟨rfl, hv₃⟩ := beside_eq_iff.1 h₃
  obtain ⟨t, hlaunch⟩ := h.reports.yields_launch steps r₃ hv₃
  have hsource : r₃.comparison.source = (i.proposal known v).source := congrArg _ hr
  rcases steps with _ | ⟨st, rest⟩
  · exact hlaunch.ends ⟨rfl, ⟨hsort, hacc, hplan, hsource, rfl, fun hne => absurd rfl hne,
      fun _ => ⟨rfl, rfl, rfl⟩⟩, false, rfl⟩
  · exact hlaunch.ends ⟨rfl, ⟨hsort, hacc, hplan, hsource, rfl, fun _ => ⟨rfl, rfl, rfl⟩,
      fun hnil => nomatch hnil⟩, true, rfl⟩

end Start

/-! ### One step after the other -/

section Steps

variable {fallible : Prop} (hobs : i.Observes view known) (h : i.Tries view known fallible)
  (hs : view s = v)

/-- What has to be carried out next is the first of the steps that are left. -/
theorem Reached.nextStep?_eq (hr : i.Reached known r v (st :: rest)) :
    r.nextStep? = some st :=
  ImportRun.nextStep?_eq_some_iff.2 ⟨(hr.active (List.cons_ne_nil _ _)).1, rest, hr.steps⟩

/-- Once a step has advanced what is proposed, an import has reached the next point, if it
has got there with the lock as it should be. -/
theorem Reached.advance (hr : i.Reached known r v (st :: rest))
    (hadv : Proposal.Advance (i.proposal known v) (i.proposal known w) st) {r' : ImportRun}
    (hcomp : r'.comparison = r.comparison) (hsteps : r'.steps = r.steps)
    (hpos : r'.position = r.position + 1)
    (hactive : rest ≠ [] → r'.state.isActive = true ∧ r'.guarded = true ∧ w.locked = true)
    (hended : rest = [] → r'.state = .completed ∧ r'.guarded = false ∧ w.locked = false) :
    i.Reached known r' w rest := by
  have hp : (i.proposal known v).WellFormed := wellFormed_proposal hr.sorted
  obtain ⟨hacc, hplan⟩ := hr.accepted.advance hp hadv hr.plan
  refine ⟨(hadv.wellFormed hp).installed, hacc, hplan, ?_, ?_, hactive, hended⟩
  · rw [hcomp, hr.source, hadv.source]
  · rw [hsteps, hpos, ImportRun.drop_succ_position hr.steps]

/-- **After a step** the import has reached the next point: it goes on, or it has given the
lock back after the last step. -/
theorem Reached.stepped (hr : i.Reached known r v (st :: rest)) (hlock : w.locked = true)
    (hadv : Proposal.Advance (i.proposal known v) (i.proposal known w) st) :
    i.Reached known r.stepped
      (if r.position + 1 = r.steps.length then { w with locked := false } else w) rest := by
  obtain ⟨-, hguard, -⟩ := hr.active (List.cons_ne_nil _ _)
  have hnumber := ImportRun.number_eq_iff hr.steps
  unfold ImportRun.stepped
  by_cases hlast : rest = []
  · rw [if_pos (hnumber.2 hlast), if_pos (hnumber.2 hlast)]
    exact hr.advance (w := { w with locked := false }) hadv rfl rfl rfl
      (fun hne => absurd hlast hne) fun _ => ⟨rfl, rfl, rfl⟩
  · have hnum : ¬r.position + 1 = r.steps.length := fun hnum => hlast (hnumber.1 hnum)
    rw [if_neg hnum, if_neg hnum]
    exact hr.advance hadv rfl rfl rfl (fun _ => ⟨rfl, hguard, hlock⟩) fun hno => absurd hno hlast

include hobs h hs in
/-- **The next step** fails only if changes may fail, and otherwise the import reaches the
next point. Whatever comes of it, it leaves alone what it does not touch. -/
theorem Tries.processStep_ends (hr : i.Reached known r v (st :: rest)) :
    (i.processStep st).Ends (beside view) (r, s) fun o p =>
      Confined st v p.2 ∧
        (o = .ok () → i.Reached known p.1 p.2 rest ∧ i.Keeps known v p.2 ∧
          Proposal.Advance (i.proposal known v) (i.proposal known p.2) st) ∧
        ∀ e, o = .error e → fallible := by
  have hp : (i.proposal known v).WellFormed := wellFormed_proposal hr.sorted
  have hst := hp.mem_pending_of_plan hr.plan
  have hheld := (hr.active (List.cons_ne_nil _ _)).2.2
  obtain ⟨o, w, hexec, hw⟩ := (h.execute_ends hr.sorted hr.accepted hs hst).exists_yields
  rw [← hr.source] at hexec
  rcases o with e | ⟨⟩
  · -- a step that fails gives the lock back, and may have done part of its work
    exact (hobs.reports.yields_processStep_error hr.nextStep?_eq hexec).ends
      ⟨hw.confined.withLock false, (fun hok => nomatch hok), fun _ _ => hw.fails e rfl⟩
  · have hadv := hw.advance rfl
    have hkeeps : i.Keeps known v w := ⟨hw.confined.source, hadv.installed_of_not_listed hst⟩
    refine (hobs.reports.yields_processStep hr.nextStep?_eq hexec).ends
      ⟨?_, fun _ => ⟨hr.stepped (hw.locked.trans hheld) hadv, hkeeps.trans ?_, ?_⟩,
        fun e he => nomatch he⟩
    · split
      · exact hw.confined.withLock false
      · exact hw.confined
    · split
      · exact Keeps.locked w false
      · exact Keeps.refl w
    · split <;> exact hadv

include hobs h in
/-- **From a point that has been reached** some steps fail only if changes may fail, and
otherwise the import reaches the point after them. A condition that no step breaks, whatever
comes of it, still holds at the end, whatever has come of the steps. -/
theorem Tries.forM_processStep_ends {I : Scene → Prop} (done : List Step)
    (hkeep : ∀ {r v w st rest}, st ∈ done → i.Reached known r v (st :: rest) →
      Confined st v w → I v → I w)
    (hr : i.Reached known r v (done ++ rest)) (hs : view s = v) (hI : I v) :
    (done.forM i.processStep).Ends (beside view) (r, s) fun o p =>
      I p.2 ∧ (o = .ok () → i.Reached known p.1 p.2 rest ∧ i.Keeps known v p.2) ∧
        ∀ e, o = .error e → fallible := by
  induction done generalizing r s v with
  | nil =>
    exact (yields_pure () (by rw [beside_mk, hs])).ends
      ⟨hI, fun _ => ⟨hr, Keeps.refl v⟩, fun e he => nomatch he⟩
  | cons st done ih =>
    refine (h.processStep_ends hobs hs hr).bind (fun ⟨r₁, s₁⟩ _ h₁ => ?_) fun e p hp => ?_
    · obtain ⟨hconf, hreached, -⟩ := h₁
      obtain ⟨hr₁, hk₁, -⟩ := hreached rfl
      have hI₁ := hkeep List.mem_cons_self hr hconf hI
      refine (ih (fun hmem => hkeep (List.mem_cons_of_mem _ hmem)) hr₁ rfl hI₁).imp
        fun o p hp => ⟨hp.1, fun ho => ?_, hp.2.2⟩
      exact ⟨(hp.2.1 ho).1, hk₁.trans (hp.2.1 ho).2⟩
    · -- a step that fails is the last one that is tried
      exact ⟨hkeep List.mem_cons_self hr hp.1 hI, (fun hok => nomatch hok), hp.2.2⟩

/-- **Where no change fails the next step succeeds**, and the import reaches the next point. -/
theorem Sees.processStep_ends (h : i.Sees view known) (hs : view s = v)
    (hr : i.Reached known r v (st :: rest)) :
    (i.processStep st).Ends (beside view) (r, s) fun o p =>
      o = .ok () ∧ i.Reached known p.1 p.2 rest ∧ i.Keeps known v p.2 := by
  refine (h.tries.processStep_ends h.observes hs hr).imp fun o p hp => ?_
  rcases o with e | ⟨⟩
  · exact (hp.2.2 e rfl).elim
  · obtain ⟨hreached, hkeeps, -⟩ := hp.2.1 rfl
    exact ⟨rfl, hreached, hkeeps⟩

end Steps

end SiteConfig.Importer
