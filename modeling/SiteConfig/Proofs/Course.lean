import Mathlib
import SiteConfig.Proofs.FirstStep
import SiteConfig.Proofs.Resumption
import SiteConfig.Proofs.Run

/-!
# The course of an import

An import takes its **course** when it is validated and planned and then carries out one
step after the other (`SiteConfig.Importer.Course`). How far it has come is told by two lists:
the steps that have been carried out and those that are left. A run that is left to itself is
such a course (`SiteConfig.Importer.exists_course_of_run`).

Changes may fail here. What can be said of all points of a course is said once, for any
condition of the scene that no step breaks as long as it leaves alone what it does not touch
(`SiteConfig.Importer.Tries.reached_of_course`, `SiteConfig.Importer.Tries.along`).
-/

namespace SiteConfig.Importer

open ImportOperation Attempt

variable {σ : Type} {i : Importer σ} {view : σ → Scene} {known : Extension → Option ExtensionInfo}
  {p p₁ q : ImportRun × σ} {done rest more : List Step}

/-- **The course of an import**, from one state to another: it has been validated and
planned, and of the planned steps some have been carried out. -/
def Course (i : Importer σ) (p : ImportRun × σ) (done rest : List Step) (q : ImportRun × σ) :
    Prop :=
  ∃ p₁ p₂, i.validate p = (.ok (), p₁) ∧ i.start p₁ = (.ok (done ++ rest), p₂) ∧
    done.forM i.processStep p₂ = (.ok (), q)

/-! ### Runs -/

/-- How a run may end that has been planned: all steps have been carried out, or one has
failed and is the last one that was tried. -/
def EndsCourse (i : Importer σ) (p : ImportRun × σ) (steps : List Step) (status : ImportStatus)
    (q : ImportRun × σ) : Prop :=
  status = statusOf steps ∧ steps.forM i.processStep p = (.ok (), q) ∨
    (∃ k n st reason, status = .failedMidway k n st reason) ∧
      ∃ e, steps.forM i.processStep p = (.error e, q)

/-- Carrying out some steps is trying one after the other, until one fails. -/
theorem forM_processStep_of_processAll (total : Nat) (steps : List Step) {status : ImportStatus}
    {progress : List Progress} (h : i.processAll total steps p = (.ok (status, progress), q)) :
    status = .completed total ∧ steps.forM i.processStep p = (.ok (), q) ∨
      (∃ k n st reason, status = .failedMidway k n st reason) ∧
        ∃ e, steps.forM i.processStep p = (.error e, q) := by
  induction steps generalizing p status progress with
  | nil =>
    cases h
    exact .inl ⟨rfl, rfl⟩
  | cons st steps ih =>
    have hcons : (st :: steps).forM i.processStep p
        = (i.processStep st >>= fun _ => steps.forM i.processStep) p := rfl
    rw [hcons, bind_apply]
    unfold processAll at h
    rw [bind_apply, always, outcome] at h
    rcases hstep : i.processStep st p with ⟨e | ⟨⟩, p₁⟩ <;> rw [hstep] at h
    · -- the step that fails is the last one
      refine .inr ?_
      cases e <;> cases h
      exact ⟨⟨_, _, _, _, rfl⟩, _, rfl⟩
    · have hrest : (i.processAll total steps >>= fun x =>
          pure (x.1, ⟨st, p₁.1.position, total⟩ :: x.2) :
            ImportOperation σ (ImportStatus × List Progress)) p₁ = (.ok (status, progress), q) := h
      obtain ⟨x, p₂, hall, hx⟩ := bind_eq_ok_iff.1 hrest
      cases hx
      exact ih hall

/-- **A run that is left to itself is a course.** Unless problems are found the import is
planned, and then it tries its steps one after the other. -/
theorem exists_course_of_run {status : ImportStatus} {progress : List Progress}
    (hstate : p.1.state = .idle) (hrun : i.run p = (.ok (status, progress), q))
    (hproblems : ∀ problems, status ≠ .validationFailed problems) :
    ∃ steps p₁, i.Course p [] steps p₁ ∧ i.EndsCourse p₁ steps status q := by
  rcases hvalid : i.validate p with ⟨e | ⟨⟩, p₁⟩
  · rw [run_of_invalid hstate hvalid] at hrun
    cases e <;> cases hrun
    exact absurd rfl (hproblems _)
  · rw [run_of_valid hstate hvalid, carryOut, bind_apply] at hrun
    rcases hstart : i.start p₁ with ⟨e | steps, p₂⟩ <;> rw [hstart] at hrun
    · cases hrun
    · refine ⟨steps, p₂, ⟨p₁, p₂, hvalid, hstart, rfl⟩, ?_⟩
      rcases steps with _ | ⟨st, rest⟩
      · cases hrun
        exact .inl ⟨rfl, rfl⟩
      · exact forM_processStep_of_processAll (st :: rest).length (st :: rest) hrun

/-! ### Points of a course -/

section Points

variable {fallible : Prop} (hobs : i.Observes view known) (h : i.Tries view known fallible)

include hobs h in
/-- **At every point of a course** the steps that are left are the plan of what is proposed
in the scene as it is, and a condition that no step breaks still holds. -/
theorem Tries.reached_of_course (hchecks : i.checks = Check.standard)
    (hsort : Extension.Sorted (view p.2).installed) (hr : i.Compared known p.1 (view p.2))
    {I : Scene → Prop} (hI : ∀ b, I { view p.2 with locked := b })
    (hkeep : ∀ {r v w st rest}, st ∈ done → i.Reached known r v (st :: rest) →
      Confined st v w → I v → I w)
    (hcourse : i.Course p done rest q) :
    i.Reached known q.1 (view q.2) rest ∧ i.Keeps known (view p.2) (view q.2) ∧ I (view q.2) := by
  obtain ⟨p₁, ⟨r₂, s₂⟩, hvalid, hstart, hdone⟩ := hcourse
  obtain ⟨hreached, b, hb⟩ := hobs.reached_of_start hchecks hsort hr hvalid hstart
  obtain ⟨hIq, hok, -⟩ :=
    (h.forM_processStep_ends hobs done hkeep hreached rfl (hb ▸ hI b)).apply hdone
  obtain ⟨hreached', hkeeps⟩ := hok rfl
  have hkeeps₀ : i.Keeps known (view p.2) (view s₂) := by
    rw [show view s₂ = _ from hb]
    exact Keeps.locked _ b
  exact ⟨hreached', hkeeps₀.trans hkeeps, hIq⟩

include hobs h in
/-- **From a point of a course on**, a condition that no step breaks holds after any number of
the steps that are left, whatever has come of them. -/
theorem Tries.along {I : Scene → Prop} (hreached : i.Reached known q.1 (view q.2) rest)
    (hI : I (view q.2))
    (hkeep : ∀ {r v w st rest'}, st ∈ rest → i.Reached known r v (st :: rest') →
      Confined st v w → I v → I w)
    (hmore : more <+: rest) : I (view (more.forM i.processStep q).2.2) := by
  obtain ⟨left, rfl⟩ := hmore
  exact (h.forM_processStep_ends hobs more (fun hst => hkeep (List.mem_append_left _ hst))
    hreached rfl hI).1

/-! ### What a course leaves behind -/

include hobs in
/-- What was proposed when a course began is accepted, and its plan are the steps of the
course. -/
theorem Observes.plan_of_course (hchecks : i.checks = Check.standard)
    (hsort : Extension.Sorted (view p.2).installed) (hr : i.Compared known p.1 (view p.2))
    (hcourse : i.Course p done rest q) :
    (i.proposal known (view p.2)).Accepted ∧
      (i.proposal known (view p.2)).plan = .ok (done ++ rest) := by
  obtain ⟨p₁, p₂, hvalid, hstart, -⟩ := hcourse
  obtain ⟨hreached, b, hb⟩ := hobs.reached_of_start hchecks hsort hr hvalid hstart
  have hsame : i.proposal known (view p₂.2) = i.proposal known (view p.2) := by rw [hb]; rfl
  exact ⟨hsame ▸ hreached.accepted, hsame ▸ hreached.plan⟩

include hobs in
/-- A step that has been carried out was to be done when the course began. -/
theorem Observes.mem_pending_of_course (hchecks : i.checks = Check.standard)
    (hsort : Extension.Sorted (view p.2).installed) (hr : i.Compared known p.1 (view p.2))
    (hcourse : i.Course p done rest q) {st : Step} (hst : st ∈ done) :
    st ∈ (i.proposal known (view p.2)).pending := by
  have hp : (i.proposal known (view p.2)).WellFormed := wellFormed_proposal hsort
  have hplan := (hobs.plan_of_course hchecks hsort hr hcourse).2
  exact (hp.perm_of_plan hplan).subset (List.mem_append_left _ hst)

include hobs h in
/-- **What no step touches** is as it was. -/
theorem Tries.get?_of_untouched (hchecks : i.checks = Check.standard)
    (hsort : Extension.Sorted (view p.2).installed) (hr : i.Compared known p.1 (view p.2))
    (hcourse : i.Course p done rest q) {n : String} (hn : ∀ st ∈ done, n ∉ st.names) :
    (view q.2).target.get? n = (view p.2).target.get? n :=
  (h.reached_of_course hobs hchecks hsort hr
    (I := fun w => w.target.get? n = (view p.2).target.get? n) (fun _ => rfl)
    (fun hst _ hconf hI => (hconf.target n (hn _ hst)).trans hI) hcourse).2.2

include hobs h in
/-- **What a step has written** is the document of the source, to the letter. -/
theorem Tries.get?_of_written (hchecks : i.checks = Check.standard)
    (hsort : Extension.Sorted (view p.2).installed) (hr : i.Compared known p.1 (view p.2))
    (hcourse : i.Course p done rest q) {st : Step} (hst : st ∈ done) {n : String}
    (hn : n ∈ st.written) :
    ∃ d, (i.proposal known (view p.2)).source.get? n = some d ∧
      (view q.2).target.get? n = some d.data := by
  -- the course is taken apart at the step
  obtain ⟨before, after, rfl⟩ := List.append_of_mem hst
  obtain ⟨p₁, p₂, hvalid, hstart, hdone⟩ := hcourse
  have hsteps : (before ++ st :: after).forM i.processStep
      = (before.forM i.processStep >>= fun _ => i.processStep st >>= fun _ =>
        after.forM i.processStep) := List.forM_append
  rw [hsteps, bind_eq_ok_iff] at hdone
  obtain ⟨⟨⟩, q₁, hbefore, hdone⟩ := hdone
  obtain ⟨⟨⟩, ⟨r₂, s₂⟩, hstep, hafter⟩ := bind_eq_ok_iff.1 hdone
  have hcourse₁ : i.Course p before (st :: (after ++ rest)) q₁ :=
    ⟨p₁, p₂, hvalid, by rw [hstart, List.append_assoc, List.cons_append], hbefore⟩
  obtain ⟨hreached, hkeeps, -⟩ := h.reached_of_course hobs hchecks hsort hr
    (I := fun _ => True) (fun _ => trivial) (fun _ _ _ _ => trivial) hcourse₁
  -- the step writes the document
  have hp : (i.proposal known (view q₁.2)).WellFormed := wellFormed_proposal hreached.sorted
  have hpending := hp.mem_pending_of_plan hreached.plan
  obtain ⟨d, hd, -⟩ := hreached.accepted.provides_of_written hp hpending hn
  obtain ⟨-, hok, -⟩ := (h.processStep_ends hobs (r := q₁.1) (s := q₁.2) rfl hreached).apply hstep
  obtain ⟨hreached₂, -, hadv⟩ := hok rfl
  have hwritten : (view s₂).target.get? n = some d.data := by
    have hadopt := hadv.target n
    rw [if_pos (Step.mem_names_iff.2 (.inl hn)), hd] at hadopt
    obtain ⟨m, hm, rfl⟩ := Option.map_eq_some_iff.1
      ((Storage.get?_snapshot_nil _ _).symm.trans hadopt)
    exact hm
  -- no later step touches it
  have hlater : ∀ s ∈ after, n ∉ s.names := by
    intro s hs hname
    have hp₂ := hadv.wellFormed hp
    have hs' := (hp₂.perm_of_plan hreached₂.plan).subset (List.mem_append_left _ hs)
    obtain ⟨hs₁, hne⟩ := (hadv.mem_pending hp hreached.accepted.distinct hpending).1 hs'
    exact Requirements.touched_disjoint hp.disjoint_changelist hp.disjoint_extensionChanges
      hs₁ hpending hne (Step.document_mem_touched.2 hname)
      (Step.document_mem_touched.2 (Step.mem_names_iff.2 (.inl hn)))
  have hend := (h.forM_processStep_ends hobs (I := fun w => w.target.get? n = some d.data) after
    (fun hs _ hconf hI => (hconf.target n (hlater _ hs)).trans hI) hreached₂ rfl hwritten).apply
      hafter
  refine ⟨d, ?_, hend.1⟩
  rw [proposal, ← hkeeps.source]
  exact hd

end Points

/-- **Where no change fails every point of a course is reached.** -/
theorem Sees.exists_course (h : i.Sees view known) (hchecks : i.checks = Check.standard)
    (hsort : Extension.Sorted (view p.2).installed) (hr : i.Compared known p.1 (view p.2))
    (hvalid : (i.validate p).1 = .ok ())
    (hstart : (i.start (i.validate p).2).1 = .ok (done ++ rest)) :
    ∃ q, i.Course p done rest q := by
  have hvalid' : i.validate p = (.ok (), (i.validate p).2) := Prod.ext hvalid rfl
  have hstart' : i.start (i.validate p).2 = (.ok (done ++ rest), (i.start (i.validate p).2).2) :=
    Prod.ext hstart rfl
  have hreached := h.reached_of_start hchecks hsort hr hvalid' hstart'
  obtain ⟨o, v, ⟨q, hdone, -⟩, rfl, -⟩ :=
    (h.forM_processStep_ends done hreached rfl).exists_yields
  exact ⟨q, _, _, hvalid', hstart', hdone⟩

end SiteConfig.Importer
