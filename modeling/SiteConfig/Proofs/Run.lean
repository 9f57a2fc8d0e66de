import Mathlib
import SiteConfig.Proofs.Desk
import SiteConfig.Proofs.Reached

/-!
# A whole import

An import that can be validated makes the target agree with the source
(`SiteConfig.Importer.Sees.run_converges`). It cannot fail midway: each of its steps starts
from a point that has been reached (`SiteConfig.Importer.Reached`), where the step is known
to succeed, and leads to the next one. At the last point nothing is left to do, which is to
say that the target agrees with the source, and a second import finds nothing to do either.
-/

namespace SiteConfig.Importer

open ImportOperation Attempt

variable {σ : Type} {i : Importer σ} {view : σ → Scene} {known : Extension → Option ExtensionInfo}
  {r : ImportRun} {s : σ} {v w : Scene} {st : Step} {rest : List Step}

/-! ### All steps -/

/-- **From a point that has been reached every step succeeds**, one after the other. -/
theorem Sees.processAll_ends (h : i.Sees view known) (total : Nat)
    (hr : i.Reached known r v rest) (hs : view s = v) :
    (i.processAll total rest).Ends (beside view) (r, s) fun o p =>
      (∃ progress, o = .ok (.completed total, progress) ∧ progress.map (·.step) = rest) ∧
        i.Reached known p.1 p.2 [] ∧ i.Keeps known v p.2 := by
  induction rest generalizing r s v with
  | nil =>
    exact (yields_pure (_, []) (by rw [beside_mk, hs])).ends ⟨⟨[], rfl, rfl⟩, hr, Keeps.refl v⟩
  | cons st rest ih =>
    obtain ⟨o, ⟨r₁, v₁⟩, hstep, rfl, hr₁, hk₁⟩ := (h.processStep_ends hs hr).exists_yields
    unfold processAll
    refine hstep.outcome.bind_ends fun ⟨r₂, s₂⟩ h₂ => ?_
    obtain ⟨rfl, hv₂⟩ := beside_eq_iff.1 h₂
    refine (yields_current r₂ hv₂).bind_ends fun ⟨r₃, s₃⟩ h₃ => ?_
    obtain ⟨rfl, hv₃⟩ := beside_eq_iff.1 h₃
    obtain ⟨o, ⟨r₄, v₄⟩, hall, ⟨progress, rfl, hprogress⟩, hr₄, hk₄⟩ := (ih hr₁ hv₃).exists_yields
    refine hall.bind_ends fun p hp => ?_
    exact (yields_pure _ hp).ends
      ⟨⟨_, rfl, congrArg (st :: ·) hprogress⟩, hr₄, hk₁.trans hk₄⟩

/-! ### The import -/

/-- **What an import comes to**: the target agrees with the transformed source, and the
installed extensions are those that the source lists, if it lists any and there is a
lifecycle. -/
structure Settled (i : Importer σ) (known : Extension → Option ExtensionInfo) (v w : Scene) :
    Prop where
  source : w.source = v.source
  target : (Storage.snapshot i.comparer.transforms v.source).Agrees (Storage.snapshot [] w.target)
  installed : ∀ l wanted, i.lifecycle = some l → (i.proposal known v).listed = .ok (some wanted) →
    w.installed = wanted.extensions
  untouched : i.lifecycle = none ∨ (i.proposal known v).listed = .ok none →
    w.installed = v.installed
  unlocked : w.locked = false

/-- At the last point of an import everything is as it should be. -/
theorem Reached.settled (hr : i.Reached known r w []) (hk : i.Keeps known v w) :
    i.Settled known v w := by
  have hp : (i.proposal known w).WellFormed := wellFormed_proposal hr.sorted
  refine ⟨hk.source, ?_, ?_, ?_, (hr.ended rfl).2.2⟩
  · have hagrees := hp.agrees hr.plan
    rwa [proposal, hk.source] at hagrees
  · intro l wanted hl hw
    have hcat : (i.proposal known w).catalog = some known := by rw [proposal, hl]; rfl
    exact hp.installed_eq hr.plan hcat ((listed_of_source_eq hk.source).trans hw)
  · rintro (hl | hl)
    · refine hk.installed fun k wanted hcat => ?_
      rw [proposal, hl] at hcat
      cases hcat
    · refine hk.installed fun k wanted _ hw => ?_
      rw [hl] at hw
      cases hw

/-- What an import does once it has been validated. -/
def carryOut (i : Importer σ) : ImportOperation σ (ImportStatus × List Progress) := do
  let steps ← i.start
  if steps.isEmpty then return (.noChanges, [])
  else i.processAll steps.length steps

/-- An import that is not idle is not validated again before it is carried out. -/
theorem run_of_ne_idle {p : ImportRun × σ} (hstate : p.1.state ≠ .idle) :
    i.run p = i.carryOut p := by
  unfold run
  rw [current_bind, if_neg hstate]
  rfl

/-- An idle import that can be validated is carried out from there. -/
theorem run_of_valid {p p₁ : ImportRun × σ} (hstate : p.1.state = .idle)
    (hvalid : i.validate p = (.ok (), p₁)) : i.run p = i.carryOut p₁ := by
  unfold run
  rw [current_bind, if_pos hstate, bind_apply, Attempt.recover, bind_apply, hvalid]
  rfl

/-- How an import ends that cannot be validated: problems that have been found are no
error. -/
def refusal : ImportError → Except ImportError (ImportStatus × List Progress)
  | .validation problems => .ok (.validationFailed problems, [])
  | e => .error e

/-- An idle import that cannot be validated is not carried out. -/
theorem run_of_invalid {p p₁ : ImportRun × σ} {e : ImportError} (hstate : p.1.state = .idle)
    (hvalid : i.validate p = (.error e, p₁)) : i.run p = (refusal e, p₁) := by
  unfold run
  rw [current_bind, if_pos hstate, bind_apply, Attempt.recover, bind_apply, hvalid]
  cases e <;> rfl

/-- How an import with some steps ends. -/
def statusOf (steps : List Step) : ImportStatus :=
  if steps.isEmpty then .noChanges else .completed steps.length

section Run

variable (h : i.Sees view known) (hchecks : i.checks = Check.standard)
  (hsort : Extension.Sorted v.installed) (hlock : v.locked = false) (hs : view s = v)
  (hacc : (i.proposal known v).Accepted)

include h hsort hlock hs hacc in
theorem Sees.carryOut_ends {steps : List Step} (hplan : (i.proposal known v).plan = .ok steps) :
    i.carryOut.Ends (beside view) (i.validated known r v, s) fun o p =>
      (∃ progress, o = .ok (statusOf steps, progress) ∧ progress.map (·.step) = steps) ∧
        i.Reached known p.1 p.2 [] ∧ i.Keeps known v p.2 := by
  obtain ⟨o, ⟨r₁, v₁⟩, hstart, rfl, hr₁, b, hv₁⟩ :=
    (h.observes.start_ends hs hsort hacc (r := i.validated known r v) rfl rfl rfl hlock hplan).exists_yields
  have hk₁ : i.Keeps known v v₁ := by
    rw [show v₁ = _ from hv₁]
    exact Keeps.locked v b
  refine hstart.bind_ends fun ⟨r₂, s₂⟩ h₂ => ?_
  obtain ⟨rfl, hv₂⟩ := beside_eq_iff.1 h₂
  rcases steps with _ | ⟨st, rest⟩
  · exact (yields_pure _ h₂).ends ⟨⟨[], rfl, rfl⟩, hr₁, hk₁⟩
  · obtain ⟨o, ⟨r₃, v₃⟩, hall, hdone, hr₃, hk₃⟩ :=
      (h.processAll_ends (st :: rest).length hr₁ hv₂).exists_yields
    exact hall.ends ⟨hdone, hr₃, hk₁.trans hk₃⟩

include h hchecks hsort hlock hs hacc in
/-- **An import that is accepted succeeds**: it carries out its plan. -/
theorem Sees.run_ends (hstate : r.state = .idle) (hr : i.Compared known r v) {steps : List Step}
    (hplan : (i.proposal known v).plan = .ok steps) :
    i.run.Ends (beside view) (r, s) fun o p =>
      (∃ progress, o = .ok (statusOf steps, progress) ∧ progress.map (·.step) = steps) ∧
        i.Reached known p.1 p.2 [] ∧ i.Keeps known v p.2 := by
  unfold run
  refine (yields_current r hs).bind_ends fun ⟨r₁, s₁⟩ h₁ => ?_
  obtain ⟨rfl, hv₁⟩ := beside_eq_iff.1 h₁
  rw [if_pos hstate]
  have hvalid : (i.validate >>= fun _ => pure none :
      ImportOperation σ (Option (List String))).Yields (beside view) (r₁, s₁) (.ok none)
        (i.validated known r₁ v, v) :=
    (h.yields_validate hchecks hsort r₁ hr (.inl hstate) hv₁ hacc).bind fun p hp =>
      yields_pure none hp
  refine hvalid.recover.bind_ends fun ⟨r₂, s₂⟩ h₂ => ?_
  obtain ⟨rfl, hv₂⟩ := beside_eq_iff.1 h₂
  exact h.carryOut_ends hsort hlock hv₂ hacc hplan

end Run

/-- **A whole import.** Whenever an import can be validated, it is carried out completely;
the target then agrees with the source and the extensions are those that it lists. An import
that starts afresh from there can be validated and has nothing to do. The comparer may have
compared the storages already, as they are. -/
theorem Sees.run_converges (h : i.Sees view known) (hchecks : i.checks = Check.standard)
    (hsort : Extension.Sorted (view s).installed) (hlock : (view s).locked = false)
    (hstate : r.state = .idle) (hr : i.Compared known r (view s))
    (hvalid : (i.validate (r, s)).1 = .ok ()) :
    ∃ steps progress r' s',
      (i.proposal known (view s)).plan = .ok steps ∧
      (steps = [] ↔ (i.proposal known (view s)).changelist = .empty ∧
        (i.proposal known (view s)).extensionChanges = .empty) ∧
      i.run (r, s) = (.ok (statusOf steps, progress), (r', s')) ∧
      progress.map (·.step) = steps ∧ r'.state = .completed ∧
      i.Settled known (view s) (view s') ∧
      (i.validate (.initial, s')).1 = .ok () ∧ (i.run (.initial, s')).1 = .ok (.noChanges, []) := by
  have hacc := (h.validate_eq_ok_iff hchecks hsort r hr (.inl hstate) rfl).1 hvalid
  obtain ⟨steps, hplan⟩ := hacc.ordered
  obtain ⟨o, ⟨r₁, v₁⟩, ⟨⟨r', s'⟩, hrun, hview⟩, ⟨progress, rfl, hprogress⟩, hr₁, hk₁⟩ :=
    (h.run_ends hchecks hsort hlock rfl hacc hstate hr hplan).exists_yields
  obtain ⟨rfl, rfl⟩ := beside_eq_iff.1 hview
  -- what the run has reached is accepted, with nothing left to do
  have hsettled := hr₁.settled hk₁
  refine ⟨steps, progress, r', s', hplan, (wellFormed_proposal hsort).plan_eq_nil_iff hplan, hrun,
    hprogress, (hr₁.ended rfl).1, hsettled, ?_, ?_⟩
  · exact (h.validate_eq_ok_iff hchecks hr₁.sorted _ (compared_initial _ _ _) (.inl rfl) rfl).2
      hr₁.accepted
  · -- with nothing left to do, carrying out the plan is carrying out no step
    obtain ⟨o, p, ⟨p', hagain, -⟩, ⟨progress', rfl, hnone⟩, -⟩ :=
      (h.run_ends hchecks hr₁.sorted hsettled.unlocked rfl hr₁.accepted (r := .initial) rfl
        (compared_initial _ _ _) hr₁.plan).exists_yields
    rw [hagain, List.map_eq_nil_iff.1 hnone]
    rfl

/-- All of this happens on a desk with everything to do. -/
theorem run_converges_moving :
    ((Desk.importer Desk.plain).validate (.initial, Desk.moving)).1 = .ok () ∧
      ∃ steps progress r' d', (Desk.importer Desk.plain).run (.initial, Desk.moving)
          = (.ok (statusOf steps, progress), (r', d')) ∧
        progress.map (·.step) = steps ∧
        (Desk.importer Desk.plain).Settled Desk.plain.script.info?
          (Desk.moving.scene Desk.plain) (d'.scene Desk.plain) := by
  have hvalid : ((Desk.importer Desk.plain).validate (.initial, Desk.moving)).1 = .ok () := by rfl
  obtain ⟨steps, progress, r', d', -, -, hrun, hprogress, -, hsettled, -⟩ :=
    (Desk.sees Desk.plain).run_converges (s := Desk.moving) rfl (List.pairwise_singleton _ _) rfl rfl
      (compared_initial _ _ _) hvalid
  exact ⟨hvalid, steps, progress, r', d', hrun, hprogress, hsettled⟩

end SiteConfig.Importer
