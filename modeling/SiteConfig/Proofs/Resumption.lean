import Mathlib
import SiteConfig.Proofs.Desk
import SiteConfig.Proofs.Reached

/-!
# Resuming an import

An import that is given up between two steps can be resumed by another importer, which knows
nothing of the first one (`SiteConfig.Importer.Sees.resume`). It validates what is there by
then and plans afresh; what it plans are the steps that the first one has left, in the same
order. This is what a point that has been reached amounts to
(`SiteConfig.Importer.Reached`): its steps are the plan of the scene as it is.
-/

namespace SiteConfig.Importer

open ImportOperation Attempt

variable {σ : Type} {i j : Importer σ} {view : σ → Scene} {known : Extension → Option ExtensionInfo}
  {r : ImportRun} {s : σ} {v w : Scene} {rest : List Step}

/-! ### Some of the steps -/

/-- **From a point that has been reached any number of steps succeed.** -/
theorem Sees.forM_processStep_ends (h : i.Sees view known) (done : List Step)
    (hr : i.Reached known r v (done ++ rest)) (hs : view s = v) :
    (done.forM i.processStep).Ends (beside view) (r, s) fun o p =>
      o = .ok () ∧ i.Reached known p.1 p.2 rest := by
  refine (h.tries.forM_processStep_ends h.observes (I := fun _ => True) done
    (fun _ _ _ _ => trivial) hr hs trivial).imp fun o p hp => ?_
  rcases o with e | ⟨⟩
  · exact (hp.2.2 e rfl).elim
  · exact ⟨rfl, (hp.2.1 rfl).1⟩

/-- Whoever gives up an import gives the lock back, if there is one to give back. -/
theorem Sees.yields_abandon (h : i.Sees view known) (hr : i.Reached known r v rest)
    (hs : view s = v) :
    i.abandon.Yields (beside view) (r, s) (.ok ())
      ({ r with guarded := false }, { v with locked := false }) := by
  unfold abandon
  refine (yields_current r hs).bind fun ⟨r₁, s₁⟩ h₁ => ?_
  obtain ⟨rfl, hv₁⟩ := beside_eq_iff.1 h₁
  by_cases hnil : rest = []
  · obtain ⟨-, hguarded, hlocked⟩ := hr.ended hnil
    have hr₁ : { r₁ with guarded := false } = r₁ := by rw [← hguarded]
    have hv : { v with locked := false } = v := by rw [← hlocked]
    rw [if_neg (by simp [hguarded]), hr₁, hv]
    exact yields_pure () h₁
  · rw [if_pos (hr.active hnil).2.1]
    exact h.observes.reports.yields_release r₁ hv₁

/-! ### What has been validated and planned -/

/-- Only an import that may be validated is. -/
theorem mayValidate_of_validate {p : ImportRun × σ} (h : (i.validate p).1 = .ok ()) :
    MayValidate p.1 := by
  by_contra hno
  have hstate : p.1.state ≠ .idle ∧ p.1.state ≠ .validated := not_or.1 hno
  have hfail : i.validate p = (.error (.invalidState "validate" p.1.state.text), p) := by
    show (if p.1.state ≠ .idle ∧ p.1.state ≠ .validated then _ else _ :
      ImportOperation σ Unit) p = _
    rw [if_pos hstate]
    rfl
  rw [hfail] at h
  cases h

/-- Only an import that finds the lock free is planned. -/
theorem Observes.free_of_start (h : i.Observes view known) (hstate : r.state = .validated)
    {steps : List Step} (hstart : (i.start (r, s)).1 = .ok steps) : (view s).locked = false := by
  by_contra hlocked
  rw [Bool.not_eq_false] at hlocked
  obtain ⟨s', hheld, -⟩ := h.acquire s
  rw [hlocked] at hheld
  rw [start_of_held hstate hheld] at hstart
  cases hstart

/-! ### Resumption -/

/-- An import that is validated where what is proposed is accepted plans just what is
proposed. -/
theorem Sees.yields_validate_start (h : i.Sees view known) (hchecks : i.checks = Check.standard)
    (hsort : Extension.Sorted v.installed) (hlock : v.locked = false)
    (hacc : (i.proposal known v).Accepted) (hplan : (i.proposal known v).plan = .ok rest)
    (hs : view s = v) :
    ∃ q₁ q₂, i.validate (.initial, s) = (.ok (), q₁) ∧ i.start q₁ = (.ok rest, q₂) := by
  obtain ⟨⟨r₁, s₁⟩, hvalid, h₁⟩ := h.yields_validate hchecks hsort .initial
    (compared_initial i known v) (.inl rfl) hs hacc
  obtain ⟨rfl, hv₁⟩ := beside_eq_iff.1 h₁
  obtain ⟨o, p, ⟨q₂, hstart, -⟩, rfl, -⟩ :=
    (h.observes.start_ends hv₁ hsort hacc (r := i.validated known .initial v) rfl rfl rfl hlock
      hplan).exists_yields
  exact ⟨_, q₂, hvalid, hstart⟩

/-- What is planned after validation is what is proposed, from a first point that has been
reached; of the scene only the lock has changed. -/
theorem Observes.reached_of_start (h : i.Observes view known) (hchecks : i.checks = Check.standard)
    (hsort : Extension.Sorted (view s).installed) (hr : i.Compared known r (view s))
    {p₁ p₂ : ImportRun × σ} {steps : List Step} (hvalid : i.validate (r, s) = (.ok (), p₁))
    (hstart : i.start p₁ = (.ok steps, p₂)) :
    i.Reached known p₂.1 (view p₂.2) steps ∧ ∃ b, view p₂.2 = { view s with locked := b } := by
  have hstate : MayValidate r := mayValidate_of_validate (i := i) (p := (r, s)) (by rw [hvalid])
  have hends := h.validate_ends hchecks hsort r hr hstate rfl
  rw [Attempt.Ends, hvalid] at hends
  obtain ⟨r₁, s₁⟩ := p₁
  obtain ⟨hv₁, hacc, hr₁⟩ := hends
  simp only [beside_mk] at hv₁ hr₁
  subst hr₁
  -- planning has succeeded, and so the lock was free
  have hlock := h.free_of_start (r := i.validated known r (view s)) rfl (by rw [hstart])
  rw [hv₁] at hlock
  obtain ⟨steps', hplan⟩ := hacc.ordered
  obtain ⟨o, p, ⟨q₂, hq₂, hview⟩, rfl, hreached, b, hb⟩ :=
    (h.start_ends hv₁ hsort hacc (r := i.validated known r (view s)) rfl rfl rfl hlock
      hplan).exists_yields
  rw [hstart, Prod.mk.injEq, Except.ok.injEq] at hq₂
  obtain ⟨rfl, rfl⟩ := hq₂
  rw [← hview] at hreached hb
  exact ⟨hreached, b, hb⟩

theorem Sees.reached_of_start (h : i.Sees view known) (hchecks : i.checks = Check.standard)
    (hsort : Extension.Sorted (view s).installed) (hr : i.Compared known r (view s))
    {p₁ p₂ : ImportRun × σ} {steps : List Step} (hvalid : i.validate (r, s) = (.ok (), p₁))
    (hstart : i.start p₁ = (.ok steps, p₂)) : i.Reached known p₂.1 (view p₂.2) steps :=
  (h.observes.reached_of_start hchecks hsort hr hvalid hstart).1

/-- **Resuming an import.** An import that has been validated and planned can carry out any
number of its steps. When it is given up then, any other importer with the same transforms,
schemas and lifecycle that finds things as they were left can validate the import, and what
it plans are the steps that are left. -/
theorem Sees.resume (h : i.Sees view known) (hj : j.Sees view known)
    (hchecks : i.checks = Check.standard) (hchecks' : j.checks = Check.standard)
    (htransforms : j.comparer.transforms = i.comparer.transforms) (hschemas : j.schemas = i.schemas)
    (hlifecycle : j.lifecycle = i.lifecycle) (hsort : Extension.Sorted (view s).installed)
    (hr : i.Compared known r (view s)) {p₁ p₂ : ImportRun × σ} {steps : List Step}
    (hvalid : i.validate (r, s) = (.ok (), p₁)) (hstart : i.start p₁ = (.ok steps, p₂)) (k : Nat) :
    ∃ p₃ p₄, (steps.take k).forM i.processStep p₂ = (.ok (), p₃) ∧
      i.abandon p₃ = (.ok (), p₄) ∧
      ∀ s', view s' = view p₄.2 → ∃ q₁ q₂,
        j.validate (.initial, s') = (.ok (), q₁) ∧ j.start q₁ = (.ok (steps.drop k), q₂) := by
  have hreached := h.reached_of_start hchecks hsort hr hvalid hstart
  obtain ⟨r₂, s₂⟩ := p₂
  rw [← List.take_append_drop k steps] at hreached
  obtain ⟨o, ⟨r₃, v₃⟩, ⟨p₃, hdone, h₃⟩, rfl, hr₃⟩ :=
    (h.forM_processStep_ends (steps.take k) hreached rfl).exists_yields
  obtain ⟨rfl, hv₃⟩ := beside_eq_iff.1 h₃
  obtain ⟨p₄, habandon, h₄⟩ := h.yields_abandon hr₃ hv₃
  refine ⟨p₃, p₄, hdone, habandon, fun s' hs' => ?_⟩
  have hview : view s' = { v₃ with locked := false } := hs'.trans (beside_eq_iff.1 h₄).2
  -- what the other importer finds proposed is what the first one has reached
  have hsame : j.proposal known { v₃ with locked := false } = i.proposal known v₃ := by
    rw [proposal, proposal, htransforms, hschemas, hlifecycle]
  have hsorted : Extension.Sorted v₃.installed := hr₃.sorted
  refine hj.yields_validate_start hchecks' (v := { v₃ with locked := false }) hsorted rfl ?_ ?_ hview
  · rw [hsame]
    exact hr₃.accepted
  · rw [hsame]
    exact hr₃.plan

/-- Three steps of an import with everything to do are carried out; four are left. -/
theorem resume_moving :
    ∃ p₁ p₂ p₃ p₄ q₁ q₂, ∃ done rest : List Step,
      (Desk.importer Desk.plain).validate (.initial, Desk.moving) = (.ok (), p₁) ∧
      (Desk.importer Desk.plain).start p₁ = (.ok (done ++ rest), p₂) ∧
      done.length = 3 ∧ rest.length = 4 ∧
      done.forM (Desk.importer Desk.plain).processStep p₂ = (.ok (), p₃) ∧
      (Desk.importer Desk.plain).abandon p₃ = (.ok (), p₄) ∧
      (Desk.importer Desk.plain).validate (.initial, p₄.2) = (.ok (), q₁) ∧
      (Desk.importer Desk.plain).start q₁ = (.ok rest, q₂) := by
  have hvalid : ((Desk.importer Desk.plain).validate (.initial, Desk.moving)).1 = .ok () := by rfl
  have hstart : ((Desk.importer Desk.plain).start
      ((Desk.importer Desk.plain).validate (.initial, Desk.moving)).2).1
        = .ok ([.delete "shop.cart", .uninstall (.module "shop"), .install (.module "blog")] ++
          [.create "blog.news", .create "core.extension", .rename "blog.start" "blog.home",
            .update "blog.style"]) := by rfl
  obtain ⟨p₃, p₄, hdone, habandon, hresume⟩ :=
    (Desk.sees Desk.plain).resume (Desk.sees Desk.plain) (s := Desk.moving) rfl rfl rfl rfl rfl
      (List.pairwise_singleton _ _) (compared_initial _ _ _) (Prod.ext hvalid rfl)
      (Prod.ext hstart rfl) 3
  obtain ⟨q₁, q₂, hvalid', hstart'⟩ := hresume p₄.2 rfl
  exact ⟨_, _, p₃, p₄, q₁, q₂, _, _, Prod.ext hvalid rfl, Prod.ext hstart rfl, rfl, rfl, hdone,
    habandon, hvalid', hstart'⟩

end SiteConfig.Importer
