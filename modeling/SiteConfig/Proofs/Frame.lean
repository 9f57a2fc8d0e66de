import Mathlib
import SiteConfig.Proofs.Consistency
import SiteConfig.Proofs.Freshness
import SiteConfig.Proofs.Journal
import SiteConfig.Proofs.Surroundings

/-!
# What calls leave alone

The target and the installed extensions are changed by the steps of an import, and by nothing
else that it does. What is **seen** of the state here is any part of it that is not changed by
looking at the storages, the extensions and the lock, by taking the lock and giving it back, and
by recording events (`SiteConfig.Importer.Discreet`); of what writing, deleting, installing and
uninstalling do nothing is assumed. Every call is then some **deeds** one after the other
(`SiteConfig.Importer.Deed`), and something is seen only of those that carry out the next step of
an import at work.

A call that is **turned away** (`SiteConfig.ImportError.TurnsAway`) leaves the import and its
journal as they are as well. There is one exception: a run that begins with an idle import has
compared the storages and validated the import by the time that it finds the lock held
(`SiteConfig.Importer.Discreet.call_bounded`).
-/

namespace SiteConfig

open Attempt

/-- A call is turned away as it does not fit how far the import has come, or as another one is at
work. -/
inductive ImportError.TurnsAway : ImportError → Prop
  | state (operation state : String) : TurnsAway (.invalidState operation state)
  | order (expected given : String) : TurnsAway (.outOfOrderStep expected given)
  | contention (key : String) : TurnsAway (.lockContention key)

/-- A step has been tried, and has failed. -/
inductive ImportError.Midway : ImportError → Prop
  | step (number total : Nat) (step : String) (completed : Nat) (reason : String) :
      Midway (.stepFailed number total step completed reason)

theorem ImportError.Outside.not_turnsAway {e : ImportError} (h : e.Outside) : ¬e.TurnsAway := by
  rintro ⟨⟩ <;> cases h

theorem ImportError.Midway.not_turnsAway {e : ImportError} (h : e.Midway) : ¬e.TurnsAway := by
  rintro ⟨⟩ <;> cases h

namespace Importer

open ImportOperation ImportRun

variable {σ τ ρ : Type} {i : Importer σ} {r : ImportRun} {s : σ} {p : ImportRun × σ}
  {e : ImportError} {st : Step} {rest : List Step}

/-! ### Calls that are turned away -/

/-- An import that may be validated is not turned away from validation. -/
theorem validate_not_turnsAway (hstate : MayValidate r) (h : (i.validate (r, s)).1 = .error e) :
    ¬e.TurnsAway := by
  have hraises := raises_review i ({ r with state := .validating }, s)
  rcases hreview : i.review ({ r with state := .validating }, s) with ⟨e' | problems, r₁, s₁⟩ <;>
    rw [hreview] at hraises
  · rw [validate_of_error hstate hreview] at h
    cases h
    exact (hraises _ rfl).not_turnsAway
  · by_cases hnone : problems = []
    · subst hnone
      rw [validate_of_accepted hstate hreview] at h
      cases h
    · rw [validate_of_problems hstate hnone hreview] at h
      cases h
      rintro ⟨⟩

/-- Whoever is turned away from validation leaves everything as it is. -/
theorem validate_turnedAway (h : (i.validate (r, s)).1 = .error e) (he : e.TurnsAway) :
    (i.validate (r, s)).2 = (r, s) := by
  by_cases hstate : MayValidate r
  · exact absurd he (validate_not_turnsAway hstate h)
  · rw [validate_of_not_mayValidate i hstate]

/-- Whether something has changed is found out, or a storage fails. -/
theorem raises_ensureFresh (i : Importer σ) :
    i.ensureFresh.Raises fun e => e.Outside ∨ e = .staleChangelist := by
  unfold ensureFresh
  refine Raises.bind (fun _ _ he => nomatch he) fun r => ?_
  refine (raises_mapError fun cause => .inl (.storage cause)).zoom.bind fun stale => ?_
  split
  · refine Raises.bind (fun _ _ he => nomatch he) fun _ _ e he => ?_
    cases he
    exact .inr rfl
  · exact raises_pure ()

/-- With the lock taken no import is turned away from planning. -/
theorem raises_prepare (i : Importer σ) :
    (i.releasingOnFailure (i.ensureFresh >>= fun _ => i.plan)).Raises (¬·.TurnsAway) := by
  have hplan : (i.ensureFresh >>= fun _ => i.plan).Raises (¬·.TurnsAway) := by
    refine ((raises_ensureFresh i).imp fun e he => ?_).bind fun _ =>
      (raises_plan i).imp fun e he => ?_
    · obtain hout | rfl := he
      · exact hout.not_turnsAway
      · rintro ⟨⟩
    · obtain hout | ⟨cycles, rfl⟩ := he
      · exact hout.not_turnsAway
      · rintro ⟨⟩
  intro p e he
  rcases hmade : (i.ensureFresh >>= fun _ => i.plan) p with ⟨e' | steps, r₁, s₁⟩
  · rw [releasingOnFailure_of_error hmade] at he
    cases he
    exact hplan p _ (by rw [hmade])
  · unfold releasingOnFailure at he
    rw [Attempt.recover, hmade] at he
    cases he

/-- The lock fails with an error of its own, which is not that it is held. -/
def LockFails (i : Importer σ) (e : ImportError) : Prop :=
  ∃ s, (i.lock.acquire i.lockKey s).1 = .error e

/-- What is wrong with a lock file turns nobody away. -/
theorem raises_openFile (d : LockTable.Directory) (key : String) :
    (d.openFile key).Raises fun e => ¬e.TurnsAway := by
  unfold LockTable.Directory.openFile
  refine Raises.bind (fun t e he => ?_) fun _ t e he => ?_
  all_goals
    simp only at he
    split at he <;> cases he
    rintro ⟨⟩

/-- **The locks there are** fail as locks do, and turn nobody away by this: in memory they do not fail
at all, and in files they fail for what is wrong with the files. -/
theorem LockFails.not_turnsAway {held : Cell σ LockTable.Held}
    (hlock : i.lock = .memory held ∨ ∃ d tree, i.lock = .files d tree held) (h : i.LockFails e) :
    ¬e.TurnsAway := by
  have htake : ∀ key, (LockTable.take held key).Raises fun e => ¬e.TurnsAway := fun key => by
    unfold LockTable.take
    refine Raises.bind (fun _ _ he => by cases he) fun l => ?_
    split
    · exact raises_pure _
    · exact Raises.bind (fun _ _ he => by cases he) fun _ => raises_pure _
  obtain ⟨s, hs⟩ := h
  obtain hlock | ⟨d, tree, hlock⟩ := hlock <;> rw [hlock] at hs
  · exact htake _ s e hs
  · -- the file is opened before the lock is taken
    refine Raises.bind (raises_openFile d _).zoom (fun _ => ?_) s e hs
    exact Raises.bind (fun _ _ he => by cases he) fun t => htake _

/-- A lock that is not taken is held, or has failed. -/
theorem acquire_leaves (i : Importer σ) (r : ImportRun) (s : σ) :
    (i.acquire (r, s)).2 = (r, (i.lock.acquire i.lockKey s).2) ∧
      ∀ e, (i.acquire (r, s)).1 = .error e → e = .lockContention i.lockKey ∨ i.LockFails e := by
  unfold acquire
  rw [outside_bind]
  rcases hlock : i.lock.acquire i.lockKey s with ⟨e' | _ | _, s₁⟩
  · refine ⟨rfl, fun e he => .inr ⟨s, ?_⟩⟩
    cases he
    rw [hlock]
  · refine ⟨rfl, fun e he => .inl ?_⟩
    cases he
    rfl
  · exact ⟨rfl, fun e he => nomatch he⟩

/-- **An import that is turned away from planning** stays as it is; no more has happened than that
the lock has not been taken, and nothing at all if the import has not been validated. -/
theorem start_turnedAway (h : (i.start (r, s)).1 = .error e) (he : e.TurnsAway) :
    r.state ≠ .validated ∧ (i.start (r, s)).2 = (r, s) ∨
      (e = .lockContention i.lockKey ∨ i.LockFails e) ∧
        (i.start (r, s)).2 = (r, (i.lock.acquire i.lockKey s).2) := by
  by_cases hstate : r.state = .validated
  · refine .inr ?_
    obtain ⟨hleft, herror⟩ := acquire_leaves i r s
    rcases hacquire : i.acquire (r, s) with ⟨e' | ⟨⟩, p⟩ <;> rw [hacquire] at hleft herror <;>
      obtain rfl := hleft
    · rw [start_eq, current_bind, if_neg (not_not.2 hstate), bind_apply, hacquire] at h ⊢
      cases h
      exact ⟨herror e rfl, rfl⟩
    · -- from here on there are other errors only
      have hraises := raises_prepare i (r, (i.lock.acquire i.lockKey s).2)
      rw [start_eq, current_bind, if_neg (not_not.2 hstate), bind_apply, hacquire] at h
      simp only at h
      rw [bind_apply] at h
      rcases hmade : i.releasingOnFailure (i.ensureFresh >>= fun _ => i.plan)
        (r, (i.lock.acquire i.lockKey s).2) with ⟨e' | steps, r₁, s₁⟩ <;> rw [hmade] at h hraises
      · cases h
        exact absurd he (hraises _ rfl)
      · simp only at h
        rw [launch_apply] at h
        cases h
  · rw [start_of_not_validated hstate]
    exact .inl ⟨hstate, rfl⟩

/-- A step that is not the next one is turned away. -/
theorem processStep_turnedAway (hnext : r.nextStep? ≠ some st) :
    ∃ e : ImportError, e.TurnsAway ∧ i.processStep st (r, s) = (.error e, (r, s)) := by
  rcases hr : r.nextStep? with _ | expected
  · refine ⟨_, .state "process a step" r.state.text, ?_⟩
    rw [processStep, bind_apply, expectedStep_of_none hr]
  · have hne : expected ≠ st := fun heq => hnext (heq ▸ hr)
    refine ⟨_, .order expected.text st.text, ?_⟩
    rw [processStep, bind_apply, expectedStep_of_some hr]
    simp only
    rw [if_pos hne]
    rfl

/-- After a step that succeeds the others are carried out. -/
theorem processAll_of_ok {p₁ q : ImportRun × σ} {total : Nat} {x : ImportStatus × List Progress}
    (hstep : i.processStep st p = (.ok (), p₁)) (hall : i.processAll total rest p₁ = (.ok x, q)) :
    i.processAll total (st :: rest) p
      = (.ok (x.1, ⟨st, p₁.1.position, total⟩ :: x.2), q) := by
  rw [Importer.processAll, bind_apply, always, outcome, hstep]
  show (i.processAll total rest >>= fun x => pure (x.1, ⟨st, p₁.1.position, total⟩ :: x.2) :
    ImportOperation σ (ImportStatus × List Progress)) p₁ = _
  rw [bind_apply, hall]
  rfl

/-- After a step that fails no other one is carried out. -/
theorem processAll_of_stepFailed {p₁ : ImportRun × σ} {number total total' completed : Nat}
    {text reason : String}
    (hstep : i.processStep st p = (.error (.stepFailed number total text completed reason), p₁)) :
    i.processAll total' (st :: rest) p
      = (.ok (.failedMidway completed total text reason, []), p₁) := by
  rw [Importer.processAll, bind_apply, always, outcome, hstep]
  rfl

/-- Carrying out the steps that are left comes to an end, which may be that one of them fails. -/
theorem exists_processAll (total : Nat) (hr : r.Awaits rest) (s : σ) :
    ∃ x q, i.processAll total rest (r, s) = (.ok x, q) := by
  induction rest generalizing r s with
  | nil => exact ⟨_, _, rfl⟩
  | cons st rest ih =>
    obtain ⟨s₁, hstep | ⟨reason, hstep⟩⟩ := processStep_apply i hr.nextStep? s
    · obtain ⟨x, q, hall⟩ := ih hr.stepped s₁
      exact ⟨_, q, processAll_of_ok hstep hall⟩
    · exact ⟨_, _, processAll_of_stepFailed hstep⟩

/-- **A plan is carried out without an error**, or there is none. -/
theorem carryOut_error (h : (i.carryOut p).1 = .error e) :
    (i.start p).1 = .error e ∧ (i.carryOut p).2 = (i.start p).2 := by
  obtain ⟨r, s⟩ := p
  have hends := start_ends i r s
  unfold Attempt.Ends at hends
  unfold carryOut at h ⊢
  rw [bind_apply] at h ⊢
  rcases hstart : i.start (r, s) with ⟨e' | steps, r₁, s₁⟩ <;> rw [hstart] at h hends
  · cases h
    exact ⟨rfl, rfl⟩
  · obtain ⟨-, t, heq⟩ := hends
    obtain rfl : r₁ = r.planned steps t := heq
    rcases steps with _ | ⟨st, rest⟩
    · cases h
    · have hawaits := awaits_planned r t (List.cons_ne_nil st rest)
      obtain ⟨x, q, hall⟩ := exists_processAll (i := i) (st :: rest).length hawaits s₁
      have herror : (i.processAll (st :: rest).length (st :: rest)
          (r.planned (st :: rest) t, s₁)).1 = .error e := h
      rw [hall] at herror
      cases herror

/-! ### What validating and planning keep -/

section Looks

variable {I : σ → Prop} (h : i.Looks I)

include h in
/-- What is kept by looking is kept by validating an import that is validated, even if it is not
kept by the journal. -/
theorem Looks.validate_of_ok {q : ImportRun × σ} (hvalid : i.validate p = (.ok (), q))
    (hp : I p.2) : I q.2 := by
  obtain ⟨r, s⟩ := p
  by_cases hstate : MayValidate r
  · have hlooks := h.stable_review ({ r with state := .validating }, s) hp
    rcases hreview : i.review ({ r with state := .validating }, s) with ⟨e | problems, r₁, s₁⟩ <;>
      rw [hreview] at hlooks
    · rw [validate_of_error hstate hreview] at hvalid
      cases hvalid
    · by_cases hnone : problems = []
      · subst hnone
        rw [validate_of_accepted hstate hreview] at hvalid
        cases hvalid
        exact hlooks
      · rw [validate_of_problems hstate hnone hreview] at hvalid
        cases hvalid
  · rw [validate_of_not_mayValidate i hstate] at hvalid
    cases hvalid

variable (hjournal : ∀ journal, i.journal = some journal → ∀ e, Stable I (journal e))

include hjournal in
theorem stable_note (e : Event) (hs : I s) : I (i.note e s) := by
  unfold note
  rcases hj : i.journal with _ | journal
  · exact hs
  · exact hjournal journal hj e s hs

variable (hacquire : Stable I (i.lock.acquire i.lockKey))
  (hrelease : Stable I (i.lock.release i.lockKey))

include h hjournal hacquire hrelease in
/-- What is kept by looking, by the lock and by the journal is kept by planning. -/
theorem Looks.stable_start : Stable (fun p => I p.2) i.start := by
  rw [start_eq]
  refine stable_current.bind fun r => ?_
  split
  · exact stable_fail _
  · refine (Importer.stable_acquire hacquire).bind fun _ =>
      (stable_releasingOnFailure hrelease
        (h.stable_ensureFresh.bind fun _ => h.stable_plan)).bind fun steps => ?_
    rintro ⟨r, s⟩ hs
    rw [launch_apply]
    show I (ite _ _ _)
    split
    · exact hrelease s hs
    · exact stable_note hjournal _ hs

end Looks

/-! ### Nothing is seen -/

/-- **Nothing is seen of looking** at the storages and at the extensions, nor of the lock. -/
structure Discreet (i : Importer σ) (view : σ → τ) : Prop where
  looks : ∀ v, i.Looks (view · = v)
  acquire : Quiet view (i.lock.acquire i.lockKey)
  release : Quiet view (i.lock.release i.lockKey)
  isLocked : Quiet view (i.lock.isLocked i.lockKey)

section Discreet

variable {seen : σ → τ} (h : i.Discreet seen)

include h in
/-- Nothing is seen of validating an import that is validated, even if something would be seen of
the journal. -/
theorem Discreet.validate_of_ok {q : ImportRun × σ} (hvalid : i.validate p = (.ok (), q)) :
    seen q.2 = seen p.2 := (h.looks (seen p.2)).validate_of_ok hvalid rfl

variable (hjournal : ∀ journal, i.journal = some journal → ∀ e, Quiet seen (journal e))

include hjournal in
theorem quiet_note (e : Event) (s : σ) : seen (i.note e s) = seen s := by
  unfold note
  rcases hj : i.journal with _ | journal
  · rfl
  · exact hjournal journal hj e s

include h hjournal in
/-- **Nothing is seen of validating**, whatever comes of it. -/
theorem Discreet.quiet_validate : Quiet (fun p => seen p.2) i.validate := by
  rintro ⟨r, s⟩
  by_cases hstate : MayValidate r
  · have hlooks := (h.looks (seen s)).stable_review ({ r with state := .validating }, s) rfl
    rcases hreview : i.review ({ r with state := .validating }, s) with ⟨e | problems, r₁, s₁⟩ <;>
      rw [hreview] at hlooks
    · rw [validate_of_error hstate hreview]
      exact hlooks
    · by_cases hnone : problems = []
      · subst hnone
        rw [validate_of_accepted hstate hreview]
        exact hlooks
      · rw [validate_of_problems hstate hnone hreview]
        exact (quiet_note hjournal _ s₁).trans hlooks
  · rw [validate_of_not_mayValidate i hstate]

include h hjournal in
/-- **Nothing is seen of planning**, whatever comes of it. -/
theorem Discreet.quiet_start : Quiet (fun p => seen p.2) i.start :=
  quiet_iff_stable.2 fun v => (h.looks v).stable_start
    (fun journal hj e => quiet_iff_stable.1 (hjournal journal hj e) v)
    (quiet_iff_stable.1 h.acquire v) (quiet_iff_stable.1 h.release v)

include h in
theorem Discreet.quiet_alreadyImporting : Quiet (fun p => seen p.2) i.alreadyImporting :=
  quiet_iff_stable.2 fun v => stable_alreadyImporting (quiet_iff_stable.1 h.isLocked v)

end Discreet

/-! ### Deeds -/

/-- **What an import does at a time**: nothing is seen of it, or it is at work and carries out its
next step. -/
inductive Deed (i : Importer σ) (seen : σ → τ) : ImportRun × σ → ImportRun × σ → Prop
  | validated (p : ImportRun × σ) (h : seen (i.validate p).2.2 = seen p.2) :
      Deed i seen p (i.validate p).2
  | planned (p : ImportRun × σ) (h : seen (i.start p).2.2 = seen p.2) : Deed i seen p (i.start p).2
  | asked (p : ImportRun × σ) (h : seen (i.alreadyImporting p).2.2 = seen p.2) :
      Deed i seen p (i.alreadyImporting p).2
  | carriedOut (p : ImportRun × σ) {st : Step} (hactive : p.1.state.isActive = true)
      (hnext : p.1.steps[p.1.position]? = some st) : Deed i seen p (i.processStep st p).2

/-- Some deeds, one after the other. -/
def Deeds (i : Importer σ) (seen : σ → τ) : ImportRun × σ → ImportRun × σ → Prop :=
  Relation.ReflTransGen (i.Deed seen)

section Deeds

variable {seen : σ → τ} (h : i.Discreet seen)
  (hjournal : ∀ journal, i.journal = some journal → ∀ e, Quiet seen (journal e))

include h hjournal in
/-- **Whatever is called, some deeds are done.** -/
theorem Discreet.maintains_deeds (p : ImportRun × σ) : i.Maintains (i.Deeds seen p) where
  validate p' hp := hp.tail (.validated p' (h.quiet_validate hjournal p'))
  start p' hp := hp.tail (.planned p' (h.quiet_start hjournal p'))
  processStep st p' hp := by
    by_cases hnext : p'.1.nextStep? = some st
    · exact hp.tail (.carriedOut p' (nextStep?_eq_some_iff.1 hnext).1
        (position_lt_of_nextStep hnext).2)
    · obtain ⟨e, heq⟩ := processStep_of_ne (i := i) (s := p'.2) hnext
      rw [heq]
      exact hp

include h hjournal in
theorem Discreet.deeds_of_call (p : ImportRun × σ) (q : Call) : i.Deeds seen p (q.leaves i p) :=
  (h.maintains_deeds hjournal p).call
    (fun p' hp => hp.tail (.asked p' (h.quiet_alreadyImporting p'))) .refl q

end Deeds

/-! ### Calls -/

/-- What a call comes to, whatever it gives. -/
def Call.outcome (i : Importer σ) (p : ImportRun × σ) : Call → Except ImportError Unit
  | .validate => (i.validate p).1
  | .start => (i.start p).1.map fun _ => ()
  | .processStep st => (i.processStep st p).1
  | .processNext => (i.processNext p).1.map fun _ => ()
  | .run => (i.run p).1.map fun _ => ()
  | .alreadyImporting => (i.alreadyImporting p).1.map fun _ => ()

/-- **Only these calls carry out steps**: one that is given the next step, and those that find the
next steps themselves. -/
def Call.CarriesOut (r : ImportRun) : Call → Prop
  | .processStep st => r.nextStep? = some st
  | .processNext => r.nextStep?.isSome = true
  | .run => True
  | _ => False

/-- An error of a run is found before its first step: while validating, or while planning. -/
theorem run_error (h : (i.run p).1 = .error e) :
    (p.1.state = .idle ∧ (i.validate p).1 = .error e ∧ (i.run p).2 = (i.validate p).2) ∨
      (p.1.state = .idle ∧ ∃ p₁, i.validate p = (.ok (), p₁) ∧ (i.start p₁).1 = .error e ∧
        (i.run p).2 = (i.start p₁).2) ∨
      (p.1.state ≠ .idle ∧ (i.start p).1 = .error e ∧ (i.run p).2 = (i.start p).2) := by
  by_cases hstate : p.1.state = .idle
  · rcases hvalid : i.validate p with ⟨e' | ⟨⟩, p₁⟩
    · rw [run_of_invalid hstate hvalid] at h ⊢
      refine .inl ⟨hstate, ?_, rfl⟩
      cases e' <;> cases h <;> rfl
    · rw [run_of_valid hstate hvalid] at h ⊢
      exact .inr (.inl ⟨hstate, p₁, rfl, carryOut_error h⟩)
  · rw [run_of_ne_idle hstate] at h ⊢
    exact .inr (.inr ⟨hstate, carryOut_error h⟩)

/-- A step that is tried and fails says so. -/
theorem processStep_midway (hnext : r.nextStep? = some st)
    (h : (i.processStep st (r, s)).1 = .error e) : e.Midway := by
  obtain ⟨s₁, heq | ⟨reason, heq⟩⟩ := processStep_apply i hnext s <;> rw [heq] at h <;> cases h
  exact .step _ _ _ _ _

theorem processNext_midway (h : (i.processNext (r, s)).1 = .error e) : e.Midway := by
  rcases hnext : r.nextStep? with _ | st
  · rw [processNext_of_none hnext] at h
    cases h
  · rw [processNext_of_some hnext, bind_apply] at h
    refine processStep_midway (i := i) (s := s) hnext ?_
    rcases hstep : i.processStep st (r, s) with ⟨e' | ⟨⟩, q⟩ <;> rw [hstep] at h <;> cases h
    rfl

section Bounded

variable {seen : σ → τ} (h : i.Discreet seen)
  (hjournal : ∀ journal, i.journal = some journal → ∀ e, Quiet seen (journal e))

include h hjournal in
/-- Nothing is seen of a call that does not carry out steps. -/
theorem Discreet.call_of_not_carriesOut {q : Call} (hq : ¬q.CarriesOut p.1) :
    seen (q.leaves i p).2 = seen p.2 := by
  cases q with
  | validate => exact h.quiet_validate hjournal p
  | start => exact h.quiet_start hjournal p
  | alreadyImporting => exact h.quiet_alreadyImporting p
  | processStep st =>
    obtain ⟨e, heq⟩ := processStep_of_ne (i := i) (s := p.2) hq
    exact congrArg (fun o => seen o.2.2) heq
  | processNext =>
    have hnone : p.1.nextStep? = none := by simpa [Call.CarriesOut] using hq
    have heq := processNext_of_none (i := i) (s := p.2) hnone
    exact congrArg (fun o => seen o.2.2) heq
  | run => exact absurd trivial hq

include h hjournal in
/-- Nothing is seen of a call that fails, unless it is a step that fails. -/
theorem Discreet.call_of_error {q : Call} (he : q.outcome i p = .error e) (hmid : ¬e.Midway) :
    seen (q.leaves i p).2 = seen p.2 := by
  by_cases hq : q.CarriesOut p.1
  · cases q with
    | processStep st => exact absurd (processStep_midway (s := p.2) hq he) hmid
    | processNext => exact absurd (processNext_midway (except_map_eq_error_iff.1 he)) hmid
    | run =>
      have hvalid := h.quiet_validate hjournal p
      obtain ⟨-, -, hleft⟩ | ⟨-, p₁, hok, -, hleft⟩ | ⟨-, -, hleft⟩ :=
        run_error (except_map_eq_error_iff.1 he)
      · exact (congrArg (fun q => seen q.2) hleft).trans hvalid
      · rw [hok] at hvalid
        exact ((congrArg (fun q => seen q.2) hleft).trans (h.quiet_start hjournal p₁)).trans hvalid
      · exact (congrArg (fun q => seen q.2) hleft).trans (h.quiet_start hjournal p)
    | validate | start | alreadyImporting => exact hq.elim
  · exact h.call_of_not_carriesOut hjournal hq

end Bounded

section TurnedAway

variable {entries : σ → ρ} (h : i.Discreet entries)

include h in
theorem Discreet.start_turnedAway (he : (i.start p).1 = .error e) (haway : e.TurnsAway) :
    entries (i.start p).2.2 = entries p.2 ∧ (i.start p).2.1 = p.1 := by
  obtain ⟨-, heq⟩ | ⟨-, heq⟩ := Importer.start_turnedAway he haway <;> rw [heq]
  · exact ⟨rfl, rfl⟩
  · exact ⟨h.acquire p.2, rfl⟩

include h in
/-- **A call that is turned away** leaves the import and its journal as they are, unless it is a
run that has not got the lock, and has validated the import before that. -/
theorem Discreet.call_turnedAway {q : Call} (he : q.outcome i p = .error e)
    (haway : e.TurnsAway) :
    entries (q.leaves i p).2 = entries p.2 ∧
      ((q.leaves i p).1 = p.1 ∨
        q = .run ∧ p.1.state = .idle ∧ (e = .lockContention i.lockKey ∨ i.LockFails e) ∧
          ∃ r', p.1.Revised r' ∧ r'.comparison.calculated = true ∧
            (q.leaves i p).1 = { r' with state := .validated }) := by
  cases q with
  | validate =>
    have hsame : (i.validate p).2 = p := validate_turnedAway he haway
    exact ⟨congrArg (fun q => entries q.2) hsame, .inl (congrArg Prod.fst hsame)⟩
  | start =>
    obtain ⟨hentries, hrun⟩ := h.start_turnedAway (except_map_eq_error_iff.1 he) haway
    exact ⟨hentries, .inl hrun⟩
  | alreadyImporting =>
    exact ⟨h.quiet_alreadyImporting p, .inl (alreadyImporting_run i p)⟩
  | processStep st =>
    have hnext : p.1.nextStep? ≠ some st := fun hnext =>
      (processStep_midway (s := p.2) hnext he).not_turnsAway haway
    obtain ⟨e', heq⟩ := processStep_of_ne (i := i) (s := p.2) hnext
    have hsame : (i.processStep st p).2 = p := congrArg Prod.snd heq
    exact ⟨congrArg (fun q => entries q.2) hsame, .inl (congrArg Prod.fst hsame)⟩
  | processNext =>
    exact absurd haway (processNext_midway (except_map_eq_error_iff.1 he)).not_turnsAway
  | run =>
    obtain ⟨-, hvalid, hleft⟩ | ⟨hidle, p₁, hok, hstart, hleft⟩ | ⟨-, hstart, hleft⟩ :=
      run_error (except_map_eq_error_iff.1 he)
    · have hsame : (i.run p).2 = p := hleft.trans (validate_turnedAway hvalid haway)
      exact ⟨congrArg (fun q => entries q.2) hsame, .inl (congrArg Prod.fst hsame)⟩
    · -- only planning has been turned away
      obtain ⟨hentries, hrun⟩ := h.start_turnedAway hstart haway
      have hcalc := calculated_of_validate hok
      obtain ⟨-, heq⟩ | ⟨-, r', hrev, s', heq | ⟨e', heq⟩⟩ := validate_leaves i p.1 p.2 <;>
        have hvalid := hok.symm.trans heq <;> cases hvalid
      have hlock : e = .lockContention i.lockKey ∨ i.LockFails e := by
        obtain ⟨hno, -⟩ | ⟨hlock, -⟩ := Importer.start_turnedAway hstart haway
        · exact absurd rfl hno
        · exact hlock
      exact ⟨((congrArg (fun q => entries q.2) hleft).trans hentries).trans (h.validate_of_ok hok),
        .inr ⟨rfl, hidle, hlock, r', hrev, hcalc, (congrArg Prod.fst hleft).trans hrun⟩⟩
    · obtain ⟨hentries, hrun⟩ := h.start_turnedAway hstart haway
      exact ⟨(congrArg (fun q => entries q.2) hleft).trans hentries,
        .inl ((congrArg Prod.fst hleft).trans hrun)⟩

end TurnedAway

end Importer

/-! ### In an office -/

/-- Two storages, a lifecycle, the held locks and a diary, all in memory. -/
structure Office where
  source : Storage.Documents
  target : Storage.Documents
  extensions : Lifecycle.ScriptState
  held : LockTable.Held
  diary : List Event

namespace Office

open Importer

/-- An importer that works in an office. -/
def importer : Importer Office :=
  { comparer :=
      { source := Storage.memory ⟨source, fun a d => { d with source := a }⟩
        target := Storage.memory ⟨target, fun a d => { d with target := a }⟩
        transforms := [] }
    lock := LockTable.memory ⟨held, fun a d => { d with held := a }⟩
    lockKey := "import"
    schemas := none
    lifecycle := some (Lifecycle.scripted Desk.plain.script
      ⟨extensions, fun a d => { d with extensions := a }⟩)
    checks := Check.standard
    journal := some fun e d => (.ok (), { d with diary := d.diary ++ [e] })
    clock := fun _ => default }

/-- The documents of the target, and the installed extensions. -/
def content (d : Office) : Storage.Documents × List Extension := (d.target, d.extensions.installed)

/-- Nothing is seen of an importer in an office that looks around and takes the lock, as long as
the held locks are not seen. -/
theorem discreet {τ : Type} {view : Office → τ}
    (hview : ∀ l d, view { d with held := l } = view d) : importer.Discreet view where
  looks v :=
    { listSource := fun _ hs => hs
      readSource := Storage.stable_readMany_memory
      listTarget := fun _ hs => hs
      readTarget := Storage.stable_readMany_memory
      installed := fun l hl => by
        cases hl
        exact fun _ hs => hs
      info := fun l hl e => by
        cases hl
        exact fun _ hs => hs
      checks := fun c hc rv hrv => by
        refine Check.stable_standard (fun l hl => ?_) (fun l hl => ?_) hc <;> rw [hrv] at hl <;>
          cases hl
        · exact fun e _ hs => hs
        · exact fun _ hs => hs }
  acquire := quiet_iff_stable.2 fun _ =>
    LockTable.stable_take (fun l d hd => (hview l d).trans hd) _
  release d := hview _ d
  isLocked _ := rfl

/-- An office with a page to be written and a module to be installed. -/
def waiting : Office where
  source := .ofList [("blog.home", []), ("core.extension", [(.string "module",
    .mapping [(.string "blog", .number (.int 0))])])]
  target := .empty
  extensions := .start []
  held := []
  diary := []

/-- The same office, with another import at work. -/
def contended : Office := { waiting with held := ["import"] }

end Office

namespace Importer

/-! ### All calls -/

/-- **What calls leave alone.** Whatever is called, and whatever comes of it, some deeds are done
one after the other, and only those that carry out the next step of an import at work may be seen:
nothing is seen of a call that does not carry out steps, nor of one that fails otherwise than with
a step. A call that is turned away also leaves the import and its journal as they are, unless it is a
run that begins with an idle import and then does not get the lock: the import has been validated
before that, and its storages have been compared. -/
theorem Discreet.call_bounded {σ τ ρ : Type} {i : Importer σ} {seen : σ → τ} {entries : σ → ρ}
    (h : i.Discreet seen)
    (hjournal : ∀ journal, i.journal = some journal → ∀ e, Quiet seen (journal e))
    (hentries : i.Discreet entries) (p : ImportRun × σ) (q : Call) :
    i.Deeds seen p (q.leaves i p) ∧
    (¬q.CarriesOut p.1 → seen (q.leaves i p).2 = seen p.2) ∧
    (∀ e, q.outcome i p = .error e → ¬e.Midway → seen (q.leaves i p).2 = seen p.2) ∧
    (∀ e, q.outcome i p = .error e → e.TurnsAway →
      seen (q.leaves i p).2 = seen p.2 ∧ entries (q.leaves i p).2 = entries p.2 ∧
        ((q.leaves i p).1 = p.1 ∨
          q = .run ∧ p.1.state = .idle ∧ (e = .lockContention i.lockKey ∨ i.LockFails e) ∧
            ∃ r', p.1.Revised r' ∧ r'.comparison.calculated = true ∧
              (q.leaves i p).1 = { r' with state := .validated })) := by
  refine ⟨h.deeds_of_call hjournal p q, h.call_of_not_carriesOut hjournal,
    fun e he hmid => h.call_of_error hjournal he hmid, fun e he haway => ⟨?_, ?_⟩⟩
  · exact h.call_of_error hjournal he fun hmid => hmid.not_turnsAway haway
  · exact hentries.call_turnedAway he haway

/-- In an office the module has been installed, and the first of the pages is to be written. A
step that skips it is turned away, and nothing changes at all. -/
theorem call_bounded_waiting :
    let i := Office.importer
    let skip := Call.processStep (.create "core.extension")
    ∃ (r : ImportRun) (d : Office), i.Lives r ∧ r.state = .processing 1 3 ∧
      skip.outcome i (r, d)
        = .error (.outOfOrderStep "create blog.home" "create core.extension") ∧
      (skip.leaves i (r, d)).1 = r ∧
      Office.content (skip.leaves i (r, d)).2 = Office.content d ∧
      (skip.leaves i (r, d)).2.diary = d.diary := by
  intro i skip
  let p := (i.validate (.initial, Office.waiting)).2
  let q := (i.start p).2
  have hbegun : i.Lives .initial := .begun .initial
  have hvalidated : i.Lives p.1 := hbegun.called (p := (.initial, Office.waiting)) .validate
  have hplanned : i.Lives q.1 := hvalidated.called .start
  have hlives : i.Lives (i.processNext q).2.1 := hplanned.called .processNext
  have hstate : (i.processNext q).2.1.state = .processing 1 3 := by decide +kernel
  have hout : skip.outcome i (i.processNext q).2
      = .error (.outOfOrderStep "create blog.home" "create core.extension") := by decide +kernel
  -- where the import has come to does not matter from here on
  rcases hleft : (i.processNext q).2 with ⟨r, d⟩
  rw [hleft] at hlives hstate hout
  have hcontent : i.Discreet Office.content := Office.discreet fun _ _ => rfl
  have hdiary : i.Discreet Office.diary := Office.discreet fun _ _ => rfl
  obtain ⟨-, -, -, haway⟩ := hcontent.call_bounded
    (fun journal hj e => by cases hj; exact fun _ => rfl) hdiary (r, d) skip
  obtain ⟨hseen, hentries, hsame | ⟨hrun, -⟩⟩ := haway _ hout (.order _ _)
  · exact ⟨r, d, hlives, hstate, hout, hsame, hseen, hentries⟩
  · exact absurd hrun nofun

/-- A call that is turned away may change the state of the import after all: a run that finds the
lock held has validated the import before. -/
theorem not_always_unmoved :
    ¬∀ (r : ImportRun) (d : Office) (q : Call) (e : ImportError), Office.importer.Lives r →
      q.outcome Office.importer (r, d) = .error e → e.TurnsAway →
      (q.leaves Office.importer (r, d)).1.state = r.state := by
  intro h
  have hstate : (Call.run.leaves Office.importer (.initial, Office.contended)).1.state
      = .validated := by decide +kernel
  have hout : Call.run.outcome Office.importer (.initial, Office.contended)
      = .error (.lockContention "import") := by decide +kernel
  have hidle := h .initial Office.contended .run _ (.begun .initial) hout (.contention "import")
  rw [hstate] at hidle
  cases hidle

end Importer

end SiteConfig
