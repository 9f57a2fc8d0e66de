import Mathlib
import SiteConfig.Proofs.Run

/-!
# The turns of an import

What an import works with may answer whatever it likes. How far the import has come can still
change in a few ways only, the **turns** of an import (`SiteConfig.ImportRun.Turn`): it is
validated or refused, it is planned, or it fails to be planned in one of two ways, and at work
it goes on or fails. Every operation takes some turns one after the other, most of them one or
none (`SiteConfig.Importer.validate_leaves`, `SiteConfig.Importer.turns_of_start`,
`SiteConfig.Importer.processStep_apply`); a whole run takes many
(`SiteConfig.Importer.maintains_turns`).

Nothing is seen here of the storages, the lifecycle, the lock and the journal: the view of
their state is the one that shows nothing (`SiteConfig.Importer.unseen`). What an operation
does to the import itself has been worked out for any view
(`SiteConfig.Importer.Reports`), and so for this one.
-/

namespace SiteConfig

namespace ImportRun

open Importer (MayValidate)

/-- **An import that has been looked at again**: nothing is different but what is known about
the storages and the extensions. -/
def Revised (r r' : ImportRun) : Prop :=
  ∃ c x, r' = { r with comparison := c, extensionChanges := x }

theorem Revised.refl (r : ImportRun) : r.Revised r := ⟨r.comparison, r.extensionChanges, rfl⟩

theorem Revised.withComparison {r r' : ImportRun} (h : r.Revised r') (c : Comparison) :
    r.Revised { r' with comparison := c } := by
  obtain ⟨c', x, rfl⟩ := h
  exact ⟨c, x, rfl⟩

theorem Revised.withChanges {r r' : ImportRun} (h : r.Revised r') (x : ExtensionChanges) :
    r.Revised { r' with extensionChanges := x } := by
  obtain ⟨c, x', rfl⟩ := h
  exact ⟨c, x, rfl⟩

/-- **A turn of an import.** -/
inductive Turn : ImportRun → ImportRun → Prop
  /-- No problems have been found. -/
  | validated {r r' : ImportRun} (hstate : MayValidate r) (h : r.Revised r') :
      Turn r { r' with state := .validated }
  /-- Problems have been found, or the import could not be reviewed. -/
  | refused {r r' : ImportRun} (errors : List String) (hstate : MayValidate r)
      (h : r.Revised r') : Turn r { r' with errors, state := .failed }
  /-- The lock has been given back, as the steps could not be planned. -/
  | released {r : ImportRun} (hstate : r.state = .validated) : Turn r { r with guarded := false }
  /-- The lock has been given back, as something has changed since validation. -/
  | stale {r : ImportRun} (c : Comparison) (hstate : r.state = .validated) :
      Turn r { r with comparison := c, state := .idle, guarded := false }
  | planned {r : ImportRun} (steps : List Step) (t : Option Timestamp)
      (hstate : r.state = .validated) : Turn r (r.planned steps t)
  | stepped {r : ImportRun} {st : Step} (hnext : r.nextStep? = some st) : Turn r r.stepped
  | failed {r : ImportRun} {st : Step} (reason : String) (hnext : r.nextStep? = some st) :
      Turn r (r.failed reason)

/-- Some turns, one after the other. -/
def Turns : ImportRun → ImportRun → Prop := Relation.ReflTransGen Turn

theorem Turns.refl (r : ImportRun) : r.Turns r := Relation.ReflTransGen.refl

theorem Turn.turns {r r' : ImportRun} (h : r.Turn r') : r.Turns r' := Relation.ReflTransGen.single h

theorem Turns.trans {r r' r'' : ImportRun} (h : r.Turns r') (h' : r'.Turns r'') : r.Turns r'' :=
  Relation.ReflTransGen.trans h h'

/-- **An import that is over takes no more turns.** -/
theorem Turns.eq_of_terminal {r r' : ImportRun} (h : r.Turns r')
    (hover : r.state.isTerminal = true) : r' = r := by
  have hnone : ∀ r', ¬r.Turn r' := by
    intro r' hturn
    have hinactive : r.nextStep? = none := by
      unfold nextStep?
      rcases hstate : r.state <;> rw [hstate] at hover <;> first | rfl | cases hover
    -- every turn asks for a state that is not over, or for a next step
    cases hturn with
    | validated hstate => rcases hstate with hs | hs <;> rw [hs] at hover <;> cases hover
    | refused _ hstate => rcases hstate with hs | hs <;> rw [hs] at hover <;> cases hover
    | released hs => rw [hs] at hover; cases hover
    | stale _ hs => rw [hs] at hover; cases hover
    | planned _ _ hs => rw [hs] at hover; cases hover
    | stepped hnext => rw [hinactive] at hnext; cases hnext
    | failed _ hnext => rw [hinactive] at hnext; cases hnext
  rcases Relation.ReflTransGen.cases_head_iff.1 h with heq | ⟨r₁, hturn, -⟩
  · exact heq.symm
  · exact absurd hturn (hnone r₁)

end ImportRun

/-- An error of a storage or of the lifecycle. -/
inductive ImportError.Outside : ImportError → Prop
  | storage (cause : ConfigError) : Outside (.storage cause)
  | lifecycle (reason : String) : Outside (.lifecycle reason)

namespace Importer

open ImportOperation Attempt ImportRun

variable {σ : Type} {i : Importer σ} {r : ImportRun} {p q : ImportRun × σ} {s : σ}

/-! ### With nothing in view -/

/-- The view that shows nothing. -/
def unseen (_ : σ) : Unit := ()

theorem reports_unseen (i : Importer σ) : i.Reports unseen id :=
  ⟨fun _ _ _ _ => rfl, fun _ => rfl⟩

/-- An operation whose outcome does not depend on what is in view. -/
theorem exists_eq_of_yields {α : Type} {x : ImportOperation σ α} {o : Except ImportError α}
    {r' : ImportRun} (h : x.Yields (beside unseen) (r, s) o (r', ())) :
    ∃ s', x (r, s) = (o, (r', s')) := by
  obtain ⟨⟨r₁, s₁⟩, hx, hview⟩ := h
  obtain ⟨rfl, -⟩ := beside_eq_iff.1 hview
  exact ⟨s₁, hx⟩

/-! ### Validation -/

section Review

variable {K : ImportRun → Prop}

/-- What an operation does outside leaves the import as it is. -/
theorem gives_outside {α : Type} (x : Attempt σ ImportError α) :
    (outside x).Gives (fun p => K p.1) fun _ => True := fun _ hp => ⟨hp, fun _ _ => trivial⟩

theorem gives_comparing {α : Type} (x : Attempt (Comparison × σ) ConfigError α)
    (hK : ∀ r c, K r → K { r with comparison := c }) :
    (comparing x).Gives (fun p => K p.1) fun _ => True := by
  intro ⟨r, s⟩ hp
  refine ⟨?_, fun _ _ => trivial⟩
  rcases h : x (r.comparison, s) with ⟨e | a, c, s'⟩ <;> simp only [comparing, h] <;>
    exact hK r c hp

/-- Asking for extensions and running the checks is remembered as changes of extensions only. -/
theorem gives_survey (i : Importer σ) (hK : ∀ r x, K r → K { r with extensionChanges := x }) :
    i.survey.Gives (fun p => K p.1) fun _ => True := by
  have hassess : ∀ c x, (i.assess c x).Gives (fun p => K p.1) fun _ => True := by
    intro c x
    unfold assess
    refine (gives_update fun r' s h => hK r' x h).bind fun _ _ => ?_
    exact (gives_outside _).bind fun _ _ => gives_outside _
  unfold survey
  refine gives_current.bind fun r' _ => ?_
  rcases i.lifecycle with _ | l
  · exact hassess _ _
  · exact (gives_outside _).bind fun x _ => hassess _ x

/-- **A review only looks**, whatever comes of it. -/
theorem gives_review (i : Importer σ) (r : ImportRun) :
    i.review.Gives (fun p => r.Revised p.1) fun _ => True := by
  have hsurvey := gives_survey i fun r' x (h : r.Revised r') => h.withChanges x
  rw [review_eq]
  refine gives_current.bind fun r' _ => ?_
  split
  · exact (gives_comparing _ fun r' c h => h.withComparison c).bind fun _ _ => hsurvey
  · exact hsurvey

end Review

section Raises

theorem raises_gather (c : Comparison) (x : ExtensionChanges) (l : Option (Lifecycle σ)) :
    (Requirements.gather c x l).Raises ImportError.Outside := by
  have heach : ∀ l : Lifecycle σ, ∀ es q,
      (Requirements.gatherExtensions l es q).Raises ImportError.Outside := by
    intro l es
    induction es with
    | nil => exact fun q => raises_pure q
    | cons e es ih =>
      exact fun q => (raises_mapError fun f => .lifecycle f.text).bind fun _ => ih _
  unfold Requirements.gather
  rcases l with _ | l
  · exact raises_pure _
  · exact heach l _ _

theorem raises_extensionChanges (c : Comparison) (l : Lifecycle σ) :
    (c.extensionChanges l).Raises ImportError.Outside := by
  unfold Comparison.extensionChanges
  refine (raises_ofExcept fun e he => ?_).bind fun o => ?_
  · rcases hlisted : c.sourceExtensions with cause | o <;> rw [hlisted] at he <;> cases he
    exact .storage cause
  · rcases o with _ | wanted
    · exact raises_pure _
    · exact (raises_mapError fun f => .lifecycle f.text).bind fun _ => raises_pure _

/-- **A review fails only with an error of what it asks**: problems are no error of it. -/
theorem raises_review (i : Importer σ) : i.review.Raises ImportError.Outside := by
  have hassess : ∀ c x, (i.assess c x).Raises ImportError.Outside := by
    intro c x
    unfold assess
    refine Raises.bind (fun _ _ he => nomatch he) fun _ => ?_
    exact (raises_gather c x _).zoom.bind fun q => (raises_always _).zoom
  have hsurvey : i.survey.Raises ImportError.Outside := by
    unfold survey
    refine Raises.bind (fun _ _ he => nomatch he) fun r => ?_
    rcases i.lifecycle with _ | l
    · exact hassess _ _
    · exact (raises_extensionChanges _ l).zoom.bind fun x => hassess _ x
  rw [review_eq]
  refine Raises.bind (fun _ _ he => nomatch he) fun r => ?_
  split
  · refine Raises.bind (fun ⟨r, s⟩ e he => ?_) fun _ => hsurvey
    -- only the storages can fail while they are compared
    rcases h : i.comparer.refresh (r.comparison, s) with ⟨cause | ⟨⟩, c, s'⟩ <;>
      simp only [comparing, h] at he <;> cases he
    exact .storage cause
  · exact hsurvey

/-- Making a plan fails with an error of what is asked, or with a cycle. -/
theorem raises_plan (i : Importer σ) :
    i.plan.Raises fun e => e.Outside ∨ ∃ cycles, e = .dependencyCycle cycles := by
  unfold plan
  refine Raises.bind (fun _ _ he => nomatch he) fun r => ?_
  refine ((raises_gather _ _ _).imp fun _ => Or.inl).zoom.bind fun q => ?_
  refine raises_ofExcept fun e he => .inr ?_
  rcases hplan : q.plan r.changelist r.extensionChanges with cycles | steps <;>
    rw [hplan] at he <;> cases he
  exact ⟨cycles, rfl⟩

end Raises

section Validate

variable {r₁ : ImportRun} {s₁ : σ}

theorem validate_bind (i : Importer σ) (hstate : MayValidate r) (s : σ) :
    i.validate (r, s) = ((i.review.recover fun e => refuse e.messages >>= fun _ =>
      Attempt.fail e) >>= i.conclude) ({ r with state := .validating }, s) := by
  rw [validate_eq, current_bind, if_neg fun hno => hstate.elim hno.1 hno.2]
  rfl

/-- An error of the review is that of the import, which remembers it. -/
theorem validate_of_error (hstate : MayValidate r) {e : ImportError}
    (h : i.review ({ r with state := .validating }, s) = (.error e, (r₁, s₁))) :
    i.validate (r, s) = (.error e, ({ r₁ with errors := e.messages, state := .failed }, s₁)) := by
  rw [validate_bind i hstate, bind_apply, Attempt.recover, h]
  rfl

theorem validate_of_accepted (hstate : MayValidate r)
    (h : i.review ({ r with state := .validating }, s) = (.ok [], (r₁, s₁))) :
    i.validate (r, s) = (.ok (), ({ r₁ with state := .validated }, s₁)) := by
  rw [validate_bind i hstate, bind_apply, Attempt.recover, h]
  rfl

/-- Problems that have been found are the error of the import; it remembers them, and they are
recorded. -/
theorem validate_of_problems (hstate : MayValidate r) {problems : List Problem}
    (hsome : problems ≠ [])
    (h : i.review ({ r with state := .validating }, s) = (.ok problems, (r₁, s₁))) :
    i.validate (r, s) = (.error (.validation (problems.map (·.message))),
      ({ r₁ with errors := problems.map (·.message), state := .failed },
        i.note (.validationFailed (problems.map (·.message))) s₁)) := by
  rw [validate_bind i hstate, bind_apply, Attempt.recover, h]
  simp only
  rw [conclude, if_neg (by simpa using hsome)]
  show (i.record _ >>= fun _ => Attempt.fail _ : ImportOperation σ Unit) _ = _
  rw [bind_apply, record_apply]
  rfl

end Validate

/-- An import that may not be validated stays as it is. -/
theorem validate_of_not_mayValidate (i : Importer σ) (hstate : ¬MayValidate r) (s : σ) :
    i.validate (r, s) = (.error (.invalidState "validate" r.state.text), (r, s)) := by
  rw [validate_eq, current_bind, if_pos (not_or.1 hstate)]
  rfl

/-- **What validating comes to**: an import that may not be validated stays as it is; any other
one is looked at again, and then it is validated or it has failed with an error that it
remembers. -/
theorem validate_leaves (i : Importer σ) (r : ImportRun) (s : σ) :
    (¬MayValidate r ∧
        i.validate (r, s) = (.error (.invalidState "validate" r.state.text), (r, s))) ∨
      (MayValidate r ∧ ∃ r', r.Revised r' ∧ ∃ s',
        (i.validate (r, s) = (.ok (), ({ r' with state := .validated }, s')) ∨
          ∃ e, i.validate (r, s)
            = (.error e, ({ r' with errors := e.messages, state := .failed }, s')))) := by
  by_cases hstate : MayValidate r
  · refine .inr ⟨hstate, ?_⟩
    have hrevised := (gives_review i { r with state := .validating }
      ({ r with state := .validating }, s) (Revised.refl _)).1
    -- the review has only looked, so nothing has to be known about what comes of it
    rcases hreview : i.review ({ r with state := .validating }, s) with ⟨e | problems, r₂, s₂⟩ <;>
      rw [hreview] at hrevised <;> obtain ⟨c, x, rfl⟩ := hrevised
    · have heq := validate_of_error hstate hreview
      exact ⟨_, ⟨c, x, rfl⟩, s₂, .inr ⟨e, heq⟩⟩
    · by_cases hnone : problems = []
      · subst hnone
        have heq := validate_of_accepted hstate hreview
        exact ⟨_, ⟨c, x, rfl⟩, s₂, .inl heq⟩
      · have heq := validate_of_problems hstate hnone hreview
        exact ⟨_, ⟨c, x, rfl⟩, _, .inr ⟨_, heq⟩⟩
  · exact .inl ⟨hstate, validate_of_not_mayValidate i hstate s⟩

theorem turns_of_validate (i : Importer σ) (p : ImportRun × σ) :
    p.1.Turns (i.validate p).2.1 := by
  obtain ⟨r, s⟩ := p
  obtain ⟨-, heq⟩ | ⟨hstate, r', hr', s', heq | ⟨e, heq⟩⟩ := validate_leaves i r s <;> rw [heq]
  · exact Turns.refl r
  · exact (Turn.validated hstate hr').turns
  · exact (Turn.refused e.messages hstate hr').turns

/-! ### Planning -/

/-- If something has changed since validation the import is idle again. -/
theorem ensureFresh_ends (i : Importer σ) (r : ImportRun) (s : σ) :
    i.ensureFresh.Ends (beside unseen) (r, s) fun o p =>
      match o with
      | .ok () => p.1 = r
      | .error _ => p.1 = r ∨ p.1 = { r with comparison := r.comparison.invalidate, state := .idle } := by
  unfold ensureFresh
  refine (yields_current r rfl).bind_ends fun ⟨r₁, s₁⟩ h₁ => ?_
  obtain ⟨rfl, -⟩ := beside_eq_iff.1 h₁
  have hstale : (outside ((i.comparer.isStale r₁.comparison).mapError ImportError.storage) :
      ImportOperation σ Bool).Ends (beside unseen) (r₁, s₁) fun _ p => p.1 = r₁ :=
    (gives_outside (K := (· = r₁)) ((i.comparer.isStale r₁.comparison).mapError ImportError.storage)
      (r₁, s₁) rfl).1
  refine hstale.bind (fun ⟨r₂, s₂⟩ stale h₂ => ?_) fun e p hp => .inl hp
  obtain rfl : r₂ = r₁ := h₂
  rcases stale with _ | _
  · exact (yields_pure () (rfl : beside unseen (r₂, s₂) = (r₂, ()))).ends rfl
  · exact (yields_update _ r₂ rfl).bind_ends fun p hp => (yields_fail _ hp).ends (.inr rfl)

/-- Making a plan leaves the import as it is. -/
theorem gives_plan (i : Importer σ) (r : ImportRun) :
    i.plan.Gives (fun p => p.1 = r) fun _ => True := by
  unfold plan
  refine gives_current.bind fun r' _ => ?_
  exact (gives_outside (K := (· = r)) _).bind fun _ _ => gives_ofExcept fun _ _ => trivial

theorem gives_acquire (i : Importer σ) (r : ImportRun) :
    i.acquire.Gives (fun p => p.1 = r) fun _ => True := by
  unfold acquire
  refine (gives_outside (K := (· = r)) _).bind fun free _ => ?_
  split
  · exact gives_pure trivial
  · exact gives_fail _

/-- The steps are made for the import as it is, or the lock is given back. -/
theorem prepare_ends (i : Importer σ) (r : ImportRun) (s : σ) :
    (i.releasingOnFailure (i.ensureFresh >>= fun _ => i.plan)).Ends (beside unseen) (r, s)
      fun o p =>
        match o with
        | .ok _ => p.1 = r
        | .error _ => p.1 = { r with guarded := false } ∨
            ∃ c, p.1 = { r with comparison := c, state := .idle, guarded := false } := by
  have hplan : (i.ensureFresh >>= fun _ => i.plan).Ends (beside unseen) (r, s) fun o p =>
      match o with
      | .ok _ => p.1 = r
      | .error _ => p.1 = r ∨ ∃ c, p.1 = { r with comparison := c, state := .idle } := by
    refine (ensureFresh_ends i r s).bind (fun ⟨r₁, s₁⟩ _ h₁ => ?_) fun e p hp => ?_
    · obtain rfl : r₁ = r := h₁
      have hsame : (i.plan (r₁, s₁)).2.1 = r₁ := (gives_plan i r₁ (r₁, s₁) rfl).1
      unfold Attempt.Ends
      rcases hmade : i.plan (r₁, s₁) with ⟨e | steps, p⟩ <;> rw [hmade] at hsame
      · exact .inl hsame
      · exact hsame
    · exact hp.imp_right fun heq => ⟨_, heq⟩
  -- whichever of the two has failed, the lock is given back
  unfold releasingOnFailure
  refine hplan.recover (fun _ _ hp => hp) fun ⟨r₁, s₁⟩ e h₁ => ?_
  refine ((reports_unseen i).yields_release r₁ rfl).bind_ends fun p hp => (yields_fail e hp).ends ?_
  obtain heq | ⟨c, heq⟩ := h₁ <;> obtain rfl := heq
  · exact .inl rfl
  · exact .inr ⟨c, rfl⟩

/-- **What planning comes to**: the import is planned, or it stays as it is but for the lock, or
something has changed since validation. -/
theorem start_ends (i : Importer σ) (r : ImportRun) (s : σ) :
    i.start.Ends (beside unseen) (r, s) fun o p =>
      match o with
      | .ok steps => r.state = .validated ∧ ∃ t, p.1 = r.planned steps t
      | .error _ => p.1 = r ∨ r.state = .validated ∧
          (p.1 = { r with guarded := false } ∨
            ∃ c, p.1 = { r with comparison := c, state := .idle, guarded := false }) := by
  by_cases hstate : r.state = .validated
  · rw [start_eq]
    refine (yields_current r rfl).bind_ends fun ⟨r₁, s₁⟩ h₁ => ?_
    obtain ⟨rfl, -⟩ := beside_eq_iff.1 h₁
    rw [if_neg (not_not.2 hstate)]
    -- if another one holds the lock then nothing has changed
    have hacquire : i.acquire.Ends (beside unseen) (r₁, s₁) fun _ p => p.1 = r₁ :=
      (gives_acquire i r₁ (r₁, s₁) rfl).1
    refine hacquire.bind (fun ⟨r₂, s₂⟩ _ h₂ => ?_) fun e p hp => .inl hp
    obtain rfl : r₂ = r₁ := h₂
    refine (prepare_ends i r₂ s₂).bind (fun ⟨r₃, s₃⟩ steps h₃ => ?_) fun e p hp =>
      .inr ⟨hstate, hp⟩
    obtain rfl : r₃ = r₂ := h₃
    obtain ⟨t, hlaunch⟩ := (reports_unseen i).yields_launch steps r₃ (rfl : unseen s₃ = ())
    exact hlaunch.ends ⟨hstate, t, rfl⟩
  · unfold Attempt.Ends
    rw [start_of_not_validated hstate]
    exact .inl rfl

theorem turns_of_start (i : Importer σ) (p : ImportRun × σ) : p.1.Turns (i.start p).2.1 := by
  obtain ⟨r, s⟩ := p
  have hends := start_ends i r s
  unfold Attempt.Ends at hends
  rcases hstart : i.start (r, s) with ⟨e | steps, r₁, s₁⟩ <;> rw [hstart] at hends
  · obtain heq | ⟨hstate, heq | ⟨c, heq⟩⟩ := hends <;> obtain rfl := heq
    · exact Turns.refl _
    · exact (Turn.released hstate).turns
    · exact (Turn.stale c hstate).turns
  · obtain ⟨hstate, t, heq⟩ := hends
    obtain rfl := heq
    exact (Turn.planned steps t hstate).turns

/-! ### Steps -/

/-- **What a step comes to**: the import goes on, or it fails and the error tells how far it
has come. -/
theorem processStep_apply (i : Importer σ) {st : Step} (hnext : r.nextStep? = some st) (s : σ) :
    ∃ s', i.processStep st (r, s) = (.ok (), (r.stepped, s')) ∨
      ∃ reason, i.processStep st (r, s)
        = (.error (.stepFailed (r.position + 1) r.steps.length st.text r.position reason),
          (r.failed reason, s')) := by
  -- the step comes to something, and nothing more has to be known about it
  have hexec : ∃ o, (i.execute r.comparison.source st).Yields unseen s o () := ⟨_, _, rfl, rfl⟩
  obtain ⟨reason | ⟨⟩, hexec⟩ := hexec
  · obtain ⟨s', heq⟩ := exists_eq_of_yields
      ((reports_unseen i).yields_processStep_error hnext hexec)
    exact ⟨s', .inr ⟨reason, heq⟩⟩
  · have hdone := (reports_unseen i).yields_processStep hnext hexec
    obtain ⟨s', heq⟩ := exists_eq_of_yields hdone
    exact ⟨s', .inl heq⟩

theorem turns_of_processStep (i : Importer σ) (st : Step) (p : ImportRun × σ) :
    p.1.Turns (i.processStep st p).2.1 := by
  obtain ⟨r, s⟩ := p
  by_cases hnext : r.nextStep? = some st
  · obtain ⟨s', heq | ⟨reason, heq⟩⟩ := processStep_apply i hnext s <;> rw [heq]
    · exact (Turn.stepped hnext).turns
    · exact (Turn.failed reason hnext).turns
  · -- any other step is refused, also at work
    obtain ⟨e, heq⟩ := processStep_of_ne (i := i) (s := s) hnext
    rw [heq]
    exact Turns.refl r

/-- Asking for another import at work is no turn of this one. -/
theorem alreadyImporting_run (i : Importer σ) (p : ImportRun × σ) :
    (i.alreadyImporting p).2.1 = p.1 := by
  obtain ⟨r, s⟩ := p
  unfold alreadyImporting
  rw [current_bind]
  split <;> rfl

/-! ### Runs -/

/-- **What validating, planning and a step keep**, a condition of the import and of everything
that it works with. -/
structure Maintains (i : Importer σ) (K : ImportRun × σ → Prop) : Prop where
  validate : Stable K i.validate
  start : Stable K i.start
  processStep : ∀ st, Stable K (i.processStep st)

section Maintains

variable {K : ImportRun × σ → Prop} (h : i.Maintains K)

include h in
theorem Maintains.processNext : Stable K i.processNext := by
  rintro ⟨r, s⟩ hp
  rcases hnext : r.nextStep? with _ | st
  · rw [processNext_of_none hnext]
    exact hp
  · rw [processNext_of_some hnext]
    exact (h.processStep st).bind (fun _ => stable_pure _) (r, s) hp

include h in
/-- However many steps are carried out, each keeps it. -/
theorem Maintains.processAll (total : Nat) (steps : List Step) :
    Stable K (i.processAll total steps) := by
  induction steps with
  | nil => exact stable_pure _
  | cons st steps ih =>
    unfold Importer.processAll
    refine Stable.bind (h.processStep st) fun o => ?_
    rcases o with e | ⟨⟩
    · -- no step follows one that fails, whether its error is one of the run or not
      cases e <;> exact fun _ hp => hp
    · exact Stable.bind (fun _ hp => hp) fun r => ih.bind fun x => stable_pure _

include h in
theorem Maintains.carryOut : Stable K i.carryOut := by
  unfold Importer.carryOut
  refine h.start.bind fun steps => ?_
  split
  · exact stable_pure _
  · exact h.processAll _ _

include h in
/-- **A whole run keeps what its operations keep.** -/
theorem Maintains.run : Stable K i.run := by
  intro p hp
  by_cases hstate : p.1.state = .idle
  · have hvalidate := h.validate p hp
    rcases hvalid : i.validate p with ⟨e | ⟨⟩, p₁⟩ <;> rw [hvalid] at hvalidate
    · rw [run_of_invalid hstate hvalid]
      exact hvalidate
    · rw [run_of_valid hstate hvalid]
      exact h.carryOut p₁ hvalidate
  · rw [run_of_ne_idle hstate]
    exact h.carryOut p hp

end Maintains

/-- **A whole run takes one turn after the other.** -/
theorem maintains_turns (i : Importer σ) (r : ImportRun) : i.Maintains fun p => r.Turns p.1 where
  validate p hp := hp.trans (turns_of_validate i p)
  start p hp := hp.trans (turns_of_start i p)
  processStep st p hp := hp.trans (turns_of_processStep i st p)

end Importer

end SiteConfig
