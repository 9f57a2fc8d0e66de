import Mathlib
import SiteConfig.Proofs.Review

/-!
# What the operations of an import come to

What an operation does to the import itself does not depend on what is seen of the state, as
long as the journal and the lock are seen as no more than that
(`SiteConfig.Importer.Reports`). For an importer whose surroundings behave
(`SiteConfig.Importer.Observes`) validation is worked out as a function of the scene: it
succeeds just when what is proposed in the scene is accepted
(`SiteConfig.Importer.Sees.validate_eq_ok_iff`).
-/

namespace SiteConfig

namespace ImportRun

/-- An import with the steps that it has planned; without steps it is over. -/
def planned (r : ImportRun) (steps : List Step) (t : Option Timestamp) : ImportRun :=
  if steps.isEmpty then
    { r with steps, position := 0, started := t, guarded := false, state := .completed }
  else { r with steps, position := 0, started := t, guarded := true, state := .initialized }

/-- An import that has carried out one more step; after the last one it is over. -/
def stepped (r : ImportRun) : ImportRun :=
  if r.position + 1 = r.steps.length then
    { r with position := r.position + 1, state := .completed, guarded := false }
  else { r with position := r.position + 1, state := .processing (r.position + 1) r.steps.length }

/-- An import that has ended with a step that failed. -/
def failed (r : ImportRun) (reason : String) : ImportRun :=
  { r with errors := r.errors ++ [reason], state := .failed, guarded := false }

section Left

variable {r : ImportRun} {st : Step} {rest : List Step}

/-- What is to be carried out next is the first of the steps that are left to an import at
work. -/
theorem nextStep?_eq_some_iff :
    r.nextStep? = some st ↔
      r.state.isActive = true ∧ ∃ rest, r.steps.drop r.position = st :: rest := by
  have hhead : r.steps[r.position]? = some st ↔
      ∃ rest, r.steps.drop r.position = st :: rest := by
    rw [← List.head?_drop, List.head?_eq_some_iff]
  unfold nextStep?
  split
  · rename_i hactive
    rw [hhead]
    exact ⟨fun h => ⟨hactive, h⟩, fun h => h.2⟩
  · rename_i hinactive
    exact ⟨(fun h => nomatch h), fun h => absurd h.1 hinactive⟩

/-- The steps that are left after the next one. -/
theorem drop_succ_position (h : r.steps.drop r.position = st :: rest) :
    r.steps.drop (r.position + 1) = rest := by
  rw [← List.tail_drop, h]
  rfl

/-- The number of a step is that of all just when none comes after it. -/
theorem number_eq_iff (h : r.steps.drop r.position = st :: rest) :
    r.position + 1 = r.steps.length ↔ rest = [] := by
  have hlen := congrArg List.length h
  rw [List.length_drop, List.length_cons] at hlen
  rw [← List.length_eq_zero_iff]
  omega

end Left

end ImportRun

namespace Importer

open ImportOperation Attempt

variable {σ : Type} {i : Importer σ} {r : ImportRun} {s : σ} {α : Type}

/-! ### Exactly what is done -/

theorem current_bind {α : Type} (f : ImportRun → ImportOperation σ α) :
    (current >>= f) (r, s) = f r (r, s) := rfl

theorem outside_bind {β : Type} (x : Attempt σ ImportError α) (f : α → ImportOperation σ β)
    (r : ImportRun) (s : σ) :
    (outside x >>= f) (r, s) = match x s with
      | (.ok a, s') => f a (r, s')
      | (.error e, s') => (.error e, (r, s')) := by
  have hzoom : outside x (r, s) = ((x s).1, (r, (x s).2)) := rfl
  rw [bind_apply, hzoom]
  rcases x s with ⟨e | a, s'⟩ <;> rfl

/-- What is left of the state once an event has been recorded. -/
def note (i : Importer σ) (e : Event) (s : σ) : σ :=
  match i.journal with
  | some journal => (journal e s).2
  | none => s

/-- That an event cannot be recorded is nobody's concern. -/
theorem record_apply (i : Importer σ) (e : Event) (r : ImportRun) (s : σ) :
    i.record e (r, s) = (.ok (), (r, i.note e s)) := by
  unfold record note
  rcases i.journal with _ | journal <;> rfl

/-- What is left of the state once the lock has been given back. -/
def freed (i : Importer σ) (s : σ) : σ := (i.lock.release i.lockKey s).2

theorem release_apply (i : Importer σ) (r : ImportRun) (s : σ) :
    i.release (r, s) = (.ok (), ({ r with guarded := false }, i.freed s)) := rfl

theorem elapsed_apply (i : Importer σ) (r : ImportRun) (s : σ) :
    ∃ d, i.elapsed (r, s) = (.ok d, (r, s)) := ⟨_, rfl⟩

/-- What is done with the steps once they are known. -/
def launch (i : Importer σ) (steps : List Step) : ImportOperation σ (List Step) := do
  let (_, s) ← Attempt.state
  update fun r => { r with steps, position := 0, started := some (i.clock s) }
  if steps.isEmpty then
    i.release
    update fun r => { r with state := .completed }
  else
    update fun r => { r with guarded := true, state := .initialized }
    i.record (.importStarted i.comparer.source.label i.comparer.target.label steps.length)
  return steps

theorem launch_apply (i : Importer σ) (steps : List Step) (r : ImportRun) (s : σ) :
    i.launch steps (r, s) = (.ok steps, (r.planned steps (some (i.clock s)),
      if steps.isEmpty then i.freed s
      else i.note (.importStarted i.comparer.source.label i.comparer.target.label steps.length)
        s)) := by
  rcases steps with _ | ⟨st, rest⟩
  · rfl
  · show (i.record _ >>= fun _ => pure (st :: rest) : ImportOperation σ (List Step)) _ = _
    rw [bind_apply, record_apply]
    rfl

/-- After a step the import goes on; after the last one it gives the lock back. -/
theorem completeStep_apply (i : Importer σ) (st : Step) (r : ImportRun) (s : σ) :
    ∃ d, i.completeStep (r.position + 1) st (r, s) = (.ok (), (r.stepped,
      if r.position + 1 = r.steps.length then
        i.note (.importCompleted r.steps.length d)
          (i.freed (i.note (.stepCompleted (r.position + 1) st.text) s))
      else i.note (.stepCompleted (r.position + 1) st.text) s)) := by
  obtain ⟨d, helapsed⟩ := elapsed_apply i
    { r with position := r.position + 1, state := .completed, guarded := false }
    (i.freed (i.note (.stepCompleted (r.position + 1) st.text) s))
  -- the duration is told only once the lock has been given back
  refine ⟨d, ?_⟩
  unfold completeStep
  show (i.record (.stepCompleted (r.position + 1) st.text) >>= fun _ => current >>= fun r' =>
    if r.position + 1 = r'.steps.length then _ else _ : ImportOperation σ Unit)
      ({ r with position := r.position + 1 }, s) = _
  rw [bind_apply, record_apply]
  simp only
  rw [current_bind]
  by_cases hlast : r.position + 1 = r.steps.length
  · rw [if_pos hlast, if_pos hlast, ImportRun.stepped, if_pos hlast]
    show (i.elapsed >>= fun d => i.record (.importCompleted r.steps.length d) :
      ImportOperation σ Unit)
        ({ r with position := r.position + 1, state := .completed, guarded := false },
          i.freed (i.note (.stepCompleted (r.position + 1) st.text) s)) = _
    rw [bind_apply, helapsed]
    exact record_apply i _ _ _
  · rw [if_neg hlast, if_neg hlast, ImportRun.stepped, if_neg hlast]
    rfl

/-- A step that fails ends the import, which gives the lock back. -/
theorem failStep_apply (i : Importer σ) (number : Nat) (st : Step) (reason : String)
    (r : ImportRun) (s : σ) :
    ∃ d, i.failStep number st reason (r, s)
      = (.error (.stepFailed number r.steps.length st.text r.position reason), (r.failed reason,
        i.note (.importFailed r.position r.steps.length reason d)
          (i.note (.stepFailed number st.text reason) (i.freed s)))) := by
  obtain ⟨d, helapsed⟩ := elapsed_apply i (r.failed reason)
    (i.note (.stepFailed number st.text reason) (i.freed s))
  refine ⟨d, ?_⟩
  show (i.record (.stepFailed number st.text reason) >>= fun _ => i.elapsed >>= fun d =>
    i.record (.importFailed r.position r.steps.length reason d) >>= fun _ => Attempt.fail _ :
      ImportOperation σ Unit) (r.failed reason, i.freed s) = _
  rw [bind_apply, record_apply]
  simp only
  rw [bind_apply, helapsed]
  simp only
  rw [bind_apply, record_apply]
  rfl

/-! ### Small operations -/

section Small

variable {τ : Type} {view : σ → τ} {v w : τ}

theorem yields_outside {x : Attempt σ ImportError α} {o : Except ImportError α}
    (hx : x.Yields view s o w) (r : ImportRun) :
    (outside x).Yields (beside view) (r, s) o (r, w) := hx.zoom_second r

theorem yields_current (r : ImportRun) (hs : view s = v) :
    (current : ImportOperation σ ImportRun).Yields (beside view) (r, s) (.ok r) (r, v) :=
  yields_read_first r hs

theorem yields_update (f : ImportRun → ImportRun) (r : ImportRun) (hs : view s = v) :
    (update f : ImportOperation σ Unit).Yields (beside view) (r, s) (.ok ()) (f r, v) :=
  yields_modify_first f r hs

theorem gives_current {I : ImportRun × σ → Prop} :
    (current : ImportOperation σ ImportRun).Gives I fun _ => True :=
  fun _ hp => ⟨hp, fun _ _ => trivial⟩

theorem gives_update {I : ImportRun × σ → Prop} {f : ImportRun → ImportRun}
    (hf : ∀ r s, I (r, s) → I (f r, s)) :
    (update f : ImportOperation σ Unit).Gives I fun _ => True :=
  fun (r, s) hp => ⟨hf r s hp, fun _ _ => trivial⟩

theorem yields_comparing {x : Attempt (Comparison × σ) ConfigError α} {a : α} {c : Comparison}
    (hx : x.Yields (beside view) (r.comparison, s) (.ok a) (c, w)) :
    (comparing x).Yields (beside view) (r, s) (.ok a) ({ r with comparison := c }, w) := by
  obtain ⟨⟨c', s'⟩, hs', hv⟩ := hx
  obtain ⟨rfl, hw⟩ := beside_eq_iff.1 hv
  exact ⟨({ r with comparison := c' }, s'), by simp only [comparing, hs'], congrArg (Prod.mk _) hw⟩

/-- **What is seen of the journal and of the lock**: nothing is seen of what is recorded, and
giving the lock back is seen as no more than that. -/
structure Reports (i : Importer σ) (view : σ → τ) (unlock : τ → τ) : Prop where
  journal : ∀ journal, i.journal = some journal → ∀ e s, view (journal e s).2 = view s
  release : ∀ s, view (i.lock.release i.lockKey s).2 = unlock (view s)

variable {unlock : τ → τ}

theorem Reports.note (h : i.Reports view unlock) (e : Event) (s : σ) :
    view (i.note e s) = view s := by
  unfold Importer.note
  rcases hj : i.journal with _ | journal
  · rfl
  · exact h.journal journal hj e s

theorem Reports.freed (h : i.Reports view unlock) (s : σ) : view (i.freed s) = unlock (view s) :=
  h.release s

theorem Reports.yields_record (h : i.Reports view unlock) (e : Event) (r : ImportRun)
    (hs : view s = v) : (i.record e).Yields (beside view) (r, s) (.ok ()) (r, v) :=
  ⟨_, record_apply i e r s, by rw [beside_mk, h.note, hs]⟩

theorem Reports.yields_release (h : i.Reports view unlock) (r : ImportRun) (hs : view s = v) :
    i.release.Yields (beside view) (r, s) (.ok ()) ({ r with guarded := false }, unlock v) :=
  ⟨_, release_apply i r s, by rw [beside_mk, h.freed, hs]⟩

/-- What is done with the problems that a review has found. -/
def conclude (i : Importer σ) (problems : List Problem) : ImportOperation σ Unit :=
  if problems.isEmpty then update fun r => { r with state := .validated }
  else do
    let messages := problems.map (·.message)
    refuse messages
    i.record (.validationFailed messages)
    Attempt.fail (.validation messages)

theorem validate_eq (i : Importer σ) :
    i.validate = current >>= fun r =>
      if r.state ≠ .idle ∧ r.state ≠ .validated then
        Attempt.fail (.invalidState "validate" r.state.text)
      else update (fun r => { r with state := .validating }) >>= fun _ =>
        (i.review.recover fun e => refuse e.messages >>= fun _ => Attempt.fail e) >>= i.conclude :=
  rfl

theorem start_eq (i : Importer σ) :
    i.start = current >>= fun r =>
      if r.state ≠ .validated then Attempt.fail (.invalidState "initialize" r.state.text)
      else i.acquire >>= fun _ =>
        i.releasingOnFailure (i.ensureFresh >>= fun _ => i.plan) >>= i.launch := rfl

/-- Whoever finds the lock held does not get it. -/
theorem acquire_of_held {s' : σ} (h : i.lock.acquire i.lockKey s = (.ok false, s')) :
    i.acquire (r, s) = (.error (.lockContention i.lockKey), (r, s')) := by
  have hout : outside (i.lock.acquire i.lockKey) (r, s) = (.ok false, (r, s')) := by
    show (let (o, a) := i.lock.acquire i.lockKey s; (o, (r, a))) = _
    rw [h]
  unfold acquire
  rw [bind_apply, hout]
  rfl

/-- An import that finds the lock held is not planned. -/
theorem start_of_held {s' : σ} (hstate : r.state = .validated)
    (h : i.lock.acquire i.lockKey s = (.ok false, s')) :
    i.start (r, s) = (.error (.lockContention i.lockKey), (r, s')) := by
  rw [start_eq, bind_apply]
  show (if r.state ≠ .validated then _ else i.acquire >>= _ : ImportOperation σ (List Step)) (r, s)
    = _
  rw [if_neg (by simp [hstate]), bind_apply, acquire_of_held h]

/-- An import that has not been validated is not planned. -/
theorem start_of_not_validated (hstate : r.state ≠ .validated) :
    i.start (r, s) = (.error (.invalidState "initialize" r.state.text), (r, s)) := by
  rw [start_eq, bind_apply]
  show (if r.state ≠ .validated then _ else i.acquire >>= _ : ImportOperation σ (List Step)) (r, s)
    = _
  rw [if_pos hstate]
  rfl

/-- With the steps known, the lock is kept just when there are any. -/
theorem Reports.yields_launch (h : i.Reports view unlock) (steps : List Step) (r : ImportRun)
    (hs : view s = v) :
    ∃ t, (i.launch steps).Yields (beside view) (r, s) (.ok steps)
      (r.planned steps t, if steps.isEmpty then unlock v else v) := by
  refine ⟨some (i.clock s), _, launch_apply i steps r s, ?_⟩
  rw [beside_mk, apply_ite view, h.freed, h.note, hs]

/-- After a step the import goes on; after the last one it gives the lock back. -/
theorem Reports.yields_completeStep (h : i.Reports view unlock) (st : Step) (r : ImportRun)
    (hs : view s = v) :
    (i.completeStep (r.position + 1) st).Yields (beside view) (r, s) (.ok ())
      (r.stepped, if r.position + 1 = r.steps.length then unlock v else v) := by
  obtain ⟨d, happly⟩ := completeStep_apply i st r s
  refine ⟨_, happly, ?_⟩
  rw [beside_mk, apply_ite view]
  simp only [h.freed, h.note, hs]

/-- A step that fails ends the import, which gives the lock back. -/
theorem Reports.yields_failStep (h : i.Reports view unlock) (number : Nat) (st : Step)
    (reason : String) (r : ImportRun) (hs : view s = v) :
    (i.failStep number st reason).Yields (beside view) (r, s)
      (.error (.stepFailed number r.steps.length st.text r.position reason))
      (r.failed reason, unlock v) := by
  obtain ⟨d, happly⟩ := failStep_apply i number st reason r s
  exact ⟨_, happly, by simp only [beside_mk, h.freed, h.note, hs]⟩

theorem expectedStep_of_some {st : Step} (h : r.nextStep? = some st) :
    expectedStep (r, s) = (.ok st, (r, s)) := by
  rw [expectedStep, current_bind, h]
  rfl

theorem expectedStep_of_none (h : r.nextStep? = none) :
    expectedStep (r, s)
      = (.error (.invalidState "process a step" r.state.text), (r, s)) := by
  rw [expectedStep, current_bind, h]
  rfl

/-- A step that is not the next one is not carried out. -/
theorem processStep_of_ne {st : Step} (hnext : r.nextStep? ≠ some st) :
    ∃ e, i.processStep st (r, s) = (.error e, (r, s)) := by
  rcases hr : r.nextStep? with _ | expected
  · refine ⟨.invalidState "process a step" r.state.text, ?_⟩
    rw [processStep, bind_apply, expectedStep_of_none hr]
  · have hne : expected ≠ st := fun heq => hnext (heq ▸ hr)
    refine ⟨.outOfOrderStep expected.text st.text, ?_⟩
    rw [processStep, bind_apply, expectedStep_of_some hr]
    simp only
    rw [if_pos hne]
    rfl

/-- What is done with the outcome of a step. -/
def settle (i : Importer σ) (number : Nat) (st : Step) :
    Except String Unit → ImportOperation σ Unit
  | .error reason => i.failStep number st reason
  | .ok () => i.completeStep number st

/-- The next step is carried out, and then the import goes on or ends. -/
theorem processStep_eq {st : Step} (hnext : r.nextStep? = some st) :
    i.processStep st (r, s)
      = ((Attempt.always (Cell.second.zoom (i.execute r.comparison.source st)).outcome :
          ImportOperation σ (Except String Unit)) >>= i.settle (r.position + 1) st) (r, s) := by
  rw [processStep, bind_apply, expectedStep_of_some hnext]
  simp only
  rw [if_neg (not_not.2 rfl)]
  rw [bind_apply]
  rfl

/-- Without a next step nothing is carried out. -/
theorem processNext_of_none (h : r.nextStep? = none) :
    i.processNext (r, s) = (.ok none, (r, s)) := by
  rw [processNext, current_bind, h]
  rfl

/-- The next step is carried out. -/
theorem processNext_of_some {st : Step} (h : r.nextStep? = some st) :
    i.processNext (r, s) = (i.processStep st >>= fun _ => pure (some st)) (r, s) := by
  rw [processNext, current_bind, h]

/-- **A step that succeeds** takes the import to the next one, or to its end. -/
theorem Reports.yields_processStep (h : i.Reports view unlock) {st : Step}
    (hnext : r.nextStep? = some st)
    (hexec : (i.execute r.comparison.source st).Yields view s (.ok ()) w) :
    (i.processStep st).Yields (beside view) (r, s) (.ok ())
      (r.stepped, if r.position + 1 = r.steps.length then unlock w else w) := by
  unfold Attempt.Yields
  rw [processStep_eq hnext]
  refine (hexec.zoom_second r).outcome.bind fun ⟨r₁, s₁⟩ h₁ => ?_
  obtain ⟨rfl, hv₁⟩ := beside_eq_iff.1 h₁
  exact h.yields_completeStep st r₁ hv₁

/-- **A step that fails** ends the import. -/
theorem Reports.yields_processStep_error (h : i.Reports view unlock) {st : Step} {reason : String}
    (hnext : r.nextStep? = some st)
    (hexec : (i.execute r.comparison.source st).Yields view s (.error reason) w) :
    (i.processStep st).Yields (beside view) (r, s)
      (.error (.stepFailed (r.position + 1) r.steps.length st.text r.position reason))
      (r.failed reason, unlock w) := by
  unfold Attempt.Yields
  rw [processStep_eq hnext]
  refine (hexec.zoom_second r).outcome.bind fun ⟨r₁, s₁⟩ h₁ => ?_
  obtain ⟨rfl, hv₁⟩ := beside_eq_iff.1 h₁
  exact h.yields_failStep (r₁.position + 1) st reason r₁ hv₁

end Small

section Scene

variable {view : σ → Scene} {known : Extension → Option ExtensionInfo} {v w : Scene}

theorem Observes.reports (h : i.Observes view known) : i.Reports view fun v => { v with locked := false } :=
  ⟨h.journal, h.release⟩

/-! ### Extensions and requirements -/

theorem listed_proposal : (i.comparisonOf known v).sourceExtensions = (i.proposal known v).listed :=
  rfl

/-- The pending changes of extensions are those that are proposed. -/
theorem Observes.yields_extensionChanges (h : i.Observes view known) {l : Lifecycle σ} (hl : i.lifecycle = some l)
    {o : Option CoreExtension} (ho : (i.proposal known v).listed = .ok o) (hs : view s = v) :
    ((i.comparisonOf known v).extensionChanges l).Yields view s
      (.ok (i.proposal known v).extensionChanges) v := by
  have hcat : (i.proposal known v).catalog = some known := by rw [proposal, hl]; rfl
  unfold Comparison.extensionChanges
  rw [listed_proposal, ho, Proposal.extensionChanges, hcat, ho]
  refine (yields_ofExcept (.ok o) hs).bind fun s₁ h₁ => ?_
  rcases o with _ | wanted
  · exact yields_pure _ h₁
  · subst h₁
    exact (h.installed l hl s₁).mapError.bind fun s₂ h₂ => yields_pure _ h₂

theorem Observes.yields_gatherExtensions (h : i.Observes view known) {l : Lifecycle σ} (hl : i.lifecycle = some l)
    (es : List Extension) (q : Requirements) (hs : view s = v) :
    (Requirements.gatherExtensions l es q).Yields view s
      (.ok (es.foldl (i.proposal known v).withKnown q)) v := by
  induction es generalizing q s with
  | nil => exact yields_pure _ hs
  | cons e es ih =>
    subst hs
    refine (h.info l hl s e).mapError.bind fun s₁ h₁ => ?_
    have hknown : (i.proposal known (view s)).known e = known e := by
      rw [Proposal.known, proposal, hl]
      rfl
    rw [List.foldl_cons, Proposal.withKnown, hknown]
    exact ih _ h₁

/-- The requirements of what is pending are those that are proposed. -/
theorem Observes.yields_gather (h : i.Observes view known) (hs : view s = v) :
    (Requirements.gather (i.comparisonOf known v) (i.proposal known v).extensionChanges
      i.lifecycle).Yields view s (.ok (i.proposal known v).requirements) v := by
  unfold Requirements.gather Proposal.requirements
  rcases hl : i.lifecycle with _ | l
  · have hx : (i.proposal known v).extensionChanges = .empty := by
      rw [Proposal.extensionChanges, proposal, hl]
      rfl
    simp only [hx]
    exact yields_pure _ hs
  · exact h.yields_gatherExtensions hl _ _ hs

/-! ### Validation -/

/-- The comparison of an import that has not been planned is of the scene, if it has been
made. -/
def Compared (i : Importer σ) (known : Extension → Option ExtensionInfo) (r : ImportRun)
    (v : Scene) : Prop :=
  r.comparison.calculated = true → r.comparison = i.comparisonOf known v

theorem compared_initial (i : Importer σ) (known : Extension → Option ExtensionInfo) (v : Scene) :
    i.Compared known .initial v := fun h => by cases h

/-- What is under review is what is proposed. -/
theorem reviews_proposal : Check.Reviews (σ := σ)
    { comparison := i.comparisonOf known v, extensionChanges := (i.proposal known v).extensionChanges
      lifecycle := i.lifecycle, schemas := i.schemas
      requirements := (i.proposal known v).requirements } (i.proposal known v) :=
  ⟨rfl, rfl, rfl, rfl⟩

theorem Observes.asks (h : i.Observes view known) : Check.Asks (σ := σ)
    { comparison := i.comparisonOf known v, extensionChanges := (i.proposal known v).extensionChanges
      lifecycle := i.lifecycle, schemas := i.schemas
      requirements := (i.proposal known v).requirements } (i.proposal known v) view v where
  knows l hl := ⟨known, by rw [proposal, show i.lifecycle = some l from hl]; rfl,
    fun s e => h.info l hl s e⟩
  installed l hl s hs := by
    subst hs
    exact h.installed l hl s
  nobody hl := by rw [proposal, show i.lifecycle = none from hl]; rfl

/-- What a review does with changes of extensions that are known. -/
def assess (i : Importer σ) (comparison : Comparison) (changes : ExtensionChanges) :
    ImportOperation σ (List Problem) := do
  update fun r => { r with extensionChanges := changes }
  let requirements ← outside (Requirements.gather comparison changes i.lifecycle)
  outside (Attempt.always (Check.runAll i.checks
    { comparison, extensionChanges := changes, lifecycle := i.lifecycle, schemas := i.schemas
      requirements }))

/-- What a review does once the storages have been compared. -/
def survey (i : Importer σ) : ImportOperation σ (List Problem) := do
  let r ← current
  match i.lifecycle with
  | some l => do
    let changes ← outside (r.comparison.extensionChanges l)
    i.assess r.comparison changes
  | none => i.assess r.comparison .empty

theorem review_eq (i : Importer σ) :
    i.review = current >>= fun r =>
      if !r.comparison.calculated then comparing i.comparer.refresh >>= fun _ => i.survey
      else i.survey := rfl

/-- What an import knows once it has been validated in a scene. -/
def reviewed (i : Importer σ) (known : Extension → Option ExtensionInfo) (r : ImportRun)
    (v : Scene) : ImportRun :=
  { r with
    comparison := i.comparisonOf known v
    extensionChanges := (i.proposal known v).extensionChanges }

/-- **What may come of a review**: the problems that are found in the scene, none just when
what is proposed is accepted; or an error, which happens only when it is not. -/
def Judged (i : Importer σ) (known : Extension → Option ExtensionInfo) (r : ImportRun) (v : Scene)
    (o : Except ImportError (List Problem)) (p : ImportRun × Scene) : Prop :=
  p.2 = v ∧
    match o with
    | .ok ps => p.1 = i.reviewed known r v ∧ (ps = [] ↔ (i.proposal known v).Accepted)
    | .error _ => ¬(i.proposal known v).Accepted

variable (hchecks : i.checks = Check.standard) (hsort : Extension.Sorted v.installed)

include hchecks hsort in
theorem Observes.assess_ends (h : i.Observes view known) (r : ImportRun)
    (hr : r.comparison = i.comparisonOf known v) (hs : view s = v) :
    (i.assess r.comparison (i.proposal known v).extensionChanges).Ends (beside view) (r, s)
      (i.Judged known r v) := by
  refine (yields_update _ r hs).bind_ends fun ⟨r₁, s₁⟩ h₁ => ?_
  obtain ⟨hr₁, hv₁⟩ := beside_eq_iff.1 h₁
  rw [hr]
  refine (yields_outside (h.yields_gather hv₁) r₁).bind_ends fun ⟨r₂, s₂⟩ h₂ => ?_
  obtain ⟨hr₂, hv₂⟩ := beside_eq_iff.1 h₂
  obtain ⟨ps, s₃, h₃, hv₃, hiff⟩ := Check.finds_standard reviews_proposal h.asks
    (wellFormed_proposal hsort) s₂ hv₂
  rw [← hchecks] at h₃
  refine (yields_outside (yields_always h₃ hv₃) r₂).ends ⟨rfl, ?_, hiff⟩
  rw [hr₂, hr₁, reviewed, ← hr]

theorem extensionChanges_of_nobody (hl : i.lifecycle = none) :
    (i.proposal known v).extensionChanges = .empty := by
  rw [Proposal.extensionChanges, proposal, hl]
  rfl

include hchecks hsort in
theorem Observes.survey_ends (h : i.Observes view known) (r : ImportRun)
    (hr : r.comparison = i.comparisonOf known v) (hs : view s = v) :
    i.survey.Ends (beside view) (r, s) (i.Judged known r v) := by
  unfold survey
  refine (yields_current r hs).bind_ends fun ⟨r₁, s₁⟩ h₁ => ?_
  obtain ⟨rfl, hv₁⟩ := beside_eq_iff.1 h₁
  rcases hl : i.lifecycle with _ | l
  · have hassess := h.assess_ends hchecks hsort r₁ hr hv₁
    rwa [extensionChanges_of_nobody hl] at hassess
  · rcases ho : (i.proposal known v).listed with e | o
    · -- a source that cannot be understood is not accepted
      have herror : (r₁.comparison.extensionChanges l).Yields view s₁ (.error (.storage e)) v := by
        rw [hr]
        unfold Comparison.extensionChanges
        rw [listed_proposal, ho]
        exact (yields_ofExcept _ hv₁).bind_error
      refine ((yields_outside herror r₁).bind_error).ends ⟨rfl, fun hacc => ?_⟩
      obtain ⟨w, hw⟩ := hacc.listed
      rw [ho] at hw
      cases hw
    · have hchanges := h.yields_extensionChanges hl ho hv₁
      rw [← hr] at hchanges
      refine (yields_outside hchanges r₁).bind_ends fun ⟨r₂, s₂⟩ h₂ => ?_
      obtain ⟨rfl, hv₂⟩ := beside_eq_iff.1 h₂
      exact h.assess_ends hchecks hsort r₂ hr hv₂

include hchecks hsort in
/-- **A review judges what is proposed in the scene.** -/
theorem Observes.review_ends (h : i.Observes view known) (r : ImportRun) (hr : i.Compared known r v)
    (hs : view s = v) : i.review.Ends (beside view) (r, s) (i.Judged known r v) := by
  rw [review_eq]
  refine (yields_current r hs).bind_ends fun ⟨r₁, s₁⟩ h₁ => ?_
  obtain ⟨rfl, hv₁⟩ := beside_eq_iff.1 h₁
  by_cases hcalc : r₁.comparison.calculated = true
  · rw [hcalc]
    exact h.survey_ends hchecks hsort r₁ (hr hcalc) hv₁
  · rw [Bool.eq_false_iff.2 hcalc]
    refine (yields_comparing (h.refresh hv₁ r₁.comparison)).bind_ends fun ⟨r₂, s₂⟩ h₂ => ?_
    obtain ⟨hr₂, hv₂⟩ := beside_eq_iff.1 h₂
    have hsurvey := h.survey_ends hchecks hsort r₂ (by rw [show r₂ = _ from hr₂]) hv₂
    rw [show r₂ = _ from hr₂] at hsurvey
    rw [show r₂ = _ from hr₂]
    exact hsurvey

/-- An import that has been validated in a scene. -/
def validated (i : Importer σ) (known : Extension → Option ExtensionInfo) (r : ImportRun)
    (v : Scene) : ImportRun :=
  { i.reviewed known r v with state := .validated }

/-- Whether an import may be validated. -/
def MayValidate (r : ImportRun) : Prop := r.state = .idle ∨ r.state = .validated

include hchecks hsort in
/-- **What comes of validating**: an import that is accepted is validated, any other one
fails. The scene stays as it is. -/
theorem Observes.validate_ends (h : i.Observes view known) (r : ImportRun) (hr : i.Compared known r v)
    (hstate : MayValidate r) (hs : view s = v) :
    i.validate.Ends (beside view) (r, s) fun o p => p.2 = v ∧
      match o with
      | .ok () => (i.proposal known v).Accepted ∧ p.1 = i.validated known r v
      | .error _ => ¬(i.proposal known v).Accepted := by
  unfold Importer.validate
  refine (yields_current r hs).bind_ends fun ⟨r₁, s₁⟩ h₁ => ?_
  obtain ⟨rfl, hv₁⟩ := beside_eq_iff.1 h₁
  have hguard : ¬(r₁.state ≠ .idle ∧ r₁.state ≠ .validated) := by
    rintro ⟨h₁, h₂⟩
    exact hstate.elim h₁ h₂
  simp only
  rw [if_neg hguard]
  refine (yields_update _ r₁ hv₁).bind_ends fun ⟨r₂, s₂⟩ h₂ => ?_
  obtain ⟨hr₂, hv₂⟩ := beside_eq_iff.1 h₂
  have hcompared : i.Compared known r₂ v := by
    rw [show r₂ = _ from hr₂]
    exact hr
  refine ((h.review_ends hchecks hsort r₂ hcompared hv₂).recover (Q := i.Judged known r₂ v)
    (fun _ _ h => h) fun ⟨r₃, s₃⟩ e h₃ => ?_).bind (fun ⟨r₃, s₃⟩ ps h₃ => ?_) fun e p h₃ => h₃
  · -- an error of the review ends the import
    have hv₃ : view s₃ = v := h₃.1
    exact (yields_update _ r₃ hv₃).bind_ends fun p hp => (yields_fail e hp).ends ⟨rfl, h₃.2⟩
  · obtain ⟨hv₃, hr₃, hiff⟩ := h₃
    simp only [beside_mk] at hv₃ hr₃
    by_cases hps : ps = []
    · rw [if_pos (by rw [hps]; rfl)]
      refine (yields_update _ r₃ hv₃).ends ⟨rfl, hiff.1 hps, ?_⟩
      rw [hr₃, show r₂ = _ from hr₂]
      rfl
    · rw [if_neg (by simpa using hps)]
      refine (yields_update _ r₃ hv₃).bind_ends fun ⟨r₄, s₄⟩ h₄ => ?_
      obtain ⟨-, hv₄⟩ := beside_eq_iff.1 h₄
      exact (h.reports.yields_record _ r₄ hv₄).bind_ends fun p hp =>
        (yields_fail _ hp).ends ⟨rfl, fun hacc => hps (hiff.2 hacc)⟩

include hchecks hsort in
/-- **An import can be validated just when what is proposed is accepted.** -/
theorem Sees.validate_eq_ok_iff (h : i.Sees view known) (r : ImportRun)
    (hr : i.Compared known r v) (hstate : MayValidate r) (hs : view s = v) :
    (i.validate (r, s)).1 = .ok () ↔ (i.proposal known v).Accepted := by
  have hends := h.observes.validate_ends hchecks hsort r hr hstate hs
  unfold Attempt.Ends at hends
  rcases ho : (i.validate (r, s)).1 with e | ⟨⟩ <;> rw [ho] at hends
  · exact iff_of_false (by simp) hends.2
  · exact iff_of_true rfl hends.2.1

include hchecks hsort in
theorem Sees.yields_validate (h : i.Sees view known) (r : ImportRun) (hr : i.Compared known r v)
    (hstate : MayValidate r) (hs : view s = v) (hacc : (i.proposal known v).Accepted) :
    i.validate.Yields (beside view) (r, s) (.ok ()) (i.validated known r v, v) := by
  have hok := (h.validate_eq_ok_iff hchecks hsort r hr hstate hs).2 hacc
  have hends := h.observes.validate_ends hchecks hsort r hr hstate hs
  unfold Attempt.Ends at hends
  rw [hok] at hends
  exact ⟨(i.validate (r, s)).2, Prod.ext hok rfl, Prod.ext hends.2.2 hends.1⟩

end Scene

end Importer

end SiteConfig
