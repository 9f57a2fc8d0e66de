import Mathlib
import SiteConfig.Proofs.Consistency
import SiteConfig.Proofs.Summary
import SiteConfig.Proofs.Surroundings

/-!
# The journal of an import

An importer may keep a journal: a ledger that it shares with others, to which it adds envelopes of
its own run only (`SiteConfig.Importer.Journals`). Whatever else the storages, the lifecycle, the
lock and the checks answer, the events of its run tell at any time how far the import has come
(`SiteConfig.ImportRun.Told`): nothing, or why it was refused, or the steps that have been carried
out one by one, and how it ended once it has.

The ledger makes a summary of these events without knowing the import. It gives the same account as
the import does of itself (`SiteConfig.ImportRun.Told.account`).
-/

namespace SiteConfig

/-- The events of a run among some envelopes. -/
def Ledger.eventsOf (run : String) (es : List Envelope) : List Event :=
  (es.filter (·.run == run)).map (·.event)

theorem Ledger.eventsOf_concat {run : String} {x : Envelope} (hx : x.run = run)
    (es : List Envelope) :
    Ledger.eventsOf run (es ++ [x]) = Ledger.eventsOf run es ++ [x.event] := by
  simp [Ledger.eventsOf, hx]

namespace ImportRun

open Importer (MayValidate)

variable {r r' : ImportRun} {st : Step} {source target : String} {es : List Event}

/-! ### What is told of an import -/

/-- What is told of the steps that have been carried out. -/
def recounted (steps : List Step) : List Event :=
  steps.mapIdx fun k st => .stepCompleted (k + 1) st.text

/-- What is told of an import that has been planned, up to the last step carried out. -/
def chronicle (source target : String) (r : ImportRun) : List Event :=
  .importStarted source target r.steps.length :: recounted (r.steps.take r.position)

/-- **What may be told of an import** between two storages, as far as it has come. -/
inductive Told (source target : String) (r : ImportRun) : List Event → Prop
  /-- There are no steps, or none yet. -/
  | nothing (hnone : r.steps = []) : Told source target r []
  /-- Problems have been found. -/
  | refused (hnone : r.steps = []) (hstate : r.state = .failed) :
      Told source target r [.validationFailed r.errors]
  | underway (hsome : r.steps ≠ []) (hactive : r.state.isActive = true) :
      Told source target r (r.chronicle source target)
  | completed (hsome : r.steps ≠ []) (hstate : r.state = .completed) (duration : Nat) :
      Told source target r
        (r.chronicle source target ++ [.importCompleted r.steps.length duration])
  /-- A step has failed. -/
  | failed {st : Step} {reason : String} (hstate : r.state = .failed)
      (hst : r.steps[r.position]? = some st) (hreason : r.errors.getLast? = some reason)
      (duration : Nat) :
      Told source target r (r.chronicle source target ++
        [.stepFailed (r.position + 1) st.text reason,
          .importFailed r.position r.steps.length reason duration])

/-- Nothing is told of an import that may be validated. -/
theorem Told.of_mayValidate (h : r.Told source target es) (hstate : MayValidate r) :
    r.steps = [] ∧ es = [] := by
  cases h with
  | nothing hnone => exact ⟨hnone, rfl⟩
  | refused _ hfailed => rcases hstate with hs | hs <;> rw [hs] at hfailed <;> cases hfailed
  | underway _ hactive => rcases hstate with hs | hs <;> rw [hs] at hactive <;> cases hactive
  | completed _ hover => rcases hstate with hs | hs <;> rw [hs] at hover <;> cases hover
  | failed hfailed => rcases hstate with hs | hs <;> rw [hs] at hfailed <;> cases hfailed

/-- An import with a next step is underway. -/
theorem Told.of_nextStep (h : r.Told source target es) (hnext : r.nextStep? = some st) :
    r.steps ≠ [] ∧ es = r.chronicle source target := by
  obtain ⟨hactive, rest, hsteps⟩ := nextStep?_eq_some_iff.1 hnext
  have hsome : r.steps ≠ [] := by
    intro hnone
    rw [hnone, List.drop_nil] at hsteps
    cases hsteps
  -- the other things that can be told are of imports that are not at work
  cases h with
  | nothing hnone => exact absurd hnone hsome
  | refused hnone => exact absurd hnone hsome
  | underway => exact ⟨hsome, rfl⟩
  | completed _ hover => rw [hover] at hactive; cases hactive
  | failed hfailed => rw [hfailed] at hactive; cases hactive

@[simp] theorem steps_stepped (r : ImportRun) : r.stepped.steps = r.steps := by
  unfold stepped
  split <;> rfl

@[simp] theorem position_stepped (r : ImportRun) : r.stepped.position = r.position + 1 := by
  unfold stepped
  split <;> rfl

/-- One more step is told of. -/
theorem chronicle_stepped (hnext : r.nextStep? = some st) :
    r.stepped.chronicle source target
      = r.chronicle source target ++ [.stepCompleted (r.position + 1) st.text] := by
  obtain ⟨hlt, hst⟩ := position_lt_of_nextStep hnext
  have htake : r.steps.take (r.position + 1) = r.steps.take r.position ++ [st] := by
    rw [List.take_add_one, hst, Option.toList_some]
  -- events are numbered by how many there have been
  have hlength : (r.steps.take r.position).length = r.position := by
    rw [List.length_take, Nat.min_eq_left hlt.le]
  unfold chronicle recounted
  rw [steps_stepped, position_stepped, htake, List.mapIdx_concat, hlength]
  rfl

/-! ### The account of an import -/

/-- **The account that an import gives of itself**, once it has been planned or refused. -/
def account (r : ImportRun) : Account :=
  match r.status? with
  | none => ⟨.inProgress, r.position, some r.steps.length, none⟩
  | some .noChanges => ⟨.completed, 0, some 0, none⟩
  | some (.validationFailed problems) => ⟨.validationFailed, 0, none, problems.head?⟩
  | some (.completed steps) => ⟨.completed, steps, some steps, none⟩
  | some (.failedMidway completed total _ reason) => ⟨.failed, completed, some total, some reason⟩

/-- Of the steps that have been carried out the last one counts. -/
theorem foldl_recounted (steps : List Step) (total : Option Nat) :
    (recounted steps).foldl Account.add ⟨.inProgress, 0, total, none⟩
      = ⟨.inProgress, steps.length, total, none⟩ := by
  induction steps using List.reverseRecOn with
  | nil => rfl
  | append_singleton steps st ih =>
    unfold recounted at ih ⊢
    rw [List.mapIdx_concat, List.foldl_append, ih, List.length_append]
    rfl

theorem foldl_chronicle (hle : r.position ≤ r.steps.length) :
    (r.chronicle source target).foldl Account.add .initial
      = ⟨.inProgress, r.position, some r.steps.length, none⟩ := by
  have hfold := foldl_recounted (r.steps.take r.position) (some r.steps.length)
  rw [List.length_take, Nat.min_eq_left hle] at hfold
  exact hfold

/-- **What is told of an import makes the account that the import gives of itself.** -/
theorem Told.account (h : r.Told source target es) (hr : r.Consistent) (htold : es ≠ []) :
    es.foldl Account.add .initial = r.account := by
  have hchronicle : (r.chronicle source target).foldl Account.add .initial = _ :=
    foldl_chronicle hr.position_le
  unfold ImportRun.account status?
  cases h with
  | nothing => exact absurd rfl htold
  | refused hnone hstate =>
    rw [hstate, hnone]
    rfl
  | underway _ hactive =>
    rw [hchronicle]
    -- an import that is at work has been planned or carries out a step
    rcases hstate : r.state <;> rw [hstate] at hactive <;> first | rfl | cases hactive
  | completed hsome hstate =>
    rw [List.foldl_append, hchronicle, hstate]
    simp only [List.isEmpty_eq_false_iff.2 hsome]
    rfl
  | @failed st reason hstate hst hreason =>
    have hsome : r.steps ≠ [] := by
      intro hnone
      rw [hnone] at hst
      cases hst
    rw [List.foldl_append, hchronicle, hstate, hst, hreason]
    simp only [List.isEmpty_eq_false_iff.2 hsome]
    rfl

end ImportRun

namespace Importer

open ImportOperation Attempt ImportRun

variable {σ : Type} {i : Importer σ} {run : String} {entries : σ → List Envelope}
  {sound : σ → Prop} {r : ImportRun} {s : σ} {es : List Event}

/-! ### Recording -/

/-- The ledger is sound, and these are the events of a run in it. -/
def Records (run : String) (entries : σ → List Envelope) (sound : σ → Prop) (es : List Event)
    (s : σ) : Prop := sound s ∧ Ledger.eventsOf run (entries s) = es

/-- **An importer with a journal.** As long as the ledger is sound every event is recorded in it
under the importer's run. Nothing else that the importer works with makes the ledger unsound or
records events of this run. -/
structure Journals (i : Importer σ) (run : String) (entries : σ → List Envelope)
    (sound : σ → Prop) : Prop where
  journal : ∃ journal, i.journal = some journal ∧ ∀ e s, sound s →
    (journal e s).1 = .ok () ∧ sound (journal e s).2 ∧
      ∃ x : Envelope, x.run = run ∧ x.event = e ∧ entries (journal e s).2 = entries s ++ [x]
  spares : ∀ es, i.Spares (Records run entries sound es)

theorem Journals.note (h : i.Journals run entries sound) (e : Event)
    (hs : Records run entries sound es s) :
    Records run entries sound (es ++ [e]) (i.note e s) := by
  obtain ⟨journal, hjournal, hrecorded⟩ := h.journal
  obtain ⟨-, hsound, x, hx, hevent, hentries⟩ := hrecorded e s hs.1
  unfold Importer.note
  rw [hjournal]
  refine ⟨hsound, ?_⟩
  simp only
  rw [hentries, Ledger.eventsOf_concat hx, hevent, hs.2]

theorem Journals.freed (h : i.Journals run entries sound) (hs : Records run entries sound es s) :
    Records run entries sound es (i.freed s) := (h.spares es).release s hs

/-- **What is recorded is what is to be told of the import.** -/
def Faithful (i : Importer σ) (run : String) (entries : σ → List Envelope) (sound : σ → Prop)
    (p : ImportRun × σ) : Prop :=
  ∃ es, Records run entries sound es p.2 ∧
    p.1.Told i.comparer.source.label i.comparer.target.label es

/-! ### Operations -/

/-- **Validation records problems that it has found**, and those only. -/
theorem Journals.validate_faithful (h : i.Journals run entries sound)
    (hp : i.Faithful run entries sound (r, s)) :
    i.Faithful run entries sound (i.validate (r, s)).2 ∧
      ∀ problems, (i.validate (r, s)).1 = .error (.validation problems) →
        Ledger.eventsOf run (entries (i.validate (r, s)).2.2) = [.validationFailed problems] := by
  obtain ⟨es, hs, htold⟩ := hp
  by_cases hstate : MayValidate r
  · obtain ⟨hnone, rfl⟩ := htold.of_mayValidate hstate
    have hquiet := (h.spares []).stable_review ({ r with state := .validating }, s) hs
    have hrevised := (gives_review i { r with state := .validating }
      ({ r with state := .validating }, s) (Revised.refl _)).1
    -- a review never fails with a list of problems: such a list is made of what it has found
    have hraised := raises_review i ({ r with state := .validating }, s)
    rcases hreview : i.review ({ r with state := .validating }, s) with ⟨e | problems, r₁, s₁⟩ <;>
      rw [hreview] at hquiet hrevised hraised <;> obtain ⟨c, x, rfl⟩ := hrevised
    · -- an error of the review is not recorded
      rw [validate_of_error hstate hreview]
      refine ⟨⟨[], hquiet, .nothing hnone⟩, fun problems he => ?_⟩
      cases he
      cases hraised _ rfl
    · by_cases hfound : problems = []
      · subst hfound
        rw [validate_of_accepted hstate hreview]
        exact ⟨⟨[], hquiet, .nothing hnone⟩, fun _ he => nomatch he⟩
      · rw [validate_of_problems hstate hfound hreview]
        have hnoted := h.note (.validationFailed (problems.map (·.message))) hquiet
        refine ⟨⟨_, hnoted, .refused hnone rfl⟩, fun _ he => ?_⟩
        cases he
        exact hnoted.2
  · rw [validate_of_not_mayValidate i hstate]
    exact ⟨⟨es, hs, htold⟩, fun _ he => nomatch he⟩

/-- What is planned is recorded, if it is anything. -/
theorem Journals.launch_faithful (h : i.Journals run entries sound) (steps : List Step)
    (hs : Records run entries sound [] s) :
    i.Faithful run entries sound (i.launch steps (r, s)).2 := by
  rw [launch_apply]
  unfold ImportRun.planned
  rcases steps with _ | ⟨st, rest⟩
  · exact ⟨[], h.freed hs, .nothing rfl⟩
  · exact ⟨_, h.note _ hs, .underway (List.cons_ne_nil _ _) rfl⟩

theorem Journals.start_faithful (h : i.Journals run entries sound)
    (hp : i.Faithful run entries sound (r, s)) :
    i.Faithful run entries sound (i.start (r, s)).2 := by
  by_cases hstate : r.state = .validated
  · obtain ⟨es, hs, htold⟩ := hp
    obtain ⟨hnone, rfl⟩ := htold.of_mayValidate (.inr hstate)
    have hspares := h.spares []
    rw [start_eq, current_bind, if_neg (not_not.2 hstate), bind_apply]
    have hsame : (i.acquire (r, s)).2.1 = r := (gives_acquire i r (r, s) rfl).1
    have hquiet := hspares.stable_acquire (r, s) hs
    rcases hacquire : i.acquire (r, s) with ⟨e | ⟨⟩, r₁, s₁⟩ <;> rw [hacquire] at hsame hquiet <;>
      obtain rfl : r₁ = r := hsame
    · exact ⟨[], hquiet, .nothing hnone⟩
    · -- nothing is recorded before there are steps
      have hends := prepare_ends i r₁ s₁
      have hquiet' := hspares.stable_releasingOnFailure
        (hspares.stable_ensureFresh.bind fun _ => hspares.stable_plan) (r₁, s₁) hquiet
      unfold Attempt.Ends at hends
      simp only
      rw [bind_apply]
      rcases hplan : i.releasingOnFailure (i.ensureFresh >>= fun _ => i.plan) (r₁, s₁) with
        ⟨e | steps, r₂, s₂⟩ <;> rw [hplan] at hends hquiet'
      · -- what is stale or cannot be planned leaves no steps behind
        have hnone₂ : r₂.steps = [] := by
          obtain heq | ⟨c, heq⟩ := hends <;> obtain rfl := heq <;> exact hnone
        exact ⟨[], hquiet', .nothing hnone₂⟩
      · exact h.launch_faithful steps hquiet'
  · rw [start_of_not_validated hstate]
    exact hp

/-- **A step records that it has been carried out, or why not**, and the end of the import if it
is over. -/
theorem Journals.processStep_faithful (h : i.Journals run entries sound) (st : Step)
    (hp : i.Faithful run entries sound (r, s)) :
    i.Faithful run entries sound (i.processStep st (r, s)).2 := by
  by_cases hnext : r.nextStep? = some st
  · obtain ⟨es, hs, htold⟩ := hp
    obtain ⟨hsome, rfl⟩ := htold.of_nextStep hnext
    obtain ⟨hactive, -⟩ := nextStep?_eq_some_iff.1 hnext
    have hquiet := (h.spares _).stable_execute r.comparison.source st s hs
    -- executing a step is not recorded by itself
    have hexecute : (Attempt.always (Cell.second.zoom
        (i.execute r.comparison.source st)).outcome : ImportOperation σ (Except String Unit)) (r, s)
        = (.ok (i.execute r.comparison.source st s).1,
          (r, (i.execute r.comparison.source st s).2)) := rfl
    rw [processStep_eq hnext, bind_apply, hexecute]
    rcases hdone : i.execute r.comparison.source st s with ⟨reason | ⟨⟩, s₁⟩ <;>
      rw [hdone] at hquiet
    · obtain ⟨d, happly⟩ := failStep_apply i (r.position + 1) st reason r s₁
      show i.Faithful run entries sound (i.failStep (r.position + 1) st reason (r, s₁)).2
      rw [happly]
      -- the lock is given back first, which is not recorded
      have hnoted := h.note (.importFailed r.position r.steps.length reason d)
        (h.note (.stepFailed (r.position + 1) st.text reason) (h.freed hquiet))
      rw [List.append_assoc] at hnoted
      refine ⟨_, hnoted, Told.failed (r := r.failed reason) rfl (position_lt_of_nextStep hnext).2 ?_ d⟩
      simp [ImportRun.failed]
    · obtain ⟨d, happly⟩ := completeStep_apply i st r s₁
      show i.Faithful run entries sound (i.completeStep (r.position + 1) st (r, s₁)).2
      rw [happly]
      have hnoted := h.note (.stepCompleted (r.position + 1) st.text) hquiet
      rw [← chronicle_stepped hnext] at hnoted
      by_cases hlast : r.position + 1 = r.steps.length
      · rw [if_pos hlast]
        have hstate : r.stepped.state = .completed := by rw [ImportRun.stepped, if_pos hlast]
        refine ⟨_, h.note _ (h.freed hnoted), ?_⟩
        rw [← steps_stepped r]
        exact .completed (by rwa [steps_stepped]) hstate d
      · rw [if_neg hlast]
        have hstate : r.stepped.state.isActive = true := by
          rw [ImportRun.stepped, if_neg hlast]
          rfl
        exact ⟨_, hnoted, .underway (by rwa [steps_stepped]) hstate⟩
  · -- any other step is refused, also at work
    obtain ⟨e, heq⟩ := processStep_of_ne (i := i) (s := s) hnext
    rw [heq]
    exact hp

/-- **Every operation records what is to be told of it.** -/
theorem Journals.maintains (h : i.Journals run entries sound) :
    i.Maintains (i.Faithful run entries sound) where
  validate _ hp := (h.validate_faithful hp).1
  start _ hp := h.start_faithful hp
  processStep st _ hp := h.processStep_faithful st hp

theorem Journals.alreadyImporting_faithful (h : i.Journals run entries sound) :
    Stable (i.Faithful run entries sound) i.alreadyImporting := by
  rintro p ⟨es, hs, htold⟩
  refine ⟨es, (h.spares es).stable_alreadyImporting p hs, ?_⟩
  rw [alreadyImporting_run]
  exact htold

/-! ### Runs that end before their first step -/

theorem gives_processAll (i : Importer σ) (total : Nat) (steps : List Step) :
    (i.processAll total steps).Gives (fun _ => True) fun x =>
      ∀ problems, x.1 ≠ .validationFailed problems := by
  have hany : ∀ {α : Type} (x : ImportOperation σ α), x.Gives (fun _ => True) fun _ => True :=
    fun x _ _ => ⟨trivial, fun _ _ => trivial⟩
  induction steps with
  | nil => exact gives_pure fun _ => by simp
  | cons st steps ih =>
    unfold Importer.processAll
    refine (hany _).bind fun o _ => ?_
    rcases o with e | ⟨⟩
    · cases e <;> first | exact gives_fail _ | exact gives_pure fun _ => by simp
    · exact (hany _).bind fun r _ => ih.bind fun x hx => gives_pure hx

/-- Problems are what validation has found. -/
theorem validate_of_run {problems : List String} {progress : List Progress}
    (hrun : (i.run (r, s)).1 = .ok (.validationFailed problems, progress)) :
    (i.validate (r, s)).1 = .error (.validation problems) ∧
      (i.run (r, s)).2 = (i.validate (r, s)).2 := by
  -- once the import is validated its run ends in another way
  have hcarryOut : ∀ p, (i.carryOut p).1 ≠ .ok (.validationFailed problems, progress) := by
    intro p hp
    have hgives : i.carryOut.Gives (fun _ => True) fun x =>
        ∀ problems, x.1 ≠ .validationFailed problems := by
      unfold carryOut
      refine Gives.bind (P := fun _ => True) (fun _ _ => ⟨trivial, fun _ _ => trivial⟩)
        fun steps _ => ?_
      split
      · exact gives_pure fun _ => nofun
      · exact gives_processAll i _ _
    exact (hgives p trivial).2 _ hp problems rfl
  by_cases hstate : r.state = .idle
  · rcases hvalid : i.validate (r, s) with ⟨e | ⟨⟩, p⟩
    · rw [run_of_invalid hstate hvalid] at hrun ⊢
      cases e <;> cases hrun
      exact ⟨rfl, rfl⟩
    · rw [run_of_valid hstate hvalid] at hrun
      exact absurd hrun (hcarryOut p)
  · rw [run_of_ne_idle hstate] at hrun
    exact absurd hrun (hcarryOut (r, s))

/-! ### From call to call -/

/-- **The life of an import with a journal**, and what has been recorded of its run: it begins
with nothing, and goes on with one call after the other. Between two calls anything may have
happened that keeps the ledger sound and is not recorded under this run. -/
inductive Recounts (i : Importer σ) (run : String) (entries : σ → List Envelope)
    (sound : σ → Prop) : ImportRun → List Event → Prop
  | begun (c : Comparison) : Recounts i run entries sound (.ofComparison c) []
  | called {p : ImportRun × σ}
      (h : Recounts i run entries sound p.1 (Ledger.eventsOf run (entries p.2)))
      (hs : sound p.2) (q : Call) :
      Recounts i run entries sound (q.leaves i p).1
        (Ledger.eventsOf run (entries (q.leaves i p).2))

theorem Recounts.lives (h : i.Recounts run entries sound r es) : i.Lives r := by
  induction h with
  | begun c => exact .begun c
  | called _ _ q ih =>
    rw [q.leaves_run]
    exact Lives.called ih q

theorem Journals.told (h : i.Journals run entries sound)
    (hr : i.Recounts run entries sound r es) :
    r.Told i.comparer.source.label i.comparer.target.label es := by
  induction hr with
  | begun c => exact .nothing rfl
  | @called p _ hs q ih =>
    have hp : i.Faithful run entries sound p := ⟨_, ⟨hs, rfl⟩, ih⟩
    obtain ⟨es, hrecords, htold⟩ := h.maintains.call h.alreadyImporting_faithful hp q
    rw [hrecords.2]
    exact htold

/-- **The ledger is a faithful journal.** At any time it tells of the run how far the import has
come: nothing; the problems that have been found, which are those that validation, or the run, has
given; or the steps that have been carried out, followed by the end of the import if it is over.
Giving up the import records nothing. As soon as there is anything to tell, the ledger has one
summary of the run, which gives the same account as the import. -/
theorem Journals.faithful_throughout (h : i.Journals run entries sound) (hs : sound s)
    (hr : i.Recounts run entries sound r (Ledger.eventsOf run (entries s))) :
    r.Told i.comparer.source.label i.comparer.target.label (Ledger.eventsOf run (entries s)) ∧
    (∀ problems, (i.validate (r, s)).1 = .error (.validation problems) →
      Ledger.eventsOf run (entries (i.validate (r, s)).2.2) = [.validationFailed problems]) ∧
    (∀ problems progress, (i.run (r, s)).1 = .ok (.validationFailed problems, progress) →
      Ledger.eventsOf run (entries (i.run (r, s)).2.2) = [.validationFailed problems]) ∧
    Ledger.eventsOf run (entries (i.abandon (r, s)).2.2) = Ledger.eventsOf run (entries s) ∧
    (Ledger.eventsOf run (entries s) ≠ [] →
      ∀ (l : Ledger) (t : FileTree), l.events t = .ok (entries s) →
        ∃ runs x, l.runs t = .ok runs ∧ runs.filter (·.id == run) = [x] ∧
          x.account = r.account) := by
  have htold := h.told hr
  have hvalidate := (h.validate_faithful ⟨_, ⟨hs, rfl⟩, htold⟩).2
  refine ⟨htold, hvalidate, fun problems progress hrun => ?_, ?_, fun hsome l t hevents => ?_⟩
  · obtain ⟨hproblems, hleft⟩ := validate_of_run hrun
    rw [hleft]
    exact hvalidate problems hproblems
  · exact ((h.spares _).stable_abandon (r, s) ⟨hs, rfl⟩).2
  · have haccount := htold.account hr.lives.consistent hsome
    unfold Ledger.eventsOf at hsome haccount
    rcases hown : (entries s).filter (·.run == run) with _ | ⟨e, rest⟩
    · rw [hown] at hsome
      exact absurd rfl hsome
    · obtain ⟨runs, hruns, hfilter⟩ := Ledger.filter_runs hevents hown
      rw [hown] at haccount
      exact ⟨runs, _, hruns, hfilter, (Run.account_ofEnvelopes e rest).trans haccount⟩

end Importer

/-! ### In a study -/

/-- Two storages, the held locks and a ledger, all in memory. -/
structure Study where
  source : Storage.Documents
  target : Storage.Documents
  held : LockTable.Held
  entries : List Envelope

namespace Study

open Attempt Importer

/-- An importer that works in a study, with a journal and without extensions. -/
def importer (run : String) : Importer Study :=
  { comparer :=
      { source := Storage.memory ⟨source, fun a d => { d with source := a }⟩
        target := Storage.memory ⟨target, fun a d => { d with target := a }⟩
        transforms := [] }
    lock := LockTable.memory ⟨held, fun a d => { d with held := a }⟩
    lockKey := "import"
    schemas := none
    lifecycle := none
    checks := Check.standard
    journal := some fun e d =>
      (.ok (), { d with entries := d.entries ++ [⟨"", default, run, programVersion, e⟩] })
    clock := fun _ => default }

/-- **In a study an importer keeps a journal.** -/
theorem journals (run : String) : (importer run).Journals run entries fun _ => True where
  journal := ⟨_, rfl, fun e _ _ => ⟨rfl, trivial, ⟨"", default, run, programVersion, e⟩, rfl, rfl, rfl⟩⟩
  spares es :=
    { listSource := fun _ hs => hs
      readSource := Storage.stable_readMany_memory
      listTarget := fun _ hs => hs
      readTarget := Storage.stable_readMany_memory
      installed := fun _ hl => nomatch hl
      info := fun _ hl => nomatch hl
      checks := fun c hc rv hrv => by
        have hnone : rv.lifecycle = none := hrv
        refine Check.stable_standard (fun l hl => ?_) (fun l hl => ?_) hc <;> rw [hnone] at hl <;>
          cases hl
      write := Storage.stable_write_memory fun _ _ hs => hs
      delete := Storage.stable_delete_memory fun _ _ hs => hs
      install := fun _ hl => nomatch hl
      uninstall := fun _ hl => nomatch hl
      acquire := LockTable.stable_take (fun _ _ hs => hs) _
      release := fun _ hs => hs
      isLocked := fun _ hs => hs }

/-- A study with a page to be written and one to be deleted. Another run has been recorded. -/
def editing : Study where
  source := .ofList [("blog.home", [])]
  target := .ofList [("blog.old", [])]
  held := []
  entries := [⟨"", default, "spring", programVersion, .importStarted "" "" 1⟩]

end Study

namespace Importer

/-- Half of this is done in a study with something to do, and the ledger tells it, though another
run has been recorded there before. -/
theorem faithful_editing :
    let i := Study.importer "summer"
    ∃ r s, i.Recounts "summer" Study.entries (fun _ => True) r
        (Ledger.eventsOf "summer" (Study.entries s)) ∧
      r.state = .processing 1 2 ∧
      Ledger.eventsOf "summer" s.entries
        = [.importStarted "memory" "memory" 2, .stepCompleted 1 "delete blog.old"] ∧
      r.Told "memory" "memory" (Ledger.eventsOf "summer" s.entries) ∧
      ∀ (l : Ledger) (t : FileTree), l.events t = .ok s.entries →
        ∃ runs x, l.runs t = .ok runs ∧ runs.filter (·.id == "summer") = [x] ∧
          x.account = ⟨.inProgress, 1, some 2, none⟩ := by
  intro i
  have hnone : Ledger.eventsOf "summer" Study.editing.entries = [] := by decide +kernel
  have hbegun : i.Recounts "summer" Study.entries (fun _ => True) .initial
      (Ledger.eventsOf "summer" Study.editing.entries) := by
    rw [hnone]
    exact .begun .initial
  have hplanned := (Recounts.called (p := (.initial, Study.editing)) hbegun trivial
    .validate).called trivial .start
  have hdone := hplanned.called trivial .processNext
  have hstate : (Call.processNext.leaves i (Call.start.leaves i
      (Call.validate.leaves i (.initial, Study.editing)))).1.state = .processing 1 2 := by
    decide +kernel
  have hevents : Ledger.eventsOf "summer" (Call.processNext.leaves i (Call.start.leaves i
      (Call.validate.leaves i (.initial, Study.editing)))).2.entries
      = [.importStarted "memory" "memory" 2, .stepCompleted 1 "delete blog.old"] := by
    decide +kernel
  have haccount : (Call.processNext.leaves i (Call.start.leaves i
      (Call.validate.leaves i (.initial, Study.editing)))).1.account
      = ⟨.inProgress, 1, some 2, none⟩ := by
    decide +kernel
  -- what the import and the study are does not matter from here on
  rcases hleft : Call.processNext.leaves i (Call.start.leaves i
    (Call.validate.leaves i (.initial, Study.editing))) with ⟨r, s⟩
  rw [hleft] at hdone hstate hevents haccount
  obtain ⟨htold, -, -, -, hsummary⟩ :=
    (Study.journals "summer").faithful_throughout trivial hdone
  rw [haccount] at hsummary
  exact ⟨r, s, hdone, hstate, hevents, htold, hsummary (by rw [hevents]; simp)⟩

end Importer

end SiteConfig
