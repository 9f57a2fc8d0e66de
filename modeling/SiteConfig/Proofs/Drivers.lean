import Mathlib
import SiteConfig.Command.Import
import SiteConfig.Proofs.Course
import SiteConfig.Proofs.Frame
import SiteConfig.Proofs.Planned
import SiteConfig.Storage.Faulty

/-!
# Two ways to drive an import

A run validates an import, plans it and carries out its steps. A command does the same with the
single operations of the import, and shows on a screen what it does; it stops early if there is
nothing to import, and it has exit codes where a run tells how it ended. Whatever the storages, the
lifecycle, the lock and the journal answer, the two agree (`SiteConfig.Site.agrees_run`): from the
same state they leave the same import and the same world behind, and the exit code tells how the run
has ended (`SiteConfig.Site.verdict`).

What is written on the screen is no part of the world (`SiteConfig.Action.Shows`).

Both carry out the list of steps that planning gives. It comes to the same if the import is asked for
its next step every time, until there is none (`SiteConfig.Importer.carryOut_eq`,
`SiteConfig.Site.planAndCarryOut_eq`).
-/

namespace SiteConfig

open Attempt

theorem ImportRun.Awaits.nextStep?_nil {r : ImportRun} (h : r.Awaits []) : r.nextStep? = none := by
  have hstate := h.completed rfl
  rw [ImportRun.nextStep?, if_neg (by simp [hstate, ImportState.isActive])]

namespace Importer

open ImportOperation ImportRun

variable {σ : Type} {i : Importer σ} {r : ImportRun} {rest : List Step}

/-- An import with something to change does not end without steps. -/
theorem carryOut_ne_noChanges (hchanges : r.hasChanges = true) (s : σ) (progress : List Progress) :
    (i.carryOut (r, s)).1 ≠ .ok (.noChanges, progress) := by
  intro h
  obtain ⟨steps, p, hstart, hrest⟩ := bind_eq_ok_iff.1
    (Prod.ext h rfl : i.carryOut (r, s) = (.ok (.noChanges, progress), (i.carryOut (r, s)).2))
  obtain ⟨needs, hplan⟩ := exists_plan_of_start hstart
  rw [if_neg (by simpa using ne_nil_of_hasChanges hchanges hplan)] at hrest
  obtain ⟨hstatus, -⟩ | ⟨⟨k, n, st, reason, hstatus⟩, -⟩ :=
    forM_processStep_of_processAll steps.length steps hrest <;> cases hstatus

/-! ### Asking for the next step -/

/-- Carries out steps as long as there is a next one: the import is asked for it every time. The
count bounds the steps. -/
def processWhile (i : Importer σ) (total : Nat) :
    Nat → ImportOperation σ (ImportStatus × List Progress)
  | 0 => return (.completed total, [])
  | count + 1 => do
    match ← Attempt.always i.processNext.outcome with
    | .ok none => return (.completed total, [])
    | .ok (some step) =>
      let number := (← current).position
      let (status, progress) ← processWhile i total count
      return (status, ⟨step, number, total⟩ :: progress)
    | .error (.stepFailed _ total step completed reason) =>
      return (.failedMidway completed total step reason, [])
    | .error e => Attempt.fail e

/-- **Asking for the next step every time** carries out the steps that have been planned. -/
theorem processWhile_eq_processAll (total : Nat) (hr : r.Awaits rest) {count : Nat}
    (hcount : rest.length < count) (s : σ) :
    i.processWhile total count (r, s) = i.processAll total rest (r, s) := by
  induction rest generalizing r s count with
  | nil =>
    obtain ⟨count, rfl⟩ := Nat.exists_eq_succ_of_ne_zero (Nat.ne_of_gt hcount)
    rw [processWhile, bind_apply, always, outcome, processNext_of_none hr.nextStep?_nil]
    rfl
  | cons st rest ih =>
    obtain ⟨count, rfl⟩ := Nat.exists_eq_succ_of_ne_zero (Nat.ne_of_gt (Nat.zero_lt_of_lt hcount))
    rw [processWhile, bind_apply, always, outcome, processNext_of_some hr.nextStep?]
    obtain ⟨s₁, hstep | ⟨reason, hstep⟩⟩ := processStep_apply i hr.nextStep? s
    · have hrest := ih hr.stepped (Nat.lt_of_succ_lt_succ hcount) s₁
      obtain ⟨x, q, hall⟩ := exists_processAll (i := i) total hr.stepped s₁
      rw [processAll_of_ok hstep hall, bind_apply, hstep]
      rw [hall] at hrest
      show (i.processWhile total count >>= fun x => pure (x.1, ⟨st, r.stepped.position, total⟩ :: x.2) :
        ImportOperation σ (ImportStatus × List Progress)) (r.stepped, s₁) = _
      rw [bind_apply, hrest]
      rfl
    · rw [processAll_of_stepFailed hstep, bind_apply, hstep]
      rfl

/-- **A run asks for the next step every time.** -/
theorem carryOut_eq (i : Importer σ) : i.carryOut = i.start >>= fun steps =>
    if steps.isEmpty then pure (.noChanges, [])
    else i.processWhile steps.length (steps.length + 1) := by
  funext p
  obtain ⟨r, s⟩ := p
  have hends := start_ends i r s
  rw [carryOut, bind_apply, bind_apply]
  rcases hstart : i.start (r, s) with ⟨e | steps, r₁, s₁⟩
  · rfl
  · obtain ⟨-, t, heq⟩ := hends.apply hstart
    obtain rfl : r₁ = r.planned steps t := heq
    rcases steps with _ | ⟨st, rest⟩
    · rfl
    · have hawaits := awaits_planned r t (List.cons_ne_nil st rest)
      exact (processWhile_eq_processAll _ hawaits (Nat.lt_succ_self _) s₁).symm

end Importer

/-! ### What is shown -/

namespace Action

/-- **An action that only shows something**: it succeeds and leaves the world as it is. -/
def Shows (x : Action Unit) : Prop := ∀ w screen, ∃ screen', x (w, screen) = (.ok (), (w, screen'))

theorem shows_success (text : String) : Shows (success text) := fun _ _ => ⟨_, rfl⟩

theorem shows_info (text : String) : Shows (info text) := fun _ _ => ⟨_, rfl⟩

theorem shows_error (text : String) : Shows (error text) := fun _ _ => ⟨_, rfl⟩

theorem Shows.andThen {x y : Action Unit} (hx : Shows x) (hy : Shows y) :
    Shows (x >>= fun _ => y) := by
  intro w screen
  obtain ⟨screen₁, h₁⟩ := hx w screen
  obtain ⟨screen₂, h₂⟩ := hy w screen₁
  exact ⟨screen₂, by rw [bind_apply, h₁]; exact h₂⟩

theorem shows_errorList (title : String) (items : List String) : Shows (errorList title items) := by
  refine (shows_error title).andThen ?_
  induction items with
  | nil => exact fun _ screen => ⟨screen, rfl⟩
  | cons item items ih =>
    have hitem : Shows (complain s!"  - {item}") := fun _ _ => ⟨_, rfl⟩
    exact hitem.andThen ih

end Action

namespace Site

open SiteConfig.Action Importer ImportRun

theorem shows_tellLastStep (r : ImportRun) : Shows (tellLastStep r) := by
  unfold tellLastStep
  split
  · exact shows_info _
  · exact shows_info _

variable {i : Importer World} {r : ImportRun} {w : World} {screen : Screen}

/-- What only shows something is no concern of the import. -/
theorem beside_shows {x : Action Unit} (hx : Shows x) (p : ImportRun × World) (screen : Screen) :
    ∃ screen', Site.beside x (p.1, p.2, screen) = (.ok (), (p.1, p.2, screen')) := by
  obtain ⟨screen', h⟩ := hx p.2 screen
  refine ⟨screen', ?_⟩
  show ((x (p.2, screen)).1, (p.1, (x (p.2, screen)).2)) = _
  rw [h]

/-! ### What a command comes to -/

/-- **The exit code for how a run has ended**, or the failure of the command. -/
def verdict : Except ImportError (ImportStatus × List Progress) → Except Failure Nat
  | .ok (.noChanges, _) => .ok 0
  | .ok (.completed _, _) => .ok 0
  | .ok (.validationFailed _, _) => .ok refusedCode
  | .ok (.failedMidway .., _) => .ok failedMidwayCode
  | .error (.lockContention _) => .ok lockedCode
  | .error e => .error e.failure

/-- How a run has ended does not depend on what is told of its progress. -/
theorem verdict_ok (status : ImportStatus) (progress progress' : List Progress) :
    verdict (.ok (status, progress)) = verdict (.ok (status, progress')) := by
  cases status <;> rfl

/-- **Every ending has a code of its own**, if a run that has nothing to do is left out. -/
theorem verdict_iff {o : Except ImportError (ImportStatus × List Progress)}
    (hne : ∀ progress, o ≠ .ok (.noChanges, progress)) :
    (verdict o = .ok 0 ↔ ∃ n progress, o = .ok (.completed n, progress)) ∧
    (verdict o = .ok refusedCode ↔
      ∃ problems progress, o = .ok (.validationFailed problems, progress)) ∧
    (verdict o = .ok lockedCode ↔ ∃ key, o = .error (.lockContention key)) ∧
    (verdict o = .ok failedMidwayCode ↔
      ∃ k n st reason progress, o = .ok (.failedMidway k n st reason, progress)) ∧
    ∀ f, verdict o = .error f ↔
      ∃ e, o = .error e ∧ (∀ key, e ≠ .lockContention key) ∧ e.failure = f := by
  rcases o with e | ⟨status, progress⟩
  · cases e <;> simp [verdict, refusedCode, lockedCode, failedMidwayCode]
  · cases status with
    | noChanges => exact absurd rfl (hne progress)
    | _ => simp [verdict, refusedCode, lockedCode, failedMidwayCode]

/-- **A command agrees with an operation**: it leaves the same import and the same world behind, and
its exit code tells how the operation has ended. -/
def Agrees (out : Except Failure Nat × (ImportRun × World × Screen))
    (run : Except ImportError (ImportStatus × List Progress) × (ImportRun × World)) : Prop :=
  ∃ screen, out = (verdict run.1, (run.2.1, run.2.2, screen))

/-- After something has been shown the command ends with a code. -/
theorem agrees_of_shows {x : Action Unit} (hx : Shows x) {code : Nat} {p : ImportRun × World}
    {o : Except ImportError (ImportStatus × List Progress)} (ho : verdict o = .ok code)
    (screen : Screen) :
    Agrees ((Site.beside x >>= fun _ => pure code : ImportAction Nat) (p.1, p.2, screen))
      (o, p) := by
  obtain ⟨screen', h⟩ := beside_shows hx p screen
  exact ⟨screen', by rw [bind_apply, h, ho]; rfl⟩

theorem operation_bind {α : Type} {x : ImportOperation World α} {o : Except ImportError α}
    {q : ImportRun × World} (h : x (r, w) = (o, q)) (f : Except ImportError α → ImportAction Nat) :
    (operation x >>= f) (r, w, screen) = f o (q.1, q.2, screen) := by
  have hout : operation x (r, w, screen) = (.ok o, (q.1, q.2, screen)) := by rw [operation, h]
  rw [bind_apply, hout]

/-- **The steps are carried out alike**, one after the other, until one fails. -/
theorem agrees_processAll (i : Importer World) (total : Nat) {rest : List Step}
    (hr : r.Awaits rest) (w : World) (screen : Screen) :
    Agrees (carryOutSteps i total rest (r, w, screen)) (i.processAll total rest (r, w)) := by
  induction rest generalizing r w screen with
  | nil =>
    exact agrees_of_shows (p := (r, w)) (o := .ok (.completed total, [])) (shows_success _) rfl _
  | cons st rest ih =>
    unfold carryOutSteps
    obtain ⟨w₁, hstep | ⟨reason, hstep⟩⟩ := processStep_apply i hr.nextStep? w
    · obtain ⟨x, q, hall⟩ := exists_processAll (i := i) total hr.stepped w₁
      obtain ⟨screen', hrest⟩ := ih hr.stepped w₁ screen
      rw [hall] at hrest
      rw [operation_bind hstep, processAll_of_ok hstep hall]
      refine ⟨screen', hrest.trans ?_⟩
      rw [verdict_ok]
    · -- the error of the step is shown, and so is the step before it
      rw [operation_bind hstep, processAll_of_stepFailed hstep]
      let e := ImportError.stepFailed (r.position + 1) r.steps.length st.text r.position reason
      obtain ⟨screen₁, hshown⟩ := beside_shows (shows_error e.message) (r.failed reason, w₁) screen
      show Agrees ((Site.beside (error e.message) >>= fun _ => Cell.first.read >>= fun r' =>
        Site.beside (tellLastStep r') >>= fun _ => pure failedMidwayCode : ImportAction Nat)
          (r.failed reason, w₁, screen)) _
      rw [bind_apply, hshown]
      exact agrees_of_shows (p := (r.failed reason, w₁)) (shows_tellLastStep _) rfl _

/-- **What is planned is carried out alike**, if there is anything to do. -/
theorem agrees_carryOut (i : Importer World) (hchanges : r.hasChanges = true) (w : World)
    (screen : Screen) :
    Agrees (planAndCarryOut i (r, w, screen)) (i.carryOut (r, w)) := by
  have hends := start_ends i r w
  unfold planAndCarryOut
  rcases hstart : i.start (r, w) with ⟨e | steps, ⟨r₁, w₁⟩⟩
  · have hrun : i.carryOut (r, w) = (.error e, (r₁, w₁)) := by
      unfold Importer.carryOut
      rw [bind_apply, hstart]
    rw [operation_bind hstart, hrun]
    -- only contention has a code of its own
    cases e with
    | lockContention key => exact agrees_of_shows (p := (r₁, w₁)) (shows_error _) rfl _
    | _ => exact ⟨screen, rfl⟩
  · obtain ⟨needs, hplan⟩ := exists_plan_of_start hstart
    obtain ⟨-, t, heq⟩ := hends.apply hstart
    obtain rfl : r₁ = r.planned steps t := heq
    have hsome := ne_nil_of_hasChanges hchanges hplan
    have hrun : i.carryOut (r, w) = i.processAll steps.length steps (r.planned steps t, w₁) := by
      unfold Importer.carryOut
      rw [bind_apply, hstart]
      simp only
      rw [if_neg (by simpa using hsome)]
    rw [operation_bind hstart, hrun]
    exact agrees_processAll i steps.length (awaits_planned r t hsome) w₁ screen

/-- Carries out steps as long as there is a next one, and tells how that ended. As in
`SiteConfig.Importer.processWhile`, the import is asked for the next step every time. -/
def carryOutWhile (i : Importer World) (total : Nat) : Nat → ImportAction Nat
  | 0 => do
    beside (success s!"Imported {total} step(s)")
    return 0
  | count + 1 => do
    let r ← Cell.first.read
    match ImportRun.nextStep? r with
    | none => do
      beside (success s!"Imported {total} step(s)")
      return 0
    | some step => do
      match ← operation (i.processStep step) with
      | .ok () => carryOutWhile i total count
      | .error e =>
        match e with
        | .stepFailed .. => do
          beside (error e.message)
          let r ← Cell.first.read
          beside (tellLastStep r)
          return failedMidwayCode
        | e => Attempt.fail e.failure

theorem carryOutWhile_of_none (h : r.nextStep? = none) (total count : Nat) :
    carryOutWhile i total (count + 1) (r, w, screen) = carryOutSteps i total [] (r, w, screen) := by
  show (match r.nextStep? with | none => _ | some step => _ : ImportAction Nat) (r, w, screen) = _
  rw [h]
  rfl

/-- **The command may ask for the next step every time**, too. -/
theorem carryOutWhile_eq_carryOutSteps (total : Nat) {rest : List Step} (hr : r.Awaits rest)
    {count : Nat} (hcount : rest.length < count) (w : World) (screen : Screen) :
    carryOutWhile i total count (r, w, screen) = carryOutSteps i total rest (r, w, screen) := by
  induction rest generalizing r w screen count with
  | nil =>
    obtain ⟨count, rfl⟩ := Nat.exists_eq_succ_of_ne_zero (Nat.ne_of_gt hcount)
    exact carryOutWhile_of_none hr.nextStep?_nil total count
  | cons st rest ih =>
    obtain ⟨count, rfl⟩ := Nat.exists_eq_succ_of_ne_zero (Nat.ne_of_gt (Nat.zero_lt_of_lt hcount))
    show (match r.nextStep? with | none => _ | some step => _ : ImportAction Nat) (r, w, screen) = _
    rw [hr.nextStep?, carryOutSteps]
    obtain ⟨w₁, hstep | ⟨reason, hstep⟩⟩ := processStep_apply i hr.nextStep? w
    · simp only
      rw [operation_bind hstep, operation_bind hstep]
      exact ih hr.stepped (Nat.lt_of_succ_lt_succ hcount) w₁ screen
    · simp only
      rw [operation_bind hstep, operation_bind hstep]

/-- **What is planned is carried out** by asking for the next step every time. -/
theorem planAndCarryOut_eq (i : Importer World) : planAndCarryOut i = operation i.start >>= fun o =>
    match o with
    | .ok steps => carryOutWhile i steps.length (steps.length + 1)
    | .error (.lockContention _) => do
      beside (error "Another request may be importing configuration already")
      return lockedCode
    | .error e => Attempt.fail e.failure := by
  funext p
  obtain ⟨r, w, screen⟩ := p
  have hends := start_ends i r w
  unfold planAndCarryOut
  rcases hstart : i.start (r, w) with ⟨e | steps, ⟨r₁, w₁⟩⟩
  · rw [operation_bind hstart, operation_bind hstart]
    cases e <;> rfl
  · obtain ⟨-, t, heq⟩ := hends.apply hstart
    obtain rfl : r₁ = r.planned steps t := heq
    rw [operation_bind hstart, operation_bind hstart]
    rcases steps with _ | ⟨st, rest⟩
    · exact (carryOutWhile_of_none rfl _ _).symm
    · have hawaits := awaits_planned r t (List.cons_ne_nil st rest)
      exact (carryOutWhile_eq_carryOutSteps _ hawaits (Nat.lt_succ_self _) w₁ screen).symm

/-- Nothing is left to import. -/
def Idles (i : Importer World) (p : ImportRun × World) : Prop :=
  (i.validate p).1 = .ok () ∧ (i.validate p).2.1.hasChanges = false

/-- **A whole import is carried out alike**, if there is anything to do. -/
theorem agrees_run_of_not_idles (hidle : r.state = .idle) (hsome : ¬Idles i (r, w))
    (screen : Screen) : Agrees (carryOut i true (r, w, screen)) (i.run (r, w)) := by
  unfold carryOut
  rcases hvalid : i.validate (r, w) with ⟨e | ⟨⟩, ⟨r₁, w₁⟩⟩
  · have haway : ¬e.TurnsAway :=
      validate_not_turnsAway (.inl hidle) (congrArg Prod.fst hvalid)
    rw [operation_bind hvalid, run_of_invalid hidle hvalid]
    cases e with
    | validation problems =>
      exact agrees_of_shows (p := (r₁, w₁)) (shows_errorList _ _) rfl _
    | lockContention key => exact absurd (.contention key) haway
    | _ => exact ⟨screen, rfl⟩
  · have hchanges : r₁.hasChanges = true := by
      by_contra hno
      refine hsome ⟨by rw [hvalid], ?_⟩
      rw [hvalid]
      exact Bool.eq_false_iff.2 hno
    rw [operation_bind hvalid, run_of_valid hidle hvalid]
    show Agrees ((if !r₁.hasChanges then _ else _ : ImportAction Nat) (r₁, w₁, screen)) _
    rw [hchanges]
    exact agrees_carryOut i hchanges w₁ screen

theorem run_ne_noChanges (hidle : r.state = .idle) (hsome : ¬Idles i (r, w))
    (progress : List Progress) : (i.run (r, w)).1 ≠ .ok (.noChanges, progress) := by
  rcases hvalid : i.validate (r, w) with ⟨e | ⟨⟩, ⟨r₁, w₁⟩⟩
  · rw [run_of_invalid hidle hvalid]
    cases e <;> exact nofun
  · rw [run_of_valid hidle hvalid]
    refine carryOut_ne_noChanges ?_ w₁ progress
    by_contra hno
    refine hsome ⟨by rw [hvalid], ?_⟩
    rw [hvalid]
    exact Bool.eq_false_iff.2 hno

/-- An importer that works between documents in memory. One page of the target cannot be changed. -/
def pageImporter : Importer World :=
  { comparer :=
      { source := Storage.memory (World.documentCell "sync")
        target := Storage.faulty (Storage.memory (World.documentCell "active"))
          ⟨some "blog.news", none, none⟩ (World.countCell "active")
        transforms := [] }
    lock := LockTable.memory World.heldCell
    lockKey := "import"
    schemas := none
    lifecycle := none
    checks := Check.standard
    journal := none
    clock := World.now }

/-- A world with two pages to be written. -/
def pageWorld : World :=
  { World.ofFiles default default 0 with
    documents := .ofList [("sync", .ofList [("blog.home", []), ("blog.news", [])])] }

/-- **The command and the run agree.** If an idle import can be validated and there is nothing to do
then the command ends with code 0, and nothing has changed that could be seen. Otherwise it leaves
the same import and the same world behind as a run would from the same state; its exit code tells
exactly how the run ends, and it fails exactly when the run fails otherwise than with contention. -/
theorem agrees_run (i : Importer World) (hidle : r.state = .idle) (w : World) (screen : Screen) :
    let out := carryOut i true (r, w, screen)
    let run := i.run (r, w)
    (Idles i (r, w) → out.1 = .ok 0 ∧
      ∀ (τ : Type) (view : World → τ), i.Discreet view → view out.2.2.1 = view w) ∧
    (¬Idles i (r, w) → (out.2.1, out.2.2.1) = run.2 ∧
      (out.1 = .ok 0 ↔ ∃ n progress, run.1 = .ok (.completed n, progress)) ∧
      (out.1 = .ok refusedCode ↔
        ∃ problems progress, run.1 = .ok (.validationFailed problems, progress)) ∧
      (out.1 = .ok lockedCode ↔ ∃ key, run.1 = .error (.lockContention key)) ∧
      (out.1 = .ok failedMidwayCode ↔
        ∃ k n st reason progress, run.1 = .ok (.failedMidway k n st reason, progress)) ∧
      ∀ f, out.1 = .error f ↔
        ∃ e, run.1 = .error e ∧ (∀ key, e ≠ .lockContention key) ∧ e.failure = f) := by
  intro out run
  refine ⟨fun ⟨hok, hnone⟩ => ?_, fun hsome => ?_⟩
  · rcases hvalid : i.validate (r, w) with ⟨e | ⟨⟩, ⟨r₁, w₁⟩⟩ <;> rw [hvalid] at hok hnone
    · cases hok
    · obtain ⟨screen', hout⟩ : ∃ screen', out = (.ok 0, (r₁, w₁, screen')) := by
        obtain ⟨screen', hshown⟩ := agrees_of_shows (p := (r₁, w₁))
          (o := .ok (.noChanges, [])) (shows_success "There are no changes to import") rfl screen
        refine ⟨screen', Eq.trans ?_ hshown⟩
        show carryOut i true (r, w, screen) = _
        unfold carryOut
        rw [operation_bind hvalid]
        show (if !r₁.hasChanges then _ else _ : ImportAction Nat) (r₁, w₁, screen) = _
        rw [show r₁.hasChanges = false from hnone]
        rfl
      rw [hout]
      exact ⟨rfl, fun τ view h => h.validate_of_ok hvalid⟩
  · obtain ⟨screen', hout⟩ := agrees_run_of_not_idles hidle hsome screen
    have hne := run_ne_noChanges hidle hsome
    rw [show out = _ from hout]
    exact ⟨rfl, verdict_iff hne⟩

/-- Both ways to drive this import fail at the second of the two pages. -/
theorem agrees_run_pages :
    (carryOut pageImporter true (.initial, pageWorld, ⟨"", ""⟩)).1 = .ok failedMidwayCode ∧
      (carryOut pageImporter true (.initial, pageWorld, ⟨"", ""⟩)).2.1
        = (pageImporter.run (.initial, pageWorld)).2.1 ∧
      (pageImporter.run (.initial, pageWorld)).1.map (·.1)
        = .ok (.failedMidway 1 2 "create blog.news"
          "Failed to write configuration blog.news: simulated storage failure") := by
  have hstatus : (pageImporter.run (.initial, pageWorld)).1.map (·.1)
      = .ok (.failedMidway 1 2 "create blog.news"
        "Failed to write configuration blog.news: simulated storage failure") := by
    decide +kernel
  have hsome : ¬Idles pageImporter (.initial, pageWorld) := by
    have hchanges : (pageImporter.validate (.initial, pageWorld)).2.1.hasChanges = true := by
      decide +kernel
    exact fun hidles => absurd (hchanges.symm.trans hidles.2) (by decide)
  obtain ⟨-, hagrees⟩ := agrees_run pageImporter (r := .initial) rfl pageWorld ⟨"", ""⟩
  replace hagrees := hagrees hsome
  -- what either of them has done does not matter from here on
  generalize carryOut pageImporter true (.initial, pageWorld, ⟨"", ""⟩) = out at hagrees ⊢
  generalize pageImporter.run (.initial, pageWorld) = run at hagrees hstatus ⊢
  obtain ⟨hleft, -, -, -, hmidway, -⟩ := hagrees
  rcases hrun : run.1 with e | ⟨status, progress⟩ <;> rw [hrun] at hstatus
  · cases hstatus
  · obtain rfl := Except.ok.inj hstatus
    exact ⟨hmidway.2 ⟨_, _, _, _, progress, hrun⟩, congrArg Prod.fst hleft, rfl⟩

end Site

end SiteConfig
