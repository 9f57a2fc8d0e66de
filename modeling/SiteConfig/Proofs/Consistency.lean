import Mathlib
import SiteConfig.Proofs.Turns

/-!
# The life of an import

An import **lives** from one call to the next (`SiteConfig.Importer.Lives`). Whatever was called,
and whatever the storages, the lifecycle, the lock and the journal have answered, what is
recorded of the import is **consistent** (`SiteConfig.ImportRun.Consistent`): its state tells
whether it holds its lock and how many of its steps have been carried out. Each turn keeps this
(`SiteConfig.ImportRun.Turn.consistent`), and so does every call, which takes some turns.

How a run says that it ended is what the import says of itself from then on
(`SiteConfig.Importer.run_status`).
-/

namespace SiteConfig

namespace ImportRun

open Importer (MayValidate)

variable {r r' : ImportRun} {st : Step} {rest : List Step}

/-- **What the state of an import tells about the rest of it.** -/
structure Consistent (r : ImportRun) : Prop where
  settled : r.state ≠ .validating
  guarded : r.guarded = r.state.isActive
  position_le : r.position ≤ r.steps.length
  unplanned : MayValidate r → r.steps = []
  initialized : r.state = .initialized → r.position = 0 ∧ 0 < r.steps.length
  processing : ∀ k n, r.state = .processing k n →
    k = r.position ∧ n = r.steps.length ∧ 0 < k ∧ k < n
  completed : r.state = .completed → r.position = r.steps.length
  failed : r.state = .failed → r.steps ≠ [] → r.position < r.steps.length

/-! ### Before there are steps -/

/-- An import without steps, which has not got past its validation. -/
structure Unplanned (r : ImportRun) : Prop where
  steps : r.steps = []
  position : r.position = 0
  guarded : r.guarded = false

theorem Consistent.unplanned_of (h : r.Consistent) (hstate : MayValidate r) : r.Unplanned := by
  have hsteps := h.unplanned hstate
  refine ⟨hsteps, ?_, ?_⟩
  · have hle := h.position_le
    rw [hsteps] at hle
    exact Nat.le_zero.1 hle
  · rw [h.guarded]
    rcases hstate with hs | hs <;> rw [hs] <;> rfl

/-- Without steps an import may be idle, validated or failed. -/
theorem Unplanned.consistent (h : r.Unplanned)
    (hstate : MayValidate r ∨ r.state = .failed) : r.Consistent where
  settled hs := by rw [MayValidate, hs] at hstate; simp at hstate
  guarded := by
    rw [h.guarded]
    rcases hstate with (hs | hs) | hs <;> rw [hs] <;> rfl
  position_le := h.position ▸ Nat.zero_le _
  unplanned _ := h.steps
  initialized hs := by rw [MayValidate, hs] at hstate; simp at hstate
  processing k n hs := by rw [MayValidate, hs] at hstate; simp at hstate
  completed hs := by rw [MayValidate, hs] at hstate; simp at hstate
  failed _ hsome := absurd h.steps hsome

theorem consistent_ofComparison (c : Comparison) : (ofComparison c).Consistent :=
  Unplanned.consistent ⟨rfl, rfl, rfl⟩ (.inl (.inl rfl))

/-- Looking again plans nothing. -/
theorem Unplanned.revised (h : r.Unplanned) (hr : r.Revised r') : r'.Unplanned := by
  obtain ⟨c, x, rfl⟩ := hr
  exact ⟨h.steps, h.position, h.guarded⟩

/-! ### With steps -/

theorem consistent_planned (r : ImportRun) (steps : List Step) (t : Option Timestamp) :
    (r.planned steps t).Consistent := by
  unfold planned
  rcases steps with _ | ⟨st, rest⟩
  · constructor <;> simp [MayValidate, ImportState.isActive]
  · constructor <;> simp [MayValidate, ImportState.isActive]

/-- An import with a next step has not carried out all of its steps. -/
theorem position_lt_of_nextStep (h : r.nextStep? = some st) :
    r.position < r.steps.length ∧ r.steps[r.position]? = some st := by
  obtain ⟨-, rest, hsteps⟩ := nextStep?_eq_some_iff.1 h
  have hget : r.steps[r.position]? = some st := by rw [← List.head?_drop, hsteps, List.head?_cons]
  exact ⟨(List.getElem?_eq_some_iff.1 hget).1, hget⟩

theorem Consistent.stepped (h : r.Consistent) (hnext : r.nextStep? = some st) :
    r.stepped.Consistent := by
  have hguarded : r.guarded = true := h.guarded.trans (nextStep?_eq_some_iff.1 hnext).1
  have hlt := (position_lt_of_nextStep hnext).1
  unfold ImportRun.stepped
  split
  · rename_i hlast
    constructor <;> simp [MayValidate, ImportState.isActive, hlast]
  · rename_i hmore
    have hpos : r.position + 1 < r.steps.length := by omega
    constructor <;> simp [MayValidate, ImportState.isActive, hguarded, hpos, hpos.le]

theorem consistent_failed (hnext : r.nextStep? = some st) (reason : String) :
    (r.failed reason).Consistent := by
  have hlt := (position_lt_of_nextStep hnext).1
  unfold failed
  constructor <;> simp [MayValidate, ImportState.isActive, hlt, hlt.le]

/-! ### Turns -/

/-- **Every turn keeps an import consistent.** -/
theorem Turn.consistent (h : r.Turn r') (hr : r.Consistent) : r'.Consistent := by
  cases h with
  -- the first four turns happen before there are steps, and there are none afterwards
  | validated hstate hrev =>
    have hplain := (hr.unplanned_of hstate).revised hrev
    exact Unplanned.consistent ⟨hplain.steps, hplain.position, hplain.guarded⟩ (.inl (.inr rfl))
  | refused errors hstate hrev =>
    have hplain := (hr.unplanned_of hstate).revised hrev
    exact Unplanned.consistent ⟨hplain.steps, hplain.position, hplain.guarded⟩ (.inr rfl)
  | released hstate =>
    have hplain := hr.unplanned_of (.inr hstate)
    exact Unplanned.consistent ⟨hplain.steps, hplain.position, rfl⟩ (.inl (.inr hstate))
  | stale c hstate =>
    have hplain := hr.unplanned_of (.inr hstate)
    exact Unplanned.consistent ⟨hplain.steps, hplain.position, rfl⟩ (.inl (.inl rfl))
  | planned steps t _ => exact consistent_planned r steps t
  | stepped hnext => exact hr.stepped hnext
  | failed reason hnext => exact consistent_failed hnext reason

theorem Turns.consistent (h : r.Turns r') (hr : r.Consistent) : r'.Consistent := by
  induction h with
  | refl => exact hr
  | tail _ hturn ih => exact hturn.consistent ih

/-! ### How an import says that it ended -/

theorem isSome_status? (r : ImportRun) : r.status?.isSome = r.state.isTerminal := by
  unfold status?
  cases r.state <;> rfl

theorem status?_of_failed (hnext : r.nextStep? = some st) (reason : String) :
    (r.failed reason).status?
      = some (.failedMidway r.position r.steps.length st.text reason) := by
  obtain ⟨hlt, hst⟩ := position_lt_of_nextStep hnext
  have hsome : r.steps.isEmpty = false := by
    rw [List.isEmpty_eq_false_iff]
    exact List.ne_nil_of_length_pos (by omega)
  simp [status?, failed, hsome, hst]

/-- **An import that has steps left**, or has carried out the last one. -/
structure Awaits (r : ImportRun) (rest : List Step) : Prop where
  steps : r.steps.drop r.position = rest
  planned : r.steps ≠ []
  active : rest ≠ [] → r.state.isActive = true
  completed : rest = [] → r.state = .completed

theorem Awaits.nextStep? (h : r.Awaits (st :: rest)) : r.nextStep? = some st :=
  nextStep?_eq_some_iff.2 ⟨h.active (List.cons_ne_nil _ _), rest, h.steps⟩

theorem Awaits.stepped (h : r.Awaits (st :: rest)) : r.stepped.Awaits rest := by
  have hnumber := number_eq_iff h.steps
  have hrest := drop_succ_position h.steps
  unfold ImportRun.stepped
  split
  · rename_i hlast
    exact ⟨hrest, h.planned, fun hsome => absurd (hnumber.1 hlast) hsome, fun _ => rfl⟩
  · rename_i hmore
    exact ⟨hrest, h.planned, fun _ => rfl, fun hnil => absurd (hnumber.2 hnil) hmore⟩

theorem awaits_planned (r : ImportRun) {steps : List Step} (t : Option Timestamp)
    (hsome : steps ≠ []) : (r.planned steps t).Awaits steps := by
  unfold ImportRun.planned
  rw [if_neg (by simpa using hsome)]
  exact ⟨rfl, hsome, fun _ => rfl, fun hno => absurd hno hsome⟩

end ImportRun

namespace Importer

open ImportOperation Attempt ImportRun

variable {σ : Type} {i : Importer σ} {r : ImportRun} {s : σ} {q : ImportRun × σ}
  {status : ImportStatus} {progress : List Progress}

/-! ### What a run says -/

/-- Carrying out the steps that are left, one after the other, ends as the import says. -/
theorem processAll_status {rest : List Step} (hr : r.Awaits rest)
    (h : i.processAll r.steps.length rest (r, s) = (.ok (status, progress), q)) :
    q.1.status? = some status := by
  -- what is kept along the steps is that those that are left are the ones the import awaits
  induction rest generalizing r s status progress with
  | nil =>
    cases h
    have hsome : r.steps.isEmpty = false := List.isEmpty_eq_false_iff.2 hr.planned
    simp [status?, hr.completed rfl, hsome]
  | cons st rest ih =>
    unfold processAll at h
    rw [bind_apply, always, outcome] at h
    obtain ⟨s₁, hstep | ⟨reason, hstep⟩⟩ := processStep_apply i hr.nextStep? s <;> rw [hstep] at h
    · have hlength : r.stepped.steps.length = r.steps.length := by
        unfold ImportRun.stepped
        split <;> rfl
      have hrest : (i.processAll r.steps.length rest >>= fun x =>
          pure (x.1, ⟨st, r.stepped.position, r.steps.length⟩ :: x.2) :
            ImportOperation σ (ImportStatus × List Progress)) (r.stepped, s₁)
          = (.ok (status, progress), q) := h
      obtain ⟨x, q₁, hall, hx⟩ := bind_eq_ok_iff.1 hrest
      cases hx
      exact ih hr.stepped (hlength ▸ hall)
    · -- the error of the step tells what the import has recorded
      cases h
      exact status?_of_failed hr.nextStep? reason

/-- What is planned and carried out ends as the import says. -/
theorem carryOut_status (h : i.carryOut (r, s) = (.ok (status, progress), q)) :
    q.1.status? = some status := by
  obtain ⟨steps, ⟨r₁, s₁⟩, hstart, hrest⟩ := bind_eq_ok_iff.1 h
  obtain ⟨-, t, heq⟩ := (start_ends i r s).apply hstart
  obtain rfl := heq
  rcases steps with _ | ⟨st, rest⟩
  · cases hrest
    rfl
  · have hawaits := awaits_planned r t (List.cons_ne_nil st rest)
    exact processAll_status hawaits hrest

/-- **How a run says that it ended is what the import says of itself.** -/
theorem run_status (hr : r.Consistent) (h : i.run (r, s) = (.ok (status, progress), q)) :
    q.1.status? = some status := by
  by_cases hstate : r.state = .idle
  · obtain ⟨hno, -⟩ | ⟨hmay, r', hrev, s', hvalid | ⟨e, hinvalid⟩⟩ := validate_leaves i r s
    · exact absurd (.inl hstate) hno
    · rw [run_of_valid hstate hvalid] at h
      exact carryOut_status h
    · rw [run_of_invalid hstate hinvalid] at h
      have hsteps := ((hr.unplanned_of hmay).revised hrev).steps
      -- of all errors only problems that have been found are no error of the run
      cases e <;> cases h
      simp [status?, hsteps, ImportError.messages]
  · rw [run_of_ne_idle hstate] at h
    exact carryOut_status h

/-! ### From call to call -/

/-- What may be called. -/
inductive Call where
  | validate
  | start
  | processStep (st : Step)
  | processNext
  | run
  | alreadyImporting

/-- The import after a call. -/
def Call.after (i : Importer σ) (p : ImportRun × σ) : Call → ImportRun
  | .validate => (i.validate p).2.1
  | .start => (i.start p).2.1
  | .processStep st => (i.processStep st p).2.1
  | .processNext => (i.processNext p).2.1
  | .run => (i.run p).2.1
  | .alreadyImporting => (i.alreadyImporting p).2.1

/-- The import, and everything that it works with, after a call. -/
def Call.leaves (i : Importer σ) (p : ImportRun × σ) : Call → ImportRun × σ
  | .validate => (i.validate p).2
  | .start => (i.start p).2
  | .processStep st => (i.processStep st p).2
  | .processNext => (i.processNext p).2
  | .run => (i.run p).2
  | .alreadyImporting => (i.alreadyImporting p).2

theorem Call.leaves_run (i : Importer σ) (p : ImportRun × σ) (q : Call) :
    (q.leaves i p).1 = q.after i p := by cases q <;> rfl

/-- **Every call keeps what validating, planning and a step keep**, if asking for another import
at work keeps it. -/
theorem Maintains.call {K : ImportRun × σ → Prop} (h : i.Maintains K)
    (hask : Stable K i.alreadyImporting) {p : ImportRun × σ} (hp : K p) (q : Call) :
    K (q.leaves i p) := by
  cases q with
  | validate => exact h.validate p hp
  | start => exact h.start p hp
  | processStep st => exact h.processStep st p hp
  | processNext => exact h.processNext p hp
  | run => exact h.run p hp
  | alreadyImporting => exact hask p hp

/-- **The life of an import**: it begins with a comparison, and goes on with one call after the
other. Between two calls anything may have happened to what the import works with. -/
inductive Lives (i : Importer σ) : ImportRun → Prop
  | begun (c : Comparison) : Lives i (.ofComparison c)
  | called {p : ImportRun × σ} (h : Lives i p.1) (q : Call) : Lives i (q.after i p)

theorem turns_of_call (i : Importer σ) (q : Call) (p : ImportRun × σ) :
    p.1.Turns (q.after i p) := by
  rw [← q.leaves_run]
  refine (maintains_turns i p.1).call (fun p' hp' => ?_) (Turns.refl p.1) q
  show p.1.Turns (i.alreadyImporting p').2.1
  rw [alreadyImporting_run]
  exact hp'

theorem Lives.consistent (h : i.Lives r) : r.Consistent := by
  induction h with
  | begun c => exact consistent_ofComparison c
  | called _ q ih => exact (turns_of_call i q _).consistent ih

/-- **An import is consistent all its life.** It says how it ended just when it is over, and from
then on no call changes it; and whenever a run says how it ended, so does the import. -/
theorem Lives.consistent_throughout (h : i.Lives r) :
    r.Consistent ∧ r.status?.isSome = r.state.isTerminal ∧
      (r.state.isTerminal = true → ∀ (q : Call) (s : σ), q.after i (r, s) = r) ∧
      ∀ s status progress q, i.run (r, s) = (.ok (status, progress), q) →
        q.1.status? = some status := by
  refine ⟨h.consistent, isSome_status? r, fun hover q s => ?_, fun s status progress q hrun => ?_⟩
  · exact (turns_of_call i q (r, s)).eq_of_terminal hover
  · exact run_status h.consistent hrun

/-- All of this holds of the import of a desk that has carried out the first of its steps: it is
at work, and does not say yet how it ended. -/
theorem consistent_midway :
    ∃ r, (Desk.importer Desk.plain).Lives r ∧ r.state = .processing 1 7 ∧ r.Consistent ∧
      r.status? = none := by
  let i := Desk.importer Desk.plain
  let p := (i.validate (.initial, Desk.moving)).2
  let q := (i.start p).2
  have hbegun : i.Lives .initial := .begun .initial
  have hvalidated : i.Lives p.1 := hbegun.called (p := (.initial, Desk.moving)) .validate
  have hplanned : i.Lives q.1 := hvalidated.called .start
  have hlives : i.Lives (Call.processNext.after i q) := hplanned.called .processNext
  obtain ⟨hconsistent, hstatus, -⟩ := hlives.consistent_throughout
  have hstate : (Call.processNext.after i q).state = .processing 1 7 := by decide +kernel
  rw [hstate] at hstatus
  have hnone := Option.isNone_iff_eq_none.1 (Option.isSome_eq_false_iff.1 hstatus)
  exact ⟨_, hlives, hstate, hconsistent, hnone⟩

end Importer

end SiteConfig
