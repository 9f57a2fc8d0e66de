import Mathlib
import SiteConfig.Ledger.Run

/-!
# Summaries of runs

The summaries of all runs are gathered in one pass over a ledger (`SiteConfig.Run.gather`). The
events of other runs do not matter for that of a run: it is what the run's own events make of it,
one after the other (`SiteConfig.Ledger.filter_runs`).

But for the name of the run and for the times, a summary is an account of what has happened
(`SiteConfig.Account`), to which each event adds in its own way, whenever and by whom it was
recorded (`SiteConfig.Run.account_ofEnvelopes`).
-/

namespace SiteConfig

/-! ### One summary to a run -/

namespace Run

variable {run : String} {e : Envelope} {es rest : List Envelope}

@[simp] theorem id_start (e : Envelope) : (start e).id = e.run := rfl

@[simp] theorem id_apply (r : Run) (e : Envelope) : (r.apply e).id = r.id := by
  unfold apply
  split <;> rfl

theorem record_cons (r : Run) (runs : List Run) (e : Envelope) :
    record (r :: runs) e = if r.id = e.run then r.apply e :: runs else r :: record runs e := rfl

/-- An envelope is added to the summary of its own run only. -/
theorem filter_record (run : String) (runs : List Run) (e : Envelope) :
    (record runs e).filter (·.id == run)
      = if e.run = run then record (runs.filter (·.id == run)) e
        else runs.filter (·.id == run) := by
  induction runs with
  | nil => by_cases h : e.run = run <;> simp [record, h]
  | cons r runs ih =>
    rw [record_cons]
    by_cases hown : r.id = e.run
    · by_cases h : e.run = run <;> simp [hown, h, record_cons]
    · by_cases hr : r.id = run
      · have hne : ¬e.run = run := fun h => hown (hr.trans h.symm)
        rw [if_neg hown, if_neg hne, List.filter_cons_of_pos (by simpa using hr), ih, if_neg hne,
          List.filter_cons_of_pos (by simpa using hr)]
      · rw [if_neg hown, List.filter_cons_of_neg (by simpa using hr), ih,
          List.filter_cons_of_neg (by simpa using hr)]

/-- **What is gathered about a run** is gathered from its own envelopes. -/
theorem filter_gather (run : String) (es : List Envelope) :
    (gather es).filter (·.id == run) = gather (es.filter (·.run == run)) := by
  have hfold : ∀ runs, (es.foldl record runs).filter (·.id == run)
      = (es.filter (·.run == run)).foldl record (runs.filter (·.id == run)) := by
    induction es with
    | nil => exact fun _ => rfl
    | cons e es ih =>
      intro runs
      rw [List.foldl_cons, ih, filter_record]
      by_cases h : e.run = run <;> simp [h]
  exact hfold []

/-- The summary that some envelopes of one run make. -/
def ofEnvelopes (e : Envelope) (rest : List Envelope) : Run := (e :: rest).foldl apply (start e)

/-- The envelopes of one run make one summary. -/
theorem gather_eq_singleton (h : ∀ x ∈ rest, x.run = e.run) :
    gather (e :: rest) = [ofEnvelopes e rest] := by
  have hfold : ∀ r : Run, r.id = e.run → rest.foldl record [r] = [rest.foldl apply r] := by
    induction rest with
    | nil => exact fun _ _ => rfl
    | cons x rest ih =>
      intro r hr
      rw [List.foldl_cons, record_cons, if_pos (hr.trans (h x List.mem_cons_self).symm),
        List.foldl_cons]
      exact ih (fun y hy => h y (List.mem_cons_of_mem x hy)) _ (by rw [id_apply, hr])
  exact hfold ((start e).apply e) (by rw [id_apply, id_start])

end Run

/-- **A run that has been recorded has one summary**, made by its own envelopes. -/
theorem Ledger.filter_runs {l : Ledger} {t : FileTree} {run : String} {es rest : List Envelope}
    {e : Envelope} (h : l.events t = .ok es) (hrun : es.filter (·.run == run) = e :: rest) :
    ∃ runs, l.runs t = .ok runs ∧ runs.filter (·.id == run) = [Run.ofEnvelopes e rest] := by
  refine ⟨_, by rw [Ledger.runs, h]; rfl, ?_⟩
  have hown : ∀ x ∈ e :: rest, x.run = run := by
    intro x hx
    rw [← hrun] at hx
    exact beq_iff_eq.1 (List.mem_filter.1 hx).2
  have hgather : (Run.gather es).filter (·.id == run) = [Run.ofEnvelopes e rest] := by
    rw [Run.filter_gather, hrun]
    exact Run.gather_eq_singleton fun x hx =>
      (hown x (List.mem_cons_of_mem e hx)).trans (hown e List.mem_cons_self).symm
  -- sorting by time moves summaries around, but there is just one of this run
  have hperm := (List.mergeSort_perm (Run.gather es) fun a b => !b.started.before a.started).filter
    (·.id == run)
  rw [hgather] at hperm
  exact List.perm_singleton.1 hperm

/-! ### Accounts -/

/-- **What a summary says of a run** but for its name and the times. -/
structure Account where
  outcome : RunOutcome
  completedSteps : Nat
  totalSteps : Option Nat
  error : Option String
  deriving DecidableEq

namespace Account

/-- Nothing has happened yet. -/
def initial : Account := ⟨.inProgress, 0, none, none⟩

/-- What an event adds to an account. -/
def add (a : Account) : Event → Account
  | .validationFailed problems =>
    { a with outcome := .validationFailed, error := problems.head? }
  | .importStarted _ _ total => { a with totalSteps := some total }
  | .stepCompleted number _ => { a with completedSteps := number }
  | .stepFailed _ _ reason => { a with error := some reason }
  | .importCompleted steps _ => { a with outcome := .completed, completedSteps := steps }
  | .importFailed completed _ reason _ =>
    { a with outcome := .failed, completedSteps := completed, error := some reason }

end Account

namespace Run

/-- The account that a summary gives. -/
def account (r : Run) : Account := ⟨r.outcome, r.completedSteps, r.totalSteps, r.error⟩

theorem account_apply (r : Run) (e : Envelope) : (r.apply e).account = r.account.add e.event := by
  unfold apply Account.add
  cases e.event <;> rfl

/-- **The account of a run** depends on what has happened only. -/
theorem account_ofEnvelopes (e : Envelope) (rest : List Envelope) :
    (ofEnvelopes e rest).account
      = ((e :: rest).map (·.event)).foldl Account.add .initial := by
  have hfold : ∀ (es : List Envelope) (r : Run), (es.foldl apply r).account
      = (es.map (·.event)).foldl Account.add r.account := by
    intro es
    induction es with
    | nil => exact fun _ => rfl
    | cons x es ih =>
      intro r
      rw [List.foldl_cons, ih, account_apply]
      rfl
  exact hfold (e :: rest) (start e)

end Run

end SiteConfig
