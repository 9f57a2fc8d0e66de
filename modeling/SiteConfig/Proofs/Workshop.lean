import Mathlib
import SiteConfig.Proofs.Hall

/-!
# Importers at work together

Any number of importers share a target and a lock in memory (`SiteConfig.Workshop`); they
are asked to validate, to plan, to carry out steps and to go away, in any order
(`SiteConfig.Workshop.Moves`). Between two requests anything may change but the target and
the locks.

The invariant (`SiteConfig.Workshop.Sound`) joins all importers: the lock is held just when
one of them is at work, no two of them are, and the steps that are left to the one at work
fit the target as it is (`SiteConfig.Step.Fit`). It does not say that the target is what it
was when the others compared it, which is not so: an importer that finds the lock free looks
again. What follows for single requests is put together in `SiteConfig.Workshop.Orderly`.
-/

namespace SiteConfig

open Attempt

/-! ### One import and what is shared -/

/-- **How an import stands** with respect to what it shares. -/
structure ImportRun.Stands (r : ImportRun) (v : Common) : Prop where
  sane : r.Sane
  proper : Storage.Proper v.target
  locked : r.state.isActive = true → v.locked = true
  fits : r.state.isActive = true →
    Step.Fit (r.steps.drop r.position) r.comparison.source (Storage.snapshot [] v.target)

/-- **What may have happened to an import**, which is perhaps no longer there, and to what
it shares. -/
structure ImportRun.Leaves (r : ImportRun) (v : Common) (o : Option ImportRun) (w : Common) :
    Prop where
  proper : Storage.Proper w.target
  quiet : r.state.isActive = false → w.target = v.target
  locked : w.locked = (!r.state.isActive && v.locked || o.any (·.state.isActive))
  sane : ∀ r' ∈ o, r'.Sane
  free : ∀ r' ∈ o, r'.state.isActive = true → r.state.isActive = true ∨ v.locked = false
  fits : ∀ r' ∈ o, r'.state.isActive = true →
    Step.Fit (r'.steps.drop r'.position) r'.comparison.source (Storage.snapshot [] w.target)
  completed : ∀ r' ∈ o, r'.state = .completed →
    r.state = .completed ∨ r'.comparison.source.Agrees (Storage.snapshot [] w.target)

namespace ImportRun

variable {r r' : ImportRun} {v w : Common} {st : Step} {rest steps : List Step}

/-- What may have happened to an import that is not at work afterwards. -/
theorem leaves_of_inactive (proper : Storage.Proper w.target)
    (quiet : r.state.isActive = false → w.target = v.target) (sane : r'.Sane)
    (hinactive : r'.state.isActive = false) (hlocked : w.locked = (!r.state.isActive && v.locked))
    (completed : r'.state = .completed →
      r.state = .completed ∨ r'.comparison.source.Agrees (Storage.snapshot [] w.target)) :
    r.Leaves v (some r') w := by
  -- lock and steps matter only to imports that are at work
  have hno : ∀ r'' ∈ some r', r''.state.isActive = true → False := by
    rintro r'' h'' hactive
    cases h''
    rw [hinactive] at hactive
    cases hactive
  refine ⟨proper, quiet, ?_, ?_, fun r'' h'' h => (hno r'' h'' h).elim,
    fun r'' h'' h => (hno r'' h'' h).elim, ?_⟩
  · rw [hlocked, Option.any_some, hinactive, Bool.or_false]
  · rintro r'' h''
    cases h''
    exact sane
  · rintro r'' h'' hover
    cases h''
    exact completed hover

/-- What may have happened to an import that is at work afterwards. -/
theorem leaves_of_active (proper : Storage.Proper w.target)
    (quiet : r.state.isActive = false → w.target = v.target) (sane : r'.Sane)
    (hactive : r'.state.isActive = true) (hlocked : w.locked = true)
    (free : r.state.isActive = true ∨ v.locked = false)
    (fits : Step.Fit (r'.steps.drop r'.position) r'.comparison.source
      (Storage.snapshot [] w.target)) : r.Leaves v (some r') w := by
  refine ⟨proper, quiet, ?_, ?_, fun _ _ _ => free, ?_, ?_⟩
  · rw [hlocked, Option.any_some, hactive, Bool.or_true]
  · rintro r'' h''
    cases h''
    exact sane
  · rintro r'' h'' -
    cases h''
    exact fits
  · rintro r'' h'' hover
    cases h''
    rw [hover] at hactive
    cases hactive

/-- Nothing may have happened. -/
theorem Stands.leaves_self (h : r.Stands v) : r.Leaves v (some r) v := by
  rcases hactive : r.state.isActive with _ | _
  · refine leaves_of_inactive h.proper (fun _ => rfl) h.sane hactive ?_ .inl
    rw [hactive]
    rfl
  · exact leaves_of_active h.proper (fun _ => rfl) h.sane hactive (h.locked hactive) (.inl hactive)
      (h.fits hactive)

/-- An import that is not at work may wait otherwise. -/
theorem Stands.leaves_waiting (h : r.Stands v) (hinactive : r.state.isActive = false)
    (hr' : r'.Waiting) : r.Leaves v (some r') v := by
  refine leaves_of_inactive h.proper (fun _ => rfl) hr'.1 hr'.2.1 ?_ fun hover =>
    absurd hover hr'.2.2
  rw [hinactive]
  rfl

/-- An import that is not at work may plan steps that fit, if the lock is free. -/
theorem Stands.leaves_planned (h : r.Stands v) (hinactive : r.state.isActive = false)
    (hfree : v.locked = false)
    (hfit : Step.Fit steps r.comparison.source (Storage.snapshot [] v.target))
    (t : Option Timestamp) :
    r.Leaves v (some (r.planned steps t)) { v with locked := !steps.isEmpty } := by
  rcases steps with _ | ⟨st, rest⟩
  · refine leaves_of_inactive h.proper (fun _ => rfl)
      ⟨h.sane.comparison, h.sane.extensionChanges, rfl⟩ rfl ?_ fun _ => .inr hfit.agrees_nil
    rw [hinactive, hfree]
    rfl
  · exact leaves_of_active h.proper (fun _ => rfl)
      ⟨h.sane.comparison, h.sane.extensionChanges, rfl⟩ rfl rfl (.inr hfree) hfit

/-- An import at work may fail; then the lock is free again. -/
theorem Stands.leaves_failed (h : r.Stands v) (hactive : r.state.isActive = true)
    (hw : Storage.Proper w.target) (reason : String) :
    r.Leaves v (some (r.failed reason)) { w with locked := false } := by
  refine leaves_of_inactive hw (fun hno => nomatch hactive.symm.trans hno)
    ⟨h.sane.comparison, h.sane.extensionChanges, rfl⟩ rfl ?_ fun hover => nomatch hover
  rw [hactive]
  rfl

/-- **An import at work may carry out a step that fits.** -/
theorem Stands.leaves_stepped (h : r.Stands v) (hactive : r.state.isActive = true)
    (hsteps : r.steps.drop r.position = st :: rest) (hw : Storage.Proper w.target)
    (hlocked : w.locked = v.locked)
    (hadopt : Changelist.Adopts r.comparison.source (Storage.snapshot [] v.target)
      (Storage.snapshot [] w.target) st.names) :
    r.Leaves v (some r.stepped)
      (if r.position + 1 = r.steps.length then { w with locked := false } else w) := by
  have hquiet : r.state.isActive = false → w.target = v.target :=
    fun hno => nomatch hactive.symm.trans hno
  have hfit := h.fits hactive
  rw [hsteps] at hfit
  unfold stepped
  by_cases hlast : r.position + 1 = r.steps.length
  · -- the last step: nothing differs any more, and the lock is given back
    have hnil : rest = [] := (number_eq_iff hsteps).1 hlast
    rw [if_pos hlast, if_pos hlast]
    refine leaves_of_inactive hw hquiet ⟨h.sane.comparison, h.sane.extensionChanges, rfl⟩ rfl ?_
      fun _ => .inr (hnil ▸ hfit.tail hadopt).agrees_nil
    rw [hactive]
    rfl
  · rw [if_neg hlast, if_neg hlast]
    refine leaves_of_active hw hquiet ⟨h.sane.comparison, h.sane.extensionChanges,
      h.sane.guarded.trans hactive⟩ rfl (hlocked.trans (h.locked hactive)) (.inl hactive) ?_
    show Step.Fit (r.steps.drop (r.position + 1)) _ _
    rw [drop_succ_position hsteps]
    exact hfit.tail hadopt

/-- An import may be given up; if it was at work, the lock is free again. -/
theorem Stands.leaves_none (h : r.Stands v) :
    r.Leaves v none (if r.state.isActive then { v with locked := false } else v) := by
  rcases hactive : r.state.isActive with _ | _
  · refine ⟨h.proper, fun _ => rfl, ?_, ?_, ?_, ?_, ?_⟩
    · rw [hactive]
      exact (Bool.or_false _).symm
    all_goals exact fun _ hr' => nomatch hr'
  · refine ⟨h.proper, fun _ => rfl, ?_, ?_, ?_, ?_, ?_⟩
    · rw [hactive]
      rfl
    all_goals exact fun _ hr' => nomatch hr'

end ImportRun

/-! ### Requests -/

/-- What an importer may be asked to do. -/
inductive Request where
  | validate
  | start
  | processStep (step : Step)
  | processNext
  | drop
  deriving DecidableEq, Repr

namespace Request

variable {σ : Type}

/-- The operation that is asked for. -/
def operation (i : Importer σ) : Request → ImportOperation σ Unit
  | validate => i.validate
  | start => i.start >>= fun _ => pure ()
  | processStep st => i.processStep st
  | processNext => i.processNext >>= fun _ => pure ()
  | drop => i.abandon

/-- What is left of the import afterwards. -/
def remains (q : Request) (r : ImportRun) : Option ImportRun := if q = drop then none else some r

end Request

namespace Importer

open ImportOperation

variable {σ : Type} {i : Importer σ} {target : σ → Storage.Documents}
  {held : Cell σ LockTable.Held} {key : String} {r : ImportRun} {s : σ} {v : Common}

theorem Shares.leaves_processStep (h : i.Shares target held key) (hr : r.Stands v)
    (hs : Common.of target held key s = v) (st : Step) :
    (i.processStep st).Ends (beside (Common.of target held key)) (r, s) fun _ p =>
      r.Leaves v (some p.1) p.2 ∧ p.1.comparison.source = r.comparison.source := by
  by_cases hnext : r.nextStep? = some st
  · obtain ⟨hactive, rest, hsteps⟩ := ImportRun.nextStep?_eq_some_iff.1 hnext
    have hsane := hr.sane.comparison.source
    have hno : ∀ n ∈ st.removed, r.comparison.source.get? n = none :=
      (hr.fits hactive).removed st (hsteps ▸ List.mem_cons_self)
    obtain ⟨o, w, hexec, hw⟩ :=
      (h.execute_ends hs hr.proper hsane.1 hsane.2 st hno).exists_yields
    rcases o with reason | ⟨⟩
    · refine (h.reports.yields_processStep_error hnext hexec).ends ⟨?_, rfl⟩
      exact hr.leaves_failed hactive hw.proper reason
    · refine (h.reports.yields_processStep hnext hexec).ends ⟨?_, ?_⟩
      · exact hr.leaves_stepped hactive hsteps hw.proper hw.locked (hw.adopts rfl)
      · unfold ImportRun.stepped
        split <;> rfl
  · obtain ⟨e, he⟩ := processStep_of_ne (i := i) (s := s) hnext
    unfold Attempt.Ends
    rw [he, beside_mk, hs]
    exact ⟨hr.leaves_self, rfl⟩

theorem Shares.leaves_processNext (h : i.Shares target held key) (hr : r.Stands v)
    (hs : Common.of target held key s = v) :
    i.processNext.Ends (beside (Common.of target held key)) (r, s) fun _ p =>
      r.Leaves v (some p.1) p.2 ∧ p.1.comparison.source = r.comparison.source := by
  unfold Attempt.Ends
  rcases hnext : r.nextStep? with _ | st
  · rw [processNext_of_none hnext, beside_mk, hs]
    exact ⟨hr.leaves_self, rfl⟩
  · rw [processNext_of_some hnext]
    exact (h.leaves_processStep hr hs st).give (some st)

/-- Planning either is refused, or the lock is free and the import plans. -/
theorem Shares.leaves_start (h : i.Shares target held key) (hr : r.Stands v)
    (hs : Common.of target held key s = v) :
    i.start.Ends (beside (Common.of target held key)) (r, s) fun _ p =>
      r.Leaves v (some p.1) p.2 ∧ p.1.comparison.source = r.comparison.source := by
  by_cases hstate : r.state = .validated
  · have hinactive : r.state.isActive = false := by rw [hstate]; rfl
    rcases hlocked : v.locked with _ | _
    · refine (h.start_ends hr.sane hstate hlocked hr.proper hs).imp fun _ p hp => ?_
      rcases hp with ⟨hv, hwaiting, hsource⟩ | ⟨steps, t, rfl, hfit⟩
      · rw [hv]
        exact ⟨hr.leaves_waiting hinactive hwaiting, hsource⟩
      · refine ⟨hr.leaves_planned hinactive hlocked hfit t, ?_⟩
        unfold ImportRun.planned
        split <;> rfl
    · -- the lock is held by another one
      subst hs
      unfold Attempt.Ends
      rw [start_of_held hstate (h.acquire_eq_false hlocked)]
      exact ⟨hr.leaves_self, rfl⟩
  · unfold Attempt.Ends
    rw [start_of_not_validated hstate, beside_mk, hs]
    exact ⟨hr.leaves_self, rfl⟩

theorem Shares.leaves_validate (h : i.Shares target held key) (hr : r.Stands v)
    (hs : Common.of target held key s = v) :
    i.validate.Ends (beside (Common.of target held key)) (r, s) fun _ p =>
      r.Leaves v (some p.1) p.2 := by
  refine (h.validate_ends hr.sane hr.proper hs).imp fun _ p hp => ?_
  obtain ⟨hv, hp₁ | ⟨hinactive, hwaiting⟩⟩ := hp
  · rw [hv, hp₁]
    exact hr.leaves_self
  · rw [hv]
    exact hr.leaves_waiting hinactive hwaiting

theorem Shares.leaves_drop (h : i.Shares target held key) (hr : r.Stands v)
    (hs : Common.of target held key s = v) :
    i.abandon.Ends (beside (Common.of target held key)) (r, s) fun _ p =>
      r.Leaves v none p.2 ∧ p.1.comparison.source = r.comparison.source := by
  have hnone := hr.leaves_none
  unfold abandon
  refine (yields_current r hs).bind_ends fun ⟨r₁, s₁⟩ h₁ => ?_
  obtain ⟨rfl, hv₁⟩ := beside_eq_iff.1 h₁
  rw [← hr.sane.guarded] at hnone
  split
  · rename_i hguarded
    rw [if_pos hguarded] at hnone
    exact (h.reports.yields_release r₁ hv₁).ends ⟨hnone, rfl⟩
  · rename_i hguarded
    rw [if_neg hguarded] at hnone
    exact (yields_pure () h₁).ends ⟨hnone, rfl⟩

/-- **What any request may do** to an import and to what it shares. Only validating looks at
the source. -/
theorem Shares.request_ends (h : i.Shares target held key) (hr : r.Stands v)
    (hs : Common.of target held key s = v) (q : Request) :
    (q.operation i).Ends (beside (Common.of target held key)) (r, s) fun _ p =>
      r.Leaves v (q.remains p.1) p.2 ∧
        (q ≠ .validate → p.1.comparison.source = r.comparison.source) := by
  cases q with
  | validate => exact (h.leaves_validate hr hs).imp fun _ p hp => ⟨hp, fun hne => absurd rfl hne⟩
  | start => exact ((h.leaves_start hr hs).give ()).imp fun _ p hp => ⟨hp.1, fun _ => hp.2⟩
  | processStep st => exact (h.leaves_processStep hr hs st).imp fun _ p hp => ⟨hp.1, fun _ => hp.2⟩
  | processNext => exact ((h.leaves_processNext hr hs).give ()).imp fun _ p hp => ⟨hp.1, fun _ => hp.2⟩
  | drop => exact (h.leaves_drop hr hs).imp fun _ p hp => ⟨hp.1, fun _ => hp.2⟩

end Importer

/-! ### The workshop -/

/-- Some imports, as far as they are still there, and the state that their importers work
on. -/
structure Workshop (ι σ : Type) where
  runs : ι → Option ImportRun
  state : σ

namespace Workshop

variable {ι σ : Type} [DecidableEq ι] {imp : ι → Importer σ} {target : σ → Storage.Documents}
  {held : Cell σ LockTable.Held} {key : String} {g g₀ : Workshop ι σ} {a b : ι}

/-- The workshop with another import, or none, of one importer, and another state. -/
def put (g : Workshop ι σ) (a : ι) (o : Option ImportRun) (s : σ) : Workshop ι σ :=
  ⟨Function.update g.runs a o, s⟩

/-- An importer is asked to do something; one that is gone does nothing. -/
def ask (imp : ι → Importer σ) (a : ι) (q : Request) (g : Workshop ι σ) :
    Option (Except ImportError Unit) × Workshop ι σ :=
  match g.runs a with
  | none => (none, g)
  | some r =>
    let (o, r', s) := q.operation (imp a) (r, g.state)
    (some o, g.put a (q.remains r') s)

/-- An importer is at work: its steps are planned, and not all of them are done. -/
def AtWork (g : Workshop ι σ) (a : ι) : Prop :=
  ∃ r, g.runs a = some r ∧ r.state.isActive = true

/-- **What may happen in a workshop**: a request, or anything else that leaves the target and
the locks alone. -/
inductive Moves (imp : ι → Importer σ) (target : σ → Storage.Documents)
    (held : Cell σ LockTable.Held) : Workshop ι σ → Workshop ι σ → Prop where
  | request (g : Workshop ι σ) (a : ι) (q : Request) : Moves imp target held g (ask imp a q g).2
  | elsewhere (g : Workshop ι σ) (s : σ) (htarget : target s = target g.state)
      (hheld : held.get s = held.get g.state) : Moves imp target held g { g with state := s }

/-- **The beginning**: no import has begun, and the lock is free. -/
structure Opens (target : σ → Storage.Documents) (held : Cell σ LockTable.Held) (key : String)
    (g : Workshop ι σ) : Prop where
  runs : ∀ a, g.runs a = some .initial
  proper : Storage.Proper (target g.state)
  free : (held.get g.state).contains key = false

/-! ### The invariant -/

/-- **How a workshop stands**: each import stands as it should, one at most is at work, and
the lock is held just when one is. -/
structure Sound (target : σ → Storage.Documents) (held : Cell σ LockTable.Held) (key : String)
    (g : Workshop ι σ) : Prop where
  proper : Storage.Proper (target g.state)
  stands : ∀ a r, g.runs a = some r → r.Stands (.of target held key g.state)
  unique : ∀ a b, g.AtWork a → g.AtWork b → a = b
  locked : (Common.of target held key g.state).locked = true ↔ ∃ a, g.AtWork a

omit [DecidableEq ι] in
theorem Opens.sound (h : g.Opens target held key) : g.Sound target held key := by
  have hno : ∀ a, ¬g.AtWork a := by
    rintro a ⟨r, hr, hactive⟩
    rw [h.runs a] at hr
    cases hr
    cases hactive
  refine ⟨h.proper, fun a r hr => ?_, fun a _ ha => absurd ha (hno a), ?_⟩
  · rw [h.runs a] at hr
    cases hr
    exact ⟨ImportRun.sane_initial, h.proper, fun hactive => (nomatch hactive), fun hactive => nomatch hactive⟩
  · refine iff_of_false ?_ fun ⟨a, ha⟩ => hno a ha
    rw [Common.of, h.free]
    exact Bool.false_ne_true

theorem runs_put_self (o : Option ImportRun) (s : σ) : (g.put a o s).runs a = o := by
  simp [put]

theorem runs_put_of_ne (hb : b ≠ a) (o : Option ImportRun) (s : σ) :
    (g.put a o s).runs b = g.runs b := by
  simp [put, hb]

theorem atWork_put_self {o : Option ImportRun} {s : σ} :
    (g.put a o s).AtWork a ↔ o.any (·.state.isActive) = true := by
  rw [AtWork, runs_put_self, Option.any_eq_true]

theorem atWork_put_of_ne (hb : b ≠ a) {o : Option ImportRun} {s : σ} :
    (g.put a o s).AtWork b ↔ g.AtWork b := by
  rw [AtWork, runs_put_of_ne hb]
  rfl

section Put

variable (h : g.Sound target held key) {r : ImportRun} (hr : g.runs a = some r)
  {o : Option ImportRun} {s : σ}
  (hl : r.Leaves (.of target held key g.state) o (.of target held key s))

omit [DecidableEq ι] in
include h hr in
/-- While another importer is at work, this one is not. -/
theorem Sound.inactive_of_ne (hb : b ≠ a) (hwork : g.AtWork b) : r.state.isActive = false := by
  by_contra hactive
  exact hb (h.unique b a hwork ⟨r, hr, Bool.eq_true_of_not_eq_false hactive⟩)

omit [DecidableEq ι] in
include h hr hl in
/-- While another importer is at work, the lock stays held. -/
theorem Sound.locked_of_ne (hb : b ≠ a) (hwork : g.AtWork b) :
    (Common.of target held key s).locked = true := by
  rw [hl.locked, h.inactive_of_ne hr hb hwork, h.locked.2 ⟨b, hwork⟩]
  rfl

include h hr hl in
/-- While another importer is at work, this one does not begin to be. -/
theorem Sound.not_atWork_put (hb : b ≠ a) (hwork : g.AtWork b) : ¬(g.put a o s).AtWork a := by
  intro ha
  rw [AtWork, runs_put_self] at ha
  obtain ⟨r', hr', hactive⟩ := ha
  rcases hl.free r' hr' hactive with hno | hfree
  · rw [h.inactive_of_ne hr hb hwork] at hno
    cases hno
  · rw [h.locked.2 ⟨b, hwork⟩] at hfree
    cases hfree

include h hr hl in
/-- **What one import leaves does not disturb the others.** -/
theorem Sound.put : (g.put a o s).Sound target held key := by
  refine ⟨hl.proper, fun b r' hr' => ?_, fun b c hb hc => ?_, ?_⟩
  · -- another import that is at work holds the lock, and then this one has changed nothing
    by_cases hba : b = a
    · subst hba
      rw [runs_put_self] at hr'
      refine ⟨hl.sane r' hr', hl.proper, fun hactive => ?_, hl.fits r' hr'⟩
      exact hl.locked.trans (by rw [hr', Option.any_some, hactive, Bool.or_true])
    · rw [runs_put_of_ne hba] at hr'
      have hstands := h.stands b r' hr'
      refine ⟨hstands.sane, hl.proper, fun hactive => ?_, fun hactive => ?_⟩
      · exact h.locked_of_ne hr hl hba ⟨r', hr', hactive⟩
      · have hquiet := hl.quiet (h.inactive_of_ne hr hba ⟨r', hr', hactive⟩)
        have hfit := hstands.fits hactive
        rwa [← hquiet] at hfit
  · -- two at work: one of them would be this one, which the lock has kept out
    by_cases hba : b = a <;> by_cases hca : c = a
    · rw [hba, hca]
    · exact absurd (hba ▸ hb) (h.not_atWork_put hr hl hca ((atWork_put_of_ne hca).1 hc))
    · exact absurd (hca ▸ hc) (h.not_atWork_put hr hl hba ((atWork_put_of_ne hba).1 hb))
    · exact h.unique b c ((atWork_put_of_ne hba).1 hb) ((atWork_put_of_ne hca).1 hc)
  · -- the lock is held by this one now, or as before by another one
    show (Common.of target held key s).locked = true ↔ _
    rw [hl.locked, Bool.or_eq_true, Bool.and_eq_true]
    constructor
    · rintro (⟨hno, hlocked⟩ | hany)
      · obtain ⟨b, hwork⟩ := h.locked.1 hlocked
        refine ⟨b, (atWork_put_of_ne ?_).2 hwork⟩
        rintro rfl
        obtain ⟨r', hr', hactive⟩ := hwork
        rw [hr, Option.some.injEq] at hr'
        rw [hr', hactive] at hno
        cases hno
      · exact ⟨a, atWork_put_self.2 hany⟩
    · rintro ⟨b, hwork⟩
      by_cases hba : b = a
      · exact .inr (atWork_put_self.1 (hba ▸ hwork))
      · have hwork' := (atWork_put_of_ne hba).1 hwork
        exact .inl ⟨by rw [h.inactive_of_ne hr hba hwork']; rfl, h.locked.2 ⟨b, hwork'⟩⟩

end Put

/-- What a request to an importer that is there comes to. -/
theorem ask_of_some (imp : ι → Importer σ) (q : Request) {r : ImportRun} (hr : g.runs a = some r) :
    ask imp a q g = (some (q.operation (imp a) (r, g.state)).1,
      g.put a (q.remains (q.operation (imp a) (r, g.state)).2.1)
        (q.operation (imp a) (r, g.state)).2.2) := by
  unfold ask
  rw [hr]

theorem ask_of_none (imp : ι → Importer σ) (q : Request) (hr : g.runs a = none) :
    ask imp a q g = (none, g) := by
  unfold ask
  rw [hr]

variable (himp : ∀ a, (imp a).Shares target held key)

include himp in
/-- **No request disturbs a workshop that is sound.** -/
theorem Sound.ask (h : g.Sound target held key) (a : ι) (q : Request) :
    Sound target held key (ask imp a q g).2 := by
  rcases hr : g.runs a with _ | r
  · rw [ask_of_none imp q hr]
    exact h
  · rw [ask_of_some imp q hr]
    exact h.put hr ((himp a).request_ends (h.stands a r hr) rfl q).1

include himp in
theorem Sound.moves {g' : Workshop ι σ} (h : g.Sound target held key)
    (hmove : Moves imp target held g g') : g'.Sound target held key := by
  cases hmove with
  | request a q => exact h.ask himp a q
  | elsewhere s htarget hheld =>
    have hview : Common.of target held key s = .of target held key g.state := by
      rw [Common.of, htarget, hheld]
      rfl
    refine ⟨?_, fun a r hr => ?_, h.unique, ?_⟩
    · show Storage.Proper (target s)
      rw [htarget]
      exact h.proper
    · show r.Stands (.of target held key s)
      rw [hview]
      exact h.stands a r hr
    · show (Common.of target held key s).locked = true ↔ _
      rw [hview]
      exact h.locked

include himp in
/-- **A workshop is sound at any time.** -/
theorem Opens.sound_of_moves (h : g₀.Opens target held key)
    (hmoves : Relation.ReflTransGen (Moves imp target held) g₀ g) : g.Sound target held key := by
  induction hmoves with
  | refl => exact h.sound
  | tail _ hmove ih => exact ih.moves himp hmove

/-! ### Single requests -/

/-- **What a request to an importer does**: it changes the target only if the importer is at
work. Planning is refused while any importer is at work, and then nothing happens at all.
When an import becomes complete, the target agrees with the snapshot of its source; and only
validating takes another such snapshot. -/
structure Orderly (imp : ι → Importer σ) (target : σ → Storage.Documents) (key : String)
    (g : Workshop ι σ) (a : ι) (q : Request) : Prop where
  changes : target (ask imp a q g).2.state ≠ target g.state → g.AtWork a
  others : ∀ b, b ≠ a → (ask imp a q g).2.runs b = g.runs b
  contention : q = .start → ∀ b, g.AtWork b → ∀ r, g.runs a = some r → r.state = .validated →
    ask imp a q g = (some (.error (.lockContention key)), g)
  refusal : q = .start → ∀ r, g.runs a = some r → r.state ≠ .validated →
    ask imp a q g = (some (.error (.invalidState "initialize" r.state.text)), g)
  completes : ∀ r r', g.runs a = some r → (ask imp a q g).2.runs a = some r' →
    r.state ≠ .completed → r'.state = .completed →
      r'.comparison.source.Agrees (Storage.snapshot [] (target (ask imp a q g).2.state))
  looks : ∀ r r', g.runs a = some r → (ask imp a q g).2.runs a = some r' → q ≠ .validate →
    r'.comparison.source = r.comparison.source

theorem ask_start_of_error {r : ImportRun} (hr : g.runs a = some r) {e : ImportError}
    (h : (imp a).start (r, g.state) = (.error e, (r, g.state))) :
    ask imp a .start g = (some (.error e), g) := by
  have hop : Request.start.operation (imp a) (r, g.state) = (.error e, (r, g.state)) := by
    show ((imp a).start >>= fun _ => pure ()) (r, g.state) = _
    rw [bind_apply, h]
  have hput : g.put a (some r) g.state = g := by
    rw [Workshop.put, ← hr, Function.update_eq_self]
  rw [ask_of_some imp _ hr, hop]
  exact congrArg (Prod.mk _) hput

include himp in
theorem Sound.orderly (h : g.Sound target held key) (a : ι) (q : Request) :
    Orderly imp target key g a q := by
  rcases hr : g.runs a with _ | r
  · -- nobody to ask
    have hask := ask_of_none imp q hr
    refine ⟨fun hne => absurd ?_ hne, fun b _ => ?_, fun _ b _ r hr' => ?_, fun _ r hr' => ?_,
      fun r r' hr' => ?_, fun r r' hr' => ?_⟩
    · rw [hask]
    · rw [hask]
    all_goals rw [hr] at hr'; cases hr'
  · obtain ⟨hl, hsource⟩ := (himp a).request_ends (h.stands a r hr) rfl q
    have hask := ask_of_some imp q hr
    refine ⟨fun hne => ?_, fun b hb => ?_, ?_, ?_, ?_, ?_⟩
    · by_contra hidle
      have hinactive : r.state.isActive = false :=
        Bool.eq_false_iff.2 fun hactive => hidle ⟨r, hr, hactive⟩
      refine hne ?_
      rw [hask]
      exact hl.quiet hinactive
    · rw [hask]
      exact runs_put_of_ne hb _ _
    · -- contention
      rintro rfl b hwork r₁ hr₁ hstate
      have hfalse := (himp a).acquire_eq_false (h.locked.2 ⟨b, hwork⟩)
      have hrefused := Importer.start_of_held hstate hfalse
      rw [(himp a).lockKey] at hrefused
      exact ask_start_of_error hr₁ hrefused
    · rintro rfl r₁ hr₁ hstate
      exact ask_start_of_error hr₁ (Importer.start_of_not_validated hstate)
    · intro r₁ r' hr₁ hr' hnot hover
      rw [hr, Option.some.injEq] at hr₁
      subst hr₁
      rw [hask, runs_put_self] at hr'
      rw [hask]
      exact (hl.completed r' hr' hover).resolve_left hnot
    · intro r₁ r' hr₁ hr' hq
      rw [hr, Option.some.injEq] at hr₁
      subst hr₁
      rw [hask, runs_put_self] at hr'
      unfold Request.remains at hr'
      split at hr'
      · cases hr'
      · cases hr'
        exact hsource hq

/-! ### Two importers in a hall -/

/-- A workshop of two importers in a hall, before anything has happened. -/
def opening : Workshop Bool Hall := ⟨fun _ => some .initial, Hall.early⟩

/-- The same workshop when the first importer has been asked to validate and to plan. -/
def begun : Workshop Bool Hall :=
  (ask Hall.pair true .start (ask Hall.pair true .validate opening).2).2

theorem opens_opening : opening.Opens Hall.target Hall.locks "import" where
  runs _ := rfl
  proper := by
    intro n m hm
    have := NameMap.mem_of_get?_ofList hm
    rw [List.mem_singleton] at this
    obtain rfl := (Prod.mk.inj this).2
    simp [Yaml.Value.proper_mapping_iff]
  free := rfl

theorem moves_begun :
    Relation.ReflTransGen (Moves Hall.pair Hall.target Hall.locks) opening begun :=
  (Relation.ReflTransGen.single (.request _ true .validate)).tail (.request _ true .start)

theorem atWork_begun : begun.AtWork true := ⟨_, rfl, rfl⟩

/-! ### Any number of importers -/

include himp in
/-- **Importers that share a target never get in each other's way.** At any time one of them
at most is at work, and the lock is held just when one is; every request is orderly. -/
theorem Opens.exclusive (h : g₀.Opens target held key)
    (hmoves : Relation.ReflTransGen (Moves imp target held) g₀ g) :
    (∀ a b, g.AtWork a → g.AtWork b → a = b) ∧
      (∀ a, ∃ l, (imp a).lock.isLocked key g.state = (.ok l, g.state) ∧
        (l = true ↔ ∃ b, g.AtWork b)) ∧
      ∀ a q, Orderly imp target key g a q := by
  have hsound := h.sound_of_moves himp hmoves
  refine ⟨hsound.unique, fun a => ?_, fun a q => hsound.orderly himp a q⟩
  exact ⟨_, (himp a).isLocked_eq, hsound.locked⟩

/-- Two importers in a hall do not get in each other's way, either. -/
theorem exclusive_begun :
    begun.AtWork true ∧ (∀ a b, begun.AtWork a → begun.AtWork b → a = b) ∧
      ∀ a q, Orderly Hall.pair Hall.target "import" begun a q := by
  obtain ⟨hunique, -, horderly⟩ := Opens.exclusive Hall.shares_pair opens_opening moves_begun
  exact ⟨atWork_begun, hunique, horderly⟩

/-- That another importer is at work is not always what planning is refused for: an importer
that has not been validated is told so. -/
theorem not_always_contention :
    ¬∀ g : Workshop Bool Hall,
      Relation.ReflTransGen (Moves Hall.pair Hall.target Hall.locks) opening g →
        ∀ a b, a ≠ b → g.AtWork b →
          (ask Hall.pair a .start g).1 = some (.error (.lockContention "import")) := by
  intro h
  have hcontention := h begun moves_begun false true Bool.false_ne_true atWork_begun
  have hrefused : (ask Hall.pair false .start begun).1
      = some (.error (.invalidState "initialize" "idle")) := rfl
  rw [hrefused] at hcontention
  cases hcontention

end Workshop

end SiteConfig
