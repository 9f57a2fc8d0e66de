import Mathlib
import SiteConfig.Proofs.CycleReport
import SiteConfig.Proofs.Freshness

/-!
# What is planned

The steps of an import are a plan of its pending changes, those that it has found when it was
validated (`SiteConfig.Importer.exists_plan_of_start`). Of a plan it is often enough to know which
steps are in it. They are pending (`SiteConfig.Requirements.mem_pendingSteps_of_plan`), and every
pending item has one of them (`SiteConfig.Requirements.exists_mem_plan`), whatever else is pending,
and even if an item is pending twice. So only the plan of no changes has no steps
(`SiteConfig.Requirements.eq_empty_of_plan`).
-/

namespace SiteConfig

open Attempt

/-! ### The steps of a graph -/

namespace StepGraph

variable {g : StepGraph} {steps : List Step} {st : Step}

/-- Putting the steps of a graph in order leaves none out. -/
theorem mem_order?_iff (hg : g.WellFormed) (h : g.order? = some steps) :
    st ∈ steps ↔ ∃ a < g.size, g.step? a = some st := by
  obtain ⟨hcomplete, rfl⟩ := (order?_eq_some_iff hg).1 h
  simp only [List.mem_filterMap, hcomplete.perm.mem_iff, List.mem_range]

end StepGraph

namespace Requirements

variable {r : Requirements} {c : Changelist} {x : ExtensionChanges} {g : StepGraph}
  {filed : List (Item × Step)} {steps : List Step} {st : Step}

/-- The steps of a graph are those that are filed. -/
theorem Files.exists_step?_iff (h : Files g filed) :
    (∃ a < g.size, g.step? a = some st) ↔ ∃ i, filed.lookup i = some st := by
  constructor
  · rintro ⟨a, ha, hst⟩
    exact ⟨itemAt g a, (h.step?_eq ha).symm.trans hst⟩
  · rintro ⟨i, hi⟩
    have hmem : i ∈ g.nodes.map (·.1) := by
      rw [h.mem_items_iff, Requirements.mem_items_iff, hi]
      rfl
    obtain ⟨a, ha, rfl⟩ := List.getElem_of_mem hmem
    have hsize : a < g.size := by rwa [List.length_map] at ha
    rw [getElem_items ha] at hi
    exact ⟨a, hsize, (h.step?_eq hsize).trans hi⟩

/-- **What is in a plan**: the steps that are filed under the pending items. -/
theorem mem_plan_iff (h : r.plan c x = .ok steps) :
    st ∈ steps ↔ (∃ i, (removals c x).lookup i = some st) ∨
      ∃ i, (additions c x).lookup i = some st := by
  simp only [plan] at h
  rcases hr : (r.removalGraph c x).order? with _ | removed <;>
    rcases ha : (r.additionGraph c x).order? with _ | added <;> rw [hr, ha] at h
  case some.some =>
    obtain rfl := Except.ok.inj h
    have hremovals := draws_removalGraph r c x
    have hadditions := draws_additionGraph r c x
    rw [List.mem_append, StepGraph.mem_order?_iff hremovals.wellFormed hr,
      StepGraph.mem_order?_iff hadditions.wellFormed ha, hremovals.exists_step?_iff,
      hadditions.exists_step?_iff]
  all_goals cases h

/-- Steps are filed under their items. -/
theorem of_lookup {l : List Step} {i : Item}
    (h : (l.map fun st => (st.item, st)).lookup i = some st) : st ∈ l ∧ st.item = i := by
  obtain ⟨before, rest, hsplit, -⟩ := List.lookup_eq_some_iff.1 h
  obtain ⟨st', hst', heq⟩ :=
    List.mem_map.1 (hsplit ▸ List.mem_append_right before List.mem_cons_self)
  cases heq
  exact ⟨hst', rfl⟩

theorem exists_lookup {l : List Step} (h : st ∈ l) :
    ∃ st', (l.map fun st => (st.item, st)).lookup st.item = some st' := by
  have hmem : st.item ∈ (l.map fun st => (st.item, st)).map (·.1) :=
    List.mem_map.2 ⟨(st.item, st), List.mem_map.2 ⟨st, h, rfl⟩, rfl⟩
  exact Option.isSome_iff_exists.1 (mem_items_iff.1 hmem)

/-- What is in a plan is pending. -/
theorem mem_pendingSteps_of_plan (h : r.plan c x = .ok steps) (hst : st ∈ steps) :
    st ∈ pendingSteps c x := by
  rw [pendingSteps, List.mem_append]
  obtain ⟨i, hi⟩ | ⟨i, hi⟩ := (mem_plan_iff h).1 hst
  · exact .inl (of_lookup (removals_eq c x ▸ hi)).1
  · exact .inr (of_lookup (additions_eq c x ▸ hi)).1

/-- Of every item that is pending there is a step in a plan. -/
theorem exists_mem_plan (h : r.plan c x = .ok steps) (hst : st ∈ pendingSteps c x) :
    ∃ st' ∈ steps, st'.item = st.item := by
  obtain hst | hst := List.mem_append.1 hst
  · obtain ⟨st', hst'⟩ := exists_lookup hst
    exact ⟨st', (mem_plan_iff h).2 (.inl ⟨st.item, by rw [removals_eq, hst']⟩), (of_lookup hst').2⟩
  · obtain ⟨st', hst'⟩ := exists_lookup hst
    exact ⟨st', (mem_plan_iff h).2 (.inr ⟨st.item, by rw [additions_eq, hst']⟩), (of_lookup hst').2⟩

/-- **A plan without steps** is one of no changes. -/
theorem eq_empty_of_plan (h : r.plan c x = .ok []) : c = .empty ∧ x = .empty := by
  refine Proposal.pendingSteps_eq_nil_iff.1 (List.eq_nil_iff_forall_not_mem.2 fun st hst => ?_)
  obtain ⟨st', hst', -⟩ := exists_mem_plan h hst
  cases hst'

end Requirements

namespace ImportRun

/-- An import that has something to change is not planned without steps. -/
theorem ne_nil_of_hasChanges {r : ImportRun} {q : Requirements} {steps : List Step}
    (h : r.hasChanges = true) (hplan : q.plan r.changelist r.extensionChanges = .ok steps) :
    steps ≠ [] := by
  rintro rfl
  obtain ⟨hc, hx⟩ := Requirements.eq_empty_of_plan hplan
  rw [hasChanges, hc, hx] at h
  cases h

end ImportRun

namespace Importer

open ImportOperation ImportRun

variable {σ : Type} {i : Importer σ} {r : ImportRun} {s : σ} {q : ImportRun × σ}
  {steps : List Step}

/-- A plan is one of the pending changes. -/
theorem exists_plan (h : i.plan (r, s) = (.ok steps, q)) :
    ∃ needs : Requirements, needs.plan r.changelist r.extensionChanges = .ok steps := by
  unfold plan at h
  rw [current_bind, outside_bind] at h
  rcases hgather : Requirements.gather r.comparison r.extensionChanges i.lifecycle s with
    ⟨e | needs, s₁⟩ <;> rw [hgather] at h
  · cases h
  · obtain ⟨hplan, -⟩ := ofExcept_eq_ok_iff.1 h
    exact ⟨needs, eq_ok_of_mapError hplan⟩

/-- What succeeds has not given the lock back. -/
theorem of_releasingOnFailure {α : Type} {x : ImportOperation σ α} {p : ImportRun × σ} {a : α}
    (h : i.releasingOnFailure x p = (.ok a, q)) : x p = (.ok a, q) := by
  rcases hx : x p with ⟨e | b, r₁, s₁⟩
  · rw [releasingOnFailure_of_error hx] at h
    cases h
  · unfold releasingOnFailure at h
    rwa [Attempt.recover, hx] at h

/-- **The steps of an import are a plan of its pending changes.** -/
theorem exists_plan_of_start (h : i.start (r, s) = (.ok steps, q)) :
    ∃ needs : Requirements, needs.plan r.changelist r.extensionChanges = .ok steps := by
  by_cases hstate : r.state = .validated
  · rw [start_eq, current_bind, if_neg (not_not.2 hstate)] at h
    obtain ⟨⟨⟩, ⟨r₁, s₁⟩, hacquire, h⟩ := bind_eq_ok_iff.1 h
    obtain ⟨made, ⟨r₂, s₂⟩, hprepare, hlaunch⟩ := bind_eq_ok_iff.1 h
    obtain ⟨⟨⟩, ⟨r₃, s₃⟩, hfresh, hplan⟩ := bind_eq_ok_iff.1 (of_releasingOnFailure hprepare)
    -- nothing is different about the import by the time that it is planned
    have hsame : (i.acquire (r, s)).2.1 = r := (gives_acquire i r (r, s) rfl).1
    rw [hacquire] at hsame
    obtain rfl : r₁ = r := hsame
    obtain rfl : r₃ = r₁ := (ensureFresh_ends i r₁ s₁).apply hfresh
    rw [launch_apply] at hlaunch
    cases hlaunch
    exact exists_plan hplan
  · rw [start_of_not_validated hstate] at h
    cases h

end Importer

end SiteConfig
