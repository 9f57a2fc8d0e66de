import Mathlib
import SiteConfig.Proofs.Pending

/-!
# How a plan makes a target agree with a source

A plan is made for the target as it was when the storages were compared. It makes any other
target agree with the source, too, as long as that one agrees with the target that was seen:
contents that are the same can be exchanged for one another
(`SiteConfig.Snapshot.AgreesAt.trans_symm`), because documents never have a key twice.

The invariant is `SiteConfig.Step.Fit`: the source and the target agree on every name that
none of the steps that are left touches. Carrying out the first step keeps it, whatever has
come before.
-/

namespace SiteConfig

/-! ### Agreement -/

namespace Snapshot

variable {s t u : Snapshot} {n : String}

/-- All documents have proper data. -/
def Proper (s : Snapshot) : Prop := ∀ n d, s.get? n = some d → d.Proper

/-- **What agrees with the same agrees.** -/
theorem AgreesAt.trans_symm (ht : t.Proper) (hu : u.Proper) (h : s.AgreesAt t n)
    (h' : u.AgreesAt t n) : s.AgreesAt u n := by
  refine ⟨h.1.trans h'.1.symm, fun d e hd he => ?_⟩
  obtain ⟨f, hf⟩ := h.1.1 ⟨d, hd⟩
  have hfe := (hu n e he).sameContent_symm (ht n f hf) (h'.2 e f he hf)
  exact Document.sameContent_trans (h.2 d f hd hf) hfe

theorem sameDocuments_find? {l m : List (String × Document)} (h : sameDocuments l m = true)
    (n : String) :
    ((l.find? (·.1 == n)).isSome = (m.find? (·.1 == n)).isSome) ∧
      ∀ e f, l.find? (·.1 == n) = some e → m.find? (·.1 == n) = some f →
        e.2.sameContent f.2 = true := by
  induction l generalizing m with
  | nil =>
    cases m with
    | nil => exact ⟨rfl, fun e f he => nomatch he⟩
    | cons f m => cases h
  | cons e l ih =>
    obtain ⟨k, d⟩ := e
    cases m with
    | nil => cases h
    | cons f m =>
      obtain ⟨k', d'⟩ := f
      simp only [sameDocuments, Bool.and_eq_true, beq_iff_eq, Document.same] at h
      obtain ⟨⟨rfl, -, hsame⟩, hrest⟩ := h
      -- the heads have the same name, so that both of them are found or neither is
      by_cases hk : k = n
      · simp only [List.find?_cons, hk, beq_self_eq_true]
        refine ⟨rfl, fun e f he hf => ?_⟩
        cases he
        cases hf
        exact hsame
      · have hne : (k == n) = false := by simpa using hk
        simp only [List.find?_cons, hne]
        exact ih hrest

/-- Snapshots that are the same agree. -/
theorem agrees_of_same (h : s.same t = true) : s.Agrees t := by
  rw [agrees_iff_forall]
  intro n
  obtain ⟨hsome, hcontent⟩ := sameDocuments_find? h n
  simp only [AgreesAt, NameMap.get?, Option.map_eq_some_iff]
  refine ⟨?_, ?_⟩
  · rw [Bool.eq_iff_iff, Option.isSome_iff_exists, Option.isSome_iff_exists] at hsome
    constructor
    · rintro ⟨d, e, he, -⟩
      obtain ⟨f, hf⟩ := hsome.1 ⟨e, he⟩
      exact ⟨f.2, f, hf, rfl⟩
    · rintro ⟨d, e, he, -⟩
      obtain ⟨f, hf⟩ := hsome.2 ⟨e, he⟩
      exact ⟨f.2, f, hf, rfl⟩
  · rintro d d' ⟨e, he, rfl⟩ ⟨f, hf, rfl⟩
    exact hcontent e f he hf

end Snapshot

/-! ### Steps that fit -/

namespace Step

/-- The names that a step removes. -/
def removed : Step → List String
  | .delete n => [n]
  | .rename n _ => [n]
  | _ => []

/-- **Some steps fit a source and a target**: they remove no name of the source, and on the
names that none of them touches the two agree already. -/
structure Fit (steps : List Step) (source target : Snapshot) : Prop where
  removed : ∀ st ∈ steps, ∀ n ∈ st.removed, source.get? n = none
  agrees : ∀ n, (∀ st ∈ steps, n ∉ st.names) → source.AgreesAt target n

variable {steps : List Step} {st : Step} {source target target' : Snapshot}

/-- With no steps left the source and the target agree. -/
theorem Fit.agrees_nil (h : Fit [] source target) : source.Agrees target :=
  Snapshot.agrees_iff_forall.2 fun n => h.agrees n fun _ hst => nomatch hst

/-- **A step that has been carried out** leaves steps that fit. -/
theorem Fit.tail (h : Fit (st :: steps) source target)
    (hadopt : Changelist.Adopts source target target' st.names) : Fit steps source target' := by
  refine ⟨fun s hs => h.removed s (List.mem_cons_of_mem _ hs), fun n hn => ?_⟩
  unfold Snapshot.AgreesAt
  rw [hadopt n]
  by_cases hst : n ∈ st.names
  · -- on its own names the step has made the target equal to the source
    rw [if_pos hst]
    refine ⟨Iff.rfl, fun d e hd he => ?_⟩
    rw [Option.some.inj (hd.symm.trans he)]
    exact e.sameContent_self
  · rw [if_neg hst]
    refine h.agrees n fun s hs => ?_
    rcases List.mem_cons.1 hs with rfl | hs
    · exact hst
    · exact hn s hs

end Step

namespace Requirements

variable {r : Requirements} {s t u : Snapshot} {x : ExtensionChanges} {steps : List Step}

/-- A name that no pending step touches is not mentioned in the changelist. -/
theorem untouched_of_pendingSteps {c : Changelist} {n : String}
    (h : ∀ st ∈ pendingSteps c x, n ∉ st.names) : c.Untouched n := by
  have hmem : ∀ st : Step, n ∈ st.names → st ∉ pendingSteps c x := fun st hn hst => h st hst hn
  -- a change of the name would be a step, and that step would be about it
  constructor
  case create =>
    intro hn
    refine hmem (.create n) (by simp [Step.names]) ?_
    simp [pendingSteps, additionSteps, Changelist.writes, hn]
  case update =>
    intro hn
    refine hmem (.update n) (by simp [Step.names]) ?_
    simp [pendingSteps, additionSteps, Changelist.writes, hn]
  case delete =>
    intro hn
    refine hmem (.delete n) (by simp [Step.names]) ?_
    simp [pendingSteps, removalSteps, Changelist.deletions, hn]
  case target =>
    rintro m hm rfl
    refine hmem (.rename m.source m.target) (by simp [Step.names]) ?_
    simp only [pendingSteps, additionSteps, Changelist.writes, List.mem_append, List.mem_map]
    exact .inr (.inr (.inl (.inr ⟨m, hm, rfl⟩)))
  case source =>
    rintro m hm rfl
    refine hmem (.rename m.source m.target) (by simp [Step.names]) ?_
    simp only [pendingSteps, additionSteps, Changelist.writes, List.mem_append, List.mem_map]
    exact .inr (.inr (.inl (.inr ⟨m, hm, rfl⟩)))

/-- What a pending step removes is missing from the source. -/
theorem get?_of_mem_removed (ht : t.Named) {st : Step}
    (hst : st ∈ pendingSteps (.between s t) x) {n : String} (hn : n ∈ st.removed) :
    s.get? n = Option.none := by
  simp only [pendingSteps, removalSteps, additionSteps, Changelist.deletions, Changelist.writes,
    ExtensionChanges.installations, ExtensionChanges.uninstallations, List.mem_append,
    List.mem_map] at hst
  rcases hst with (⟨m, hm, rfl⟩ | ⟨e, he, rfl⟩) |
    (⟨e, he, rfl⟩ | (⟨m, hm, rfl⟩ | ⟨m, hm, rfl⟩) | ⟨m, hm, rfl⟩)
  · obtain rfl := List.mem_singleton.1 hn
    exact ((Changelist.mem_delete_iff ht).1 hm).1.2
  · cases hn
  · cases hn
  · cases hn
  · obtain rfl := List.mem_singleton.1 hn
    exact (Changelist.of_mem_rename_source ht (List.mem_map.2 ⟨m, hm, rfl⟩)).2
  · cases hn

/-- **A plan fits every target that agrees with the one it was made for.** -/
theorem fit_of_plan (hs : s.Named) (ht : t.Named) (pt : t.Proper) (pu : u.Proper)
    (hx : x.Distinct) (hplan : r.plan (.between s t) x = .ok steps) (hu : u.Agrees t) :
    Step.Fit steps s u := by
  have hperm := pendingSteps_perm_of_plan (Changelist.disjoint_between hs ht) hx hplan
  refine ⟨fun st hst n hn => get?_of_mem_removed ht (hperm.subset hst) hn, fun n hn => ?_⟩
  have huntouched : (Changelist.between s t).Untouched n :=
    untouched_of_pendingSteps fun st hst => hn st (hperm.symm.subset hst)
  exact (huntouched.agreesAt hs ht).trans_symm pt pu (Snapshot.agrees_iff_forall.1 hu n)

end Requirements

end SiteConfig
