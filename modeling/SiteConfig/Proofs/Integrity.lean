import Mathlib
import SiteConfig.Proofs.Course

/-!
# References between documents

A document **refers** to the documents that its dependencies name
(`SiteConfig.Storage.Refers`), and a storage is **whole** when none of these references
dangles (`SiteConfig.Storage.Whole`).

An import is responsible for what it writes, and for no more: the checks ask of each document
that is to be written whether what it needs will be there. They never look at a document that
is the same in the source and in the target. It may come to refer to one that has been taken
away, when the source itself has such a reference (`SiteConfig.Importer.not_always_whole`).
This is the only way in which a target that was whole can be left with a reference that
dangles (`SiteConfig.Importer.Tries.contains_iff_of_refers`).
-/

namespace SiteConfig

namespace Storage

/-- A document refers to the documents that its dependencies name. -/
def Refers (docs : Documents) (n c : String) : Prop :=
  ∃ m needs, docs.get? n = some m ∧ Document.dependencies ⟨n, m⟩ = .ok needs ∧ c ∈ needs.config

/-- **A storage is whole**: every document that one refers to exists. -/
def Whole (docs : Documents) : Prop := ∀ n c, Refers docs n c → docs.contains c = true

/-- A document of another storage refers to the same names there. -/
theorem Refers.congr {docs docs' : Documents} {n c : String} (h : Refers docs n c)
    (heq : docs'.get? n = docs.get? n) : Refers docs' n c := by
  obtain ⟨m, needs, hm, hneeds, hc⟩ := h
  exact ⟨m, needs, heq.trans hm, hneeds, hc⟩

end Storage

namespace Importer

open ImportOperation Attempt

variable {σ : Type} {i : Importer σ} {view : σ → Scene} {known : Extension → Option ExtensionInfo}
  {p q : ImportRun × σ} {steps : List Step} {n c : String}

section Course

variable {fallible : Prop} (hobs : i.Observes view known) (h : i.Tries view known fallible)
  (hchecks : i.checks = Check.standard) (hsort : Extension.Sorted (view p.2).installed)
  (hr : i.Compared known p.1 (view p.2)) (hcourse : i.Course p steps [] q)

include hobs h hchecks hsort hr hcourse

/-- After its course an import has left the documents of the source, and no others. -/
theorem Tries.contains_iff_of_course :
    (view q.2).target.contains c = true ↔
      ∃ d, (i.proposal known (view p.2)).source.get? c = some d := by
  obtain ⟨hreached, hkeeps, -⟩ := h.reached_of_course hobs hchecks hsort hr
    (I := fun _ => True) (fun _ => trivial) (fun _ _ _ _ => trivial) hcourse
  have hagrees := (Snapshot.agrees_iff_forall.1 (hreached.settled hkeeps).target c).1
  rw [NameMap.contains_iff]
  constructor
  · rintro ⟨m, hm⟩
    exact hagrees.2 ⟨⟨c, m⟩, by rw [Storage.get?_snapshot_nil, hm]; rfl⟩
  · intro hd
    obtain ⟨e, he⟩ := hagrees.1 hd
    exact NameMap.contains_iff.1 (Storage.contains_of_get?_snapshot he)

/-- What a course has taken away is missing afterwards. -/
theorem Tries.not_contains_of_removed {st : Step} (hst : st ∈ steps) (hc : c ∈ st.removed) :
    ¬(view q.2).target.contains c = true := by
  have hp : (i.proposal known (view p.2)).WellFormed := wellFormed_proposal hsort
  have hpending := hobs.mem_pending_of_course hchecks hsort hr hcourse hst
  rw [h.contains_iff_of_course hobs hchecks hsort hr hcourse]
  rintro ⟨d, hd⟩
  have hnone := Requirements.get?_of_mem_removed hp.target hpending hc
  rw [show (i.proposal known (view p.2)).source.get? c = _ from hd] at hnone
  cases hnone

/-- **What an import has written refers to nothing that is missing.** -/
theorem Tries.contains_of_written {st : Step} (hst : st ∈ steps) (hn : n ∈ st.written)
    (hrefers : Storage.Refers (view q.2).target n c) : (view q.2).target.contains c = true := by
  have hp : (i.proposal known (view p.2)).WellFormed := wellFormed_proposal hsort
  have hacc := (hobs.plan_of_course hchecks hsort hr hcourse).1
  have hpending := hobs.mem_pending_of_course hchecks hsort hr hcourse hst
  obtain ⟨d, hd, -, needs, hneeds, -, hconfig⟩ := hacc.provides_of_written hp hpending hn
  obtain ⟨d', hd', hwritten⟩ := h.get?_of_written hobs hchecks hsort hr hcourse hst hn
  obtain rfl : d' = d := Option.some.inj (hd'.symm.trans hd)
  -- the document that refers is the one of the source, whose needs are checked
  obtain ⟨m, needs', hm, hneeds', hc⟩ := hrefers
  obtain rfl : m = d'.data := Option.some.inj (hm.symm.trans hwritten)
  have hname : d'.name = n := hp.source n d' hd
  rw [← hname] at hneeds'
  obtain rfl : needs' = needs := Except.ok.inj (hneeds'.symm.trans hneeds)
  exact (h.contains_iff_of_course hobs hchecks hsort hr hcourse).2 (hconfig c hc)

/-- **Which references dangle** after an import into a target that was whole: those of
documents that the import has not written, to documents that it has deleted or renamed. -/
theorem Tries.contains_iff_of_refers (hwhole : Storage.Whole (view p.2).target)
    (hrefers : Storage.Refers (view q.2).target n c) :
    (view q.2).target.contains c = true ↔
      ¬((∀ st ∈ steps, n ∉ st.written) ∧ ∃ st ∈ steps, c ∈ st.removed) := by
  constructor
  · rintro hthere ⟨-, st, hst, hc⟩
    exact h.not_contains_of_removed hobs hchecks hsort hr hcourse hst hc hthere
  · intro hnot
    by_cases hwritten : ∃ st ∈ steps, n ∈ st.written
    · obtain ⟨st, hst, hn⟩ := hwritten
      exact h.contains_of_written hobs hchecks hsort hr hcourse hst hn hrefers
    · -- the document is the one that was there, and so is what it refers to
      have hnwritten : ∀ st ∈ steps, n ∉ st.written := fun st hst hn => hwritten ⟨st, hst, hn⟩
      have hnthere : (view q.2).target.contains n = true := by
        obtain ⟨m, -, hm, -⟩ := hrefers
        exact NameMap.contains_iff.2 ⟨m, hm⟩
      have hnuntouched : ∀ st ∈ steps, n ∉ st.names := by
        intro st hst hname
        rcases Step.mem_names_iff.1 hname with hwrites | hremoves
        · exact hnwritten st hst hwrites
        · exact h.not_contains_of_removed hobs hchecks hsort hr hcourse hst hremoves hnthere
      have hold := hwhole n c
        (hrefers.congr (h.get?_of_untouched hobs hchecks hsort hr hcourse hnuntouched).symm)
      by_cases hcwritten : ∃ st ∈ steps, c ∈ st.written
      · obtain ⟨st, hst, hc⟩ := hcwritten
        obtain ⟨d, -, hd⟩ := h.get?_of_written hobs hchecks hsort hr hcourse hst hc
        exact NameMap.contains_iff.2 ⟨_, hd⟩
      · have hcuntouched : ∀ st ∈ steps, c ∉ st.names := by
          intro st hst hname
          rcases Step.mem_names_iff.1 hname with hwrites | hremoves
          · exact hcwritten ⟨st, hst, hwrites⟩
          · exact hnot ⟨hnwritten, st, hst, hremoves⟩
        obtain ⟨m, hm⟩ := NameMap.contains_iff.1 hold
        exact NameMap.contains_iff.2 ⟨m,
          (h.get?_of_untouched hobs hchecks hsort hr hcourse hcuntouched).trans hm⟩

end Course

end Importer

namespace Desk

/-- A page is the same in both storages, but its type exists in the target alone. A note in
the source refers to the page. -/
def severing : Desk where
  source := .ofList [("blog.news", [(.string "dependencies", .mapping [(.string "config",
      .sequence [.string "blog.page"])])]),
    ("blog.page", [(.string "dependencies", .mapping [(.string "config",
      .sequence [.string "blog.type"])])])]
  target := .ofList [("blog.page", [(.string "dependencies", .mapping [(.string "config",
      .sequence [.string "blog.type"])])]), ("blog.type", [])]
  extensions := .start []
  held := []

theorem whole_severing : Storage.Whole severing.target := by
  rintro n c ⟨m, needs, hm, hneeds, hc⟩
  have hn : n = "blog.page" ∨ n = "blog.type" := by
    have hkey : n ∈ severing.target.keys := NameMap.mem_keys_iff.2 ⟨m, hm⟩
    simpa using (show n ∈ ["blog.page", "blog.type"] from hkey)
  rcases hn with rfl | rfl
  · cases hm
    cases hneeds
    obtain rfl := List.mem_singleton.1 hc
    rfl
  · cases hm
    cases hneeds
    cases hc

/-- The type is deleted, and the note is written. -/
theorem exists_course_severing : ∃ q, (importer plain).Course (.initial, severing)
    [.delete "blog.type", .create "blog.news"] [] q := by
  have hvalid : ((importer plain).validate (.initial, severing)).1 = .ok () := by rfl
  have hstart : ((importer plain).start ((importer plain).validate (.initial, severing)).2).1
      = .ok [.delete "blog.type", .create "blog.news"] := by rfl
  exact (sees plain).exists_course (p := (.initial, severing)) rfl List.Pairwise.nil
    (Importer.compared_initial _ _ _) hvalid hstart

/-- The page still refers to its type. -/
theorem refers_severed {q : ImportRun × Desk} (hcourse : (importer plain).Course
    (.initial, severing) [.delete "blog.type", .create "blog.news"] [] q) :
    Storage.Refers q.2.target "blog.page" "blog.type" := by
  have hold : Storage.Refers severing.target "blog.page" "blog.type" :=
    ⟨_, _, rfl, rfl, List.mem_singleton_self _⟩
  refine hold.congr ((sees plain).tries.get?_of_untouched (sees plain).observes rfl
    (p := (.initial, severing)) List.Pairwise.nil (Importer.compared_initial _ _ _) hcourse ?_)
  simp [Step.names]

end Desk

namespace Importer

open Desk

/-- What the note refers to is there, and what the page refers to is not. -/
theorem contains_iff_of_refers_severing :
    ∃ q, (importer plain).Course (.initial, severing) [.delete "blog.type", .create "blog.news"]
        [] q ∧
      q.2.target.contains "blog.page" = true ∧ ¬q.2.target.contains "blog.type" = true := by
  obtain ⟨q, hcourse⟩ := exists_course_severing
  have hiff : ∀ {n c}, Storage.Refers q.2.target n c → _ := fun hrefers =>
    (sees plain).tries.contains_iff_of_refers (sees plain).observes rfl
      (p := (.initial, severing)) List.Pairwise.nil (compared_initial _ _ _) hcourse
      whole_severing hrefers
  have hwrites : "blog.news" ∈ (Step.create "blog.news").written := by simp [Step.written]
  have hnews : Storage.Refers q.2.target "blog.news" "blog.page" := by
    obtain ⟨d, hd, hwritten⟩ := (sees plain).tries.get?_of_written (sees plain).observes rfl
      (p := (.initial, severing)) List.Pairwise.nil (compared_initial _ _ _) hcourse
      (by simp) hwrites
    cases hd
    exact ⟨_, _, hwritten, rfl, List.mem_singleton_self _⟩
  refine ⟨q, hcourse, (hiff hnews).2 ?_, fun hthere => (hiff (refers_severed hcourse)).1 hthere ?_⟩
  · simp [Step.written]
  · simp [Step.written, Step.removed]

/-- **A target that is whole need not stay so**: a page that is not written loses its type. -/
theorem not_always_whole :
    ¬∀ (d : Desk) (steps : List Step) (q : ImportRun × Desk), Storage.Whole d.target →
      (importer plain).Course (.initial, d) steps [] q → Storage.Whole q.2.target := by
  intro hall
  obtain ⟨q, hcourse⟩ := exists_course_severing
  have hthere := hall severing _ q whole_severing hcourse _ _ (refers_severed hcourse)
  have hremoves : "blog.type" ∈ (Step.delete "blog.type").removed := by simp [Step.removed]
  exact (sees plain).tries.not_contains_of_removed (sees plain).observes rfl
    (p := (.initial, severing)) List.Pairwise.nil (compared_initial _ _ _) hcourse
    (by simp) hremoves hthere

end Importer

end SiteConfig
