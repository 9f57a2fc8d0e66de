import Mathlib
import SiteConfig.Proofs.Course

/-!
# What documents stand on

No document is written before what it needs is there, and what it needs stays there
(`SiteConfig.Importer.Tries.meets_throughout`). That it is there when the document is written
is a matter of the order of the plan (`SiteConfig.Proposal.Accepted.meets_of_writes`). That it
stays there needs no order at all: no step that is left touches it, and a step changes nothing
that it does not touch, not even when it fails (`SiteConfig.Importer.Confined`).
-/

namespace SiteConfig

theorem Step.installedAfter_of_extensions {st : Step} (h : st.extensions = [])
    (l : List Extension) : st.installedAfter l = l := by
  cases st <;> simp_all [Step.extensions, Step.installedAfter]

namespace Importer

open ImportOperation Attempt

variable {σ : Type} {i : Importer σ} {view : σ → Scene} {known : Extension → Option ExtensionInfo}
  {v w : Scene} {st : Step} {needs : Dependencies}

/-- **What is there stays there**, as long as a step spares it. -/
theorem meets_of_confined (hmeets : (i.proposal known v).Meets needs) (hconf : Confined st v w)
    (hspares : st.Spares needs) : (i.proposal known w).Meets needs := by
  have hinstalled : w.installed = v.installed := by
    rcases hconf.installed with hsame | hafter
    · exact hsame
    · rw [hafter, Step.installedAfter_of_extensions hspares.extensions]
  constructor
  case config =>
    -- neither the document of the source nor that of the target has changed
    intro c hc
    obtain ⟨d, e, hd, he, hsame⟩ := hmeets.config c hc
    refine ⟨d, e, ?_, ?_, hsame⟩
    · rw [proposal, hconf.source]
      exact hd
    · rw [proposal, Storage.get?_snapshot_nil, hconf.target c (hspares.config c hc),
        ← Storage.get?_snapshot_nil]
      exact he
  case module =>
    intro hcatalog m hm
    rw [proposal, hinstalled]
    exact hmeets.module hcatalog m hm
  case theme =>
    intro hcatalog t ht
    rw [proposal, hinstalled]
    exact hmeets.theme hcatalog t ht

/-- **Documents stand on what they need.** When a step of a course is about to write a
document, every configuration that the document depends on is in the target with the content
that it has in the source, and with a lifecycle every module and theme is installed. This is
so from that moment on, after none, some or all of the steps that are left and whatever has
come of them: none of these steps touches that configuration or any extension. -/
theorem Tries.meets_throughout {fallible : Prop} (hobs : i.Observes view known)
    (h : i.Tries view known fallible) (hchecks : i.checks = Check.standard)
    {p q : ImportRun × σ} (hsort : Extension.Sorted (view p.2).installed)
    (hr : i.Compared known p.1 (view p.2)) {done rest : List Step}
    (hcourse : i.Course p done (st :: rest) q) {n : String} (hn : n ∈ st.written) :
    ∃ d needs, (i.proposal known (view p.2)).source.get? n = some d ∧
      d.dependencies = .ok needs ∧
      (∀ s ∈ st :: rest, s.Spares needs) ∧
      ∀ more, more <+: st :: rest →
        (view (more.forM i.processStep q).2.2).source = (view p.2).source ∧
          (i.proposal known (view (more.forM i.processStep q).2.2)).Meets needs := by
  obtain ⟨hreached, hkeeps, -⟩ := h.reached_of_course hobs hchecks hsort hr
    (I := fun _ => True) (fun _ => trivial) (fun _ _ _ _ => trivial) hcourse
  have hp : (i.proposal known (view q.2)).WellFormed := wellFormed_proposal hreached.sorted
  have hst := hp.mem_pending_of_plan hreached.plan
  obtain ⟨d, hd, -, needs, hneeds, -⟩ := hreached.accepted.provides_of_written hp hst hn
  -- what the document relies on is not disturbed by this step or by any later one
  have hspares : ∀ s ∈ st :: rest, s.Spares needs := fun s hs =>
    hreached.accepted.spares_of_writes hp hreached.plan hn hd hneeds hs
  have hmeets := hreached.accepted.meets_of_writes hp hreached.plan hn hd hneeds
  refine ⟨d, needs, ?_, hneeds, hspares, fun more hmore => ?_⟩
  · rw [proposal, ← hkeeps.source]
    exact hd
  · refine h.along hobs
      (I := fun w => w.source = (view p.2).source ∧ (i.proposal known w).Meets needs)
      hreached ⟨hkeeps.source, hmeets⟩ (fun hs _ hconf hI => ?_) hmore
    exact ⟨hconf.source.trans hI.1, meets_of_confined hI.2 hconf (hspares _ hs)⟩

end Importer

namespace Desk

/-- A desk where a page is missing. It needs a module that is not installed, a document that
still has another name, one that differs and one that is as it should be. -/
def grounding : Desk where
  source := .ofList [("blog.base", [(.string "color", .string "red")]),
    ("blog.page", [(.string "dependencies", .mapping [
      (.string "config", .sequence [.string "blog.base", .string "blog.type"]),
      (.string "enforced", .mapping [(.string "module", .sequence [.string "blog"]),
        (.string "config", .sequence [.string "blog.view"])])])]),
    ("blog.type", [(.string "uuid", .string "u1")]),
    ("blog.view", [(.string "color", .string "red")]),
    ("core.extension", [(.string "module", .mapping [(.string "blog", .number (.int 0))])])]
  target := .ofList [("blog.base", [(.string "color", .string "blue")]),
    ("old.type", [(.string "uuid", .string "u1")]),
    ("blog.view", [(.string "color", .string "red")])]
  extensions := .start []
  held := []

end Desk

namespace Importer

/-- The page of a desk is written last, when the other name, the new content and the module
are there. -/
theorem meets_throughout_grounding :
    ∃ q, (Desk.importer Desk.plain).Course (.initial, Desk.grounding)
        [.install (.module "blog"), .create "core.extension", .rename "old.type" "blog.type",
          .update "blog.base"] [.create "blog.page"] q ∧
      ((Desk.importer Desk.plain).proposal Desk.plain.script.info? (q.2.scene Desk.plain)).Meets
        ⟨["blog"], [], ["blog.base", "blog.type", "blog.view"], []⟩ := by
  have hvalid : ((Desk.importer Desk.plain).validate (.initial, Desk.grounding)).1 = .ok () := by
    rfl
  have hstart : ((Desk.importer Desk.plain).start
      ((Desk.importer Desk.plain).validate (.initial, Desk.grounding)).2).1
        = .ok ([.install (.module "blog"), .create "core.extension",
          .rename "old.type" "blog.type", .update "blog.base"] ++ [.create "blog.page"]) := by
    rfl
  obtain ⟨q, hcourse⟩ := (Desk.sees Desk.plain).exists_course (p := (.initial, Desk.grounding)) rfl
    List.Pairwise.nil (compared_initial _ _ _) hvalid hstart
  refine ⟨q, hcourse, ?_⟩
  obtain ⟨d, needs, hd, hneeds, -, hmeets⟩ := (Desk.sees Desk.plain).tries.meets_throughout
    (Desk.sees Desk.plain).observes rfl (p := (.initial, Desk.grounding)) List.Pairwise.nil
    (compared_initial _ _ _) hcourse (n := "blog.page") (List.mem_singleton_self _)
  have hpage : d.dependencies
      = .ok ⟨["blog"], [], ["blog.base", "blog.type", "blog.view"], []⟩ := by
    cases hd
    rfl
  obtain rfl := Except.ok.inj (hpage.symm.trans hneeds)
  exact (hmeets [] (List.nil_prefix)).2

end Importer

end SiteConfig
