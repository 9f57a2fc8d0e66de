import Mathlib
import SiteConfig.Proofs.Freshness

/-!
# All problems at once

Validation is meant to report everything that is wrong with an import, so that all of it can be
mended at once. Once the storages have been compared there are few ways around the checks: the
changes of extensions and the requirements are gathered first (`SiteConfig.Importer.prepare`),
and an error there is the only outcome that the checks have no part in.

If the calls of the lifecycle succeed then there is just one such error: with a lifecycle, and a
document `core.extension` of the source that says nothing intelligible, the changes of extensions
cannot be told. In every other case what is reported is the problems of all checks, one check
after the other (`SiteConfig.Importer.validate_aggregates`). That document is at fault for the
checks as well, two of which would report it; without a lifecycle they do.
-/

namespace SiteConfig

/-! ### What each check finds -/

namespace Check

variable {σ : Type}

/-- **What each of some checks finds**, one after the other. -/
def each : List (Check σ) → Review σ → StateM σ (List (List Problem))
  | [], _ => fun s => ([], s)
  | c :: rest, rv => fun s =>
    let (found, s) := c.run rv s
    let (more, s) := each rest rv s
    (found :: more, s)

/-- All problems are those of the first check, then those of the second one, and so on. -/
theorem runAll_eq (cs : List (Check σ)) (rv : Review σ) (s : σ) :
    runAll cs rv s = ((each cs rv s).1.flatten, (each cs rv s).2) := by
  induction cs generalizing s with
  | nil => rfl
  | cons c cs ih =>
    unfold runAll each
    rcases c.run rv s with ⟨found, s₁⟩
    simp only [ih]
    rcases each cs rv s₁ with ⟨more, s₂⟩
    rfl

end Check

/-- **What some problems come to**: there are none, or they are all reported. -/
def ImportError.ofProblems (problems : List Problem) : Except ImportError Unit :=
  if problems = [] then .ok () else .error (.validation (problems.map (·.message)))

/-- The calls of a lifecycle that are made for a review succeed. -/
structure Lifecycle.Answers {σ : Type} (l : Lifecycle σ) : Prop where
  installed : ∀ s, ∃ es s', l.installed s = (.ok es, s')
  info : ∀ e s, ∃ o s', l.info e s = (.ok o, s')

namespace Importer

open ImportOperation Attempt

variable {σ τ : Type} {i : Importer σ} {view : σ → τ} {r : ImportRun} {s : σ}
  {source target : Storage.Documents} {c : Comparison} {l : Lifecycle σ}

/-! ### What the checks are given -/

/-- What the checks look at: a comparison with the changes of extensions and the requirements
that come with it. -/
def prepare (i : Importer σ) (c : Comparison) : Attempt σ ImportError (Review σ) := do
  let changes ← match i.lifecycle with
    | some l => c.extensionChanges l
    | none => pure .empty
  let requirements ← Requirements.gather c changes i.lifecycle
  return { comparison := c, extensionChanges := changes, lifecycle := i.lifecycle
           schemas := i.schemas, requirements }

theorem gatherExtensions_of_answers (h : l.Answers) (es : List Extension) (q : Requirements)
    (s : σ) : ∃ q' s', Requirements.gatherExtensions l es q s = (.ok q', s') := by
  induction es generalizing q s with
  | nil => exact ⟨q, s, rfl⟩
  | cons e es ih =>
    obtain ⟨o, s₁, hinfo⟩ := h.info e s
    unfold Requirements.gatherExtensions
    rw [bind_apply, Attempt.mapError, Attempt.recover, hinfo]
    exact ih _ s₁

/-- With no lifecycle everything is known at once. -/
theorem prepare_of_none (hl : i.lifecycle = none) (c : Comparison) (s : σ) :
    ∃ rv, i.prepare c s = (.ok rv, s) := by
  unfold prepare Requirements.gather
  rw [hl]
  exact ⟨_, rfl⟩

/-- With a lifecycle the source must be intelligible about extensions. -/
theorem prepare_of_some (hl : i.lifecycle = some l) (h : l.Answers) {o : Option CoreExtension}
    (ho : c.sourceExtensions = .ok o) (s : σ) : ∃ rv s', i.prepare c s = (.ok rv, s') := by
  -- the extensions that are installed are asked for only if some are wanted
  have hchanges : ∃ x s', c.extensionChanges l s = (.ok x, s') := by
    unfold Comparison.extensionChanges
    rw [ho]
    rcases o with _ | wanted
    · exact ⟨_, s, rfl⟩
    · obtain ⟨es, s₁, hinstalled⟩ := h.installed s
      refine ⟨.between wanted.extensions es, s₁, ?_⟩
      show (l.installed.mapError _ >>= fun installed => pure _ :
        Attempt σ ImportError ExtensionChanges) s = _
      rw [bind_apply, Attempt.mapError, Attempt.recover, hinstalled]
      rfl
  obtain ⟨x, s₁, hchanges⟩ := hchanges
  obtain ⟨q, s₂, hgather⟩ := gatherExtensions_of_answers h (x.install ++ x.uninstall)
    ⟨Requirements.ofNames c.source c.changelist.writtenNames,
      Requirements.ofNames c.target c.changelist.delete, []⟩ s₁
  unfold prepare Requirements.gather
  rw [hl]
  simp only
  rw [bind_apply, hchanges]
  simp only
  rw [bind_apply, hgather]
  exact ⟨_, s₂, rfl⟩

/-- If it is not, nothing is prepared. -/
theorem prepare_of_unintelligible (hl : i.lifecycle = some l) {e : ConfigError}
    (he : c.sourceExtensions = .error e) (s : σ) : i.prepare c s = (.error (.storage e), s) := by
  unfold prepare Comparison.extensionChanges
  rw [hl, he]
  rfl

/-! ### What a review comes to -/

/-- With the changes of extensions known, the requirements are gathered and the checks run. -/
theorem assess_outcome (i : Importer σ) (c : Comparison) (x : ExtensionChanges) (r : ImportRun)
    (s : σ) :
    (i.assess c x (r, s)).1 = match Requirements.gather c x i.lifecycle s with
      | (.ok q, s') => .ok (Check.runAll i.checks ⟨c, x, i.lifecycle, i.schemas, q⟩ s').1
      | (.error e, _) => .error e := by
  have hupdate : i.assess c x (r, s)
      = (outside (Requirements.gather c x i.lifecycle) >>= fun q =>
          outside (Attempt.always (Check.runAll i.checks ⟨c, x, i.lifecycle, i.schemas, q⟩)))
        ({ r with extensionChanges := x }, s) := rfl
  rw [hupdate, outside_bind]
  rcases Requirements.gather c x i.lifecycle s with ⟨e | q, s'⟩ <;> rfl

/-- **A review prepares what the checks look at, and runs them.** -/
theorem survey_outcome (i : Importer σ) (r : ImportRun) (s : σ) :
    (i.survey (r, s)).1 = match i.prepare r.comparison s with
      | (.ok rv, s') => .ok (Check.runAll i.checks rv s').1
      | (.error e, _) => .error e := by
  unfold survey prepare
  rw [current_bind]
  rcases hl : i.lifecycle with _ | l <;> simp only
  · rw [assess_outcome, hl, pure_bind, bind_apply]
    rcases Requirements.gather r.comparison .empty none s with ⟨e | q, s'⟩ <;> rfl
  · rw [outside_bind, bind_apply]
    rcases r.comparison.extensionChanges l s with ⟨e | x, s₁⟩ <;> simp only
    rw [assess_outcome, hl, bind_apply]
    rcases Requirements.gather r.comparison x (some l) s₁ with ⟨e | q, s'⟩ <;> rfl

/-- What is reviewed is what the storages held when they were compared. -/
theorem Saw.review_outcome (h : i.Saw view r s source target) :
    ∃ s₀, view s₀ = view s ∧
      (i.review (r, s)).1 = match i.prepare (i.compared source target) s₀ with
        | (.ok rv, s') => .ok (Check.runAll i.checks rv s').1
        | (.error e, _) => .error e := by
  rw [review_eq, current_bind]
  obtain hseen | ⟨hcalc, hnow⟩ := h
  · refine ⟨s, rfl, ?_⟩
    rw [← hseen, show r.comparison.calculated = true by rw [hseen]; rfl]
    exact survey_outcome i r s
  · obtain ⟨⟨r₁, s₁⟩, hrefresh, hview⟩ := yields_comparing (hnow.refresh rfl r.comparison)
    obtain ⟨rfl, hs₁⟩ := beside_eq_iff.1 hview
    refine ⟨s₁, hs₁, ?_⟩
    rw [hcalc]
    show ((comparing i.comparer.refresh >>= fun _ => i.survey) (r, s)).1 = _
    rw [bind_apply, hrefresh]
    exact survey_outcome i _ s₁

/-- What comes of a review comes of validation. -/
theorem validate_outcome (i : Importer σ) (hstate : MayValidate r) (s : σ) :
    (i.validate (r, s)).1 = match (i.review ({ r with state := .validating }, s)).1 with
      | .ok problems => ImportError.ofProblems problems
      | .error e => .error e := by
  rcases heq : i.review ({ r with state := .validating }, s) with ⟨e | problems, r₂, s₂⟩
  · rw [validate_of_error hstate heq]
  · by_cases hnone : problems = []
    · subst hnone
      rw [validate_of_accepted hstate heq]
      rfl
    · rw [validate_of_problems hstate hnone heq]
      simp only [ImportError.ofProblems, if_neg hnone]

/-- **What validation reports** of an import that may be validated: if there is a lifecycle, and
the source is unintelligible about extensions, then that alone; and otherwise the problems of all
seven checks, in their order. -/
theorem validate_aggregates (hsaw : i.Saw view r s source target)
    (hchecks : i.checks = Check.standard)
    (hanswers : ∀ l, i.lifecycle = some l → l.Answers) :
    let out := (i.validate (r, s)).1
    (¬MayValidate r → out = .error (.invalidState "validate" r.state.text)) ∧
    (MayValidate r → ∀ l e, i.lifecycle = some l →
      (i.compared source target).sourceExtensions = .error e → out = .error (.storage e)) ∧
    (MayValidate r →
      (∀ l, i.lifecycle = some l → ∃ o, (i.compared source target).sourceExtensions = .ok o) →
      ∃ s₀ rv s₁, view s₀ = view s ∧ i.prepare (i.compared source target) s₀ = (.ok rv, s₁) ∧
        out = ImportError.ofProblems (Check.each Check.standard rv s₁).1.flatten) := by
  have hsaw' : i.Saw view { r with state := .validating } s source target := hsaw
  obtain ⟨s₀, hs₀, hreview⟩ := hsaw'.review_outcome
  intro out
  refine ⟨fun hno => ?_, fun hstate l e hl he => ?_, fun hstate hok => ?_⟩
  · show (i.validate (r, s)).1 = _
    rw [validate_of_not_mayValidate i hno]
  · show (i.validate (r, s)).1 = _
    rw [validate_outcome i hstate, hreview, prepare_of_unintelligible hl he]
  · -- nothing else can fail before the checks run
    have hprepared : ∃ rv s₁, i.prepare (i.compared source target) s₀ = (.ok rv, s₁) := by
      rcases hl : i.lifecycle with _ | l
      · obtain ⟨rv, hrv⟩ := prepare_of_none hl (i.compared source target) s₀
        exact ⟨rv, s₀, hrv⟩
      · obtain ⟨o, ho⟩ := hok l hl
        exact prepare_of_some hl (hanswers l hl) ho s₀
    obtain ⟨rv, s₁, hrv⟩ := hprepared
    refine ⟨s₀, rv, s₁, hs₀, hrv, ?_⟩
    show (i.validate (r, s)).1 = _
    rw [validate_outcome i hstate, hreview, hrv, hchecks]
    simp only [Check.runAll_eq]

end Importer

/-! ### On a desk -/

namespace Desk

open Attempt

/-- The lifecycle of a desk never fails. -/
theorem answers (o : Options) {l : Lifecycle Desk} (hl : (importer o).lifecycle = some l) :
    l.Answers := by
  cases hl
  exact ⟨fun d => ⟨_, d, rfl⟩, fun _ d => ⟨_, d, rfl⟩⟩

/-- A desk whose source has a document without a proper name, and one that lists some modules. -/
def listing (modules : Yaml.Value) : Desk where
  source := .ofList [("blog", []), ("core.extension", [(.string "module", modules)])]
  target := .empty
  extensions := .start []
  held := []

end Desk

namespace Importer

/-- The name of one document is not proper, and an extension is listed that does not exist. Three
checks find something, and all of it is reported. -/
theorem validate_aggregates_listing :
    let i := Desk.importer Desk.plain
    let d := Desk.listing (.mapping [(.string "forum", .number (.int 0))])
    MayValidate .initial ∧ (∃ o, (i.compared d.source d.target).sourceExtensions = .ok o) ∧
      ∃ s₀ rv s₁, s₀.content = d.content ∧
        i.prepare (i.compared d.source d.target) s₀ = (.ok rv, s₁) ∧
        (i.validate (.initial, d)).1
          = ImportError.ofProblems (Check.each Check.standard rv s₁).1.flatten ∧
        (i.validate (.initial, d)).1 = .error (.validation
          ["Invalid configuration name 'blog': name must be namespaced with a '.'",
            "Unable to install the module forum since it does not exist.",
            "Configuration blog depends on the blog extension that will not be installed " ++
              "after import."]) := by
  intro i d
  have hlisted : ∃ o, (i.compared d.source d.target).sourceExtensions = .ok o := ⟨_, rfl⟩
  have hreported : (i.validate (.initial, d)).1 = .error (.validation
      ["Invalid configuration name 'blog': name must be namespaced with a '.'",
        "Unable to install the module forum since it does not exist.",
        "Configuration blog depends on the blog extension that will not be installed " ++
          "after import."]) := by decide +kernel
  have hsaw : i.Saw Desk.content .initial d d.source d.target :=
    .inr ⟨rfl, Desk.holds Desk.plain d⟩
  obtain ⟨-, -, hall⟩ := validate_aggregates hsaw rfl fun _ hl => Desk.answers Desk.plain hl
  obtain ⟨s₀, rv, s₁, hs₀, hrv, heq⟩ := hall (.inl rfl) fun _ _ => hlisted
  exact ⟨.inl rfl, hlisted, s₀, rv, s₁, hs₀, hrv, heq, hreported⟩

/-- **Problems can be hidden.** Where the source is unintelligible about extensions, the name that
is not proper goes unreported. It is the lifecycle that makes the difference: without one all is
reported, and what hid it is found by two checks. -/
theorem not_always_aggregated :
    let i := Desk.importer Desk.plain
    let d := Desk.listing (.number (.int 5))
    (¬∀ r s, MayValidate r → (i.validate (r, s)).1 = .ok () ∨
      ∃ problems, (i.validate (r, s)).1 = .error (.validation problems)) ∧
    (i.validate (.initial, d)).1 = .error (.storage
      (.invalidData "core.extension" "invalid type: integer `5`, expected a map")) ∧
    ({ i with lifecycle := none }.validate (.initial, d)).1 = .error (.validation
      ["Invalid configuration name 'blog': name must be namespaced with a '.'",
        "Invalid configuration data for core.extension: invalid type: integer `5`, expected a map",
        "Invalid configuration data for core.extension: invalid type: integer `5`, expected a map"])
    := by
  intro i d
  have hhidden : (i.validate (.initial, d)).1 = .error (.storage
      (.invalidData "core.extension" "invalid type: integer `5`, expected a map")) := by
    decide +kernel
  -- the error that hides the rest is one of a storage, and no list of problems
  refine ⟨fun hall => ?_, hhidden, by decide +kernel⟩
  obtain hok | ⟨problems, hproblems⟩ := hall .initial d (.inl rfl)
  · rw [hhidden] at hok
    cases hok
  · rw [hhidden] at hproblems
    cases hproblems

end Importer

end SiteConfig
