import Mathlib
import SiteConfig.Proofs.Reordering
import SiteConfig.Proofs.Turns

/-!
# What is planned is fresh

Between validation and planning anything may have happened to the storages. Planning finds out
whether it counts: it is refused as stale just when one of the storages does not match what was
seen (`SiteConfig.Importer.start_stale_iff`), that is, when names have come or gone or contents
differ in more than the order of keys, once documents have been transformed. Where transforms only
drop documents and remove keys, this is the same without these documents and keys.

If planning is refused then it has looked, taken the lock and given it back, and done nothing
else: the import is idle and its next validation compares afresh. If it is not, then a fresh
comparison would find the changelist that is being carried out, even where the storages have been
changed in ways that do not count.
-/

namespace SiteConfig

namespace Importer

open ImportOperation Attempt ImportRun

variable {σ τ : Type} {i : Importer σ} {view : σ → τ} {w : τ} {r r' : ImportRun} {s s' s'' : σ}
  {source target source' target' : Storage.Documents}

/-! ### What a review compares -/

theorem survey_comparison (i : Importer σ) (p : ImportRun × σ) :
    (i.survey p).2.1.comparison = p.1.comparison :=
  (gives_survey (K := fun r => r.comparison = p.1.comparison) i (fun _ _ h => h) p rfl).1

/-- What has been compared is not compared again. -/
theorem review_comparison_of_calculated (i : Importer σ) (hcalc : r.comparison.calculated = true)
    (s : σ) : (i.review (r, s)).2.1.comparison = r.comparison := by
  rw [review_eq, current_bind, hcalc]
  exact survey_comparison i (r, s)

/-- Anything else is compared as it is. -/
theorem Holds.review_comparison (h : i.Holds view w source target) (hs : view s = w)
    (hcalc : r.comparison.calculated = false) :
    (i.review (r, s)).2.1.comparison = i.compared source target := by
  rw [review_eq, current_bind, hcalc]
  obtain ⟨⟨r₁, s₁⟩, hrefresh, hview⟩ := yields_comparing (h.refresh hs r.comparison)
  obtain ⟨rfl, -⟩ := beside_eq_iff.1 hview
  show ((comparing i.comparer.refresh >>= fun _ => i.survey) (r, s)).2.1.comparison = _
  rw [bind_apply, hrefresh]
  exact survey_comparison i _

/-- Storages that have been compared without an error are known to have been. -/
theorem calculated_of_refresh {c : Comparer σ} {k k' : Comparison}
    (h : c.refresh (k, s) = (.ok (), (k', s'))) : k'.calculated = true := by
  obtain ⟨source, p, -, h⟩ := bind_eq_ok_iff.1 h
  obtain ⟨⟨⟩, p, -, h⟩ := bind_eq_ok_iff.1 h
  obtain ⟨target, p, -, h⟩ := bind_eq_ok_iff.1 h
  cases h
  rfl

/-- **After a review** without an error the storages have been compared. -/
theorem calculated_of_review {problems : List Problem} {p q : ImportRun × σ}
    (h : i.review p = (.ok problems, q)) : q.1.comparison.calculated = true := by
  obtain ⟨r, s⟩ := p
  by_cases hcalc : r.comparison.calculated = true
  · have hkept := review_comparison_of_calculated i hcalc s
    rw [h] at hkept
    exact (congrArg Comparison.calculated hkept).trans hcalc
  · rw [review_eq, current_bind, Bool.eq_false_iff.2 hcalc] at h
    obtain ⟨⟨⟩, ⟨r₁, s₁⟩, hrefresh, hsurvey⟩ := bind_eq_ok_iff.1 h
    have hkept := survey_comparison i (r₁, s₁)
    rw [hsurvey] at hkept
    rw [hkept]
    rcases hx : i.comparer.refresh (r.comparison, s) with ⟨e | ⟨⟩, c, s₂⟩ <;>
      simp only [comparing, hx] at hrefresh <;> cases hrefresh
    exact calculated_of_refresh hx

/-- **An import that has been validated** knows what its storages held. -/
theorem calculated_of_validate {p q : ImportRun × σ} (h : i.validate p = (.ok (), q)) :
    q.1.comparison.calculated = true := by
  obtain ⟨r, s⟩ := p
  by_cases hstate : MayValidate r
  · rcases hreview : i.review ({ r with state := .validating }, s) with ⟨e | problems, r₁, s₁⟩
    · rw [validate_of_error hstate hreview] at h
      cases h
    · by_cases hnone : problems = []
      · subst hnone
        rw [validate_of_accepted hstate hreview] at h
        cases h
        have hcalc := calculated_of_review hreview
        exact hcalc
      · rw [validate_of_problems hstate hnone hreview] at h
        cases h
  · rw [validate_of_not_mayValidate i hstate] at h
    cases h

/-- Whatever comes of a review, validation keeps what it has compared. -/
theorem validate_comparison (i : Importer σ) (hstate : MayValidate r) {c : Comparison}
    (hreview : (i.review ({ r with state := .validating }, s)).2.1.comparison = c) :
    (i.validate (r, s)).2.1.comparison = c := by
  rcases heq : i.review ({ r with state := .validating }, s) with ⟨e | problems, r₂, s₂⟩ <;>
    rw [heq] at hreview
  · rw [validate_of_error hstate heq]
    exact hreview
  · by_cases hnone : problems = []
    · subst hnone
      rw [validate_of_accepted hstate heq]
      exact hreview
    · rw [validate_of_problems hstate hnone heq]
      exact hreview

/-- **Validation compares afresh** what has not been compared, whether it finds problems or
not. -/
theorem Holds.validate_comparison (h : i.Holds view w source target) (hs : view s = w)
    (hstate : MayValidate r) (hcalc : r.comparison.calculated = false) :
    (i.validate (r, s)).2.1.comparison = i.compared source target :=
  Importer.validate_comparison i hstate (h.review_comparison hs hcalc)

/-! ### What has been validated -/

/-- **The storages held some documents when they were compared**: either that was before, or they
hold them now and are still to be compared. -/
def Saw (i : Importer σ) (view : σ → τ) (r : ImportRun) (s : σ)
    (source target : Storage.Documents) : Prop :=
  r.comparison = i.compared source target ∨
    r.comparison.calculated = false ∧ i.Holds view (view s) source target

/-- An import that has been validated knows what its storages held. -/
theorem Saw.comparison (h : i.Saw view r s source target)
    (hvalid : i.validate (r, s) = (.ok (), (r', s'))) :
    r'.state = .validated ∧ r'.comparison = i.compared source target := by
  obtain ⟨-, heq⟩ | ⟨hstate, r₁, -, s₁, heq | ⟨e, heq⟩⟩ := validate_leaves i r s <;>
    rw [heq] at hvalid <;> cases hvalid
  refine ⟨rfl, ?_⟩
  -- validation leaves a comparison as it is, or makes one of what the storages hold
  have hleft : (i.validate (r, s)).2.1.comparison = i.compared source target := by
    obtain hseen | ⟨hcalc, hnow⟩ := h
    · exact Importer.validate_comparison i hstate
        ((review_comparison_of_calculated i (by rw [hseen]; rfl) s).trans hseen)
    · exact hnow.validate_comparison rfl hstate hcalc
  rwa [heq] at hleft

/-! ### Planning -/

/-- **The lock of an importer works**: taking it and giving it back is not seen, and it is free
once it has been given back. -/
structure Latches (i : Importer σ) (view : σ → τ) : Prop where
  acquire : Quiet view (i.lock.acquire i.lockKey)
  release : Quiet view (i.lock.release i.lockKey)
  free : ∀ s, (i.lock.isLocked i.lockKey (i.lock.release i.lockKey s).2).1 = .ok false

theorem Latches.yields_acquire (h : i.Latches view)
    (hfree : (i.lock.acquire i.lockKey s).1 = .ok true) (r : ImportRun) :
    i.acquire.Yields (beside view) (r, s) (.ok ()) (r, view s) := by
  have htake : (i.lock.acquire i.lockKey).Yields view s (.ok true) (view s) :=
    ⟨(i.lock.acquire i.lockKey s).2, Prod.ext hfree rfl, h.acquire s⟩
  exact (yields_outside htake r).bind fun p hp => yields_pure () hp

/-- Making a plan may fail, but never as stale. -/
theorem plan_ne_stale (i : Importer σ) (r : ImportRun) (s : σ) :
    (i.plan (r, s)).1 ≠ .error .staleChangelist := by
  intro hstale
  obtain ⟨⟨⟩⟩ | ⟨cycles, hcycles⟩ := raises_plan i (r, s) _ hstale
  cases hcycles

section Fresh

variable (h : i.Holds view w source target) (hs : view s = w)
  (hcalc : r.comparison.calculated = true)

include h hs hcalc in
/-- **What has changed is found** before anything is planned. -/
theorem Holds.yields_ensureFresh :
    i.ensureFresh.Yields (beside view) (r, s)
      (if (i.compared source target).source.same r.comparison.source &&
          (i.compared source target).target.same r.comparison.target
        then .ok () else .error .staleChangelist)
      (if (i.compared source target).source.same r.comparison.source &&
          (i.compared source target).target.same r.comparison.target
        then r else { r with comparison := r.comparison.invalidate, state := .idle }, w) := by
  unfold ensureFresh
  refine (yields_current r hs).bind fun ⟨r₁, s₁⟩ h₁ => ?_
  obtain ⟨rfl, hs₁⟩ := beside_eq_iff.1 h₁
  have hstale := (h.isStale hs₁ hcalc).mapError (f := ImportError.storage)
  refine (yields_outside hstale r₁).bind fun ⟨r₂, s₂⟩ h₂ => ?_
  obtain ⟨rfl, hs₂⟩ := beside_eq_iff.1 h₂
  -- the snapshots that are loaded again are those of a fresh comparison
  rw [show (i.compared source target).source = Storage.snapshot i.comparer.transforms source from rfl,
    show (i.compared source target).target = Storage.snapshot [] target from rfl]
  rcases (Storage.snapshot i.comparer.transforms source).same r₂.comparison.source &&
    (Storage.snapshot [] target).same r₂.comparison.target with _ | _
  · exact (yields_update _ r₂ hs₂).bind fun p hp => yields_fail _ hp
  · exact yields_pure () (by rw [beside_mk, hs₂, if_pos rfl])

end Fresh

/-- Planning with the lock taken. -/
theorem start_of_acquired (hstate : r.state = .validated)
    (hacquire : i.acquire (r, s) = (.ok (), (r, s'))) :
    i.start (r, s)
      = (i.releasingOnFailure (i.ensureFresh >>= fun _ => i.plan) >>= i.launch) (r, s') := by
  rw [start_eq, current_bind, if_neg (not_not.2 hstate), bind_apply, hacquire]

/-- If planning fails then the lock is given back. -/
theorem releasingOnFailure_of_error {α : Type} {x : ImportOperation σ α} {e : ImportError}
    {p : ImportRun × σ} (h : x p = (.error e, (r', s'))) :
    i.releasingOnFailure x p
      = (.error e, ({ r' with guarded := false }, (i.lock.release i.lockKey s').2)) := by
  unfold releasingOnFailure
  rw [Attempt.recover, h]
  rfl

/-- Steps that are planned are planned for what has been compared. -/
theorem start_comparison_of_fresh (hfresh : i.ensureFresh (r, s) = (.ok (), (r, s'))) :
    let out := (i.releasingOnFailure (i.ensureFresh >>= fun _ => i.plan) >>= i.launch) (r, s)
    out.1 ≠ .error .staleChangelist ∧ out.2.1.comparison = r.comparison := by
  -- making a plan changes nothing about the import, whether it succeeds or fails
  have hne := plan_ne_stale i r s'
  have hsame : (i.plan (r, s')).2.1 = r := (gives_plan i r (r, s') rfl).1
  have hplan : (i.ensureFresh >>= fun _ => i.plan) (r, s) = i.plan (r, s') := by
    rw [bind_apply, hfresh]
  rcases heq : i.plan (r, s') with ⟨e | steps, r₁, s₁⟩ <;> rw [heq] at hne hsame hplan
  · obtain rfl : r₁ = r := hsame
    rw [bind_apply, releasingOnFailure_of_error hplan]
    exact ⟨hne, rfl⟩
  · have hok : i.releasingOnFailure (i.ensureFresh >>= fun _ => i.plan) (r, s)
        = (.ok steps, (r₁, s₁)) := by
      unfold releasingOnFailure
      rw [Attempt.recover, hplan]
    obtain ⟨t, hlaunch⟩ := (reports_unseen i).yields_launch steps r₁ (rfl : unseen s₁ = ())
    obtain ⟨s₂, hlaunch⟩ := exists_eq_of_yields hlaunch
    rw [bind_apply, hok]
    simp only
    rw [hlaunch]
    refine ⟨by simp, ?_⟩
    obtain rfl : r₁ = r := hsame
    unfold planned
    split <;> rfl

/-- What is stale is not planned: the lock is given back, and nothing else is done. -/
theorem start_of_stale {e : ImportError} (hstate : r.state = .validated)
    (hacquire : i.acquire (r, s) = (.ok (), (r, s')))
    (hfresh : i.ensureFresh (r, s') = (.error e, (r', s''))) :
    i.start (r, s)
      = (.error e, ({ r' with guarded := false }, (i.lock.release i.lockKey s'').2)) := by
  have hprepare : (i.ensureFresh >>= fun _ => i.plan) (r, s') = (.error e, (r', s'')) := by
    rw [bind_apply, hfresh]
  rw [start_of_acquired hstate hacquire, bind_apply, releasingOnFailure_of_error hprepare]

section Compared

variable (hsource : Storage.Proper source) (htarget : Storage.Proper target)
  (hsource' : Storage.Proper source') (htarget' : Storage.Proper target')

include hsource htarget hsource' htarget' in
/-- **Two comparisons are the same just when both storages match.** -/
theorem compared_same_iff (i : Importer σ) :
    ((i.compared source' target').source.same (i.compared source target).source &&
        (i.compared source' target').target.same (i.compared source target).target) = true ↔
      Storage.Matches i.comparer.transforms source' source ∧ Storage.Matches [] target' target := by
  rw [Bool.and_eq_true]
  exact and_congr (Storage.same_snapshot_iff hsource' hsource)
    (Storage.same_snapshot_iff htarget' htarget)

include hsource htarget hsource' htarget' in
/-- Where both storages match there is nothing else to change. -/
theorem compared_changelist_eq (i : Importer σ)
    (h : Storage.Matches i.comparer.transforms source' source)
    (h' : Storage.Matches [] target' target) :
    (i.compared source target).changelist = (i.compared source' target').changelist :=
  (Changelist.between_eq_of_same (Storage.named_snapshot _ _) (Storage.named_snapshot _ _)
    (hsource'.proper_snapshot _) (hsource.proper_snapshot _) (htarget'.proper_snapshot _)
    (htarget.proper_snapshot _) ((Storage.same_snapshot_iff hsource' hsource).2 h)
    ((Storage.same_snapshot_iff htarget' htarget).2 h')).symm

end Compared

/-- **Planning is refused just when something has changed that counts**, and then nothing else
has happened: nothing is seen of it, the lock is free, the import is idle, and its next
validation compares what the storages hold by then. Otherwise what is being carried out is what a
fresh comparison would give. What counts is what is left of the documents by the transforms; if these
only drop documents and remove keys, then it is everything but that. -/
theorem start_stale_iff (hsaw : i.Saw view r s source target)
    (hvalid : i.validate (r, s) = (.ok (), (r', s'))) (hlock : i.Latches view) {now : σ}
    (hfree : (i.lock.acquire i.lockKey now).1 = .ok true)
    (hnow : i.Holds view (view now) source' target')
    (hsource : Storage.Proper source) (htarget : Storage.Proper target)
    (hsource' : Storage.Proper source') (htarget' : Storage.Proper target') :
    let out := i.start (r', now)
    (out.1 = .error .staleChangelist ↔
      ¬(Storage.Matches i.comparer.transforms source' source ∧
        Storage.Matches [] target' target)) ∧
    (out.1 = .error .staleChangelist →
      view out.2.2 = view now ∧ (i.lock.isLocked i.lockKey out.2.2).1 = .ok false ∧
        out.2.1.state = .idle ∧
        ∀ later source'' target'', i.Holds view (view later) source'' target'' →
          (i.validate (out.2.1, later)).2.1.comparison = i.compared source'' target'') ∧
    (out.1 ≠ .error .staleChangelist →
      out.2.1.changelist = (i.compared source' target').changelist) ∧
    (Transform.Plain i.comparer.transforms → (out.1 = .error .staleChangelist ↔
      ¬(Storage.MatchesBut (Transform.drops i.comparer.transforms)
          (Transform.stripped i.comparer.transforms) source' source ∧
        Storage.MatchesBut (fun _ => false) [] target' target))) := by
  obtain ⟨hstate, hseen⟩ := hsaw.comparison hvalid
  have hcalc : r'.comparison.calculated = true := by rw [hseen]; rfl
  obtain ⟨⟨r₁, s₁⟩, hacquire, hview₁⟩ := hlock.yields_acquire hfree r'
  obtain ⟨rfl, hs₁⟩ := beside_eq_iff.1 hview₁
  obtain ⟨⟨r₂, s₂⟩, hfresh, hview₂⟩ := hnow.yields_ensureFresh hs₁ hcalc
  obtain ⟨rfl, hs₂⟩ := beside_eq_iff.1 hview₂
  -- whether it is stale depends on two comparisons: the validated one and a fresh one
  have hsame_iff := compared_same_iff hsource htarget hsource' htarget' i
  rw [← hseen] at hsame_iff
  have hplain (h : Transform.Plain i.comparer.transforms) :
      Storage.Matches i.comparer.transforms source' source ∧ Storage.Matches [] target' target ↔
        Storage.MatchesBut (Transform.drops i.comparer.transforms)
          (Transform.stripped i.comparer.transforms) source' source ∧
        Storage.MatchesBut (fun _ => false) [] target' target :=
    and_congr (Storage.matches_iff_of_plain h) (Storage.matches_iff_of_plain Transform.plain_nil)
  intro out
  have hout : out = i.start (r₁, now) := rfl
  rw [← hsame_iff]
  rcases hsame : (i.compared source' target').source.same r₁.comparison.source &&
      (i.compared source' target').target.same r₁.comparison.target with _ | _
  · -- something has changed that counts
    rw [hsame] at hfresh
    rw [start_of_stale hstate hacquire hfresh] at hout
    rw [hout]
    refine ⟨by simp, fun _ => ⟨(hlock.release s₂).trans hs₂, hlock.free s₂, rfl, ?_⟩,
      fun hne => absurd rfl hne, fun h => ?_⟩
    · exact fun later source'' target'' hlater =>
        hlater.validate_comparison rfl (.inl rfl) rfl
    · refine iff_of_true rfl fun hmatch => ?_
      rw [hsame_iff.2 ((hplain h).2 hmatch)] at hsame
      cases hsame
  · -- nothing that counts has changed, and so a fresh comparison has the same changelist
    rw [hsame] at hfresh
    rw [start_of_acquired hstate hacquire] at hout
    obtain ⟨hne, hcomparison⟩ := start_comparison_of_fresh hfresh
    rw [← hout] at hne hcomparison
    obtain ⟨hs, ht⟩ := hsame_iff.1 hsame
    refine ⟨by simpa using hne, fun hstale => absurd hstale hne, fun _ => ?_, fun h => ?_⟩
    · rw [ImportRun.changelist, hcomparison, hseen]
      exact compared_changelist_eq hsource htarget hsource' htarget' i hs ht
    · exact iff_of_false hne fun hno => hno ((hplain h).1 ⟨hs, ht⟩)

end Importer

/-! ### On a desk -/

namespace Desk

open Attempt

/-- Everything on a desk but the held locks. -/
def content (d : Desk) : Storage.Documents × Storage.Documents × Lifecycle.ScriptState :=
  (d.source, d.target, d.extensions)

theorem holds (o : Options) (d : Desk) : (importer o).Holds content d.content d.source d.target where
  listSource s hs := by
    obtain ⟨hsource, -⟩ := Prod.mk.inj hs
    rw [← hsource]
    exact ⟨s, congrArg (fun names => (Except.ok names, s)) (Storage.namesFrom_empty _), hs⟩
  readSource s hs := by
    obtain ⟨hsource, -⟩ := Prod.mk.inj hs
    rw [← hsource]
    exact ⟨s, Storage.readEach_memory _ _ s, hs⟩
  listTarget s hs := by
    obtain ⟨htarget, -⟩ := Prod.mk.inj (Prod.mk.inj hs).2
    rw [← htarget]
    exact ⟨s, congrArg (fun names => (Except.ok names, s)) (Storage.namesFrom_empty _), hs⟩
  readTarget s hs := by
    obtain ⟨htarget, -⟩ := Prod.mk.inj (Prod.mk.inj hs).2
    rw [← htarget]
    exact ⟨s, Storage.readEach_memory _ _ s, hs⟩

theorem latches (o : Options) : (importer o).Latches content where
  acquire d := by
    rcases hheld : d.held.contains o.key with _ | _
    · rw [show (importer o).lock.acquire (importer o).lockKey d = _ from LockTable.take_of_free hheld]
      rfl
    · rw [show (importer o).lock.acquire (importer o).lockKey d = _ from LockTable.take_of_held hheld]
  release _ := rfl
  free d := by
    show Except.ok ((d.held.filter (· != o.key)).contains o.key) = Except.ok false
    simp

theorem acquire_of_free {o : Options} {d : Desk} (h : d.held.contains o.key = false) :
    ((importer o).lock.acquire (importer o).lockKey d).1 = .ok true := by
  rw [show (importer o).lock.acquire (importer o).lockKey d = _ from LockTable.take_of_free h]

/-- A desk with one page, and nothing to be seen of it in the target yet. -/
def single (page : Yaml.Mapping) : Desk where
  source := .ofList [("blog.home", page)]
  target := .empty
  extensions := .start [.module "blog"]
  held := []

theorem proper_single {page : Yaml.Mapping} (h : (Yaml.Value.mapping page).Proper) :
    Storage.Proper (single page).source :=
  Storage.proper_ofList (by simpa using h)

end Desk

namespace Importer

/-- A page has been validated. With its keys in another order, and one that is removed added to
it, it can be planned; with another title it cannot. -/
theorem start_stale_iff_single :
    let i := Desk.importer Desk.plain
    let before := Desk.single [(.string "title", .string "home"), (.string "layout", .string "wide")]
    let reordered := Desk.single [(.string "layout", .string "wide"),
      (.string "_core", .string "x"), (.string "title", .string "home")]
    let changed := Desk.single [(.string "title", .string "start"),
      (.string "layout", .string "wide")]
    ∃ p, i.validate (.initial, before) = (.ok (), p) ∧
      (i.start (p.1, reordered)).1 ≠ .error .staleChangelist ∧
      (i.start (p.1, changed)).1 = .error .staleChangelist ∧
      (i.start (p.1, changed)).2.1.state = .idle ∧
      (i.lock.isLocked i.lockKey (i.start (p.1, changed)).2.2).1 = .ok false := by
  intro i before reordered changed
  have hsaw : i.Saw Desk.content .initial before before.source before.target :=
    .inr ⟨rfl, Desk.holds Desk.plain before⟩
  have hempty : Storage.Proper .empty := fun _ _ hm => nomatch hm
  have hp : Storage.Proper before.source := Desk.proper_single (by
    simp [Yaml.Value.Proper, Yaml.Mapping.hasDuplicate, Yaml.Value.ProperEntries, Yaml.Value.same])
  have hr : Storage.Proper reordered.source := Desk.proper_single (by
    simp [Yaml.Value.Proper, Yaml.Mapping.hasDuplicate, Yaml.Value.ProperEntries, Yaml.Value.same])
  have hc : Storage.Proper changed.source := Desk.proper_single (by
    simp [Yaml.Value.Proper, Yaml.Mapping.hasDuplicate, Yaml.Value.ProperEntries, Yaml.Value.same])
  have hmatch : Storage.Matches i.comparer.transforms reordered.source before.source :=
    (Storage.same_snapshot_iff hr hp).1 (by decide +kernel)
  have hmatch' : Storage.Matches [] reordered.target before.target :=
    (Storage.same_snapshot_iff hempty hempty).1 (by decide +kernel)
  have hok : (i.validate (.initial, before)).1 = .ok () := by decide +kernel
  have hstale : (i.start ((i.validate (.initial, before)).2.1, changed)).1
      = .error .staleChangelist := by decide +kernel
  -- what the validated import is does not matter from here on
  rcases hvalid : i.validate (.initial, before) with ⟨o, p⟩
  rw [hvalid] at hok hstale
  obtain rfl : o = .ok () := hok
  have hsame := start_stale_iff hsaw hvalid (Desk.latches Desk.plain)
    (Desk.acquire_of_free (d := reordered) rfl) (Desk.holds Desk.plain reordered) hp hempty hr hempty
  have hdiffers := start_stale_iff hsaw hvalid (Desk.latches Desk.plain)
    (Desk.acquire_of_free (d := changed) rfl) (Desk.holds Desk.plain changed) hp hempty hc hempty
  obtain ⟨-, hfree, hidle, -⟩ := hdiffers.2.1 hstale
  exact ⟨p, rfl, fun h => hsame.1.1 h ⟨hmatch, hmatch'⟩, hstale, hidle, hfree⟩

end Importer

end SiteConfig
