import Mathlib
import SiteConfig.Check.Standard
import SiteConfig.Proofs.Operation

/-!
# What the surroundings of an import leave alone

Much of what an import does outside has nothing to do with a given part of the state: the
storages, the lifecycle, the lock and the checks all keep some condition of it. Whatever they
answer, it is then kept by looking (`SiteConfig.Importer.Looks`: by reviewing, by making sure that
nothing has changed, and by planning) and by acting (`SiteConfig.Importer.Spares`: by taking the
lock and giving it back, and by carrying out a step). The journal is not among them: what it
does is what the condition may be about.
-/

namespace SiteConfig

open Attempt

/-! ### The standard checks -/

namespace Check

variable {σ : Type} {I : σ → Prop} {l : Lifecycle σ}

section Lifecycle

variable (hinfo : ∀ e, Stable I (l.info e))

include hinfo in
theorem stable_lookUp (e : Extension) : Stable I (lookUp l e) := by
  intro s
  have hs := hinfo e s
  unfold lookUp
  rcases h : l.info e s with ⟨f | k, s'⟩ <;> rw [h] at hs <;> exact hs

include hinfo in
theorem stable_installProblems (after es : List Extension) :
    Stable I (installProblems l after es) := by
  induction es with
  | nil => exact stable_pureM _
  | cons e es ih =>
    exact (stable_lookUp hinfo e).bindM fun _ => ih.bindM fun _ => stable_pureM _

include hinfo in
theorem stable_remaining (es : List Extension) : Stable I (remaining l es) := by
  induction es with
  | nil => exact stable_pureM _
  | cons e es ih =>
    exact (stable_lookUp hinfo e).bindM fun _ => ih.bindM fun _ => stable_pureM _

include hinfo in
theorem stable_uninstallEach (infos : List ExtensionInfo) (es : List Extension) :
    Stable I (uninstallEach l infos es) := by
  induction es with
  | nil => exact stable_pureM _
  | cons e es ih =>
    exact (stable_lookUp hinfo e).bindM fun _ => ih.bindM fun _ => stable_pureM _

include hinfo in
theorem stable_uninstallProblems (after es : List Extension) :
    Stable I (uninstallProblems l after es) := by
  unfold uninstallProblems
  split
  · exact stable_pureM _
  · exact (stable_remaining hinfo after).bindM fun _ =>
      (stable_uninstallEach hinfo _ es).bindM fun _ => stable_pureM _

end Lifecycle

theorem stable_extensions {rv : Review σ}
    (hinfo : ∀ l, rv.lifecycle = some l → ∀ e, Stable I (l.info e)) :
    Stable I (extensions.run rv) := by
  unfold extensions
  simp only
  split
  · exact stable_pureM _
  · exact stable_pureM _
  · rcases hl : rv.lifecycle with _ | l
    · exact stable_pureM _
    · exact (stable_installProblems (hinfo l hl) _ _).bindM fun _ =>
        (stable_uninstallProblems (hinfo l hl) _ _).bindM fun _ => stable_pureM _

theorem stable_dependencies {rv : Review σ}
    (hinstalled : ∀ l, rv.lifecycle = some l → Stable I l.installed) :
    Stable I (dependencies.run rv) := by
  have hafter : Stable I rv.extensionsAfter := by
    unfold Review.extensionsAfter
    split
    · exact stable_pure _
    · exact stable_fail _
    · rcases hl : rv.lifecycle with _ | l
      · exact stable_pure _
      · exact (hinstalled l hl).mapError.bind fun _ => stable_pure _
  intro s
  have hs := hafter s
  unfold dependencies
  simp only
  rcases h : rv.extensionsAfter s with ⟨p | after, s'⟩ <;> rw [h] at hs <;> exact hs

/-- **The standard checks keep what is kept by those whom they ask.** -/
theorem stable_standard {rv : Review σ}
    (hinfo : ∀ l, rv.lifecycle = some l → ∀ e, Stable I (l.info e))
    (hinstalled : ∀ l, rv.lifecycle = some l → Stable I l.installed) {c : Check σ}
    (hc : c ∈ standard) : Stable I (c.run rv) := by
  simp only [standard, List.mem_cons, List.not_mem_nil, or_false] at hc
  rcases hc with rfl | rfl | rfl | rfl | rfl | rfl | rfl
  case inr.inr.inr.inr.inl => exact stable_extensions hinfo
  case inr.inr.inr.inr.inr.inl => exact stable_dependencies hinstalled
  all_goals exact fun _ hs => hs

theorem stable_runAll {cs : List (Check σ)} {rv : Review σ} (h : ∀ c ∈ cs, Stable I (c.run rv)) :
    Stable I (runAll cs rv) := by
  induction cs with
  | nil => exact stable_pureM _
  | cons c cs ih =>
    have hrest := ih fun c' hc' => h c' (List.mem_cons_of_mem c hc')
    exact (h c List.mem_cons_self).bindM fun _ => hrest.bindM fun _ => stable_pureM _

end Check

namespace Importer

open ImportOperation

variable {σ : Type} {i : Importer σ} {I : σ → Prop}

/-! ### Looking -/

/-- **A condition is kept by looking**: by listing and reading the storages, by asking the
lifecycle, and by the checks. -/
structure Looks (i : Importer σ) (I : σ → Prop) : Prop where
  listSource : Stable I (i.comparer.source.list "")
  readSource : ∀ names, Stable I (i.comparer.source.readMany names)
  listTarget : Stable I (i.comparer.target.list "")
  readTarget : ∀ names, Stable I (i.comparer.target.readMany names)
  installed : ∀ l, i.lifecycle = some l → Stable I l.installed
  info : ∀ l, i.lifecycle = some l → ∀ e, Stable I (l.info e)
  checks : ∀ c ∈ i.checks, ∀ review : Review σ, review.lifecycle = i.lifecycle →
    Stable I (c.run review)

theorem Looks.stable_loadSource (h : i.Looks I) : Stable I i.comparer.loadSource :=
  h.listSource.bind fun names => (h.readSource names).bind fun _ => stable_pure _

theorem Looks.stable_loadTarget (h : i.Looks I) : Stable I i.comparer.loadTarget :=
  h.listTarget.bind fun names => (h.readTarget names).bind fun _ => stable_pure _

theorem Looks.stable_refresh (h : i.Looks I) :
    Stable (fun p : Comparison × σ => I p.2) i.comparer.refresh := by
  unfold Comparer.refresh
  refine h.stable_loadSource.zoom_second.bind fun _ => Stable.bind (fun _ hs => hs) fun _ => ?_
  exact h.stable_loadTarget.zoom_second.bind fun _ _ hs => hs

theorem Looks.stable_isStale (h : i.Looks I) (c : Comparison) :
    Stable I (i.comparer.isStale c) := by
  unfold Comparer.isStale
  split
  · exact stable_pure _
  · refine h.stable_loadSource.bind fun a => ?_
    split
    · exact stable_pure _
    · exact h.stable_loadTarget.bind fun _ => stable_pure _

theorem Looks.stable_gather (h : i.Looks I) (c : Comparison) (x : ExtensionChanges) :
    Stable I (Requirements.gather c x i.lifecycle) := by
  have heach : ∀ l, i.lifecycle = some l → ∀ es q,
      Stable I (Requirements.gatherExtensions l es q) := by
    intro l hl es
    induction es with
    | nil => exact fun q => stable_pure q
    | cons e es ih => exact fun q => (h.info l hl e).mapError.bind fun _ => ih _
  unfold Requirements.gather
  rcases hl : i.lifecycle with _ | l
  · exact stable_pure _
  · exact heach l hl _ _

theorem Looks.stable_extensionChanges (h : i.Looks I) (c : Comparison) {l : Lifecycle σ}
    (hl : i.lifecycle = some l) : Stable I (c.extensionChanges l) := by
  unfold Comparison.extensionChanges
  refine (stable_ofExcept _).bind fun o => ?_
  rcases o with _ | wanted
  · exact stable_pure _
  · exact (h.installed l hl).mapError.bind fun _ => stable_pure _

/-! ### What the import itself does -/

theorem stable_current : Stable (fun p => I p.2) (current : ImportOperation σ ImportRun) :=
  fun _ hs => hs

theorem stable_update (f : ImportRun → ImportRun) :
    Stable (fun p => I p.2) (update f : ImportOperation σ Unit) := fun _ hs => hs

theorem stable_outside {α : Type} {x : Attempt σ ImportError α} (hx : Stable I x) :
    Stable (fun p => I p.2) (outside x) := hx.zoom_second

theorem stable_comparing {α : Type} {x : Attempt (Comparison × σ) ConfigError α}
    (hx : Stable (fun p : Comparison × σ => I p.2) x) : Stable (fun p => I p.2) (comparing x) := by
  intro ⟨r, s⟩ hs
  have hI := hx (r.comparison, s) hs
  rcases h : x (r.comparison, s) with ⟨e | a, c, s'⟩ <;> rw [h] at hI <;>
    simp only [comparing, h] <;> exact hI

theorem Looks.stable_assess (h : i.Looks I) (c : Comparison) (x : ExtensionChanges) :
    Stable (fun p => I p.2) (i.assess c x) := by
  unfold assess
  refine (stable_update _).bind fun _ => (stable_outside (h.stable_gather c x)).bind fun q => ?_
  exact stable_outside (Check.stable_runAll fun k hk => h.checks k hk _ rfl).always

theorem Looks.stable_survey (h : i.Looks I) : Stable (fun p => I p.2) i.survey := by
  unfold survey
  refine stable_current.bind fun r => ?_
  rcases hl : i.lifecycle with _ | l
  · exact h.stable_assess _ _
  · exact (stable_outside (h.stable_extensionChanges _ hl)).bind fun x => h.stable_assess _ x

/-- **A review only looks.** -/
theorem Looks.stable_review (h : i.Looks I) : Stable (fun p => I p.2) i.review := by
  rw [review_eq]
  refine stable_current.bind fun r => ?_
  split
  · exact (stable_comparing h.stable_refresh).bind fun _ => h.stable_survey
  · exact h.stable_survey

theorem Looks.stable_ensureFresh (h : i.Looks I) : Stable (fun p => I p.2) i.ensureFresh := by
  unfold ensureFresh
  refine stable_current.bind fun r => ?_
  refine (stable_outside (h.stable_isStale r.comparison).mapError).bind fun stale => ?_
  split
  · exact (stable_update _).bind fun _ => stable_fail _
  · exact stable_pure _

theorem Looks.stable_plan (h : i.Looks I) : Stable (fun p => I p.2) i.plan := by
  unfold plan
  refine stable_current.bind fun r => ?_
  exact (stable_outside (h.stable_gather _ _)).bind fun _ => stable_ofExcept _

/-! ### The lock -/

theorem stable_acquire (h : Stable I (i.lock.acquire i.lockKey)) :
    Stable (fun p => I p.2) i.acquire := by
  unfold Importer.acquire
  refine (stable_outside h).bind fun free => ?_
  split
  · exact stable_pure _
  · exact stable_fail _

theorem stable_release (h : Stable I (i.lock.release i.lockKey)) :
    Stable (fun p => I p.2) i.release := fun p hp => h p.2 hp

theorem stable_releasingOnFailure (h : Stable I (i.lock.release i.lockKey)) {α : Type}
    {x : ImportOperation σ α} (hx : Stable (fun p => I p.2) x) :
    Stable (fun p => I p.2) (i.releasingOnFailure x) :=
  hx.recover fun e => (stable_release h).bind fun _ => stable_fail e

theorem stable_alreadyImporting (h : Stable I (i.lock.isLocked i.lockKey)) :
    Stable (fun p => I p.2) i.alreadyImporting := by
  unfold alreadyImporting
  refine stable_current.bind fun r => ?_
  split
  · exact stable_pure _
  · exact stable_outside h

/-! ### Acting -/

/-- **A condition is kept by acting** too: by what is done to the target, to the extensions and
to the lock. -/
structure Spares (i : Importer σ) (I : σ → Prop) : Prop extends i.Looks I where
  write : ∀ n m, Stable I (i.comparer.target.write n m)
  delete : ∀ n, Stable I (i.comparer.target.delete n)
  install : ∀ l, i.lifecycle = some l → ∀ kind names, Stable I (l.install kind names)
  uninstall : ∀ l, i.lifecycle = some l → ∀ kind names, Stable I (l.uninstall kind names)
  acquire : Stable I (i.lock.acquire i.lockKey)
  release : Stable I (i.lock.release i.lockKey)
  isLocked : Stable I (i.lock.isLocked i.lockKey)

theorem Spares.stable_acquire (h : i.Spares I) : Stable (fun p => I p.2) i.acquire :=
  Importer.stable_acquire h.acquire

theorem Spares.stable_release (h : i.Spares I) : Stable (fun p => I p.2) i.release :=
  Importer.stable_release h.release

theorem Spares.stable_releasingOnFailure (h : i.Spares I) {α : Type} {x : ImportOperation σ α}
    (hx : Stable (fun p => I p.2) x) : Stable (fun p => I p.2) (i.releasingOnFailure x) :=
  Importer.stable_releasingOnFailure h.release hx

/-- An import that is given up gives its lock back. -/
theorem Spares.stable_abandon (h : i.Spares I) : Stable (fun p => I p.2) i.abandon := by
  unfold abandon
  refine stable_current.bind fun r => ?_
  split
  · exact h.stable_release
  · exact stable_pure _

theorem Spares.stable_alreadyImporting (h : i.Spares I) :
    Stable (fun p => I p.2) i.alreadyImporting := Importer.stable_alreadyImporting h.isLocked

/-- **A step is carried out** on the target and on the extensions only. -/
theorem Spares.stable_execute (h : i.Spares I) (source : Snapshot) (st : Step) :
    Stable I (i.execute source st) := by
  have hdata : ∀ n, Stable I (sourceData source n : Attempt σ String Yaml.Mapping) := by
    intro n
    unfold sourceData
    split
    · exact stable_pure _
    · exact stable_fail _
  have hwrite : ∀ n, Stable I (sourceData source n >>= fun data =>
      (i.comparer.target.write n data).mapError (·.message)) :=
    fun n => (hdata n).bind fun _ => (h.write n _).mapError
  -- without a lifecycle a step about extensions fails before it has done anything
  have hlifecycle : ∀ x : Lifecycle σ → Attempt σ Failure Unit,
      (∀ l, i.lifecycle = some l → Stable I (x l)) →
      Stable I (i.lifecycleFor >>= fun l => (x l).mapError (·.text)) := by
    intro x hx
    unfold lifecycleFor
    rcases hl : i.lifecycle with _ | l
    · exact fun _ hs => hs
    · exact (hx l hl).mapError
  cases st with
  | create n => exact hwrite n
  | update n => exact hwrite n
  | delete n => exact (h.delete n).mapError
  | rename m n => exact (hwrite n).bind fun _ => (h.delete m).mapError
  | install e =>
    exact hlifecycle (fun l => l.install e.kind [e.name]) fun l hl => h.install l hl _ _
  | uninstall e =>
    exact hlifecycle (fun l => l.uninstall e.kind [e.name]) fun l hl => h.uninstall l hl _ _

end Importer

end SiteConfig
