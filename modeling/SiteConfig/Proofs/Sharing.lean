import Mathlib
import SiteConfig.Proofs.Agreement
import SiteConfig.Proofs.Desk
import SiteConfig.Proofs.Surroundings

/-!
# An importer among others

What importers share is the documents of a target and whether a lock is held
(`SiteConfig.Common`). Of everything else that an importer works with, of its source, its
lifecycle, its checks and its journal, nothing is asked but that it leaves these alone
(`SiteConfig.Importer.Shares`); any operation may fail, and a write that fails may leave any
proper documents behind.

For each operation there is one lemma that says all that it can do to what is shared and to
the import itself. None of them mentions other importers: what others do between two
operations is met by checking, once the lock is taken, that nothing has changed since the
storages were compared.
-/

namespace SiteConfig

/-- What importers share. -/
structure Common where
  target : Storage.Documents
  locked : Bool

/-- What is seen of the shared target and of the lock of a key. -/
def Common.of {σ : Type} (target : σ → Storage.Documents) (held : Cell σ LockTable.Held)
    (key : String) (s : σ) : Common :=
  ⟨target s, (held.get s).contains key⟩

/-! ### Proper documents -/

namespace Storage

/-- All documents have proper data. -/
def Proper (docs : Documents) : Prop :=
  ∀ n m, docs.get? n = some m → (Yaml.Value.mapping m).Proper

theorem proper_ofList {l : List (String × Yaml.Mapping)}
    (h : ∀ e ∈ l, (Yaml.Value.mapping e.2).Proper) : Proper (.ofList l) :=
  fun _ _ hm => h _ (NameMap.mem_of_get?_ofList hm)

theorem Proper.snapshot {docs : Documents} (h : Proper docs) : (snapshot [] docs).Proper := by
  intro n d hd
  rw [get?_snapshot_nil, Option.map_eq_some_iff] at hd
  obtain ⟨m, hm, rfl⟩ := hd
  exact h n m hm

theorem Proper.insert {docs : Documents} (h : Proper docs) {n : String} {m : Yaml.Mapping}
    (hm : (Yaml.Value.mapping m).Proper) : Proper (docs.insert n m) := by
  intro k m' hk
  rw [NameMap.get?_insert] at hk
  split at hk
  · cases hk
    exact hm
  · exact h k m' hk

theorem Proper.erase {docs : Documents} (h : Proper docs) (n : String) :
    Proper (docs.erase n) := by
  intro k m hk
  rw [NameMap.get?_erase] at hk
  split at hk
  · cases hk
  · exact h k m hk

end Storage

theorem Transform.proper_applyAll {ts : List Transform} {d e : Document} (hd : d.Proper)
    (h : applyAll ts d = some e) : e.Proper := by
  induction ts generalizing d with
  | nil =>
    cases h
    exact hd
  | cons t ts ih =>
    simp only [applyAll, List.foldlM_cons, Option.bind_eq_bind] at h
    obtain ⟨f, hf, hr⟩ := Option.bind_eq_some_iff.1 h
    refine ih ?_ hr
    cases t with
    | stripKeys keys =>
      cases hf
      exact hd.removeAll keys
    | dropWhere test =>
      simp only [apply] at hf
      split at hf
      · cases hf
      · cases hf
        exact hd
    | rewrite g =>
      obtain ⟨m, hm, rfl⟩ := Option.map_eq_some_iff.1 hf
      exact g.proper hm

namespace Snapshot

/-- The snapshot of some documents holds none but these. -/
theorem mem_of_get?_ofDocuments {docs : List Document} {n : String} {d : Document}
    (h : (ofDocuments docs).get? n = some d) : d ∈ docs := by
  have := NameMap.mem_of_get?_ofList h
  obtain ⟨e, he, heq⟩ := List.mem_map.1 this
  cases heq
  exact he

theorem proper_ofDocuments {docs : List Document} (h : ∀ d ∈ docs, d.Proper) :
    (ofDocuments docs).Proper := fun _ d hd => h d (mem_of_get?_ofDocuments hd)

end Snapshot

namespace Importer

variable {σ : Type}

/-- **An importer among others.** It shares a target, which is a map, and a lock of a table
in memory; nothing else that it works with touches either. -/
structure Shares (i : Importer σ) (target : σ → Storage.Documents)
    (held : Cell σ LockTable.Held) (key : String) : Prop where
  lock : i.lock = .memory held
  lockKey : i.lockKey = key
  held_set : ∀ l s, held.get (held.set l s) = l
  target_set : ∀ l s, target (held.set l s) = target s
  listTarget : ∀ s, (i.comparer.target.list "").Ends (Common.of target held key) s fun o w =>
    w = .of target held key s ∧ ∀ names, o = .ok names → names = (target s).keys
  readTarget : ∀ s names, (i.comparer.target.readMany names).Ends (Common.of target held key) s
    fun o w => w = .of target held key s ∧
      ∀ docs, o = .ok docs → docs = Storage.documentsOf (target s) names
  write : ∀ s n m, (i.comparer.target.write n m).Ends (Common.of target held key) s fun o w =>
    w.locked = (Common.of target held key s).locked ∧
      (o = .ok () → w.target = (target s).insert n m) ∧
      (Storage.Proper (target s) → (Yaml.Value.mapping m).Proper → Storage.Proper w.target)
  delete : ∀ s n, (i.comparer.target.delete n).Ends (Common.of target held key) s fun o w =>
    w.locked = (Common.of target held key s).locked ∧
      (o = .ok () → w.target = (target s).erase n) ∧
      (Storage.Proper (target s) → Storage.Proper w.target)
  listSource : Attempt.Quiet (Common.of target held key) (i.comparer.source.list "")
  readSource : ∀ names, Attempt.Quiet (Common.of target held key)
    (i.comparer.source.readMany names)
  properSource : ∀ s names docs, (i.comparer.source.readMany names s).1 = .ok docs →
    ∀ d ∈ docs, d.Proper
  install : ∀ l, i.lifecycle = some l → ∀ kind names,
    Attempt.Quiet (Common.of target held key) (l.install kind names)
  uninstall : ∀ l, i.lifecycle = some l → ∀ kind names,
    Attempt.Quiet (Common.of target held key) (l.uninstall kind names)
  installed : ∀ l, i.lifecycle = some l → Attempt.Quiet (Common.of target held key) l.installed
  sorted : ∀ l, i.lifecycle = some l → ∀ s es, (l.installed s).1 = .ok es → Extension.Sorted es
  info : ∀ l, i.lifecycle = some l → ∀ e, Attempt.Quiet (Common.of target held key) (l.info e)
  checks : ∀ c ∈ i.checks, ∀ review : Review σ, review.lifecycle = i.lifecycle →
    Attempt.Quiet (Common.of target held key) (c.run review)
  journal : ∀ journal, i.journal = some journal → ∀ e,
    Attempt.Quiet (Common.of target held key) (journal e)

open ImportOperation Attempt

variable {i : Importer σ} {target : σ → Storage.Documents} {held : Cell σ LockTable.Held}
  {key : String} {r : ImportRun} {s : σ} {v w : Common}

/-! ### The lock -/

theorem Shares.release_apply (h : i.Shares target held key) (s : σ) :
    Common.of target held key (i.lock.release i.lockKey s).2
      = { Common.of target held key s with locked := false } := by
  rw [h.lock, h.lockKey]
  show Common.mk (target (held.set ((held.get s).filter (· != key)) s))
    ((held.get (held.set ((held.get s).filter (· != key)) s)).contains key) = _
  rw [h.target_set, h.held_set]
  simp [Common.of]

theorem Shares.reports (h : i.Shares target held key) :
    i.Reports (Common.of target held key) fun v => { v with locked := false } :=
  ⟨fun journal hj e s => h.journal journal hj e s, h.release_apply⟩

/-- A lock that is free is held once it has been taken. -/
theorem Shares.yields_acquire (h : i.Shares target held key) (hs : Common.of target held key s = v)
    (hfree : v.locked = false) :
    i.acquire.Yields (beside (Common.of target held key)) (r, s) (.ok ())
      (r, { v with locked := true }) := by
  subst hs
  have htake : (i.lock.acquire i.lockKey).Yields (Common.of target held key) s (.ok true)
      { Common.of target held key s with locked := true } := by
    rw [h.lock, h.lockKey]
    refine ⟨_, LockTable.take_of_free hfree, ?_⟩
    simp [Common.of, h.target_set, h.held_set]
  exact (yields_outside htake r).bind fun p hp => yields_pure () hp

/-- A lock that is held cannot be taken, and nothing changes. -/
theorem Shares.acquire_eq_false (h : i.Shares target held key)
    (hlocked : (Common.of target held key s).locked = true) :
    i.lock.acquire i.lockKey s = (.ok false, s) := by
  rw [h.lock, h.lockKey]
  exact LockTable.take_of_held hlocked

theorem Shares.isLocked_eq (h : i.Shares target held key) :
    i.lock.isLocked key s = (.ok (Common.of target held key s).locked, s) := by
  rw [h.lock]
  rfl

/-! ### Looking -/

theorem Shares.gives_loadSource (h : i.Shares target held key) :
    i.comparer.loadSource.Gives (Common.of target held key · = v) fun a => a.Named ∧ a.Proper := by
  unfold Comparer.loadSource Snapshot.load
  refine h.listSource.gives_true.bind fun names _ => ?_
  refine Gives.bind (P := fun docs => ∀ d ∈ docs, d.Proper)
    ((h.readSource names).gives fun s docs => h.properSource s names docs) fun docs hdocs => ?_
  refine gives_pure ⟨Snapshot.named_ofDocuments _, Snapshot.proper_ofDocuments fun e he => ?_⟩
  obtain ⟨d, hd, hde⟩ := List.mem_filterMap.1 he
  exact Transform.proper_applyAll (hdocs d hd) hde

/-- What is loaded from the target is what it holds. -/
theorem Shares.gives_loadTarget (h : i.Shares target held key) :
    i.comparer.loadTarget.Gives (Common.of target held key · = v) fun a =>
      a = Storage.snapshot [] v.target := by
  unfold Comparer.loadTarget Snapshot.load
  have hlist : (i.comparer.target.list "").Gives (Common.of target held key · = v) fun names =>
      names = v.target.keys := by
    rintro s rfl
    exact h.listTarget s
  refine hlist.bind fun names hnames => ?_
  have hread : (i.comparer.target.readMany names).Gives (Common.of target held key · = v)
      fun docs => docs = Storage.documentsOf v.target names := by
    rintro s rfl
    exact h.readTarget s names
  refine hread.bind fun docs hdocs => gives_pure ?_
  rw [hdocs, hnames]
  rfl

end Importer

/-! ### What is known of an import at any time -/

/-- Two snapshots of proper documents, and what has to change between them. -/
structure Comparison.Sane (c : Comparison) : Prop where
  source : c.source.Named ∧ c.source.Proper
  target : c.target.Named ∧ c.target.Proper
  changelist : c.calculated = true → c.changelist = .between c.source c.target

/-- **What is known of an import at any time**: it holds the lock just when it is at work. -/
structure ImportRun.Sane (r : ImportRun) : Prop where
  comparison : r.comparison.Sane
  extensionChanges : r.extensionChanges.Distinct
  guarded : r.guarded = r.state.isActive

theorem Snapshot.named_empty : Snapshot.Named .empty := by
  intro n d h
  cases h

theorem Snapshot.proper_empty : Snapshot.Proper .empty := by
  intro n d h
  cases h

theorem Comparison.sane_initial : Comparison.initial.Sane :=
  ⟨⟨Snapshot.named_empty, Snapshot.proper_empty⟩, ⟨Snapshot.named_empty, Snapshot.proper_empty⟩,
    fun h => nomatch h⟩

theorem ImportRun.sane_initial : ImportRun.initial.Sane :=
  ⟨Comparison.sane_initial, ⟨.nil, .nil⟩, rfl⟩

theorem Comparison.Sane.invalidate {c : Comparison} (h : c.Sane) : c.invalidate.Sane :=
  ⟨h.source, h.target, fun hc => nomatch hc⟩

/-- An import that is neither at work nor over. -/
def ImportRun.Waiting (r : ImportRun) : Prop :=
  r.Sane ∧ r.state.isActive = false ∧ r.state ≠ .completed

/-- An import that waits may wait in another state. -/
theorem ImportRun.Waiting.settle {r : ImportRun} (h : r.Waiting) (st : ImportState)
    (errors : List String) (hactive : st.isActive = false) (hover : st ≠ .completed) :
    ImportRun.Waiting { r with errors := errors, state := st } :=
  ⟨⟨h.1.comparison, h.1.extensionChanges, (h.1.guarded.trans h.2.1).trans hactive.symm⟩, hactive,
    hover⟩

namespace Importer

open ImportOperation Attempt

variable {σ : Type} {i : Importer σ} {target : σ → Storage.Documents}
  {held : Cell σ LockTable.Held} {key : String} {r : ImportRun} {s : σ} {v w : Common}

/-! ### Validation -/

theorem Shares.gives_record (h : i.Shares target held key) (e : Event) (K : ImportRun → Prop) :
    (i.record e).Gives (fun p => Common.of target held key p.2 = v ∧ K p.1) fun _ => True := by
  intro ⟨r, s⟩ hp
  obtain ⟨p', hrecord, hv⟩ := h.reports.yields_record e r hp.1
  rw [hrecord]
  refine ⟨?_, fun _ _ => trivial⟩
  obtain ⟨hr, hs⟩ := beside_eq_iff.1 hv
  rw [hr]
  exact ⟨hs, hp.2⟩

/-- Looking changes nothing that is shared. -/
theorem Shares.looks (h : i.Shares target held key) : i.Looks (Common.of target held key · = v) where
  listSource := quiet_iff_stable.1 h.listSource v
  readSource names := quiet_iff_stable.1 (h.readSource names) v
  listTarget s hs := (h.listTarget s).1.trans hs
  readTarget names s hs := (h.readTarget s names).1.trans hs
  installed l hl := quiet_iff_stable.1 (h.installed l hl) v
  info l hl e := quiet_iff_stable.1 (h.info l hl e) v
  checks c hc rv hrv := quiet_iff_stable.1 (h.checks c hc rv hrv) v

/-- Changes of extensions never name an extension twice. -/
theorem Shares.gives_extensionChanges (h : i.Shares target held key) (c : Comparison)
    {l : Lifecycle σ} (hl : i.lifecycle = some l) :
    (c.extensionChanges l).Gives (Common.of target held key · = v) fun x => x.Distinct := by
  unfold Comparison.extensionChanges
  refine Gives.bind (P := fun _ => True) (gives_ofExcept fun _ _ => trivial) fun o _ => ?_
  rcases o with _ | wanted
  · exact gives_pure ExtensionChanges.disjoint_empty.distinct
  · have hinstalled : l.installed.Gives (Common.of target held key · = v) Extension.Sorted :=
      (h.installed l hl).gives (h.sorted l hl)
    refine hinstalled.mapError.bind fun es hes => gives_pure ?_
    exact (ExtensionChanges.disjoint_between wanted.extensions_sorted.nodup hes.nodup).distinct

/-- A review leaves the import waiting, with snapshots and changes that are in order. -/
theorem Shares.gives_assess (h : i.Shares target held key) (c : Comparison)
    {x : ExtensionChanges} (hx : x.Distinct) :
    (i.assess c x).Gives (fun p => Common.of target held key p.2 = v ∧ p.1.Waiting)
      fun _ => True := by
  unfold assess
  refine (gives_update fun r s hr => ?_).bind fun _ _ => ?_
  · exact ⟨hr.1, ⟨hr.2.1.comparison, hx, hr.2.1.guarded⟩, hr.2.2⟩
  · refine ((h.looks.stable_gather c x).gives_true.zoom_second ImportRun.Waiting).bind fun q _ => ?_
    exact (Check.stable_runAll fun k hk => h.looks.checks k hk _ rfl).always.gives_true.zoom_second _

theorem Shares.gives_survey (h : i.Shares target held key) :
    i.survey.Gives (fun p => Common.of target held key p.2 = v ∧ p.1.Waiting) fun _ => True := by
  unfold survey
  refine gives_current.bind fun r _ => ?_
  rcases hl : i.lifecycle with _ | l
  · exact h.gives_assess _ ExtensionChanges.disjoint_empty.distinct
  · exact ((h.gives_extensionChanges r.comparison hl).zoom_second ImportRun.Waiting).bind
      fun x hx => h.gives_assess _ hx

/-- Whatever comes of comparing afresh, the snapshots are in order. -/
theorem Shares.refresh_ends (h : i.Shares target held key) {c : Comparison} (hc : c.Sane)
    (hcalc : c.calculated = false) (hv : Storage.Proper v.target)
    (hs : Common.of target held key s = v) :
    i.comparer.refresh.Ends (beside (Common.of target held key)) (c, s) fun _ q =>
      q.1.Sane ∧ q.2 = v := by
  unfold Comparer.refresh
  refine ((h.gives_loadSource.ends hs).zoom_second c).bind (fun ⟨c₁, s₁⟩ a h₁ => ?_)
    fun e q hq => ?_
  · have hv₁ : Common.of target held key s₁ = v := h₁.2.1
    obtain rfl : c₁ = c := h₁.1
    have hsource := h₁.2.2 a rfl
    refine (yields_modify_first _ c₁ hv₁).bind_ends fun ⟨c₂, s₂⟩ h₂ => ?_
    obtain ⟨rfl, hv₂⟩ := beside_eq_iff.1 h₂
    -- should the target fail to load, then only the source is known
    have hsane : Comparison.Sane { c₁ with source := a } :=
      ⟨hsource, hc.target, fun h => nomatch hcalc.symm.trans h⟩
    refine ((h.gives_loadTarget.ends hv₂).zoom_second _).bind (fun ⟨c₃, s₃⟩ b h₃ => ?_)
      fun e q hq => ?_
    · have hv₃ : Common.of target held key s₃ = v := h₃.2.1
      refine (yields_modify_first _ c₃ hv₃).ends ⟨⟨hsource, ?_, fun _ => rfl⟩, rfl⟩
      rw [h₃.2.2 b rfl]
      exact ⟨Storage.named_snapshot _ _, hv.snapshot⟩
    · rw [hq.1]
      exact ⟨hsane, hq.2.1⟩
  · rw [hq.1]
    exact ⟨hc, hq.2.1⟩

theorem comparing_ends {view : σ → Common} {α : Type}
    {x : Attempt (Comparison × σ) ConfigError α} {C : Comparison → Prop}
    (hx : x.Ends (beside view) (r.comparison, s) fun _ q => C q.1 ∧ q.2 = v) :
    (comparing x).Ends (beside view) (r, s) fun _ p =>
      (∃ c, C c ∧ p.1 = { r with comparison := c }) ∧ p.2 = v := by
  unfold Attempt.Ends at hx ⊢
  rcases h : x (r.comparison, s) with ⟨e | a, c, s'⟩ <;> rw [h] at hx <;>
    simp only [comparing, h] <;> exact ⟨⟨c, hx.1, rfl⟩, hx.2⟩

/-- Whatever comes of a review, the import waits and nothing shared has changed. -/
theorem Shares.gives_review (h : i.Shares target held key) (hv : Storage.Proper v.target) :
    i.review.Gives (fun p => Common.of target held key p.2 = v ∧ p.1.Waiting) fun _ => True := by
  rintro ⟨r, s⟩ ⟨hs, hr⟩
  refine ⟨?_, fun _ _ => trivial⟩
  show i.review.Ends (beside (Common.of target held key)) (r, s) fun _ p => p.2 = v ∧ p.1.Waiting
  simp only at hs hr
  rw [review_eq]
  refine (yields_current r hs).bind_ends fun ⟨r₁, s₁⟩ h₁ => ?_
  obtain ⟨rfl, hv₁⟩ := beside_eq_iff.1 h₁
  rcases hcalc : r₁.comparison.calculated with _ | _
  · have hwaiting : ∀ {p : ImportRun × Common},
        (∃ c : Comparison, c.Sane ∧ p.1 = { r₁ with comparison := c }) → p.1.Waiting := by
      rintro p ⟨c, hc, hp⟩
      rw [hp]
      exact ⟨⟨hc, hr.1.extensionChanges, hr.1.guarded⟩, hr.2⟩
    refine (comparing_ends (h.refresh_ends hr.1.comparison hcalc hv hv₁)).bind
      (fun ⟨r₂, s₂⟩ _ h₂ => ?_) fun e p hp => ⟨hp.2, hwaiting hp.1⟩
    exact (h.gives_survey (r₂, s₂) ⟨h₂.2, hwaiting h₂.1⟩).1
  · exact (h.gives_survey (r₁, s₁) ⟨hv₁, hr⟩).1

theorem gives_refuse {view : σ → Common} (messages : List String) :
    (refuse messages : ImportOperation σ Unit).Gives
      (fun p => view p.2 = v ∧ p.1.Waiting) fun _ => True :=
  gives_update fun _ _ hr => ⟨hr.1, hr.2.settle _ _ rfl (by simp)⟩

theorem Shares.gives_conclude (h : i.Shares target held key) (problems : List Problem) :
    (i.conclude problems).Gives (fun p => Common.of target held key p.2 = v ∧ p.1.Waiting)
      fun _ => True := by
  unfold conclude
  split
  · exact gives_update fun r s hr => ⟨hr.1, hr.2.settle .validated _ rfl (by simp)⟩
  · exact (gives_refuse _).bind fun _ _ => (h.gives_record _ _).bind fun _ _ => gives_fail _

/-- **Validating changes nothing shared.** Afterwards the import waits, unless it could not
be validated. -/
theorem Shares.validate_ends (h : i.Shares target held key) (hr : r.Sane)
    (hv : Storage.Proper v.target) (hs : Common.of target held key s = v) :
    i.validate.Ends (beside (Common.of target held key)) (r, s) fun _ p =>
      p.2 = v ∧ (p.1 = r ∨ r.state.isActive = false ∧ p.1.Waiting) := by
  rw [validate_eq]
  refine (yields_current r hs).bind_ends fun ⟨r₁, s₁⟩ h₁ => ?_
  obtain ⟨rfl, hv₁⟩ := beside_eq_iff.1 h₁
  split
  · exact (yields_fail _ h₁).ends ⟨rfl, .inl rfl⟩
  · rename_i hstate
    have hinactive : r₁.state.isActive = false := by
      rcases not_and_or.1 hstate with h | h <;> rw [not_not.1 h] <;> rfl
    have hguarded : r₁.guarded = false := hr.guarded.trans hinactive
    refine (yields_update _ r₁ hv₁).bind_ends fun ⟨r₂, s₂⟩ h₂ => ?_
    obtain ⟨rfl, hv₂⟩ := beside_eq_iff.1 h₂
    -- whatever comes of the review, the import does not get to work by it
    have hwaiting : ImportRun.Waiting { r₁ with state := .validating } :=
      ⟨⟨hr.comparison, hr.extensionChanges, hguarded⟩, rfl, by simp⟩
    have hrest := ((h.gives_review hv).recover fun e =>
      (gives_refuse e.messages).bind fun _ _ => gives_fail e).bind fun problems _ =>
        h.gives_conclude problems
    obtain ⟨hv', hr'⟩ := (hrest (_, s₂) ⟨hv₂, hwaiting⟩).1
    exact ⟨hv', .inr ⟨hinactive, hr'⟩⟩

/-! ### Planning -/

/-- A comparison that is not stale is of what the target holds. -/
theorem Shares.gives_isStale (h : i.Shares target held key) (c : Comparison) :
    (i.comparer.isStale c).Gives (Common.of target held key · = v) fun stale =>
      stale = false → c.calculated = true ∧ (Storage.snapshot [] v.target).Agrees c.target := by
  unfold Comparer.isStale
  rcases hcalc : c.calculated with _ | _
  · exact gives_pure fun hno => nomatch hno
  · refine h.gives_loadSource.bind fun a _ => ?_
    split
    · exact gives_pure fun hno => nomatch hno
    · refine h.gives_loadTarget.bind fun b hb => gives_pure fun hsame => ⟨rfl, ?_⟩
      rw [← hb]
      exact Snapshot.agrees_of_same (by simpa using hsame)

/-- **What is planned is fresh**: it was made for a target with which the target, as it is
now, agrees. If it was not, the import waits again. -/
theorem Shares.ensureFresh_ends (h : i.Shares target held key) (hr : r.Waiting)
    (hs : Common.of target held key s = v) :
    i.ensureFresh.Ends (beside (Common.of target held key)) (r, s) fun o p =>
      p.2 = v ∧ match o with
        | .ok () => p.1 = r ∧ r.comparison.calculated = true ∧
            (Storage.snapshot [] v.target).Agrees r.comparison.target
        | .error _ => p.1.Waiting ∧ p.1.comparison.source = r.comparison.source := by
  unfold ensureFresh
  refine (yields_current r hs).bind_ends fun ⟨r₁, s₁⟩ h₁ => ?_
  obtain ⟨rfl, hv₁⟩ := beside_eq_iff.1 h₁
  have hstale := (((h.gives_isStale r₁.comparison).mapError (f := ImportError.storage)).ends
    hv₁).zoom_second r₁
  refine hstale.bind (fun ⟨r₂, s₂⟩ stale h₂ => ?_) fun e p hp => ?_
  · have hv₂ : Common.of target held key s₂ = v := h₂.2.1
    obtain rfl : r₂ = r₁ := h₂.1
    -- what is stale has to be compared again
    rcases stale with _ | _
    · exact (yields_pure () (v := (r₂, v)) (by rw [beside_mk, hv₂])).ends
        ⟨rfl, rfl, h₂.2.2 false rfl rfl⟩
    · refine (yields_update _ r₂ hv₂).bind_ends fun p hp => (yields_fail _ hp).ends ⟨rfl, ?_, rfl⟩
      have hwaiting := hr.settle .idle r₂.errors rfl (by simp)
      exact ⟨⟨hr.1.comparison.invalidate, hr.1.extensionChanges, hwaiting.1.guarded⟩, hwaiting.2⟩
  · rw [hp.1]
    exact ⟨hp.2.1, hr, rfl⟩

theorem Shares.plan_ends (h : i.Shares target held key) (hs : Common.of target held key s = v) :
    i.plan.Ends (beside (Common.of target held key)) (r, s) fun o p =>
      p = (r, v) ∧ ∀ steps, o = .ok steps →
        ∃ q : Requirements, q.plan r.changelist r.extensionChanges = .ok steps := by
  unfold Importer.plan
  refine (yields_current r hs).bind_ends fun ⟨r₁, s₁⟩ h₁ => ?_
  obtain ⟨rfl, hv₁⟩ := beside_eq_iff.1 h₁
  have hlooks : i.Looks (Common.of target held key · = v) := h.looks
  have hgather := (hlooks.stable_gather r₁.comparison r₁.extensionChanges).gives_true
  refine ((hgather.ends hv₁).zoom_second r₁).bind
    (fun ⟨r₂, s₂⟩ q h₂ => ?_) fun e p hp => ⟨Prod.ext hp.1 hp.2.1, fun _ hno => nomatch hno⟩
  have hv₂ : Common.of target held key s₂ = v := h₂.2.1
  obtain rfl : r₂ = r₁ := h₂.1
  refine (yields_ofExcept _ (v := (r₂, v)) (by rw [beside_mk, hv₂])).ends ⟨rfl, fun steps ho => ?_⟩
  refine ⟨q, ?_⟩
  rcases hplan : q.plan r₂.changelist r₂.extensionChanges with e | steps' <;> rw [hplan] at ho <;>
    cases ho
  rfl

/-- The steps that are planned under the lock fit the target as it is. -/
theorem Shares.freshPlan_ends (h : i.Shares target held key) (hr : r.Waiting)
    (hv : Storage.Proper v.target) (hs : Common.of target held key s = v) :
    (i.ensureFresh >>= fun _ => i.plan).Ends (beside (Common.of target held key)) (r, s)
      fun o p => p.2 = v ∧ match o with
        | .ok steps => p.1 = r ∧
            Step.Fit steps r.comparison.source (Storage.snapshot [] v.target)
        | .error _ => p.1.Waiting ∧ p.1.comparison.source = r.comparison.source := by
  refine (h.ensureFresh_ends hr hs).bind (fun ⟨r₁, s₁⟩ _ h₁ => ?_) fun e p hp => hp
  obtain ⟨hv₁, hr₁, hcalc, hagrees⟩ := h₁
  have hv₁' : Common.of target held key s₁ = v := hv₁
  obtain rfl : r₁ = r := hr₁
  obtain ⟨o, p, hplan, rfl, hsteps⟩ := (h.plan_ends (r := r₁) hv₁').exists_yields
  refine hplan.ends ⟨rfl, ?_⟩
  rcases o with e | steps
  · exact ⟨hr, rfl⟩
  · obtain ⟨q, hq⟩ := hsteps steps rfl
    have hsane := hr.1.comparison
    rw [ImportRun.changelist, hsane.changelist hcalc] at hq
    exact ⟨rfl, Requirements.fit_of_plan hsane.source.1 hsane.target.1 hsane.target.2 hv.snapshot
      hr.1.extensionChanges hq hagrees⟩

/-- **Planning with a free lock**: either the import waits and the lock is free again, or it
has steps that fit, and holds the lock if there are any. -/
theorem Shares.start_ends (h : i.Shares target held key) (hr : r.Sane)
    (hstate : r.state = .validated) (hfree : v.locked = false) (hv : Storage.Proper v.target)
    (hs : Common.of target held key s = v) :
    i.start.Ends (beside (Common.of target held key)) (r, s) fun _ p =>
      (p.2 = v ∧ p.1.Waiting ∧ p.1.comparison.source = r.comparison.source) ∨
        ∃ steps t, p = (r.planned steps t, { v with locked := !steps.isEmpty }) ∧
          Step.Fit steps r.comparison.source (Storage.snapshot [] v.target) := by
  have hr' : r.Waiting := ⟨hr, by rw [hstate]; rfl, by rw [hstate]; simp⟩
  have hunlock : ({ target := v.target, locked := false } : Common) = v := by rw [← hfree]
  rw [start_eq]
  refine (yields_current r hs).bind_ends fun ⟨r₁, s₁⟩ h₁ => ?_
  obtain ⟨rfl, hv₁⟩ := beside_eq_iff.1 h₁
  rw [if_neg (by simp [hstate])]
  refine (h.yields_acquire hv₁ hfree).bind_ends fun ⟨r₂, s₂⟩ h₂ => ?_
  obtain ⟨rfl, hv₂⟩ := beside_eq_iff.1 h₂
  have hfresh := h.freshPlan_ends hr' (v := { v with locked := true }) hv hv₂
  refine (hfresh.recover (Q := fun o p => match o with
      | .ok steps => p = (r₂, { v with locked := true }) ∧
          Step.Fit steps r₂.comparison.source (Storage.snapshot [] v.target)
      | .error _ => p.2 = v ∧ p.1.Waiting ∧ p.1.comparison.source = r₂.comparison.source)
    (fun steps p hp => ⟨Prod.ext hp.2.1 hp.1, hp.2.2⟩) fun ⟨r₃, s₃⟩ e h₃ => ?_).bind
      (fun ⟨r₃, s₃⟩ steps h₃ => ?_) fun e p hp => .inl hp
  · -- the lock is given back on every error
    obtain ⟨hv₃, hwaiting, hsource⟩ := h₃
    have hlocked : Common.of target held key s₃ = { v with locked := true } := hv₃
    refine (h.reports.yields_release r₃ hlocked).bind_ends fun p hp =>
      (yields_fail e hp).ends ⟨hunlock, ?_, hsource⟩
    have hguarded : r₃.guarded = false := hwaiting.1.guarded.trans hwaiting.2.1
    rwa [← hguarded]
  · obtain ⟨heq, hfit⟩ := h₃
    obtain ⟨rfl, hv₃⟩ := beside_eq_iff.1 heq
    obtain ⟨t, hlaunch⟩ := h.reports.yields_launch steps r₃ hv₃
    refine hlaunch.ends (.inr ⟨steps, t, ?_, hfit⟩)
    rcases steps with _ | ⟨st, rest⟩ <;> rfl

/-! ### Steps -/

/-- **What a step may do** to what is shared: the lock stays as it is, documents stay proper,
and if the step succeeds then the target has adopted what it touches from the source. -/
structure Acts (source : Snapshot) (v : Common) (names : List String) (o : Except String Unit)
    (w : Common) : Prop where
  locked : w.locked = v.locked
  proper : Storage.Proper w.target
  adopts : o = .ok () → Changelist.Adopts source (Storage.snapshot [] v.target)
    (Storage.snapshot [] w.target) names

section Execute

variable {source : Snapshot} (h : i.Shares target held key) (hs : Common.of target held key s = v)
  (hv : Storage.Proper v.target)

/-- A step that changes no document. -/
theorem acts_of_eq {o : Except String Unit} (hv : Storage.Proper v.target) (hw : w = v) :
    Acts source v [] o w := by
  subst hw
  exact ⟨rfl, hv, fun _ n => (if_neg (List.not_mem_nil)).symm⟩

include h hs hv in
theorem Shares.writeFrom_ends (hname : source.Named) (hproper : source.Proper) (n : String) :
    (sourceData source n >>= fun data =>
        (i.comparer.target.write n data).mapError (·.message)).Ends
      (Common.of target held key) s (Acts source v [n]) := by
  unfold sourceData
  rcases hd : source.get? n with _ | d
  · refine (yields_fail _ hs).bind_error.ends ⟨rfl, hv, fun hok => nomatch hok⟩
  · refine (yields_pure d.data hs).bind_ends fun s₁ hs₁ => ?_
    subst hs₁
    refine ((h.write s₁ n d.data).imp fun o w hw => ?_).mapError
    obtain ⟨hlocked, hok, hkept⟩ := hw
    refine ⟨hlocked, hkept hv (hproper n d hd), fun ho => ?_⟩
    rw [hok (eq_ok_of_mapError ho)]
    exact Storage.adopts_insert hname hd

include h hs hv in
theorem Shares.delete_ends (n : String) (hno : source.get? n = none) :
    ((i.comparer.target.delete n).mapError (·.message)).Ends (Common.of target held key) s
      (Acts source v [n]) := by
  subst hs
  refine ((h.delete s n).imp fun o w hw => ?_).mapError
  obtain ⟨hlocked, hok, hkept⟩ := hw
  refine ⟨hlocked, hkept hv, fun ho => ?_⟩
  rw [hok (eq_ok_of_mapError ho)]
  exact Storage.adopts_erase hno

include h hs hv in
/-- A rename that fails between its two halves has written the new document. -/
theorem Shares.rename_ends (hname : source.Named) (hproper : source.Proper) (m n : String)
    (hno : source.get? m = none) :
    (i.execute source (.rename m n)).Ends (Common.of target held key) s
      (Acts source v [m, n]) := by
  refine (h.writeFrom_ends hs hv hname hproper n).bind (fun s₁ _ h₁ => ?_) fun e w hw =>
    ⟨hw.locked, hw.proper, fun hok => nomatch hok⟩
  obtain ⟨o, w, hdelete, hw⟩ := (h.delete_ends rfl h₁.proper m hno).exists_yields
  exact hdelete.ends ⟨hw.locked.trans h₁.locked, hw.proper, fun hok =>
    (h₁.adopts rfl).trans (hw.adopts hok)⟩

include hs hv in
theorem lifecycle_ends {x : Lifecycle σ → Attempt σ Failure Unit}
    (hx : ∀ l, i.lifecycle = some l → Quiet (Common.of target held key) (x l)) :
    (i.lifecycleFor >>= fun l => (x l).mapError (·.text)).Ends (Common.of target held key) s
      (Acts source v []) := by
  unfold lifecycleFor
  rcases hl : i.lifecycle with _ | l
  · exact (yields_fail _ hs).bind_error.ends (acts_of_eq hv rfl)
  · refine (yields_pure l hs).bind_ends fun s₁ h₁ => ?_
    have hquiet := ((hx l hl).gives_true.mapError (f := fun f : Failure => f.text)).ends h₁
    obtain ⟨o, w, hdone, hw, -⟩ := hquiet.exists_yields
    exact hdone.ends (acts_of_eq hv hw)

include h hs hv in
/-- **A step that fits** does what it may do. -/
theorem Shares.execute_ends (hname : source.Named) (hproper : source.Proper) (st : Step)
    (hno : ∀ n ∈ st.removed, source.get? n = none) :
    (i.execute source st).Ends (Common.of target held key) s (Acts source v st.names) := by
  cases st with
  | create n => exact h.writeFrom_ends hs hv hname hproper n
  | update n => exact h.writeFrom_ends hs hv hname hproper n
  | delete n => exact h.delete_ends hs hv n (hno n (by simp [Step.removed]))
  | rename m n => exact h.rename_ends hs hv hname hproper m n (hno m (by simp [Step.removed]))
  | install e => exact lifecycle_ends hs hv fun l hl => h.install l hl e.kind [e.name]
  | uninstall e => exact lifecycle_ends hs hv fun l hl => h.uninstall l hl e.kind [e.name]

end Execute

end Importer

end SiteConfig
