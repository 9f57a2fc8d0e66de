import Mathlib
import SiteConfig.Import.Run
import SiteConfig.Proofs.Advance
import SiteConfig.Proofs.Outcome
import SiteConfig.Storage.Memory

/-!
# What an import works on

An import works on a source, a target, a lifecycle and a lock. Of whatever state they are
kept in, a **scene** is what there is to be seen: the documents of the source and of the
target, the installed extensions, and whether the lock is held (`SiteConfig.Scene`).

That an importer *sees* scenes (`SiteConfig.Importer.Sees`) says what its surroundings are
relied on for: the storages are maps that can be read, writing and deleting succeed and
change one name, the lifecycle installs what it knows and uninstalls what is installed, and
the lock can be taken when it is free. Source and target are different storages, and nobody
else touches the target or the extensions. The two halves of this are also used apart: that
the surroundings can be looked at (`SiteConfig.Importer.Observes`), and that changes, which
may fail then, are made to nothing but what they are about (`SiteConfig.Importer.Tries`).
-/

namespace SiteConfig

/-! ### Documents and snapshots -/

namespace Storage

/-- The documents of some names; missing ones are left out. -/
def documentsOf (docs : Documents) (names : List String) : List Document :=
  names.filterMap fun n => (docs.get? n).map (⟨n, ·⟩)

/-- The snapshot of a storage that passes through some transforms. -/
def snapshot (transforms : List Transform) (docs : Documents) : Snapshot :=
  .ofDocuments ((documentsOf docs docs.keys).filterMap (Transform.applyAll transforms))

theorem map_name_documentsOf_sublist (docs : Documents) (names : List String) :
    ((documentsOf docs names).map (·.name)).Sublist names := by
  induction names with
  | nil => exact .slnil
  | cons n names ih =>
    rw [documentsOf, List.filterMap_cons]
    rcases docs.get? n with _ | m
    · exact ih.cons n
    · exact ih.cons_cons n

theorem mem_documentsOf_iff {docs : Documents} {names : List String} {d : Document} :
    d ∈ documentsOf docs names ↔ d.name ∈ names ∧ docs.get? d.name = some d.data := by
  simp only [documentsOf, List.mem_filterMap, Option.map_eq_some_iff]
  constructor
  · rintro ⟨n, hn, m, hm, rfl⟩
    exact ⟨hn, hm⟩
  · rintro ⟨hn, hm⟩
    exact ⟨d.name, hn, d.data, hm, rfl⟩

theorem map_name_filterMap_sublist (ts : List Transform) (docs : List Document) :
    ((docs.filterMap (Transform.applyAll ts)).map (·.name)).Sublist (docs.map (·.name)) := by
  induction docs with
  | nil => exact .slnil
  | cons d docs ih =>
    rw [List.filterMap_cons]
    rcases h : Transform.applyAll ts d with _ | e
    · exact ih.cons d.name
    · rw [List.map_cons, List.map_cons, Transform.name_applyAll h]
      exact ih.cons_cons d.name

/-- **What a snapshot holds**: the documents of the storage, transformed, but for those that
a transform drops. -/
theorem get?_snapshot (ts : List Transform) (docs : Documents) (n : String) :
    (snapshot ts docs).get? n = (docs.get? n).bind fun m => Transform.applyAll ts ⟨n, m⟩ := by
  have hnodup : (((documentsOf docs docs.keys).filterMap (Transform.applyAll ts)).map
      (·.name)).Nodup :=
    docs.nodup_keys.sublist
      ((map_name_filterMap_sublist ts _).trans (map_name_documentsOf_sublist _ _))
  ext d
  rw [snapshot, Snapshot.get?_ofDocuments hnodup, List.mem_filterMap, Option.bind_eq_some_iff]
  constructor
  · rintro ⟨⟨e, he, hd⟩, rfl⟩
    rw [mem_documentsOf_iff] at he
    rw [Transform.name_applyAll hd]
    exact ⟨e.data, he.2, hd⟩
  · rintro ⟨m, hm, hd⟩
    have hname : d.name = n := Transform.name_applyAll hd
    exact ⟨⟨⟨n, m⟩, mem_documentsOf_iff.2 ⟨NameMap.mem_keys_iff.2 ⟨m, hm⟩, hm⟩, hd⟩, hname⟩

/-- Without transforms a snapshot holds the documents as they are. -/
theorem get?_snapshot_nil (docs : Documents) (n : String) :
    (snapshot [] docs).get? n = (docs.get? n).map (⟨n, ·⟩) := by
  rw [get?_snapshot]
  rcases docs.get? n with _ | m <;> rfl

theorem named_snapshot (ts : List Transform) (docs : Documents) : (snapshot ts docs).Named :=
  Snapshot.named_ofDocuments _

section Adopts

variable {source : Snapshot} {docs : Documents} {m n : String} {d : Document}

/-- Writing a document of the source adopts its name. -/
theorem adopts_insert (hs : source.Named) (hd : source.get? n = some d) :
    Changelist.Adopts source (snapshot [] docs) (snapshot [] (docs.insert n d.data)) [n] := by
  intro k
  rw [get?_snapshot_nil, get?_snapshot_nil, NameMap.get?_insert]
  by_cases hk : k = n
  · subst hk
    rw [if_pos rfl, if_pos List.mem_cons_self, hd, ← hs k d hd]
    rfl
  · rw [if_neg hk, if_neg (by simpa using hk)]

/-- Deleting a document that the source does not have adopts its name. -/
theorem adopts_erase (hno : source.get? n = none) :
    Changelist.Adopts source (snapshot [] docs) (snapshot [] (docs.erase n)) [n] := by
  intro k
  rw [get?_snapshot_nil, get?_snapshot_nil, NameMap.get?_erase]
  by_cases hk : k = n
  · subst hk
    rw [if_pos rfl, if_pos List.mem_cons_self, hno]
    rfl
  · rw [if_neg hk, if_neg (by simpa using hk)]

/-- Renaming is writing under the new name and deleting under the old one. -/
theorem adopts_rename (hs : source.Named) (hd : source.get? n = some d)
    (hno : source.get? m = none) :
    Changelist.Adopts source (snapshot [] docs)
      (snapshot [] ((docs.insert n d.data).erase m)) [m, n] :=
  (adopts_insert hs hd).trans (adopts_erase hno)

theorem contains_of_get?_snapshot {e : Document} (he : (snapshot [] docs).get? n = some e) :
    docs.contains n = true := by
  rw [get?_snapshot_nil] at he
  obtain ⟨m, hm, -⟩ := Option.map_eq_some_iff.1 he
  exact NameMap.contains_iff.2 ⟨m, hm⟩

end Adopts

end Storage

/-! ### Scenes -/

/-- What there is to be seen of the state that an import works on. -/
structure Scene where
  source : Storage.Documents
  target : Storage.Documents
  installed : List Extension
  /-- Whether the lock of the import is held. -/
  locked : Bool

namespace Scene

/-- **A scene as another one**, but for documents of the target under some names. -/
structure EqualBut (names : List String) (v w : Scene) : Prop where
  source : w.source = v.source
  target : ∀ n, n ∉ names → w.target.get? n = v.target.get? n
  installed : w.installed = v.installed
  locked : w.locked = v.locked

theorem equalBut_insert (v : Scene) (n : String) (m : Yaml.Mapping) :
    EqualBut [n] v { v with target := v.target.insert n m } where
  source := rfl
  target k hk := by
    rw [NameMap.get?_insert, if_neg (by simpa using hk)]
  installed := rfl
  locked := rfl

theorem equalBut_erase (v : Scene) (n : String) :
    EqualBut [n] v { v with target := v.target.erase n } where
  source := rfl
  target k hk := by
    rw [NameMap.get?_erase, if_neg (by simpa using hk)]
  installed := rfl
  locked := rfl

theorem EqualBut.trans {u v w : Scene} {names names' : List String} (h : EqualBut names u v)
    (h' : EqualBut names' v w) : EqualBut (names' ++ names) u w where
  source := h'.source.trans h.source
  target n hn := by
    obtain ⟨hn', hn⟩ := not_or.1 (List.mem_append.not.1 hn)
    exact (h'.target n hn').trans (h.target n hn)
  installed := h'.installed.trans h.installed
  locked := h'.locked.trans h.locked

/-- **What trying a change may come to**: the scene after it, or else an error, if changes
may fail at all, and then a scene of some kind. -/
def Tried {ε : Type} (fallible : Prop) (after : Scene) (may : Scene → Prop)
    (o : Except ε Unit) (w : Scene) : Prop :=
  match o with
  | .ok () => w = after
  | .error _ => fallible ∧ may w

theorem Tried.mapError {ε ε' : Type} {f : ε → ε'} {fallible : Prop} {after : Scene}
    {may : Scene → Prop} {o : Except ε Unit} {w : Scene} (h : Tried fallible after may o w) :
    Tried fallible after may (o.mapError f) w := by
  rcases o with e | ⟨⟩ <;> exact h

end Scene

/-! ### Comparing -/

section Comparing

variable {σ τ : Type} {seen : σ → τ} {s : σ} {w : τ}

/-- A storage that lists some documents and can read them is loaded with what they are. -/
theorem Snapshot.yields_load {st : Storage σ} {docs : Storage.Documents} (ts : List Transform)
    (hlist : ∀ s, seen s = w → (st.list "").Yields seen s (.ok docs.keys) w)
    (hread : ∀ s, seen s = w → (st.readMany docs.keys).Yields seen s
      (.ok (Storage.documentsOf docs docs.keys)) w) (hs : seen s = w) :
    (Snapshot.load st ts).Yields seen s (.ok (Storage.snapshot ts docs)) w :=
  (hlist s hs).bind fun s₁ h₁ => (hread s₁ h₁).bind fun _ h₂ => Attempt.yields_pure _ h₂

/-- What has been loaded is compared. -/
theorem Comparer.yields_refresh {c : Comparer σ} {source target : Snapshot}
    (hsource : ∀ s, seen s = w → c.loadSource.Yields seen s (.ok source) w)
    (htarget : ∀ s, seen s = w → c.loadTarget.Yields seen s (.ok target) w) (hs : seen s = w)
    (k : Comparison) :
    c.refresh.Yields (Attempt.beside seen) (k, s) (.ok ()) (.between source target, w) := by
  refine ((hsource s hs).zoom_second k).bind fun p hp => ?_
  obtain ⟨k₁, s₁⟩ := p
  rw [Attempt.beside_eq_iff] at hp
  refine (Attempt.yields_modify_first _ k₁ hp.2).bind fun p hp => ?_
  obtain ⟨k₂, s₂⟩ := p
  rw [Attempt.beside_eq_iff] at hp
  refine ((htarget s₂ hp.2).zoom_second k₂).bind fun p hp => ?_
  obtain ⟨k₃, s₃⟩ := p
  rw [Attempt.beside_eq_iff] at hp
  exact Attempt.yields_modify_first _ k₃ hp.2

variable {I : σ → Prop}

/-- A storage that lists some documents and reads them, if it does, is loaded with what they are, if
it is loaded. -/
theorem Snapshot.gives_load {st : Storage σ} {docs : Storage.Documents} (ts : List Transform)
    (hlist : (st.list "").Gives I (· = docs.keys))
    (hread : (st.readMany docs.keys).Gives I (· = Storage.documentsOf docs docs.keys)) :
    (Snapshot.load st ts).Gives I (· = Storage.snapshot ts docs) := by
  refine hlist.bind fun names hnames => ?_
  rw [hnames]
  refine hread.bind fun ds hds => ?_
  rw [hds]
  exact Attempt.gives_pure rfl

/-- What is compared is what has been loaded. -/
theorem Comparer.refresh_gives {c : Comparer σ} {source target : Snapshot}
    (hsource : c.loadSource.Gives I (· = source)) (htarget : c.loadTarget.Gives I (· = target))
    (k : Comparison) (hs : I s) : I (c.refresh (k, s)).2.2 ∧
      ((c.refresh (k, s)).1 = .ok () → (c.refresh (k, s)).2.1 = .between source target) := by
  obtain ⟨h₁, ha⟩ := hsource s hs
  unfold refresh
  rw [Attempt.bind_apply]
  simp only [Cell.zoom, Cell.second]
  rcases hload : c.loadSource s with ⟨e | a, s₁⟩ <;> rw [hload] at h₁ ha
  · exact ⟨h₁, fun hok => by cases hok⟩
  obtain ⟨h₂, hb⟩ := htarget s₁ h₁
  simp only [Attempt.bind_apply, Cell.modify, Cell.zoom, Cell.first]
  rcases hload' : c.loadTarget s₁ with ⟨e | b, s₂⟩ <;> rw [hload'] at h₂ hb
  · exact ⟨h₂, fun hok => by cases hok⟩
  · exact ⟨h₂, fun _ => by rw [ha a rfl, hb b rfl]⟩

end Comparing

namespace Importer

variable {σ : Type} {i : Importer σ} {view : σ → Scene} {known : Extension → Option ExtensionInfo}
  {s : σ} {v : Scene}

/-- **The surroundings of an import behave**: seen through a view, the storages are maps
without failures, the lifecycle keeps a list of extensions of which it knows some, and the
lock is free or held. -/
structure Sees (i : Importer σ) (view : σ → Scene) (known : Extension → Option ExtensionInfo) :
    Prop where
  listSource : ∀ s, (i.comparer.source.list "").Yields view s (.ok (view s).source.keys) (view s)
  readSource : ∀ s names, (i.comparer.source.readMany names).Yields view s
    (.ok (Storage.documentsOf (view s).source names)) (view s)
  listTarget : ∀ s, (i.comparer.target.list "").Yields view s (.ok (view s).target.keys) (view s)
  readTarget : ∀ s names, (i.comparer.target.readMany names).Yields view s
    (.ok (Storage.documentsOf (view s).target names)) (view s)
  write : ∀ s n m, validateName n = .ok () → (i.comparer.target.write n m).Yields view s (.ok ())
    { view s with target := (view s).target.insert n m }
  delete : ∀ s n, (view s).target.contains n = true → (i.comparer.target.delete n).Yields view s
    (.ok ()) { view s with target := (view s).target.erase n }
  installed : ∀ l, i.lifecycle = some l → ∀ s,
    l.installed.Yields view s (.ok (view s).installed) (view s)
  info : ∀ l, i.lifecycle = some l → ∀ s e, (l.info e).Yields view s (.ok (known e)) (view s)
  install : ∀ l, i.lifecycle = some l → ∀ s e, (known e).isSome →
    (l.install e.kind [e.name]).Yields view s (.ok ())
      { view s with installed := Lifecycle.insertExtension e (view s).installed }
  uninstall : ∀ l, i.lifecycle = some l → ∀ s e, e ∈ (view s).installed →
    (l.uninstall e.kind [e.name]).Yields view s (.ok ())
      { view s with installed := (view s).installed.filter (· != e) }
  acquire : ∀ s, (i.lock.acquire i.lockKey).Yields view s (.ok !(view s).locked)
    { view s with locked := true }
  release : ∀ s, view (i.lock.release i.lockKey s).2 = { view s with locked := false }
  journal : ∀ journal, i.journal = some journal → ∀ e s, view (journal e s).2 = view s

/-- **The surroundings can be looked at**: reading the storages, asking the lifecycle and
trying the lock are seen as what they should be. Nothing is said of writing, deleting,
installing and uninstalling, which may fail. -/
structure Observes (i : Importer σ) (view : σ → Scene)
    (known : Extension → Option ExtensionInfo) : Prop where
  listSource : ∀ s, (i.comparer.source.list "").Yields view s (.ok (view s).source.keys) (view s)
  readSource : ∀ s names, (i.comparer.source.readMany names).Yields view s
    (.ok (Storage.documentsOf (view s).source names)) (view s)
  listTarget : ∀ s, (i.comparer.target.list "").Yields view s (.ok (view s).target.keys) (view s)
  readTarget : ∀ s names, (i.comparer.target.readMany names).Yields view s
    (.ok (Storage.documentsOf (view s).target names)) (view s)
  installed : ∀ l, i.lifecycle = some l → ∀ s,
    l.installed.Yields view s (.ok (view s).installed) (view s)
  info : ∀ l, i.lifecycle = some l → ∀ s e, (l.info e).Yields view s (.ok (known e)) (view s)
  acquire : ∀ s, (i.lock.acquire i.lockKey).Yields view s (.ok !(view s).locked)
    { view s with locked := true }
  release : ∀ s, view (i.lock.release i.lockKey s).2 = { view s with locked := false }
  journal : ∀ journal, i.journal = some journal → ∀ e s, view (journal e s).2 = view s

/-- **Changes are tried on what can be seen.** If changes may fail then one that fails may
have been made or not, and a document whose writing or deleting has failed may be anything;
nothing else changes. -/
structure Tries (i : Importer σ) (view : σ → Scene) (known : Extension → Option ExtensionInfo)
    (fallible : Prop) : Prop where
  write : ∀ s n m, validateName n = .ok () → (i.comparer.target.write n m).Ends view s
    (Scene.Tried fallible { view s with target := (view s).target.insert n m }
      (Scene.EqualBut [n] (view s)))
  delete : ∀ s n, (view s).target.contains n = true → (i.comparer.target.delete n).Ends view s
    (Scene.Tried fallible { view s with target := (view s).target.erase n }
      (Scene.EqualBut [n] (view s)))
  install : ∀ l, i.lifecycle = some l → ∀ s e, (known e).isSome →
    (l.install e.kind [e.name]).Ends view s
      (Scene.Tried fallible
        { view s with installed := Lifecycle.insertExtension e (view s).installed } fun w =>
          w = view s ∨
            w = { view s with installed := Lifecycle.insertExtension e (view s).installed })
  uninstall : ∀ l, i.lifecycle = some l → ∀ s e, e ∈ (view s).installed →
    (l.uninstall e.kind [e.name]).Ends view s
      (Scene.Tried fallible
        { view s with installed := (view s).installed.filter (· != e) } fun w =>
          w = view s ∨ w = { view s with installed := (view s).installed.filter (· != e) })

/-- Where the surroundings behave, no change fails. -/
theorem Sees.tries (h : i.Sees view known) : i.Tries view known False where
  write s n m hn := (h.write s n m hn).ends rfl
  delete s n hn := (h.delete s n hn).ends rfl
  install l hl s e he := (h.install l hl s e he).ends rfl
  uninstall l hl s e he := (h.uninstall l hl s e he).ends rfl

theorem Sees.observes (h : i.Sees view known) : i.Observes view known :=
  ⟨h.listSource, h.readSource, h.listTarget, h.readTarget, h.installed, h.info, h.acquire,
    h.release, h.journal⟩

/-- **What is proposed in a scene.** -/
def proposal (i : Importer σ) (known : Extension → Option ExtensionInfo) (v : Scene) : Proposal where
  source := Storage.snapshot i.comparer.transforms v.source
  target := Storage.snapshot [] v.target
  installed := v.installed
  catalog := i.lifecycle.map fun _ => known
  schemas := i.schemas

theorem wellFormed_proposal (hv : Extension.Sorted v.installed) :
    (i.proposal known v).WellFormed :=
  ⟨Storage.named_snapshot _ _, Storage.named_snapshot _ _, hv⟩

/-! ### Looking -/

section Holds

variable {τ : Type} {seen : σ → τ} {w : τ} {source target : Storage.Documents}

/-- **The storages of an importer hold some documents**: as long as the state is seen as it is,
all of them can be read, and reading them is not seen. -/
structure Holds (i : Importer σ) (seen : σ → τ) (w : τ) (source target : Storage.Documents) :
    Prop where
  listSource : ∀ s, seen s = w → (i.comparer.source.list "").Yields seen s (.ok source.keys) w
  readSource : ∀ s, seen s = w → (i.comparer.source.readMany source.keys).Yields seen s
    (.ok (Storage.documentsOf source source.keys)) w
  listTarget : ∀ s, seen s = w → (i.comparer.target.list "").Yields seen s (.ok target.keys) w
  readTarget : ∀ s, seen s = w → (i.comparer.target.readMany target.keys).Yields seen s
    (.ok (Storage.documentsOf target target.keys)) w

/-- The comparison of what two storages hold. -/
def compared (i : Importer σ) (source target : Storage.Documents) : Comparison :=
  .between (Storage.snapshot i.comparer.transforms source) (Storage.snapshot [] target)

theorem Holds.load_source (h : i.Holds seen w source target) (hs : seen s = w) :
    i.comparer.loadSource.Yields seen s (.ok (Storage.snapshot i.comparer.transforms source)) w :=
  Snapshot.yields_load _ h.listSource h.readSource hs

theorem Holds.load_target (h : i.Holds seen w source target) (hs : seen s = w) :
    i.comparer.loadTarget.Yields seen s (.ok (Storage.snapshot [] target)) w :=
  Snapshot.yields_load _ h.listTarget h.readTarget hs

theorem Holds.refresh (h : i.Holds seen w source target) (hs : seen s = w) (c : Comparison) :
    i.comparer.refresh.Yields (Attempt.beside seen) (c, s) (.ok ())
      (i.compared source target, w) :=
  Comparer.yields_refresh (fun _ hs => h.load_source hs) (fun _ hs => h.load_target hs) hs c

/-- **A comparison is stale** when one of the storages holds something else than was seen. -/
theorem Holds.isStale (h : i.Holds seen w source target) (hs : seen s = w) {c : Comparison}
    (hc : c.calculated = true) :
    (i.comparer.isStale c).Yields seen s
      (.ok !((Storage.snapshot i.comparer.transforms source).same c.source &&
        (Storage.snapshot [] target).same c.target)) w := by
  unfold Comparer.isStale
  rw [if_neg (by simp [hc])]
  refine (h.load_source hs).bind fun s₁ h₁ => ?_
  rcases (Storage.snapshot i.comparer.transforms source).same c.source with _ | _
  · exact Attempt.yields_pure true h₁
  · exact (h.load_target h₁).bind fun s₂ h₂ => Attempt.yields_pure _ h₂

end Holds

theorem Observes.holds (h : i.Observes view known) (v : Scene) : i.Holds view v v.source v.target where
  listSource := by
    rintro s rfl
    exact h.listSource s
  readSource := by
    rintro s rfl
    exact h.readSource s _
  listTarget := by
    rintro s rfl
    exact h.listTarget s
  readTarget := by
    rintro s rfl
    exact h.readTarget s _

/-- The comparison of what is in a scene. -/
def comparisonOf (i : Importer σ) (known : Extension → Option ExtensionInfo) (v : Scene) :
    Comparison :=
  .between (i.proposal known v).source (i.proposal known v).target

theorem Observes.refresh (h : i.Observes view known) (hs : view s = v) (c : Comparison) :
    i.comparer.refresh.Yields (Attempt.beside view) (c, s) (.ok ()) (i.comparisonOf known v, v) :=
  (h.holds v).refresh hs c

theorem sameDocuments_self (l : List (String × Document)) :
    Snapshot.sameDocuments l l = true := by
  induction l with
  | nil => rfl
  | cons e l ih =>
    obtain ⟨n, d⟩ := e
    rw [Snapshot.sameDocuments, ih, Document.same, d.sameContent_self]
    simp

/-- What has just been seen is not stale. -/
theorem Observes.isStale (h : i.Observes view known) (hs : view s = v) :
    (i.comparer.isStale (i.comparisonOf known v)).Yields view s (.ok false) v := by
  have hsame : ∀ a : Snapshot, a.same a = true := fun a => sameDocuments_self a.entries
  have hstale := (h.holds v).isStale hs (c := i.comparisonOf known v) rfl
  rwa [show i.comparisonOf known v = i.compared v.source v.target from rfl, compared,
    Comparison.between, hsame, hsame] at hstale

end Importer

end SiteConfig
